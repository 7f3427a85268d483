import Mathlib.Data.List.Induction
import IrcHub.Proofs.OpFlow.Answers

/-!
# `IrcHub.Proofs.OpFlow.Runs`: no request leaks along a run

`opStep_inv` is the step lemma: a step that meets `OpStepOk` keeps the invariant. `opKept_run` is
the run lemma. Along every run whose steps meet `OpStepOk`, every recorded request still has its
request or its answer on the way, no record is past its time, and a failure is told to the
connection that made the request.

`opKept_pair` carries one request through all of it on two linked hubs: the bot asks, the hub of
the target grants, the bot that asked goes away, and the grant frees the slot.
`not_opKept_nowhere` has the runs that fail: a target that is connected nowhere, a target whose
lane is full, and a failure that reaches another bot on the descriptor of the request.
-/

set_option autoImplicit false

namespace IrcHub.Proofs

open IrcHub.Hub
open Str

variable {legs : Str → Int} {m : OpMesh}

/-- What a frame may take on its links: `legs id` for the request, the rest of the time to live
for the answer. -/
def LegsOk (legs : Str → Int) : Prop := ∀ id, 0 ≤ legs id ∧ legs id ≤ opForwardTtlSeconds

/-- One step. -/
theorem opStep_inv (hlegs : LegsOk legs) (h : OpInv legs m) {e : OpEvent}
    (hok : OpStepOk legs m e) :
    OpInv legs (opStep m e) := by
  cases e with
  | request x fd payload random => exact request_inv (fun id => (hlegs id).1) h hok
  | deliver x y => exact deliver_inv (fun id => (hlegs id).2) h hok
  | connect x fd typ id => exact connect_inv h hok
  | close x fd => exact close_inv h hok
  | lane x fd full => exact lane_inv h hok
  | linkDown a b => exact linkDown_inv h hok
  | clock x now => exact clock_inv h hok
  | learn x roster hostmask linkReport => exact learn_inv h hok

/-- A mesh before any request: no slot in use, nothing on the links, no history. The hubs may have
connections, and may know what they know. -/
structure OpFresh (m : OpMesh) : Prop where
  slots : ∀ x, ∀ p ∈ (m.hub x).pendingOpRequests, p.active = false
  conns : ∀ x, ConnsOk (m.hub x)
  made : m.made = []
  told : m.told = []

/-- Before any request there is nothing to answer. -/
theorem OpFresh.inv (h : OpFresh m) : OpInv legs m := by
  have hnone : ∀ x p, ¬ Waits m x p := by
    intro x p hp
    cases (h.slots x p hp.1).symm.trans hp.2
  refine ⟨fun x p hp => absurd hp (hnone x p), fun x p _ hp => absurd hp (hnone x p),
    fun x p hp => absurd hp (hnone x p), ?_, h.conns, ?_, ?_⟩
  · intro x y i j p q hp _ hpa
    exact absurd ⟨List.mem_of_getElem? hp, hpa⟩ (hnone x p)
  · rw [h.made]
    exact fun t ht => absurd ht List.not_mem_nil
  · rw [h.told]
    exact fun t ht => absurd ht List.not_mem_nil

/-- Along every run whose steps meet the condition, every record is on the way and in time, a hub
with nothing on its links has every slot free, and failures are told to the connection that asked.
`legs` is any split of the time to live between a request and its answer. -/
theorem opKept_run (legs : Str → Int) (hlegs : LegsOk legs) (m : OpMesh) (hm : OpFresh m)
    (evs : List OpEvent) (hok : ∀ pre e, pre ++ [e] <+: evs → OpStepOk legs (opRun m pre) e) :
    ∀ pre, pre <+: evs → OpKept (opRun m pre) := by
  suffices hinv : ∀ pre, pre <+: evs → OpInv legs (opRun m pre) from
    fun pre hpre => (hinv pre hpre).kept fun id => (hlegs id).2
  intro pre
  induction pre using List.reverseRecOn with
  | nil => exact fun _ => hm.inv
  | append_singleton pre e ih =>
    intro hpre
    have hrun : opRun m (pre ++ [e]) = opStep (opRun m pre) e := by
      rw [opRun, opRun, List.foldl_append, List.foldl_cons, List.foldl_nil]
    rw [hrun]
    exact opStep_inv hlegs (ih ((List.prefix_append pre [e]).trans hpre)) (hok pre e hpre)

/-- The hubs whose state a step changes. -/
def eventHubs : OpEvent → List Str
  | .request x _ _ _ | .connect x _ _ _ | .close x _ | .lane x _ _ | .learn x _ _ _ => [x]
  | .deliver _ y => [y]
  | .linkDown a b => [a, b]
  | .clock _ _ => []

/-- Every other hub stays as it is. The runs below use it for the hubs that are in neither of
them. -/
theorem opStep_hub_of_notMem {e : OpEvent} {y : Str} (hy : y ∉ eventHubs e) :
    (opStep m e).hub y = m.hub y := by
  have hset : ∀ (u : OpMesh) (x : Str) (h : OpHub), y ≠ x → (u.setHub x h).hub y = u.hub y :=
    fun u x h hne => if_neg hne
  cases e with
  | request x fd payload random =>
    have hne : y ≠ x := fun heq => hy (List.mem_singleton.mpr heq)
    simp only [opStep]
    split
    · rfl
    · split
      · exact hset m x _ hne
      · rfl
  | deliver x z =>
    have hne : y ≠ z := fun heq => hy (List.mem_singleton.mpr heq)
    simp only [opStep]
    split
    · rfl
    · unfold opArrive
      split
      · rfl
      · unfold opReceive
        split <;> exact hset _ z _ hne
  | connect x fd typ id =>
    have hne : y ≠ x := fun heq => hy (List.mem_singleton.mpr heq)
    simp only [opStep]
    split
    · rfl
    · exact hset m x _ hne
  | close x fd => exact hset m x _ fun heq => hy (List.mem_singleton.mpr heq)
  | lane x fd full => exact hset m x _ fun heq => hy (List.mem_singleton.mpr heq)
  | learn x roster hostmask linkReport =>
    exact hset m x _ fun heq => hy (List.mem_singleton.mpr heq)
  | clock x now => rfl
  | linkDown a b =>
    have ha : y ≠ a := fun heq => hy (by rw [heq]; exact List.mem_cons_self)
    have hb : y ≠ b :=
      fun heq => hy (by rw [heq]; exact List.mem_cons_of_mem _ List.mem_cons_self)
    simp only [opStep, hset _ b _ hb, hset _ a _ ha]

/-- Two linked hubs: a bot `b` on the first, and `bots` on the second. -/
def opPair (bots : List OpClient) : OpMesh where
  hub x :=
    if x = ['A'] then
      { clients := [{ fd := 5, connSerial := 1, typ := .bot, id := ['b'] },
          { fd := 6, connSerial := 2, typ := .hub, id := ['B'] }]
        nextConnSerial := 3
        hostmask := fun _ => "b!u@h".toList }
    else if x = ['B'] then
      { clients := { fd := 4, connSerial := 1, typ := .hub, id := ['A'] } :: bots
        nextConnSerial := 3 }
    else {}
  clock _ := 1000

/-- The target on the second hub. -/
def opTarget (full : Bool) : OpClient :=
  { fd := 5, connSerial := 2, typ := .bot, laneFull := full, id := ['t'] }

/-- The hubs of the examples have just started. Their descriptors and serials must be distinct. -/
private theorem opPair_fresh (bots : List OpClient)
    (hfds : ((4 :: bots.map (·.fd)) : List Nat).Nodup) (hserials : ∀ c ∈ bots, c.connSerial < 3) :
    OpFresh (opPair bots) := by
  have hslots : ∀ p ∈ List.replicate maxPendingOpRequests ({} : PendingOpRequest),
      p.active = false := by
    intro p hp
    rw [List.eq_of_mem_replicate hp]
  refine ⟨fun x => ?_, fun x => ?_, rfl, rfl⟩
  · simp only [opPair]
    split
    · exact hslots
    · split <;> exact hslots
  · simp only [opPair]
    split
    · exact ⟨by decide, by decide⟩
    · split
      · refine ⟨hfds, fun c hc => ?_⟩
        rcases List.mem_cons.mp hc with rfl | hc
        · show 1 < 3
          decide
        · exact hserials c hc
      · exact ⟨by decide, by decide⟩

/-- The request as the second hub reads it. -/
def opPairAsk : OpForward where
  id := "00000000-0000-0000".toList
  requester := ['b']
  target := ['t']
  channel := "#c".toList
  hostmask := "b!u@h".toList
  originTs := 1000
  flooded := true

/-- The request, the hub of the target, the bot that asked going away, and the answer. -/
def opPairRun : List OpEvent :=
  [.request ['A'] 5 "t|#c".toList (fun _ => 0), .deliver ['A'] ['B'], .close ['A'] 5,
    .deliver ['B'] ['A']]

/-- The mesh after some of these steps. -/
def opPairAfter (n : Nat) : OpMesh := opRun (opPair [opTarget false]) (opPairRun.take n)

/-- No step of the run reaches another hub. -/
private theorem opPairAfter_hub (n : Nat) {x : Str} (hA : x ≠ ['A']) (hB : x ≠ ['B']) :
    (opPairAfter n).hub x = {} := by
  have hstart : (opPair [opTarget false]).hub x = {} := by
    show (if x = ['A'] then _ else if x = ['B'] then _ else _) = _
    rw [if_neg hA, if_neg hB]
  have hrun : ∀ (evs : List OpEvent) (m : OpMesh), (∀ e ∈ evs, x ∉ eventHubs e) →
      (opRun m evs).hub x = m.hub x := by
    intro evs
    induction evs with
    | nil => exact fun _ _ => rfl
    | cons e evs ih =>
      intro m hevs
      show (opRun (opStep m e) evs).hub x = _
      rw [ih _ fun e' he' => hevs e' (List.mem_cons_of_mem _ he'),
        opStep_hub_of_notMem (hevs e List.mem_cons_self)]
  refine (hrun _ _ fun e he => ?_).trans hstart
  have he' : e ∈ opPairRun := List.mem_of_mem_take he
  simp only [opPairRun, List.mem_cons, List.not_mem_nil, or_false] at he'
  rcases he' with rfl | rfl | rfl | rfl <;> simp [eventHubs, hA, hB]

/-- A way of a request is on the link between the two hubs, since no other hub has a link. -/
private theorem opPairAfter_way {n : Nat} {x : Str} {p : PendingOpRequest} {w : OpWay}
    (hlink : (peerClient ((opPairAfter n).hub ['A']) ['A']).isSome = false
      ∧ (peerClient ((opPairAfter n).hub ['B']) ['B']).isSome = false)
    (hw : IsWay (fun _ => 30) (opPairAfter n) x p w) (hpeer : w.peer = ['A'] ∨ w.peer = ['B']) :
    (x = ['A'] ∧ w.peer = ['B']) ∨ (x = ['B'] ∧ w.peer = ['A']) := by
  have hlinked : (peerClient ((opPairAfter n).hub x) w.peer).isSome := by
    cases w with
    | going k s f => exact hw.1
    | coming k s => exact hw.1
  by_cases hA : x = ['A']
  · refine .inl ⟨hA, hpeer.resolve_left fun hk => ?_⟩
    rw [hA, hk, hlink.1] at hlinked
    exact absurd hlinked Bool.false_ne_true
  · by_cases hB : x = ['B']
    · refine .inr ⟨hB, hpeer.resolve_right fun hk => ?_⟩
      rw [hB, hk, hlink.2] at hlinked
      exact absurd hlinked Bool.false_ne_true
    · rw [opPairAfter_hub n hA hB] at hlinked
      exact absurd hlinked Bool.false_ne_true

/-- The steps of the run break no way: each of them is looked at in the state before it. -/
private theorem opPairRun_ok (n : Nat) (e : OpEvent) (he : opPairRun[n]? = some e) :
    OpStepOk (fun _ => 30) (opPairAfter n) e := by
  have htakes : Takes (opPair [opTarget false]) ['A'] ['B'] opPairAsk :=
    ⟨by decide, ⟨opTarget false, by decide, rfl⟩, by decide, by decide, by decide⟩
  match n, he with
  -- the first step: the bot asks, and the other hub can take the request
  | 0, he =>
    cases he
    refine ⟨fun c target channel hc hrec => ?_, fun x p w _ _ hbreaks => hbreaks.elim⟩
    have hbot : clientByFd ((opPair [opTarget false]).hub ['A']) 5
        = some { fd := 5, connSerial := 1, typ := .bot, id := ['b'] } := by decide
    have hread : readOpRequest "t|#c".toList = some (['t'], "#c".toList) := by decide
    cases hbot.symm.trans hc
    cases hread.symm.trans hrec.read
    have hfresh := opPair_fresh [opTarget false] (by decide) (by decide)
    exact ⟨fun y p hp => absurd hp.2 (by simp [hfresh.slots y p hp.1]),
      ['B'], by decide, by decide,
      opPairAsk, by decide, by decide, htakes⟩
  -- the second: the request arrives
  | 1, he =>
    cases he
    refine ⟨fun s payload rest p hwire hframe => ?_, fun x p w _ hw hbreaks => ?_⟩
    · have hhead : ((opPairAfter 1).wire ['A'] ['B']).map (fun s => match s.frame with
          | .failed _ => true
          | _ => false) = [false] := by decide
      rw [hwire, List.map_cons, hframe] at hhead
      cases hhead
    · -- the request comes from the hub that waits, and its hub still takes it
      cases w with
      | coming k s => exact hbreaks.elim
      | going k s f =>
        obtain ⟨rfl, s₀, payload, rest, f₀, hwire, hframe, hread, -, -, hnot⟩ := hbreaks
        obtain ⟨rfl, -⟩ | ⟨-, hk⟩ := opPairAfter_way (n := 1) ⟨by decide, by decide⟩ hw (.inr rfl)
        · refine absurd ⟨rfl, ?_⟩ hnot
          have hhead : ((opPairAfter 1).wire ['A'] ['B']).map (fun s => match s.frame with
              | .request payload => readOpForward payload
              | _ => none) = [some opPairAsk] := by decide
          rw [hwire, List.map_cons, hframe] at hhead
          simp only [hread, List.cons.injEq, Option.some.injEq] at hhead
          obtain ⟨rfl, -⟩ := hhead
          exact ⟨by decide, ⟨opTarget false, by decide, rfl⟩, by decide, by decide, by decide⟩
        · cases hk
  | 2, he =>
    cases he
    refine ⟨trivial, fun x p w _ hw hbreaks => ?_⟩
    -- the only frame to the hub that loses a connection is the grant
    cases w with
    | coming k s => exact hbreaks.elim
    | going k s f =>
      obtain ⟨rfl, -⟩ := hbreaks
      obtain ⟨-, hk⟩ | ⟨rfl, -⟩ := opPairAfter_way (n := 2) ⟨by decide, by decide⟩ hw (.inl rfl)
      · cases hk
      · obtain ⟨-, hs, ⟨payload, hframe, -⟩, -⟩ := hw
        have hall : ((opPairAfter 2).wire ['B'] ['A']).all (fun s => match s.frame with
            | .request _ => false
            | _ => true) = true := by decide
        have hno := List.all_eq_true.mp hall s hs
        rw [hframe] at hno
        cases hno
  -- the last: the grant arrives, and nobody is asked any more
  | 3, he =>
    cases he
    have hhead : ((opPairAfter 3).wire ['B'] ['A']).map (fun s => match s.frame with
        | .grant _ => true
        | _ => false) = [true] := by decide
    refine ⟨fun s payload rest p hwire hframe => ?_, fun x p w _ _ hbreaks => ?_⟩
    · rw [hwire, List.map_cons, hframe] at hhead
      cases hhead
    · cases w with
      | coming k s => exact hbreaks.elim
      | going k s f =>
        obtain ⟨-, s₀, payload, rest, f₀, hwire, hframe, -⟩ := hbreaks
        rw [hwire, List.map_cons, hframe] at hhead
        cases hhead
  | n + 4, he => cases he

/-- The bot of one hub asks for the bot of the other and goes away while it waits. The grant comes
back and frees the slot. -/
theorem opKept_pair :
    (∃ p, Waits (opPairAfter 3) ['A'] p) ∧
      ((opPairAfter 4).hub ['A']).pendingOpRequests.all (fun p => !p.active) = true ∧
      ∀ pre, pre <+: opPairRun → OpKept (opRun (opPair [opTarget false]) pre) := by
  have hlegs : LegsOk fun _ => 30 := fun _ => (by decide : (0 : Int) ≤ 30 ∧ (30 : Int) ≤ 60)
  refine ⟨?_, by decide +kernel, opKept_run (fun _ => 30) hlegs _
    (opPair_fresh _ (by decide) (by decide)) _ fun pre e hpre => ?_⟩
  · have hslot : ((opPairAfter 3).hub ['A']).pendingOpRequests[0]?.map (·.active)
      = some true := by
      decide
    obtain ⟨p, hp, hact⟩ := Option.map_eq_some_iff.mp hslot
    exact ⟨p, List.mem_of_getElem? hp, hact⟩
  · obtain ⟨rest, hrest⟩ := hpre
    have htake : pre = opPairRun.take pre.length := by
      rw [← hrest, List.append_assoc, List.take_left']
      rfl
    have hget : opPairRun[pre.length]? = some e := by
      rw [← hrest, List.append_assoc, List.getElem?_append_right (Nat.le_refl _), Nat.sub_self]
      rfl
    rw [htake]
    exact opPairRun_ok pre.length e hget

/-- The slot of the first hub a minute after it asked, when nobody answers. -/
def stillWaits (bots : List OpClient) : OpMesh :=
  opRun (opPair bots) [.request ['A'] 5 "t|#c".toList (fun _ => 0), .deliver ['A'] ['B'],
    .clock ['A'] 1061]

/-- A slot that still waits after the sixty seconds breaks what is promised. -/
private theorem stillWaits_not_kept (bots : List OpClient)
    (hslot : ((stillWaits bots).hub ['A']).pendingOpRequests[0]?.map
      (fun p => (p.active, p.timestamp)) = some (true, 1000))
    (hclock : (stillWaits bots).clock ['A'] = 1061) : ¬ OpKept (stillWaits bots) := by
  intro h
  obtain ⟨p, hp, hpair⟩ := Option.map_eq_some_iff.mp hslot
  obtain ⟨hact, htime⟩ := Prod.mk.inj hpair
  have := h.young ['A'] p ⟨List.mem_of_getElem? hp, hact⟩
  rw [hclock, htime] at this
  exact absurd this (by decide)

/-- The bot of one hub asks for a bot that is connected nowhere, or for one whose lane is full. A
minute later the slot is still taken. -/
theorem not_opKept_nowhere :
    (OpFresh (opPair []) ∧ ¬ OpKept (opRun (opPair [])
        [.request ['A'] 5 "t|#c".toList (fun _ => 0), .deliver ['A'] ['B'], .clock ['A'] 1061])) ∧
      OpFresh (opPair [opTarget true]) ∧ ¬ OpKept (opRun (opPair [opTarget true])
        [.request ['A'] 5 "t|#c".toList (fun _ => 0), .deliver ['A'] ['B'], .clock ['A'] 1061]) :=
  ⟨⟨opPair_fresh [] (by decide) (by decide), stillWaits_not_kept [] (by decide) (by decide)⟩,
    opPair_fresh [opTarget true] (by decide) (by decide),
    stillWaits_not_kept [opTarget true] (by decide) (by decide)⟩

end IrcHub.Proofs
