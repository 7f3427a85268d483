import IrcHub.Hub.Flood
import IrcHub.Hub.State
import IrcHub.Lib.Flood

/-!
# `IrcHub.Proofs.Flood`: a record reaches every hub

A record reaches every hub. The frames of a record spread over the mesh as the copies of a flood
do: a hub that accepts the record serves every peer but the sender and, for a broadcast, the peers
the sender is linked to. So no hub is left out, and no link carries the record twice.

- `Meshed`: a graph of hubs of a current version whose link reports are exact
- `sends_spec`: whom a hub sends a record to
- `spread`: the state of the mesh as the spread of one message over a graph
- `Spread.announce`, `Spread.deliver_step`: the announcement is the start of the flood, and one
  frame that arrives is a step of it
- `Spread.eventually_quiet`: a schedule that goes on reading comes to a point from which no frame
  waits
- `flood_covers`: what holds in every state of every run, and where every run ends

The rule of acceptance is arbitrary, but for two things: the record is newer than what the other
hubs held (`hwin`), and a record that is stored is not accepted again (`hirr`). The second is what
ends the flood.

Links and reports do not change while the record spreads. A report that is stale, or a hub of an
older version among the peers, is outside `Meshed`; what a hub missed then comes with the next
full sync.
-/

set_option autoImplicit false

namespace IrcHub.Proofs

open Hub Str
open String (utf8Len)

variable {ρ : Type} {linked : Str → Str → Prop} {x y z : Str} {h : FloodHub ρ} {payload : Str}

/-- The peers a hub is linked to. -/
def linkUuids (h : FloodHub ρ) : List Str := h.peerClients.map fun c => h.peerUuidOf c.fd

/-- A hub whose links are those of the graph, to current peers, and whose reports are exact. -/
structure HubMeshed (linked : Str → Str → Prop) (x : Str) (h : FloodHub ρ) : Prop where
  fds : ∀ c ∈ h.peerClients, 0 ≤ c.fd
  distinct : (linkUuids h).Nodup
  links : ∀ y, linked x y ↔ y ∈ linkUuids h
  current : ∀ c ∈ h.peerClients, peerVersionLevel h c.fd = 2
  exact : ∀ rep ∈ h.meshHubs, ∀ z, (z, true) ∈ rep.links ↔ linked rep.uuid z

/-! ### Whom a hub sends to -/

/-- A hub sends a record to no peer twice, to peers only, and leaves out a peer only for a
reason. -/
structure Serves (linked : Str → Str → Prop) (x excluded : Str) (split : Bool)
    (out : List (Str × Bool)) : Prop where
  distinct : (out.map (·.1)).Nodup
  toPeer : ∀ z ∈ out.map (·.1), linked x z
  served : ∀ z, linked x z → z ∈ out.map (·.1) ∨ z = excluded ∨ (split = true ∧ linked excluded z)

/-- What a flood leaves out, step by step: the link it came over is one of ours, the hub at its
other end has a uuid, and it is that hub's report that counts. -/
theorem splitHorizonOf_eq_some {γ : Type} {cs : List γ} {sent : γ → Bool} {uuidOf : γ → Str}
    {linksOf : Str → Option (List Str)} {names : List Str} :
    splitHorizonOf cs sent uuidOf linksOf = some names ↔
      ∃ c, cs.find? sent = some c ∧ uuidOf c ≠ [] ∧ linksOf (uuidOf c) = some names := by
  unfold splitHorizonOf
  simp only [Option.bind_eq_some_iff, Option.filter_eq_some_iff, Option.map_eq_some_iff]
  constructor
  · rintro ⟨u, ⟨⟨c, hc, rfl⟩, hne⟩, hrep⟩
    exact ⟨c, hc, by simpa using hne, hrep⟩
  · rintro ⟨c, hc, hne, hrep⟩
    exact ⟨uuidOf c, ⟨⟨c, hc, rfl⟩, by simpa using hne⟩, hrep⟩

/-- The peers a report names are those its hub is linked to: the report is exact, and it is the
sender's. -/
theorem linked_of_splitHorizon (hh : HubMeshed linked x h) {now fd : Int} {links : List Str}
    (hlinks : h.splitHorizonLinks now fd = some links) (hz : z ∈ links) :
    linked (h.peerUuidOf fd) z := by
  obtain ⟨c, hc, -, hreport⟩ := splitHorizonOf_eq_some.mp hlinks
  have hfd : c.fd = fd :=
    of_decide_eq_true (List.find?_some (p := fun c : FloodClient => decide (c.fd = fd)) hc)
  obtain ⟨rep, hrep, rfl⟩ := Option.map_eq_some_iff.mp hreport
  obtain ⟨l, hl, rfl⟩ := List.mem_map.mp hz
  obtain ⟨hmem, hup⟩ := List.mem_filter.mp hl
  have huuid := List.find?_some hrep
  simp only [Bool.and_eq_true, beq_iff_eq] at huuid
  have hlink := (hh.exact rep (List.mem_of_find?_eq_some hrep) l.1).mp (by
    have hpair : (l.1, true) = l := by rw [← hup]
    rw [hpair]
    exact hmem)
  rw [huuid.1.1, hfd] at hlink
  exact hlink

/-- Whom a hub sends a record to: its peers, each once, but for the sender and those the sender is
linked to. `hlen` says that the payload fits, since one that does not goes to nobody. -/
theorem sends_spec (hh : HubMeshed linked x h) (hlen : utf8Len payload ≤ maxSyncPayload - 10)
    (now fd : Int) (split : Bool) :
    Serves linked x (h.peerUuidOf fd) split (syncSendToPeers now h payload fd split) := by
  unfold syncSendToPeers
  rw [if_neg (Nat.not_lt.mpr hlen)]
  simp only
  refine ⟨?_, ?_, ?_⟩
  · rw [List.map_map]
    exact hh.distinct.sublist (List.filter_sublist.map _)
  · intro z hz
    rw [List.map_map] at hz
    obtain ⟨c, hc, rfl⟩ := List.mem_map.mp hz
    exact (hh.links _).mpr (List.mem_map.mpr ⟨c, (List.mem_filter.mp hc).1, rfl⟩)
  · intro z hz
    obtain ⟨c, hc, rfl⟩ := List.mem_map.mp ((hh.links z).mp hz)
    by_cases hfd : c.fd = fd
    · exact .inr (.inl (by rw [hfd]))
    by_cases hskip : (if split then h.splitHorizonLinks now fd else none).any (fun links =>
        !(h.peerUuidOf c.fd).isEmpty && links.contains (h.peerUuidOf c.fd)) = true
    · -- the sender says it is linked to this peer
      cases split with
      | false => cases hskip
      | true =>
        obtain ⟨links, hlinks, hmem⟩ := (Option.any_eq_true _ _).mp hskip
        rw [Bool.and_eq_true] at hmem
        exact .inr (.inr ⟨rfl,
          linked_of_splitHorizon hh hlinks (List.contains_iff_mem.mp hmem.2)⟩)
    · refine .inl ?_
      rw [List.map_map]
      refine List.mem_map.mpr ⟨c, List.mem_filter.mpr ⟨hc, ?_⟩, rfl⟩
      rw [Bool.not_eq_true] at hskip
      simp only [hskip, hfd, hh.current c hc, ne_eq, not_false_eq_true, decide_true,
        Bool.not_false, Bool.and_self]

/-! ### The mesh -/

/-- A connected mesh before the record: links go both ways, nothing is on its way. -/
structure Meshed (linked : Str → Str → Prop) (hubs : List Str) (origin : Str)
    (m : FloodMesh ρ) : Prop where
  symm : ∀ x y, linked x y → linked y x
  ends : ∀ x y, linked x y → x ∈ hubs
  hub : ∀ x ∈ hubs, HubMeshed linked x (m.hub x)
  here : origin ∈ hubs
  connected : ∀ x ∈ hubs, Relation.ReflTransGen linked origin x
  quiet : ∀ x y, m.wire x y = [] ∧ m.sent x y = 0 ∧ m.arrived x y = 0

/-- The spread of a record over the hubs of a mesh. -/
def spread (hubs : List Str) (r : ρ) (m : FloodMesh ρ) : Flood.State Str where
  holds x := x ∈ hubs ∧ (m.hub x).held = r
  queue x y := (m.wire x y).length
  sent := m.sent
  arrived := m.arrived

/-- What every run of a mesh keeps. -/
structure Spread (linked : Str → Str → Prop) (hubs : List Str) (origin : Str) (r : ρ)
    (m₀ m : FloodMesh ρ) :
    Prop where
  flood : Flood.Inv linked origin (spread hubs r m)
  hub : ∀ x ∈ hubs, HubMeshed linked x (m.hub x)
  /-- A hub holds what it held before, or the record. -/
  held : ∀ x, (m.hub x).held = r ∨ (m.hub x).held = (m₀.hub x).held

variable {hubs : List Str} {origin : Str} {r : ρ} {m m₀ : FloodMesh ρ}
  {accepts : Int → ρ → ρ → Bool}

/-- Storing the record changes no link. -/
theorem HubMeshed.store (hh : HubMeshed linked y (m.hub y)) (x : Str) :
    HubMeshed linked y ((m.store x r).hub y) := by
  by_cases hyx : y = x
  · subst hyx
    show HubMeshed linked y (if y = y then { m.hub y with held := r } else m.hub y)
    rw [if_pos rfl]
    exact ⟨hh.fds, hh.distinct, hh.links, hh.current, hh.exact⟩
  · show HubMeshed linked y (if y = x then { m.hub x with held := r } else m.hub y)
    rwa [if_neg hyx]

/-- What the hubs hold once one of them has stored a record. -/
theorem store_held (m : FloodMesh ρ) (x y : Str) (r : ρ) :
    ((m.store x r).hub y).held = if y = x then r else (m.hub y).held := by
  show FloodHub.held (if y = x then { m.hub x with held := r } else m.hub y) = _
  split <;> rfl

/-- Of distinct peers one frame at most goes to each. -/
theorem length_filter_peer {out : List (Str × Bool)}
    (hdistinct : (out.map (·.1)).Nodup) (b : Str) :
    (out.filter (·.1 == b)).length = if b ∈ out.map (·.1) then 1 else 0 := by
  induction out with
  | nil => rfl
  | cons p out ih =>
    rw [List.map_cons, List.nodup_cons] at hdistinct
    rw [List.filter_cons, List.map_cons]
    by_cases hp : p.1 = b
    · have hnone : b ∉ out.map (·.1) := hp ▸ hdistinct.1
      rw [if_pos (by rw [hp]; exact beq_self_eq_true b), List.length_cons, ih hdistinct.2,
        if_neg hnone, if_pos (by rw [hp]; exact List.mem_cons_self)]
    · rw [if_neg (by rwa [beq_iff_eq]), ih hdistinct.2]
      have hmem : b ∈ p.1 :: out.map (·.1) ↔ b ∈ out.map (·.1) := by
        rw [List.mem_cons]
        exact ⟨fun hb => hb.resolve_left fun he => hp he.symm, .inr⟩
      simp only [hmem]

/-- Frames put on links are copies sent. -/
theorem spread_post {out : List (Str × Bool)} (hdistinct : (out.map (·.1)).Nodup) (x : Str) :
    spread hubs r (m.post x out)
      = (spread hubs r m).send x fun z => decide (z ∈ out.map (·.1)) := by
  have hcount : ∀ a b n, (if a = x then n + (out.filter (·.1 == b)).length else n)
      = n + if a = x ∧ decide (b ∈ out.map (·.1)) = true then 1 else 0 := by
    intro a b n
    rw [length_filter_peer hdistinct]
    by_cases ha : a = x
    · simp only [ha, if_true, true_and, decide_eq_true_eq]
    · simp only [ha, if_false, false_and, Nat.add_zero]
  unfold spread Flood.State.send FloodMesh.post
  congr 1
  · funext a b
    rw [← hcount a b]
    by_cases ha : a = x
    · simp only [ha, if_true, List.length_append, List.length_map]
    · simp only [ha, if_false]
  · funext a b
    exact hcount a b _

/-- A frame taken from a link is a copy that arrived. -/
theorem spread_pop (x y : Str) : spread hubs r (m.pop x y) = (spread hubs r m).pop x y := by
  unfold spread Flood.State.pop FloodMesh.pop
  congr 1
  · funext a b
    by_cases hab : a = x ∧ b = y
    · simp only [hab, and_self, if_true, List.length_tail]
    · simp only [hab, if_false, Nat.sub_zero]
  · funext a b
    by_cases hab : a = x ∧ b = y
    · simp only [hab, and_self, if_true]
    · simp only [hab, if_false, Nat.add_zero]

/-- A hub that stores the record holds it. -/
theorem spread_store (hy : y ∈ hubs) :
    spread hubs r (m.store y r) = (spread hubs r m).hold y := by
  unfold spread Flood.State.hold
  congr 1
  funext x
  rw [store_held]
  by_cases hxy : x = y
  · simp only [hxy, if_true, hy, and_self, or_true]
  · simp only [hxy, if_false, or_false]

/-! ### Runs -/

/-- The record is announced: one hub holds it, and a frame is on its way to each of its peers.
`hnew`: nobody else held it before. -/
theorem Spread.announce (hmesh : Meshed linked hubs origin m₀)
    (hlen : utf8Len payload ≤ maxSyncPayload - 10)
    (hnew : ∀ x ∈ hubs, x ≠ origin → (m₀.hub x).held ≠ r) (now : Int) :
    Spread linked hubs origin r m₀ (Hub.announce now r payload m₀ origin) := by
  have hmeshed := (hmesh.hub origin hmesh.here).store (r := r) origin
  have hserves := sends_spec hmeshed hlen now (-1) false
  -- no connection has the number that stands for none
  have hall : ∀ z, z
    ∈ (syncSendToPeers now ((m₀.store origin r).hub origin) payload (-1) false).map (·.1)
      ↔ linked origin z := by
    intro z
    refine ⟨hserves.toPeer z, fun hz => ?_⟩
    obtain ⟨c, hc, rfl⟩ := List.mem_map.mp ((hmeshed.links z).mp hz)
    have hfd : c.fd ≠ -1 := by
      have := hmeshed.fds c hc
      omega
    unfold syncSendToPeers
    rw [if_neg (Nat.not_lt.mpr hlen), List.map_map]
    refine List.mem_map.mpr ⟨c, List.mem_filter.mpr ⟨hc, ?_⟩, rfl⟩
    simp [hfd, hmeshed.current c hc]
  refine ⟨?_, fun x hx => (hmesh.hub x hx).store origin, ?_⟩
  · show Flood.Inv linked origin (spread hubs r ((m₀.store origin r).post origin _))
    rw [spread_post hserves.distinct]
    refine .start (fun z => ?_) (fun x => ?_) fun x y => ?_
    · rw [decide_eq_true_eq]
      exact hall z
    · show x ∈ hubs ∧ ((m₀.store origin r).hub x).held = r ↔ x = origin
      rw [store_held]
      constructor
      · rintro ⟨hx, hheld⟩
        by_contra hne
        rw [if_neg hne] at hheld
        exact hnew x hx hne hheld
      · rintro rfl
        exact ⟨hmesh.here, if_pos rfl⟩
    · obtain ⟨hwire, hsent, harrived⟩ := hmesh.quiet x y
      exact ⟨by show (m₀.wire x y).length = 0; rw [hwire]; rfl, hsent, harrived⟩
  · intro x
    show ((m₀.store origin r).hub x).held = r ∨ ((m₀.store origin r).hub x).held = _
    rw [store_held]
    split
    · exact .inl rfl
    · exact .inr rfl

/-- The link to a peer is found by its uuid. -/
theorem find_link (hx : x ∈ linkUuids h) :
    ∃ c, (h.peerClients.find? fun c => h.peerUuidOf c.fd == x) = some c
      ∧ h.peerUuidOf c.fd = x := by
  obtain ⟨c₀, hc₀, huuid₀⟩ := List.mem_map.mp hx
  have hsome : (h.peerClients.find? fun c => h.peerUuidOf c.fd == x).isSome = true := by
    rw [List.find?_isSome]
    exact ⟨c₀, hc₀, beq_iff_eq.mpr huuid₀⟩
  obtain ⟨c, hc⟩ := Option.isSome_iff_exists.mp hsome
  have huuid := List.find?_some hc
  exact ⟨c, hc, beq_iff_eq.mp huuid⟩

/-- Storing changes no link. -/
theorem peerUuidOf_store (m : FloodMesh ρ) (x y : Str) (r : ρ) (fd : Int) :
    ((m.store x r).hub y).peerUuidOf fd = (m.hub y).peerUuidOf fd := by
  show FloodHub.peerUuidOf (if y = x then { m.hub x with held := r } else m.hub y) fd = _
  split
  · rename_i hyx
    rw [hyx]
    rfl
  · rfl

/-- A frame of a linked, current peer. -/
theorem processFrame_of_find {c : FloodClient} {now : Int} {bcast : Bool}
    (hfind : ((m.hub y).peerClients.find? fun c => (m.hub y).peerUuidOf c.fd == x) = some c)
    (hcur : peerVersionLevel (m.hub y) c.fd = 2) :
    processFrame accepts now r payload m x y bcast =
      if accepts now r (m.hub y).held then
        (m.store y r).post y (syncSendToPeers now ((m.store y r).hub y) payload c.fd bcast)
      else m := by
  unfold processFrame
  rw [hfind]
  simp only [hcur, ne_eq, not_true_eq_false, if_false]

/-- One frame arrives: a step of the flood, and the mesh stays one. `hwaits`: there is a frame on
the link. `hirr`: a stored record is not accepted again. `hwin`: the record is newer than what the
other hubs held. -/
theorem Spread.deliver_step (h : Spread linked hubs origin r m₀ m)
    (hmesh : Meshed linked hubs origin m₀) (hlen : utf8Len payload ≤ maxSyncPayload - 10)
    (hirr : ∀ now, accepts now r r = false) {e : Arrival}
    (hwin : ∀ x ∈ hubs, x ≠ origin → accepts e.now r (m₀.hub x).held = true)
    (hwaits : m.wire e.sender e.receiver ≠ []) :
    Flood.Step linked (spread hubs r m) e.sender e.receiver
        (spread hubs r (Hub.deliver accepts r payload m e))
      ∧ Spread linked hubs origin r m₀ (Hub.deliver accepts r payload m e) := by
  obtain ⟨now, x, y⟩ := e
  unfold Hub.deliver
  obtain ⟨bcast, rest, hwire⟩ := List.exists_cons_of_ne_nil hwaits
  dsimp only at hwire ⊢
  rw [hwire]
  have hwaits : 0 < (spread hubs r m).queue x y := by
    show 0 < (m.wire x y).length
    rw [hwire]
    exact Nat.succ_pos _
  -- the link is one of the graph, so the receiver knows the sender
  have hlink : linked x y := h.flood.onLink x y (h.flood.sent_of_queue hwaits)
  have hy : y ∈ hubs := hmesh.ends y x (hmesh.symm x y hlink)
  have hhub := h.hub y hy
  obtain ⟨c, hfind, huuid⟩ := find_link (hhub.links x |>.mp (hmesh.symm x y hlink))
  have hcur := hhub.current c (List.mem_of_find?_eq_some hfind)
  show Flood.Step linked _ x y
      (spread hubs r (processFrame accepts now r payload (m.pop x y) x y bcast))
    ∧ Spread linked hubs origin r m₀ (processFrame accepts now r payload (m.pop x y) x y bcast)
  rw [processFrame_of_find (m := m.pop x y) hfind hcur]
  by_cases hheld : (m.hub y).held = r
  · -- a second copy
    have hrefused : accepts now r ((m.pop x y).hub y).held = false := by
      rw [show ((m.pop x y).hub y).held = r from hheld, hirr]
    rw [if_neg (by rw [hrefused]; exact Bool.false_ne_true)]
    have hstep : Flood.Step linked (spread hubs r m) x y (spread hubs r (m.pop x y)) := by
      rw [spread_pop]
      exact .dropped hwaits ⟨hy, hheld⟩
    exact ⟨hstep, hstep.inv h.flood, h.hub, h.held⟩
  · -- the first copy
    have hold : (m.hub y).held = (m₀.hub y).held := (h.held y).resolve_left hheld
    have hne : y ≠ origin := by
      rintro rfl
      exact hheld h.flood.origin.2
    have haccept : accepts now r ((m.pop x y).hub y).held = true := by
      show accepts now r (m.hub y).held = true
      rw [hold]
      exact hwin y hy hne
    rw [if_pos haccept]
    have hstored : HubMeshed linked y (((m.pop x y).store y r).hub y) := hhub.store y
    have hserves := sends_spec hstored hlen now c.fd bcast
    have hback : FloodHub.peerUuidOf (((m.pop x y).store y r).hub y) c.fd = x := by
      rw [← huuid]
      exact peerUuidOf_store (m.pop x y) y y r c.fd
    rw [hback] at hserves
    have hstep : Flood.Step linked (spread hubs r m) x y
        (spread hubs r (((m.pop x y).store y r).post y
          (syncSendToPeers now (((m.pop x y).store y r).hub y) payload c.fd bcast))) := by
      rw [spread_post hserves.distinct, spread_store hy, spread_pop]
      refine .taken _ hwaits (fun hholds => hheld hholds.2) (fun z hz => ?_) fun z hz => ?_
      · exact hserves.toPeer z (of_decide_eq_true hz)
      · rcases hserves.served z hz with hsent | hsender | ⟨-, hnear⟩
        · exact .inr (.inr (decide_eq_true hsent))
        · exact .inl hsender
        · exact .inr (.inl hnear)
    refine ⟨hstep, hstep.inv h.flood, fun z hz => (h.hub z hz).store y, fun z => ?_⟩
    show (((m.pop x y).store y r).hub z).held = r ∨ (((m.pop x y).store y r).hub z).held = _
    rw [store_held]
    split
    · exact .inl rfl
    · exact h.held z

/-- On a link where no frame waits nothing arrives. -/
theorem deliver_of_empty {e : Arrival} (hempty : m.wire e.sender e.receiver = []) :
    Hub.deliver accepts r payload m e = m := by
  unfold Hub.deliver
  rw [hempty]

/-- One moment of a schedule. -/
theorem Spread.deliver (h : Spread linked hubs origin r m₀ m)
    (hmesh : Meshed linked hubs origin m₀) (hlen : utf8Len payload ≤ maxSyncPayload - 10)
    (hirr : ∀ now, accepts now r r = false) {e : Arrival}
    (hwin : ∀ x ∈ hubs, x ≠ origin → accepts e.now r (m₀.hub x).held = true) :
    Spread linked hubs origin r m₀ (Hub.deliver accepts r payload m e) := by
  by_cases hempty : m.wire e.sender e.receiver = []
  · rw [deliver_of_empty hempty]
    exact h
  · exact (h.deliver_step hmesh hlen hirr hwin hempty).2

/-! ### Schedules -/

/-- Every link carries the record once at most, and brings it once at most. When every frame has
arrived, every hub holds the record. -/
structure FloodCovers (hubs : List Str) (r : ρ) (m : FloodMesh ρ) : Prop where
  sent : ∀ x y, m.sent x y ≤ 1
  arrived : ∀ x y, m.arrived x y ≤ 1
  held : (∀ x y, m.wire x y = []) → ∀ x ∈ hubs, (m.hub x).held = r

/-- The schedule goes on reading: as long as a frame waits on some link, one is read later. Every
order and every delay of the links is such a schedule, unless all frames that are left are held
back for ever. -/
def KeepsReading (run : Nat → FloodMesh ρ) (es : Nat → Arrival) : Prop :=
  ∀ n, (∃ x y, (run n).wire x y ≠ []) →
    ∃ k, n ≤ k ∧ (run k).wire (es k).sender (es k).receiver ≠ []

variable {es : Nat → Arrival}

/-- The next moment of a schedule. -/
theorem floodAt_succ (m : FloodMesh ρ) (n : Nat) :
    floodAt accepts r payload m es (n + 1)
      = Hub.deliver accepts r payload (floodAt accepts r payload m es n) (es n) := by
  unfold floodAt floodRun
  rw [List.range_succ, List.map_append, List.foldl_append]
  rfl

/-- Every moment of a schedule. -/
theorem Spread.floodAt (h : Spread linked hubs origin r m₀ m)
    (hmesh : Meshed linked hubs origin m₀) (hlen : utf8Len payload ≤ maxSyncPayload - 10)
    (hirr : ∀ now, accepts now r r = false)
    (hwin : ∀ x ∈ hubs, x ≠ origin → ∀ n, accepts (es n).now r (m₀.hub x).held = true) (n : Nat) :
    Spread linked hubs origin r m₀ (Hub.floodAt accepts r payload m es n) := by
  induction n with
  | zero => exact h
  | succ n ih =>
    rw [floodAt_succ]
    exact ih.deliver hmesh hlen hirr fun x hx hne => hwin x hx hne n

/-- A schedule that goes on reading comes to a point from which no frame waits. It is the general
result about floods, along a run in which a link that is read while it is empty changes
nothing. -/
theorem Spread.eventually_quiet (h : Spread linked hubs origin r m₀ m)
    (hmesh : Meshed linked hubs origin m₀) (hlen : utf8Len payload ≤ maxSyncPayload - 10)
    (hirr : ∀ now, accepts now r r = false)
    (hwin : ∀ x ∈ hubs, x ≠ origin → ∀ n, accepts (es n).now r (m₀.hub x).held = true)
    (hreads : KeepsReading (Hub.floodAt accepts r payload m es) es) :
    ∃ n, ∀ k, n ≤ k → ∀ x y, (Hub.floodAt accepts r payload m es k).wire x y = [] := by
  have hspread := h.floodAt hmesh hlen hirr hwin
  have hstep : ∀ n, (Hub.floodAt accepts r payload m es n).wire (es n).sender
    (es n).receiver ≠ [] →
      Flood.Step linked (spread hubs r (Hub.floodAt accepts r payload m es n)) (es n).sender
        (es n).receiver (spread hubs r (Hub.floodAt accepts r payload m es (n + 1))) := by
    intro n hwaits
    rw [floodAt_succ]
    exact ((hspread n).deliver_step hmesh hlen hirr (fun x hx hne => hwin x hx hne n) hwaits).1
  have hends : ∀ x y, linked x y → x ∈ hubs ∧ y ∈ hubs := fun x y hlink =>
    ⟨hmesh.ends x y hlink, hmesh.ends y x (hmesh.symm x y hlink)⟩
  suffices hquiet : ∃ n, ∀ k, n ≤ k → ∀ x y,
      (spread hubs r (Hub.floodAt accepts r payload m es k)).queue x y = 0 by
    obtain ⟨n, hquiet⟩ := hquiet
    exact ⟨n, fun k hle x y => List.length_eq_zero_iff.mp (hquiet k hle x y)⟩
  refine Flood.eventually_quiet (fun n => spread hubs r (Hub.floodAt accepts r payload m es n))
    (fun n => (hspread n).flood) (fun n => ?_) (fun n hwaits => ?_) hends
  · by_cases hempty : (Hub.floodAt accepts r payload m es n).wire (es n).sender
      (es n).receiver = []
    · refine .inl ?_
      show spread hubs r (Hub.floodAt accepts r payload m es (n + 1)) = _
      rw [floodAt_succ, deliver_of_empty hempty]
    · exact .inr ⟨_, _, hstep n hempty⟩
  · obtain ⟨x, y, hpos⟩ := hwaits
    obtain ⟨k, hle, hread⟩ := hreads n ⟨x, y, fun hnil => by
      have hzero : (spread hubs r (Hub.floodAt accepts r payload m es n)).queue x y = 0 := by
        show List.length _ = 0
        rw [hnil]
        rfl
      rw [hzero] at hpos
      exact Nat.lt_irrefl 0 hpos⟩
    exact ⟨k, hle, _, _, hstep k hread⟩

/-- A record reaches every hub, over every link once at most.

In every state of every schedule each link has carried the record once at most and brought it once
at most, and if no frame waits then every hub holds the record. If the schedule goes on reading as
long as a frame waits, then from some point on no frame waits and every hub holds the record.

`hmesh`: a connected graph of hubs of a current version, with exact reports. `hlen`: the payload
fits a frame. `hwin`: the record is newer than what the other hubs hold whenever a frame of it
arrives, and `hirr`: a stored record is never accepted a second time. -/
theorem flood_covers {linked : Str → Str → Prop} {hubs : List Str} {origin : Str} {r : ρ}
    {m₀ : FloodMesh ρ} {accepts : Int → ρ → ρ → Bool} {payload : Str} {now : Int}
    {es : Nat → Arrival} (hmesh : Meshed linked hubs origin m₀)
    (hlen : utf8Len payload ≤ maxSyncPayload - 10) (hirr : ∀ now, accepts now r r = false)
    (hwin : ∀ x ∈ hubs, x ≠ origin → accepts now r (m₀.hub x).held = true
      ∧ ∀ n, accepts (es n).now r (m₀.hub x).held = true) :
    let run := floodAt accepts r payload (Hub.announce now r payload m₀ origin) es
    (∀ n, FloodCovers hubs r (run n))
      ∧ (KeepsReading run es →
        ∃ n, ∀ k, n ≤ k → (∀ x y, (run k).wire x y = [])
          ∧ ∀ x ∈ hubs, ((run k).hub x).held = r) := by
  intro run
  have hnew : ∀ x ∈ hubs, x ≠ origin → (m₀.hub x).held ≠ r := by
    intro x hx hne heq
    have haccept := (hwin x hx hne).1
    rw [heq, hirr] at haccept
    exact Bool.false_ne_true haccept
  have hstart := Spread.announce hmesh hlen hnew now
  have hspread : ∀ n, Spread linked hubs origin r m₀ (run n) :=
    hstart.floodAt hmesh hlen hirr fun x hx hne => (hwin x hx hne).2
  have hcovers : ∀ n, FloodCovers hubs r (run n) := by
    intro n
    refine ⟨(hspread n).flood.once, (hspread n).flood.arrived_le, fun hquiet x hx => ?_⟩
    have hempty : ∀ a b, (spread hubs r (run n)).queue a b = 0 := by
      intro a b
      show List.length _ = 0
      rw [hquiet]
      rfl
    exact ((hspread n).flood.all_hold hempty (hmesh.connected x hx)).2
  refine ⟨hcovers, fun hreads => ?_⟩
  obtain ⟨n, hquiet⟩ := hstart.eventually_quiet hmesh hlen hirr
    (fun x hx hne => (hwin x hx hne).2) hreads
  exact ⟨n, fun k hle => ⟨hquiet k hle, (hcovers k).held (hquiet k hle)⟩⟩

/-! ### A triangle -/

/-- The rule of a record with a stamp that was added or deleted. -/
def stampAccepts (now : Int) (inc cur : Int × Bool) : Bool :=
  lwwAccepts { now } inc.1 inc.2 cur.1 cur.2

/-- A record is not accepted a second time. -/
theorem stampAccepts_self (now : Int) (r : Int × Bool) : stampAccepts now r r = false := by
  obtain ⟨ts, active⟩ := r
  unfold stampAccepts lwwAccepts
  cases active <;> simp

/-- A hub linked to two others, with a report of each. -/
def cornerHub (a b : Str × List (Str × Bool)) : FloodHub (Int × Bool) where
  clients := [⟨4, .bot, true⟩, ⟨5, .hub, true⟩, ⟨6, .hub, true⟩]
  peers := [⟨a.1, true, 5, "2.5.1".toList⟩, ⟨b.1, true, 6, []⟩]
  meshHubs := [⟨a.1, "2.5.1".toList, true, 90, a.2⟩, ⟨b.1, "2.6.0".toList, true, 90, b.2⟩]
  held := (50, false)

/-- Three hubs that are linked to each other. -/
def triangle : FloodMesh (Int × Bool) where
  hub x :=
    if x = ['a'] then cornerHub (['b'], [(['a'], true), (['c'], true)])
      (['c'], [(['a'], true), (['b'], true)])
    else if x = ['b'] then
      cornerHub (['a'], [(['b'], true), (['c'], true)]) (['c'], [(['a'], true), (['b'], true)])
    else cornerHub (['a'], [(['b'], true), (['c'], true)]) (['b'], [(['a'], true), (['c'], true)])
  wire _ _ := []
  sent _ _ := 0
  arrived _ _ := 0

def triangleHubs : List Str := [['a'], ['b'], ['c']]

def triangleLinked (x y : Str) : Prop :=
  (x = ['a'] ∧ (y = ['b'] ∨ y = ['c'])) ∨ (x = ['b'] ∧ (y = ['a'] ∨ y = ['c']))
    ∨ (x = ['c'] ∧ (y = ['a'] ∨ y = ['b']))

/-- The three hubs are linked as they report it. -/
theorem triangle_meshed : Meshed triangleLinked triangleHubs ['a'] triangle where
  symm := by
    rintro x y (⟨rfl, rfl | rfl⟩ | ⟨rfl, rfl | rfl⟩ | ⟨rfl, rfl | rfl⟩) <;> simp [triangleLinked]
  ends := by
    rintro x y (⟨rfl, -⟩ | ⟨rfl, -⟩ | ⟨rfl, -⟩) <;> simp [triangleHubs]
  here := List.mem_cons_self
  quiet := fun x y => ⟨rfl, rfl, rfl⟩
  connected := by
    intro x hx
    simp only [triangleHubs, List.mem_cons, List.not_mem_nil, or_false] at hx
    rcases hx with rfl | rfl | rfl
    · exact .refl
    · exact .single (.inl ⟨rfl, .inl rfl⟩)
    · exact .single (.inl ⟨rfl, .inr rfl⟩)
  hub := by
    intro x hx
    simp only [triangleHubs, List.mem_cons, List.not_mem_nil, or_false] at hx
    rcases hx with rfl | rfl | rfl
    · refine ⟨by decide, by decide, fun y => ?_, by decide, ?_⟩
      · show triangleLinked ['a'] y ↔ y ∈ [['b'], ['c']]
        simp [triangleLinked]
      · rintro rep hrep z
        rcases List.mem_pair.mp hrep with rfl | rfl <;> simp [triangleLinked]
    · refine ⟨by decide, by decide, fun y => ?_, by decide, ?_⟩
      · show triangleLinked ['b'] y ↔ y ∈ [['a'], ['c']]
        simp [triangleLinked]
      · rintro rep hrep z
        rcases List.mem_pair.mp hrep with rfl | rfl <;> simp [triangleLinked]
    · refine ⟨by decide, by decide, fun y => ?_, by decide, ?_⟩
      · show triangleLinked ['c'] y ↔ y ∈ [['a'], ['b']]
        simp [triangleLinked]
      · rintro rep hrep z
        rcases List.mem_pair.mp hrep with rfl | rfl <;> simp [triangleLinked]

/-- The line of the record. -/
def triangleLine : Str := "uc|01234567-89ab-cdef-0123-456789abcdef|#c|add|100\n".toList

/-- The two frames of the announcement are read, the later one first. -/
def triangleSchedule : Nat → Arrival
  | 0 => ⟨101, ['a'], ['c']⟩
  | _ => ⟨102, ['a'], ['b']⟩

/-- The triangle while the frames are read. -/
def triangleAt (n : Nat) : FloodMesh (Int × Bool) :=
  floodAt stampAccepts (100, true) triangleLine
    (announce 100 (100, true) triangleLine triangle ['a']) triangleSchedule n

/-- The two other corners hold an older record. -/
private theorem triangle_wins : ∀ x ∈ triangleHubs, x ≠ ['a'] →
    stampAccepts 100 (100, true) (triangle.hub x).held = true
      ∧ ∀ n, stampAccepts (triangleSchedule n).now (100, true) (triangle.hub x).held = true := by
  have hclock : ∀ n, (triangleSchedule n).now = 101 ∨ (triangleSchedule n).now = 102 := by
    intro n
    cases n with
    | zero => exact .inl rfl
    | succ n => exact .inr rfl
  intro x hx hne
  simp only [triangleHubs, List.mem_cons, List.not_mem_nil, or_false] at hx
  rcases hx with rfl | rfl | rfl
  · exact absurd rfl hne
  · refine ⟨by decide, fun n => ?_⟩
    rcases hclock n with h | h
    · rw [h]; decide
    · rw [h]; decide
  · refine ⟨by decide, fun n => ?_⟩
    rcases hclock n with h | h
    · rw [h]; decide
    · rw [h]; decide

/-- After two frames none waits: on a link of the triangle by looking, and elsewhere there are no
links. -/
private theorem triangle_quiet (x y : Str) : (triangleAt 2).wire x y = [] := by
  have hlen : utf8Len triangleLine ≤ maxSyncPayload - 10 := by decide
  have hself : ∀ now, stampAccepts now (100, true) (100, true) = false :=
    fun now => stampAccepts_self now _
  have hnew : ∀ x ∈ triangleHubs, x ≠ ['a'] → (triangle.hub x).held ≠ (100, true) := by
    intro x hx hne heq
    have haccept := (triangle_wins x hx hne).1
    rw [heq, hself] at haccept
    exact Bool.false_ne_true haccept
  have hspread : Spread triangleLinked triangleHubs ['a'] (100, true) triangle (triangleAt 2) :=
    (Spread.announce triangle_meshed hlen hnew 100).floodAt triangle_meshed hlen hself
      (fun x hx hne => (triangle_wins x hx hne).2) 2
  by_contra hwaits
  have hlink : triangleLinked x y := by
    refine hspread.flood.onLink x y (hspread.flood.sent_of_queue ?_)
    exact List.length_pos_iff.mpr hwaits
  rcases hlink with ⟨rfl, rfl | rfl⟩ | ⟨rfl, rfl | rfl⟩ | ⟨rfl, rfl | rfl⟩
  all_goals exact hwaits (by decide)

/-- A record of one corner reaches the two others and stays there. -/
theorem flood_covers_triangle :
    (∀ n, FloodCovers triangleHubs (100, true) (triangleAt n))
      ∧ ∃ n, ∀ k, n ≤ k → ∀ x ∈ triangleHubs, ((triangleAt k).hub x).held = (100, true) := by
  have hlen : utf8Len triangleLine ≤ maxSyncPayload - 10 := by decide
  obtain ⟨hcovers, hends⟩ := flood_covers triangle_meshed hlen
    (fun now => stampAccepts_self now (100, true)) triangle_wins
  refine ⟨hcovers, ?_⟩
  have hreads : KeepsReading triangleAt triangleSchedule := by
    intro n hwaits
    match n with
    | 0 => exact ⟨0, le_rfl, by decide⟩
    | 1 => exact ⟨1, le_rfl, by decide⟩
    | n + 2 =>
      have hempty : ∀ k x y, (triangleAt (k + 2)).wire x y = [] := by
        intro k
        induction k with
        | zero => exact triangle_quiet
        | succ k ih =>
          have hsame : triangleAt (k + 3) = triangleAt (k + 2) := by
            rw [triangleAt, floodAt_succ]
            exact deliver_of_empty (ih _ _)
          rw [hsame]
          exact ih
      obtain ⟨x, y, hne⟩ := hwaits
      exact absurd (hempty n x y) hne
  obtain ⟨n, hheld⟩ := hends hreads
  exact ⟨n, fun k hle => (hheld k hle).2⟩

end IrcHub.Proofs
