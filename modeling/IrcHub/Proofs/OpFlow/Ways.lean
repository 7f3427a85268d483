import Mathlib.Data.List.Nodup
import IrcHub.Hub.OpFlow

/-!
# `IrcHub.Proofs.OpFlow.Ways`: the ways a waiting request is answered

A hub clears a recorded request when an answer reaches it, and at no other time. An answer goes
one hop, so it reaches the hub that waits only when the hub of the target takes the request
straight from it, and no age clears a record.

`OpKept` is what is to hold in every state. A recorded request still has its request or its answer
on a link, and is not past its time. A failure is told to the connection that made the request.

`OpWay` is the frame that a recorded request waits for. It is the request on a link to a hub that
will answer it, or the answer on a link back (`IsWay`). Every way is timed by the clock of the hub
that waits: the request may take `legs id` seconds on its link, and the answer what is then left
of the time to live. The function `legs` is a parameter of the whole development. It is any split
of the time to live, for each request its own.

`BreaksWay` says which ways a step takes away, and `OpStepOk` is what the steps of a run must
meet:

* A request that is recorded goes to a peer that will answer it.
* A failure that arrives finds the descriptor of its request not reused.
* A step that breaks a way of a waiting request leaves another way of it.

The rest of this module has the steps that answer nothing: connections that open and close, lanes
that fill, links that go down, clocks that move and knowledge that is replaced. Each of them keeps
the invariant `OpInv`. `Proofs/OpFlow/Answers.lean` has the requests and the frames that arrive,
`Proofs/OpFlow/Runs.lean` the runs.
-/

set_option autoImplicit false

namespace IrcHub.Proofs

open IrcHub.Hub
open Str
open String (utf8Len)

/-! ### What is to hold -/

/-- A slot in use: the hub `x` waits for an answer to the request of `p`. -/
def Waits (m : OpMesh) (x : Str) (p : PendingOpRequest) : Prop :=
  p ∈ (m.hub x).pendingOpRequests ∧ p.active = true

/-- The frame is a request as a peer reads it. -/
def Asks (frame : OpFrame) (f : OpForward) : Prop :=
  ∃ payload, frame = .request payload ∧ readOpForward payload = some f

/-- The frame answers the request with this id. -/
def Answers : OpFrame → Str → Prop
  | .request _, _ => False
  | .grant payload, id => payload = id
  | .failed payload, id => (readOpFailed payload).map (·.1) = some id

/-- The request, sent by the hub that made it, or an answer to it is on a link of that hub. -/
def OnTheWay (m : OpMesh) (x id : Str) : Prop :=
  ∃ k, (∃ s ∈ m.wire x k, ∃ f, Asks s.frame f ∧ f.id = id) ∨ ∃ s ∈ m.wire k x, Answers s.frame id

/-- What is to hold of a mesh. Recorded requests are on the way and not past their time. A hub
with nothing on its links has every slot free. Failures are told to the connection that made the
request: its serial is one that no connection opened later has. -/
structure OpKept (m : OpMesh) : Prop where
  travels : ∀ x p, Waits m x p → OnTheWay m x p.requestId
  free : ∀ x, (∀ k, m.wire x k = [] ∧ m.wire k x = []) →
    ∀ p ∈ (m.hub x).pendingOpRequests, p.active = false
  young : ∀ x p, Waits m x p → m.clock x - p.timestamp ≤ opForwardTtlSeconds
  told : ∀ t ∈ m.told, t ∈ m.made
  serials : ∀ t ∈ m.made, t.2.2 < (m.hub t.1).nextConnSerial

/-! ### Ways -/

/-- A peer `k` that reads this request from `x` answers `x`. It has the target on a connection
whose lane has room, has not seen the id, reads the request in time and is linked to `x`. -/
structure Takes (m : OpMesh) (x k : Str) (f : OpForward) : Prop where
  plain : f.isAdmin = false
  target : ∃ t, botClient (m.hub k) f.target = some t ∧ t.laneFull = false
  unseen : opSeen (m.hub k) f.id = false
  inTime : opExpired f (m.clock k) = false
  linked : (peerClient (m.hub k) x).isSome

/-- The frame a recorded request waits for, and the hub at the other end of its link. -/
inductive OpWay
  /-- The request, on the link to `k`. -/
  | going (k : Str) (s : SentFrame) (f : OpForward)
  /-- The answer, on the link from `k`. -/
  | coming (k : Str) (s : SentFrame)

/-- The hub at the other end. -/
def OpWay.peer : OpWay → Str
  | .going k _ _ => k
  | .coming k _ => k

variable {legs : Str → Int} {m m' : OpMesh} {x : Str} {p : PendingOpRequest}
  {e : OpEvent} {w : OpWay}

/-- The request of `p` at `x` is answered in this way, unless something happens to it. A request
that goes has been on its link for at most `legs id` seconds. An answer that comes was sent at
most `legs id` seconds after the request, and has been on its link for at most what is left of the
time to live. All of this is by the clock of `x`. -/
def IsWay (legs : Str → Int) (m : OpMesh) (x : Str) (p : PendingOpRequest) : OpWay → Prop
  | .going k s f => (peerClient (m.hub x) k).isSome ∧ s ∈ m.wire x k ∧ Asks s.frame f ∧
      f.id = p.requestId ∧ Takes m x k f ∧ s.sentAt ≤ p.timestamp ∧
      m.clock x - s.sentAt ≤ legs p.requestId
  | .coming k s => (peerClient (m.hub x) k).isSome ∧ s ∈ m.wire k x ∧
      Answers s.frame p.requestId ∧ s.dueAt - p.timestamp ≤ legs p.requestId ∧
      m.clock x - s.dueAt ≤ opForwardTtlSeconds - legs p.requestId

/-- The link between `a` and `b` is the one between `x` and `k`. -/
def LinkEnds (a b x k : Str) : Prop := (x = a ∧ k = b) ∨ (x = b ∧ k = a)

/-- The ways of the request of `p` at `x` that a step takes away:

* The target's connection closes, or its lane fills, while the request is on its way there.
* The link goes down.
* The clock of the hub of the target passes the request's time, or that of the hub that waits
  passes what the frame may take.
* The hub of the target takes the request from elsewhere. It remembers the id, and drops the
  request of the hub that waits. -/
def BreaksWay (m : OpMesh) (legs : Str → Int) (x : Str) (p : PendingOpRequest) : OpEvent →
    OpWay → Prop
  | .close y fd, .going k _ f => y = k ∧ ∃ t, botClient (m.hub k) f.target = some t ∧ t.fd = fd
  | .lane y fd full, .going k _ f => y = k ∧ full = true ∧
      ∃ t, botClient (m.hub k) f.target = some t ∧ t.fd = fd
  | .linkDown a b, .going k _ _ => LinkEnds a b x k
  | .linkDown a b, .coming k _ => LinkEnds a b x k
  | .clock y now, .going k s f => (y = k ∧ opExpired f now = true) ∨
      (y = x ∧ legs p.requestId < now - s.sentAt)
  | .clock y now, .coming _ s => y = x ∧ opForwardTtlSeconds - legs p.requestId < now - s.dueAt
  | .deliver a b, .going k _ f => b = k ∧ ∃ s payload rest f₀,
      m.wire a b = s :: rest ∧ s.frame = .request payload ∧ readOpForward payload = some f₀ ∧
      f₀.id = f.id ∧ opExpired f₀ (m.clock b) = false ∧ ¬ (a = x ∧ Takes m x k f₀)
  | _, _ => False

/-! ### What the steps of a run are to meet -/

/-- The request of a bot is recorded and sent to the peers. -/
structure Recorded (h : OpHub) (c : OpClient) (payload target channel : Str) : Prop where
  read : readOpRequest payload = some (target, channel)
  remote : botClient h target = none
  peers : (peerClients h).isEmpty = false
  mask : (trunc (h.hostmask c.id) maxMaskLen).isEmpty = false
  slot : (h.pendingOpRequests.findIdx? fun p => !p.active).isSome

/-- The request as it goes out. -/
def wayText (m : OpMesh) (x : Str) (c : OpClient) (target channel id : Str) : Str :=
  opForwardText id c.id target channel (trunc ((m.hub x).hostmask c.id) maxMaskLen) (m.clock x)
    (opPeers (m.hub x) target none false).2

/-- What a step is to meet for itself. A request that is recorded has an id that no waiting
request has, and one of the peers it goes to answers it. A failure that arrives for a request that
waits finds that no bot's connection was opened on the descriptor of the request meanwhile. -/
def StepAnswers (m : OpMesh) : OpEvent → Prop
  | .request x fd payload random => ∀ c target channel, clientByFd (m.hub x) fd = some c →
      Recorded (m.hub x) c payload target channel →
      (∀ y p, Waits m y p → p.requestId ≠ generateRequestId random) ∧
        ∃ k ∈ (opPeers (m.hub x) target none false).1.map (·.id), k ≠ x ∧ ∃ f,
          readOpForward (wayText m x c target channel (generateRequestId random)) = some f ∧
            f.id = generateRequestId random ∧ Takes m x k f
  | .deliver k x => ∀ s payload rest p, m.wire k x = s :: rest → s.frame = .failed payload →
      Waits m x p → (readOpFailed payload).map (·.1) = some p.requestId →
      (x, p.requestId) ∉ m.reused
  | _ => True

/-- What the steps of a run are to meet: what `StepAnswers` asks, and a way that breaks is not the
last one. -/
structure OpStepOk (legs : Str → Int) (m : OpMesh) (e : OpEvent) : Prop where
  answers : StepAnswers m e
  spares : ∀ x p w, Waits m x p → IsWay legs m x p w → BreaksWay m legs x p e w →
    ∃ w', IsWay legs m x p w' ∧ ¬ BreaksWay m legs x p e w'

/-! ### The invariant -/

/-- The connections of a hub: each has its own descriptor, and a serial that was given before. -/
structure ConnsOk (h : OpHub) : Prop where
  fds : (h.clients.map (·.fd)).Nodup
  serials : ∀ c ∈ h.clients, c.connSerial < h.nextConnSerial

/-- The invariant of a run. Every waiting request has a way. A bot on the descriptor of a waiting
request is the one that made it, unless the descriptor was reused. The other parts say that ids
fit and are apart, and that serials are given once. -/
structure OpInv (legs : Str → Int) (m : OpMesh) : Prop where
  way : ∀ x p, Waits m x p → ∃ w, IsWay legs m x p w
  owner : ∀ x p c, Waits m x p → (x, p.requestId) ∉ m.reused →
    clientByFd (m.hub x) p.originFd = some c → c.typ = .bot →
    (x, p.requestId, c.connSerial) ∈ m.made
  short : ∀ x p, Waits m x p → utf8Len p.requestId < 64
  uniq : ∀ x y (i j : Nat) p q, (m.hub x).pendingOpRequests[i]? = some p →
    (m.hub y).pendingOpRequests[j]? = some q → p.active = true → q.active = true →
    p.requestId = q.requestId → x = y ∧ i = j
  conns : ∀ x, ConnsOk (m.hub x)
  made : ∀ t ∈ m.made, t.2.2 < (m.hub t.1).nextConnSerial
  told : ∀ t ∈ m.told, t ∈ m.made

/-- A request with a way is on it. -/
theorem IsWay.onTheWay (h : IsWay legs m x p w) : OnTheWay m x p.requestId := by
  cases w with
  | going k s f => exact ⟨k, .inl ⟨s, h.2.1, f, h.2.2.1, h.2.2.2.1⟩⟩
  | coming k s => exact ⟨k, .inr ⟨s, h.2.1, h.2.2.1⟩⟩

/-- The two legs together are the time to live. -/
theorem IsWay.young (h : IsWay legs m x p w) (hlegs : legs p.requestId ≤ opForwardTtlSeconds) :
    m.clock x - p.timestamp ≤ opForwardTtlSeconds := by
  cases w with
  | going k s f =>
    obtain ⟨-, -, -, -, -, hsent, hleg⟩ := h
    omega
  | coming k s =>
    obtain ⟨-, -, -, hasked, hleg⟩ := h
    omega

/-- The invariant is enough: a way is a frame on a link, and its time bounds the age of the
record. -/
theorem OpInv.kept (hlegs : ∀ id, legs id ≤ opForwardTtlSeconds) (h : OpInv legs m) :
    OpKept m := by
  refine ⟨fun x p hp => ?_, fun x hempty p hp => ?_, fun x p hp => ?_, h.told, h.made⟩
  · obtain ⟨w, hw⟩ := h.way x p hp
    exact hw.onTheWay
  · -- a slot in use has a frame on a link
    cases hact : p.active with
    | false => rfl
    | true =>
      obtain ⟨w, hw⟩ := h.way x p ⟨hp, hact⟩
      obtain ⟨k, ⟨s, hs, -⟩ | ⟨s, hs, -⟩⟩ := hw.onTheWay
      · rw [(hempty k).1] at hs
        exact absurd hs List.not_mem_nil
      · rw [(hempty k).2] at hs
        exact absurd hs List.not_mem_nil
  · obtain ⟨w, hw⟩ := h.way x p hp
    exact hw.young (hlegs _)

/-- Every waiting request has a way that the step leaves. -/
theorem OpInv.spared (h : OpInv legs m) (hok : OpStepOk legs m e) (hp : Waits m x p) :
    ∃ w, IsWay legs m x p w ∧ ¬ BreaksWay m legs x p e w := by
  obtain ⟨w, hw⟩ := h.way x p hp
  by_cases hbreaks : BreaksWay m legs x p e w
  · exact hok.spares x p w hp hw hbreaks
  · exact ⟨w, hw, hbreaks⟩

/-- What a hub must keep to take a request. -/
theorem Takes.mono {k : Str} {f : OpForward} (h : Takes m x k f)
    (htarget : ∀ t, botClient (m.hub k) f.target = some t → t.laneFull = false →
      ∃ t', botClient (m'.hub k) f.target = some t' ∧ t'.laneFull = false)
    (hseen : opSeen (m.hub k) f.id = false → opSeen (m'.hub k) f.id = false)
    (htime : opExpired f (m.clock k) = false → opExpired f (m'.clock k) = false)
    (hlink : (peerClient (m.hub k) x).isSome → (peerClient (m'.hub k) x).isSome) :
    Takes m' x k f := by
  obtain ⟨t, ht, hroom⟩ := h.target
  exact ⟨h.plain, htarget t ht hroom, hseen h.unseen, htime h.inTime, hlink h.linked⟩

/-- A hub with the same connections and the same ids seen takes the same requests. -/
theorem Takes.congr {k : Str} {f : OpForward} (h : Takes m x k f)
    (hclients : (m'.hub k).clients = (m.hub k).clients)
    (hseen : opSeen (m.hub k) f.id = false → opSeen (m'.hub k) f.id = false)
    (hclock : m'.clock k = m.clock k) : Takes m' x k f := by
  have hbot : botClient (m'.hub k) f.target = botClient (m.hub k) f.target := by
    unfold botClient
    rw [hclients]
  have hpeer : peerClient (m'.hub k) x = peerClient (m.hub k) x := by
    unfold peerClient peerClients
    rw [hclients]
  exact h.mono (fun t ht hroom => ⟨t, hbot.trans ht, hroom⟩) hseen (fun ht => hclock ▸ ht)
    (fun hl => hpeer ▸ hl)

/-- A way stays a way when its frame stays on the link, the hub at the other end still takes it
and the clock of the hub that waits does not move. -/
theorem IsWay.mono (h : IsWay legs m x p w)
    (hwire : ∀ a b, (a = x ∧ b = w.peer) ∨ (a = w.peer ∧ b = x) →
    ∀ s ∈ m.wire a b, s ∈ m'.wire a b)
    (hlink : (peerClient (m.hub x) w.peer).isSome → (peerClient (m'.hub x) w.peer).isSome)
    (htakes : ∀ k s f, w = .going k s f → Takes m x k f → Takes m' x k f)
    (hclock : m'.clock x = m.clock x) : IsWay legs m' x p w := by
  cases w with
  | going k s f =>
    obtain ⟨hl, hs, hask, hid, ht, hsent, hleg⟩ := h
    exact ⟨hlink hl, hwire x k (.inl ⟨rfl, rfl⟩) s hs, hask, hid, htakes k s f rfl ht, hsent,
      hclock.symm ▸ hleg⟩
  | coming k s =>
    obtain ⟨hl, hs, hans, hasked, hleg⟩ := h
    exact ⟨hlink hl, hwire k x (.inr ⟨rfl, rfl⟩) s hs, hans, hasked, hclock.symm ▸ hleg⟩

/-! ### Connections -/

/-- A connection is the one with its descriptor. -/
theorem clientByFd_of_mem {h : OpHub} (hfds : (h.clients.map (·.fd)).Nodup) {c : OpClient}
    (hc : c ∈ h.clients) : clientByFd h c.fd = some c := by
  unfold clientByFd
  cases hfind : h.clients.find? fun k => decide (k.fd = c.fd) with
  | none =>
    rw [List.find?_eq_none] at hfind
    exact absurd (decide_eq_true rfl) (hfind c hc)
  | some k =>
    have hfd : k.fd = c.fd := by simpa using List.find?_some hfind
    rw [List.inj_on_of_nodup_map hfds (List.mem_of_find?_eq_some hfind) hc hfd]

/-- The connection that is found has the descriptor. -/
theorem clientByFd_spec {h : OpHub} {fd : Nat} {c : OpClient} (hc : clientByFd h fd = some c) :
    c ∈ h.clients ∧ c.fd = fd :=
  ⟨List.mem_of_find?_eq_some hc, by simpa using List.find?_some hc⟩

/-- The link that is found is one to the peer. -/
theorem peerClient_spec {h : OpHub} {uuid : Str} {c : OpClient}
    (hc : peerClient h uuid = some c) :
    c ∈ h.clients ∧ c.typ = .hub ∧ c.id = uuid := by
  have hmem := List.mem_filter.mp (List.mem_of_find?_eq_some hc)
  have hid : c.id = uuid := by simpa using List.find?_some hc
  rw [Bool.and_eq_true] at hmem
  exact ⟨hmem.1, of_decide_eq_true hmem.2.1, hid⟩

/-- The connection that is found is one of the bot. -/
theorem botClient_spec {h : OpHub} {uuid : Str} {t : OpClient} (ht : botClient h uuid = some t) :
    t ∈ h.clients ∧ t.typ = .bot ∧ t.id = uuid := by
  have hp := List.find?_some ht
  unfold OpClient.isBot at hp
  simp only [Bool.and_eq_true, decide_eq_true_eq] at hp
  exact ⟨List.mem_of_find?_eq_some ht, hp.1.1.1, hp.2⟩

/-- Something is found if something is there. -/
theorem find?_isSome_of_mem {α : Type} {q : α → Bool} {l : List α} {a : α} (ha : a ∈ l)
    (hq : q a = true) : (l.find? q).isSome := by
  rw [List.find?_isSome]
  exact ⟨a, ha, hq⟩

/-- A link found among some connections is found among more. -/
theorem peerClient_mono {h h' : OpHub} {uuid : Str} (hsub : ∀ c ∈ h.clients, c.typ = .hub →
    c.id = uuid → c ∈ h'.clients) (hfound : (peerClient h uuid).isSome) :
    (peerClient h' uuid).isSome := by
  obtain ⟨c, hc⟩ := Option.isSome_iff_exists.mp hfound
  obtain ⟨hmem, htyp, hid⟩ := peerClient_spec hc
  have hpeer := List.mem_filter.mp (List.mem_of_find?_eq_some hc)
  exact find?_isSome_of_mem (List.mem_filter.mpr ⟨hsub c hmem htyp hid, hpeer.2⟩)
    (decide_eq_true hid)

/-- What is found stays found when others are dropped. -/
theorem find?_filter_of_some {α : Type} {q keep : α → Bool} {l : List α} {a : α}
    (h : l.find? q = some a) (hkeep : keep a = true) : (l.filter keep).find? q = some a := by
  obtain ⟨hq, before, after, rfl, hbefore⟩ := List.find?_eq_some_iff_append.mp h
  rw [List.filter_append, List.filter_cons_of_pos hkeep]
  refine List.find?_eq_some_iff_append.mpr ⟨hq, before.filter keep, after.filter keep, rfl, ?_⟩
  exact fun b hb => hbefore b (List.mem_filter.mp hb).1

/-- What is found is found again, rewritten, when the rewriting does not change what is looked
at. -/
theorem find?_map_of_same {α : Type} {q : α → Bool} {g : α → α} {l : List α}
    (h : ∀ a ∈ l, q (g a) = q a) : (l.map g).find? q = (l.find? q).map g := by
  induction l with
  | nil => rfl
  | cons a l ih =>
    rw [List.map_cons, List.find?_cons, List.find?_cons, h a List.mem_cons_self,
      ih fun b hb => h b (List.mem_cons_of_mem _ hb)]
    cases q a <;> rfl

/-! ### A step of one hub's connections -/

/-- The hub that changed, and the others. -/
@[simp]
theorem setHub_hub (m : OpMesh) (x y : Str) (h : OpHub) :
    (m.setHub x h).hub y = if y = x then h else m.hub y := rfl

/-- A change of a hub sends nothing. -/
@[simp]
theorem setHub_wire (m : OpMesh) (x : Str) (h : OpHub) : (m.setHub x h).wire = m.wire := rfl

/-- A step after which no more slots are in use keeps the invariant, if the requests that wait
still have a way, and a bot on the descriptor of a request was there before or the descriptor is
noted as reused. Every step but a recorded request is such a step. -/
theorem OpInv.of_fewer (h : OpInv legs m)
    (hpend : ∀ x (i : Nat) p, (m'.hub x).pendingOpRequests[i]? = some p → p.active = true →
      (m.hub x).pendingOpRequests[i]? = some p)
    (hway : ∀ x p, Waits m' x p → Waits m x p → ∃ w, IsWay legs m' x p w)
    (howner : ∀ x p c, Waits m x p → (x, p.requestId) ∉ m'.reused →
      clientByFd (m'.hub x) p.originFd = some c → c.typ = .bot →
      ∃ c', clientByFd (m.hub x) p.originFd = some c' ∧ c'.typ = .bot
        ∧ c'.connSerial = c.connSerial)
    (hreused : ∀ r ∈ m.reused, r ∈ m'.reused) (hconns : ∀ x, ConnsOk (m'.hub x))
    (hnext : ∀ x, (m.hub x).nextConnSerial ≤ (m'.hub x).nextConnSerial)
    (hmade : ∀ t ∈ m.made, t ∈ m'.made)
    (hnew : ∀ t ∈ m'.made, t ∈ m.made ∨ t.2.2 < (m'.hub t.1).nextConnSerial)
    (htold : ∀ t ∈ m'.told, t ∈ m.told ∨ t ∈ m'.made) : OpInv legs m' := by
  have hwaits : ∀ {x p}, Waits m' x p → Waits m x p := by
    intro x p hp
    obtain ⟨i, hi⟩ := List.getElem?_of_mem hp.1
    exact ⟨List.mem_of_getElem? (hpend x i p hi hp.2), hp.2⟩
  refine ⟨fun x p hp => hway x p hp (hwaits hp), fun x p c hp hr hc hbot => ?_,
    fun x p hp => h.short x p (hwaits hp), fun x y i j p q hp hq hpa hqa => ?_, hconns,
    fun t ht => ?_, fun t ht => ?_⟩
  · obtain ⟨c', hc', hbot', hserial⟩ := howner x p c (hwaits hp) hr hc hbot
    rw [← hserial]
    exact hmade _ (h.owner x p c' (hwaits hp) (fun hin => hr (hreused _ hin)) hc' hbot')
  · exact h.uniq x y i j p q (hpend x i p hp hpa) (hpend y j q hq hqa) hpa hqa
  · exact (hnew t ht).elim (fun hold => Nat.lt_of_lt_of_le (h.made t hold) (hnext t.1)) fun hlt =>
      hlt
  · exact (htold t ht).elim (fun hold => hmade t (h.told t hold)) fun hin => hin

/-- A step that puts another hub in the place of the hub `x`, with the same slots, the same ids
seen and the same links. What is left is about its bots: a way of a request to a bot of `x` that
the step does not break has to stay, and a bot on the descriptor of a request was there before or
the descriptor is noted as reused. -/
theorem OpInv.of_hub (h : OpInv legs m) (h' : OpHub) (hok : OpStepOk legs m e)
    (hhub : ∀ y, m'.hub y = if y = x then h' else m.hub y) (hwire : m'.wire = m.wire)
    (hclock : m'.clock = m.clock) (hmade : m'.made = m.made) (htold : m'.told = m.told)
    (hreused : ∀ r ∈ m.reused, r ∈ m'.reused)
    (hpend : h'.pendingOpRequests = (m.hub x).pendingOpRequests)
    (hseen : h'.seenForwards = (m.hub x).seenForwards)
    (hpeers : ∀ k, (peerClient (m.hub x) k).isSome → (peerClient h' k).isSome)
    (hconns : ConnsOk h') (hnext : (m.hub x).nextConnSerial ≤ h'.nextConnSerial)
    (hbots : ∀ y p s f, ¬ BreaksWay m legs y p e (.going x s f) →
      ∀ t, botClient (m.hub x) f.target = some t → t.laneFull = false →
        ∃ t', botClient h' f.target = some t' ∧ t'.laneFull = false)
    (howner : ∀ p c, Waits m x p → (x, p.requestId) ∉ m'.reused →
      clientByFd h' p.originFd = some c → c.typ = .bot →
      ∃ c', clientByFd (m.hub x) p.originFd = some c' ∧ c'.typ = .bot ∧
        c'.connSerial = c.connSerial) : OpInv legs m' := by
  have hpend' : ∀ y, (m'.hub y).pendingOpRequests = (m.hub y).pendingOpRequests := by
    intro y
    rw [hhub]
    split
    · rename_i hy
      rw [hy, hpend]
    · rfl
  have hseen' : ∀ y id, opSeen (m'.hub y) id = opSeen (m.hub y) id := by
    intro y id
    rw [hhub]
    split
    · rename_i hy
      rw [hy]
      unfold opSeen
      rw [hseen]
    · rfl
  have hpeers' : ∀ y k, (peerClient (m.hub y) k).isSome → (peerClient (m'.hub y) k).isSome := by
    intro y k hk
    rw [hhub]
    split
    · rename_i hy
      exact hpeers k (hy ▸ hk)
    · exact hk
  -- what each part of the invariant needs
  refine h.of_fewer (fun y i p hp _ => hpend' y ▸ hp) (fun y p _ hp => ?_)
    (fun y p c hp hr hc hbot => ?_) hreused (fun y => ?_) (fun y => ?_) (fun t ht => hmade ▸ ht)
    (fun t ht => .inl (hmade ▸ ht)) (fun t ht => .inl (htold ▸ ht))
  -- the way of a waiting record, which the step does not break
  · obtain ⟨w, hw, hspared⟩ := h.spared hok hp
    refine ⟨w, hw.mono (fun a b _ s hs => hwire ▸ hs) (hpeers' y _) (fun k s f hwk ht => ?_)
      (by rw [hclock])⟩
    refine ht.mono (fun t hbot hroom => ?_) (fun hun => (hseen' k f.id).trans hun)
      (fun htime => by rwa [hclock]) (hpeers' k y)
    rw [hhub]
    split
    · rename_i hk
      rw [hk] at hbot hwk
      exact hbots y p s f (hwk ▸ hspared) t hbot hroom
    · exact ⟨t, hbot, hroom⟩
  -- a bot on the descriptor of a waiting record
  · rw [hhub] at hc
    split at hc
    · rename_i hy
      subst hy
      exact howner p c hp hr hc hbot
    · exact ⟨c, hc, hbot, rfl⟩
  · rw [hhub]
    split
    · exact hconns
    · exact h.conns y
  · rw [hhub]
    split
    · rename_i hy
      rw [hy]
      exact hnext
    · exact Nat.le_refl _

/-! ### The steps that answer nothing -/

/-- A connection that is superseded keeps its descriptor. -/
@[simp]
theorem supersede_fd (id : Str) (c : OpClient) : (supersede id c).fd = c.fd := by
  unfold supersede
  split <;> rfl

/-- It keeps its serial. -/
@[simp]
theorem supersede_connSerial (id : Str) (c : OpClient) :
    (supersede id c).connSerial = c.connSerial := by
  unfold supersede
  split <;> rfl

/-- It stays of its kind. -/
@[simp]
theorem supersede_typ (id : Str) (c : OpClient) : (supersede id c).typ = c.typ := by
  unfold supersede
  split <;> rfl

/-- Its lane stays as full as it was. -/
@[simp]
theorem supersede_laneFull (id : Str) (c : OpClient) :
    (supersede id c).laneFull = c.laneFull := by
  unfold supersede
  split <;> rfl

/-- A login leaves no other session of its own bot, and the sessions of the others as they are. -/
theorem supersede_isBot (id target : Str) (c : OpClient) :
    OpClient.isBot target (supersede id c)
      = (decide (target ≠ id) && OpClient.isBot target c) := by
  unfold supersede OpClient.isBot
  split
  · rename_i hold
    rw [hold.2.2]
    by_cases hid : id = target
    · simp [hid]
    · simp [hid]
  · rename_i hnot
    by_cases hid : target = id
    · subst hid
      simp only [ne_eq, not_true_eq_false, decide_false, Bool.false_and]
      rw [Bool.eq_false_iff]
      intro hfound
      simp only [Bool.and_eq_true, decide_eq_true_eq] at hfound
      exact hnot ⟨hfound.1.1.1, hfound.1.1.2, hfound.2⟩
    · simp [hid]

/-- A bot that is found before a login is found after it, itself or as its new session. The lane
of a new session is empty, so the bot still takes a grant. -/
theorem botClient_openConnection {h : OpHub} {fd : Nat} {typ : OpClientType} {id target : Str}
    {t : OpClient} (ht : botClient h target = some t) (hroom : t.laneFull = false) :
    ∃ t', botClient (openConnection h fd typ id) target = some t' ∧ t'.laneFull = false := by
  let new : OpClient := { fd, connSerial := h.nextConnSerial, typ, id }
  by_cases htyp : typ = .bot
  · have hclients : (openConnection h fd typ id).clients = h.clients.map (supersede id)
      ++ [new] := by
      unfold openConnection
      rw [if_pos htyp]
      rfl
    unfold botClient
    rw [hclients, List.find?_append]
    by_cases hid : target = id
    · -- the new session is the only one
      have hnone : (h.clients.map (supersede id)).find? (OpClient.isBot target) = none := by
        rw [List.find?_eq_none]
        intro c hc
        obtain ⟨c₀, -, rfl⟩ := List.mem_map.mp hc
        rw [supersede_isBot, hid]
        simp
      have hnew : OpClient.isBot target new = true := by
        simp [OpClient.isBot, new, htyp, hid]
      rw [hnone, Option.none_or, List.find?_cons, hnew]
      exact ⟨new, rfl, rfl⟩
    · have hsame : ∀ c ∈ h.clients,
          OpClient.isBot target (supersede id c) = OpClient.isBot target c := by
        intro c _
        rw [supersede_isBot]
        simp [hid]
      rw [find?_map_of_same hsame, show h.clients.find? (OpClient.isBot target) = some t from ht]
      exact ⟨supersede id t, rfl, (supersede_laneFull id t).trans hroom⟩
  · have hclients : (openConnection h fd typ id).clients = h.clients ++ [new] := by
      unfold openConnection
      rw [if_neg htyp]
    unfold botClient
    rw [hclients, List.find?_append, show h.clients.find? (OpClient.isBot target)
      = some t from ht]
    exact ⟨t, rfl, hroom⟩

/-- The connections after a login: those before it, some of them superseded, and the new one. -/
theorem openConnection_clients (h : OpHub) (fd : Nat) (typ : OpClientType) (id : Str) :
    ∃ g : OpClient → OpClient,
      (openConnection h fd typ id).clients
        = h.clients.map g ++ [{ fd, connSerial := h.nextConnSerial, typ, id }] ∧
      ∀ c, (g c).fd = c.fd ∧ (g c).connSerial = c.connSerial ∧ (g c).typ = c.typ ∧
        (c.typ = .hub → g c = c) := by
  by_cases htyp : typ = .bot
  · refine ⟨supersede id, ?_, fun c => ⟨supersede_fd id c, supersede_connSerial id c,
      supersede_typ id c, fun hc => ?_⟩⟩
    · unfold openConnection
      rw [if_pos htyp]
      rfl
    · unfold supersede
      rw [if_neg fun hold => by cases hold.1.symm.trans hc]
  · refine ⟨fun c => c, ?_, fun c => ⟨rfl, rfl, rfl, fun _ => rfl⟩⟩
    unfold openConnection
    rw [if_neg htyp, List.map_id']

/-- A connection that opens takes a descriptor that is free, and the next serial. -/
theorem ConnsOk.openConnection {h : OpHub} (hc : ConnsOk h) {fd : Nat}
    (hfree : (clientByFd h fd).isSome = false) (typ : OpClientType) (id : Str) :
    ConnsOk (openConnection h fd typ id) := by
  obtain ⟨g, hclients, hg⟩ := openConnection_clients h fd typ id
  have hfds : (h.clients.map g).map (·.fd) = h.clients.map (·.fd) := by
    rw [List.map_map]
    exact List.map_congr_left fun c _ => (hg c).1
  have hnext : (Hub.openConnection h fd typ id).nextConnSerial = h.nextConnSerial + 1 := by
    unfold Hub.openConnection
    split <;> rfl
  refine ⟨?_, fun c hmem => ?_⟩
  · rw [hclients, List.map_append, hfds, List.map_singleton]
    refine List.nodup_append.mpr ⟨hc.fds, List.nodup_singleton _, fun a ha b hb heq => ?_⟩
    cases List.mem_singleton.mp hb
    obtain ⟨c, hmem, rfl⟩ := List.mem_map.mp ha
    exact Bool.eq_false_iff.mp hfree (find?_isSome_of_mem hmem (decide_eq_true heq))
  · rw [hnext]
    rw [hclients] at hmem
    rcases List.mem_append.mp hmem with hold | hnew
    · obtain ⟨c₀, hc₀, rfl⟩ := List.mem_map.mp hold
      rw [(hg c₀).2.1]
      exact Nat.lt_succ_of_lt (hc.serials c₀ hc₀)
    · rw [List.mem_singleton.mp hnew]
      exact Nat.lt_succ_self _

/-- A login. On the descriptor of a waiting request it is noted, when it is a bot's. -/
theorem connect_inv (h : OpInv legs m) {fd : Nat} {typ : OpClientType} {id : Str}
    (hok : OpStepOk legs m (.connect x fd typ id)) :
    OpInv legs (opStep m (.connect x fd typ id)) := by
  by_cases hfree : (clientByFd (m.hub x) fd).isSome
  · simpa only [opStep, if_pos hfree] using h
  · have hfree' : (clientByFd (m.hub x) fd).isSome = false := Bool.eq_false_iff.mpr hfree
    obtain ⟨g, hclients, hg⟩ := openConnection_clients (m.hub x) fd typ id
    simp only [opStep, if_neg hfree]
    refine h.of_hub (openConnection (m.hub x) fd typ id) hok (fun _ => rfl) rfl rfl rfl rfl
      (fun r hr => List.mem_append_left _ hr) ?_ ?_ (fun k hk => ?_)
      ((h.conns x).openConnection hfree' typ id) ?_
      (fun y p s f _ t ht hroom => botClient_openConnection ht hroom)
      (fun p c hp hr hc hbot => ?_)
    · unfold openConnection
      split <;> rfl
    · unfold openConnection
      split <;> rfl
    · refine peerClient_mono (fun c hc htyp _ => ?_) hk
      rw [hclients]
      exact List.mem_append_left _ (List.mem_map.mpr ⟨c, hc, (hg c).2.2.2 htyp⟩)
    · unfold openConnection
      split <;> exact Nat.le_succ _
    · obtain ⟨hmem, hfd⟩ := clientByFd_spec hc
      rw [hclients] at hmem
      rcases List.mem_append.mp hmem with hold | hnew
      · obtain ⟨c₀, hc₀, rfl⟩ := List.mem_map.mp hold
        refine ⟨c₀, ?_, (hg c₀).2.2.1 ▸ hbot, (hg c₀).2.1.symm⟩
        rw [← hfd, (hg c₀).1]
        exact clientByFd_of_mem (h.conns x).fds hc₀
      · -- the new connection of a bot is on the descriptor: it is noted
        cases List.mem_singleton.mp hnew
        refine absurd (List.mem_append_right _ ?_) hr
        have hbot' : typ = .bot := hbot
        have hfd' : fd = p.originFd := hfd
        rw [if_pos hbot']
        refine List.mem_map.mpr
          ⟨p.requestId, List.mem_map.mpr ⟨p, List.mem_filter.mpr ⟨hp.1, ?_⟩, rfl⟩, rfl⟩
        rw [hp.2, hfd']
        simp

/-- New knowledge of the bots and the links changes no connection and no slot. -/
theorem learn_inv (h : OpInv legs m) {roster : List (Str × Str)} {hostmask : Str → Str}
    {linkReport : Str → Option (List Str)}
    (hok : OpStepOk legs m (.learn x roster hostmask linkReport)) :
    OpInv legs (opStep m (.learn x roster hostmask linkReport)) :=
  h.of_hub ({ m.hub x with roster, hostmask, linkReport }) hok (fun _ => rfl) rfl rfl rfl rfl
    (fun _ hr => hr) rfl rfl (fun _ hk => hk) ⟨(h.conns x).fds, (h.conns x).serials⟩
    (Nat.le_refl _) (fun _ _ _ _ _ t ht hroom => ⟨t, ht, hroom⟩) fun _ c _ _ hc hbot =>
    ⟨c, hc, hbot, rfl⟩

/-- A lane that fills is not that of the bot a request is on its way to. -/
theorem lane_inv (h : OpInv legs m) {fd : Nat} {full : Bool}
    (hok : OpStepOk legs m (.lane x fd full)) :
    OpInv legs (opStep m (.lane x fd full)) := by
  -- only the flag of the lane changes
  let g : OpClient → OpClient := fun c => if c.fd = fd then { c with laneFull := full } else c
  have hg : ∀ c, (g c).fd = c.fd ∧ (g c).connSerial = c.connSerial ∧ (g c).typ = c.typ ∧
      (g c).id = c.id ∧ (g c).authenticated = c.authenticated
      ∧ (g c).superseded = c.superseded := by
    intro c
    simp only [g]
    split <;> exact ⟨rfl, rfl, rfl, rfl, rfl, rfl⟩
  have hclients : (setLane (m.hub x) fd full).clients = (m.hub x).clients.map g := rfl
  refine h.of_hub (setLane (m.hub x) fd full) hok (fun _ => rfl) rfl rfl rfl rfl
    (fun _ hr => hr) rfl rfl (fun k hk => ?_) ⟨?_, fun c hc => ?_⟩ (Nat.le_refl _)
    (fun y p s f hspared t ht hroom => ?_) fun p c hp _ hc hbot => ?_
  -- the links are found as before
  · have hpeers : peerClients (setLane (m.hub x) fd full) = (peerClients (m.hub x)).map g := by
      unfold peerClients
      rw [hclients, List.filter_map]
      refine congrArg (List.map g) (List.filter_congr fun c _ => ?_)
      show (decide ((g c).typ = .hub) && (g c).authenticated) = _
      rw [(hg c).2.2.1, (hg c).2.2.2.2.1]
    unfold peerClient at hk ⊢
    rw [hpeers, find?_map_of_same fun c _ => by rw [(hg c).2.2.2.1], Option.isSome_map]
    exact hk
  -- no descriptor moves
  · rw [hclients, List.map_map, show (fun c : OpClient => c.fd) ∘ g = (·.fd)
      from funext fun c => (hg c).1]
    exact (h.conns x).fds
  · obtain ⟨c₀, hc₀, rfl⟩ := List.mem_map.mp hc
    show (g c₀).connSerial < _
    rw [(hg c₀).2.1]
    exact (h.conns x).serials c₀ hc₀
  -- so are the bots; the one the request is for is not on this lane, or the lane is free
  · have hfound : botClient (setLane (m.hub x) fd full) f.target = some (g t) := by
      unfold botClient
      rw [hclients, find?_map_of_same fun c _ => ?_,
        show (m.hub x).clients.find? (OpClient.isBot f.target) = some t from ht, Option.map_some]
      unfold OpClient.isBot
      rw [(hg c).2.2.1, (hg c).2.2.2.1, (hg c).2.2.2.2.1, (hg c).2.2.2.2.2]
    refine ⟨g t, hfound, ?_⟩
    simp only [g]
    split
    · rename_i hfd
      cases full with
      | false => rfl
      | true => exact absurd ⟨rfl, rfl, t, ht, hfd⟩ hspared
    · exact hroom
  · obtain ⟨hmem, hfd⟩ := clientByFd_spec hc
    obtain ⟨c₀, hc₀, rfl⟩ := List.mem_map.mp hmem
    have hsame := hg c₀
    refine ⟨c₀, ?_, hsame.2.2.1 ▸ hbot, hsame.2.1.symm⟩
    rw [← hfd, show (if c₀.fd = fd then { c₀ with laneFull := full } else c₀).fd = c₀.fd
      from hsame.1]
    exact clientByFd_of_mem (h.conns x).fds hc₀

/-- A connection that closes is not that of the bot a request is on its way to. It may be the one
that made the request: the answer then only frees the slot. -/
theorem close_inv (h : OpInv legs m) {fd : Nat} (hok : OpStepOk legs m (.close x fd)) :
    OpInv legs (opStep m (.close x fd)) := by
  let keep : OpClient → Bool := fun c => !(decide (c.fd = fd) && decide (c.typ ≠ .hub))
  have hsub : ((m.hub x).clients.filter keep).Sublist (m.hub x).clients := List.filter_sublist
  refine h.of_hub ({ m.hub x with clients := (m.hub x).clients.filter keep }) hok (fun _ => rfl)
    rfl rfl rfl rfl (fun _ hr => hr) rfl rfl (fun k hk => ?_)
    ⟨(h.conns x).fds.sublist (hsub.map _), fun c hc => (h.conns x).serials c (hsub.subset hc)⟩
    (Nat.le_refl _) (fun y p s f hspared t ht hroom => ⟨t, ?_, hroom⟩) fun p c hp _ hc hbot => ?_
  · refine peerClient_mono (fun c hc htyp _ => List.mem_filter.mpr ⟨hc, ?_⟩) hk
    simp [keep, htyp]
  · refine find?_filter_of_some ht ?_
    have hfd : t.fd ≠ fd := fun hfd => hspared ⟨rfl, t, ht, hfd⟩
    simp [keep, hfd]
  · obtain ⟨hmem, hfd⟩ := clientByFd_spec hc
    refine ⟨c, ?_, hbot, rfl⟩
    rw [← hfd]
    exact clientByFd_of_mem (h.conns x).fds (hsub.subset hmem)

/-- What a link that goes down leaves a hub: all but its links to the other end. -/
theorem linkDown_hub (m : OpMesh) (a b y : Str) :
    ∃ keep : OpClient → Bool,
      ((opStep m (.linkDown a b)).hub y).clients = (m.hub y).clients.filter keep ∧
      (∀ c, c.typ ≠ .hub → keep c = true) ∧ (∀ c, ¬ LinkEnds a b y c.id → keep c = true) ∧
      (opStep m (.linkDown a b)).hub y
        = { m.hub y with clients := ((opStep m (.linkDown a b)).hub y).clients } := by
  let drop (peer : Str) (c : OpClient) : Bool := !(decide (c.typ = .hub) && decide (c.id = peer))
  have hdrop : ∀ peer c, (c.typ ≠ .hub ∨ c.id ≠ peer) → drop peer c = true := by
    rintro peer c (htyp | hid)
    · simp [drop, htyp]
    · simp [drop, hid]
  by_cases ha : y = a
  · by_cases hb : y = b
    · refine ⟨fun c => drop a c && drop b c, ?_, fun c hc => ?_, fun c hc => ?_, ?_⟩
      · simp only [opStep, setHub_hub, dropPeer, if_pos hb, if_pos (hb.symm.trans ha)]
        rw [List.filter_filter, ← ha]
      · exact Bool.and_eq_true_iff.mpr ⟨hdrop a c (.inl hc), hdrop b c (.inl hc)⟩
      · exact Bool.and_eq_true_iff.mpr ⟨hdrop a c (.inr fun hid => hc (.inr ⟨hb, hid⟩)),
          hdrop b c (.inr fun hid => hc (.inl ⟨ha, hid⟩))⟩
      · simp only [opStep, setHub_hub, dropPeer, if_pos hb, if_pos (hb.symm.trans ha)]
        rw [← ha]
    · refine ⟨drop b, ?_, fun c hc => hdrop b c (.inl hc),
        fun c hc => hdrop b c (.inr fun hid => hc (.inl ⟨ha, hid⟩)), ?_⟩
      · simp only [opStep, setHub_hub, dropPeer, if_neg hb, if_pos ha]
        rw [← ha]
      · simp only [opStep, setHub_hub, dropPeer, if_neg hb, if_pos ha]
        rw [← ha]
  · by_cases hb : y = b
    · have hba : b ≠ a := fun heq => ha (hb.trans heq)
      refine ⟨drop a, ?_, fun c hc => hdrop a c (.inl hc),
        fun c hc => hdrop a c (.inr fun hid => hc (.inr ⟨hb, hid⟩)), ?_⟩
      · simp only [opStep, setHub_hub, dropPeer, if_pos hb, if_neg hba]
        rw [← hb]
      · simp only [opStep, setHub_hub, dropPeer, if_pos hb, if_neg hba]
        rw [← hb]
    · refine ⟨fun _ => true, ?_, fun _ _ => rfl, fun _ _ => rfl, ?_⟩
      · simp only [opStep, setHub_hub, if_neg ha, if_neg hb]
        rw [List.filter_eq_self.mpr fun _ _ => rfl]
      · simp only [opStep, setHub_hub, if_neg ha, if_neg hb]

/-- A link that goes down takes the frames on it. A way over another link stays. -/
theorem linkDown_inv (h : OpInv legs m) {a b : Str} (hok : OpStepOk legs m (.linkDown a b)) :
    OpInv legs (opStep m (.linkDown a b)) := by
  -- a link that stays up keeps its frames and its connections
  have hwire : ∀ x y, ¬ LinkEnds a b x y → (opStep m (.linkDown a b)).wire x y = m.wire x y := by
    intro x y hne
    simp only [opStep, setHub_wire]
    exact if_neg hne
  have hlink : ∀ x k, ¬ LinkEnds a b x k → (peerClient (m.hub x) k).isSome →
      (peerClient ((opStep m (.linkDown a b)).hub x) k).isSome := by
    intro x k hne hk
    obtain ⟨keep, hclients, -, hkeep, -⟩ := linkDown_hub m a b x
    refine peerClient_mono (fun c hc _ hid => ?_) hk
    rw [hclients]
    exact List.mem_filter.mpr ⟨hc, hkeep c (hid ▸ hne)⟩
  have hback : ∀ {x k}, ¬ LinkEnds a b x k → ¬ LinkEnds a b k x := fun hne hends =>
    hne (hends.elim (fun h => .inr ⟨h.2, h.1⟩) fun h => .inl ⟨h.2, h.1⟩)
  -- what each part of the invariant needs
  refine h.of_fewer (fun y i p hp _ => ?_) (fun y p _ hp => ?_) (fun y p c hp _ hc hbot => ?_)
    (fun _ hr => hr) (fun y => ?_) (fun y => ?_) (fun _ ht => ht) (fun _ ht => .inl ht)
    (fun _ ht => .inl ht)
  · obtain ⟨-, -, -, -, heq⟩ := linkDown_hub m a b y
    rw [heq] at hp
    exact hp
  -- the step breaks no way over this link, so the way is over another one
  · obtain ⟨w, hw, hspared⟩ := h.spared hok hp
    have hne : ¬ LinkEnds a b y w.peer := by
      cases w with
      | going k s f => exact hspared
      | coming k s => exact hspared
    refine ⟨w, hw.mono (fun u v huv s hs => ?_) (hlink y w.peer hne) (fun k s f hwk ht => ?_) rfl⟩
    · rw [hwire u v]
      · exact hs
      · rcases huv with ⟨rfl, rfl⟩ | ⟨rfl, rfl⟩
        · exact hne
        · exact hback hne
    · subst hwk
      obtain ⟨keep, hclients, hkeep, -, heq⟩ := linkDown_hub m a b k
      refine ht.mono (fun t hbot hroom => ⟨t, ?_, hroom⟩) (fun hun => ?_) (fun htime => htime)
        (hlink k y (hback hne))
      · unfold botClient
        rw [hclients]
        refine find?_filter_of_some hbot (hkeep t fun htyp => ?_)
        cases (botClient_spec hbot).2.1.symm.trans htyp
      · rw [heq]
        exact hun
  · obtain ⟨keep, hclients, -⟩ := linkDown_hub m a b y
    obtain ⟨hmem, hfd⟩ := clientByFd_spec hc
    rw [hclients] at hmem
    refine ⟨c, ?_, hbot, rfl⟩
    rw [← hfd]
    exact clientByFd_of_mem (h.conns y).fds (List.mem_filter.mp hmem).1
  · obtain ⟨keep, hclients, -, -, heq⟩ := linkDown_hub m a b y
    have hsub : ((opStep m (.linkDown a b)).hub y).clients.Sublist (m.hub y).clients :=
      hclients ▸ List.filter_sublist
    refine ⟨(h.conns y).fds.sublist (hsub.map _), fun c hc => ?_⟩
    rw [heq]
    exact (h.conns y).serials c (hsub.subset hc)
  -- the serials stay as they are
  · obtain ⟨-, -, -, -, heq⟩ := linkDown_hub m a b y
    rw [heq]

/-- A clock moves, in either direction. What a frame may take on its link bounds it. -/
theorem clock_inv (h : OpInv legs m) {now : Int} (hok : OpStepOk legs m (.clock x now)) :
    OpInv legs (opStep m (.clock x now)) := by
  have hclock : ∀ y, (opStep m (.clock x now)).clock y = if y = x then now else m.clock y :=
    fun _ => rfl
  refine h.of_fewer (fun _ _ _ hp _ => hp) (fun y p _ hp => ?_)
    (fun _ _ c _ _ hc hbot => ⟨c, hc, hbot, rfl⟩) (fun _ hr => hr) h.conns
    (fun _ => Nat.le_refl _) (fun _ ht => ht) (fun _ ht => .inl ht) (fun _ ht => .inl ht)
  obtain ⟨w, hw, hspared⟩ := h.spared hok hp
  cases w with
  | going k s f =>
    obtain ⟨hl, hs, hask, hid, ht, hsent, hleg⟩ := hw
    refine ⟨.going k s f, hl, hs, hask, hid, ⟨ht.plain, ht.target, ht.unseen, ?_, ht.linked⟩,
      hsent, ?_⟩
    · rw [hclock]
      split
      · rename_i hk
        exact Bool.eq_false_iff.mpr fun hexp => hspared (.inl ⟨hk.symm, hexp⟩)
      · exact ht.inTime
    · rw [hclock]
      split
      · rename_i hy
        exact Int.not_lt.mp fun hlt => hspared (.inr ⟨hy.symm, hlt⟩)
      · exact hleg
  | coming k s =>
    obtain ⟨hl, hs, hans, hasked, hleg⟩ := hw
    refine ⟨.coming k s, hl, hs, hans, hasked, ?_⟩
    rw [hclock]
    split
    · rename_i hy
      exact Int.not_lt.mp fun hlt => hspared ⟨hy.symm, hlt⟩
    · exact hleg

end IrcHub.Proofs
