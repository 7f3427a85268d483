import IrcHub.Hub.Link
import Mathlib.Data.List.Nodup

/-!
# `IrcHub.Proofs.Link.Sequence`: a numbered link delivers a prefix

The network may drop, repeat, reorder and reflect frames. An end whose numbers are on still
accepts only the next frame of the other end: the number is the associated data, and the direction
byte keeps an end's own frames away from it.

* `encryptIntoWriting_cases`, `openFrame_cases`: what sealing and opening can do
* `SideOk`, `LinkInv`: what every event keeps. The counters of an end count its logs, and what an
  end accepted is a prefix of what the other end sealed.
* `LinkInv.next`: the frame with the number an end waits for is the next one of the other's log
* `link_delivers_prefix`: the result, over every run of queueing, dropping, sealing, delivering
  and closing

Sealing is modelled by its contract: a frame opens if and only if it was sealed with the same
associated data, so an adversary can replay frames and cannot make one. Frames from before the go
carry no number and are in no log.
-/

set_option autoImplicit false

namespace IrcHub.Proofs

open IrcHub.Hub Str Channel

/-! ### The associated data -/

/-- Sealed frames of a link in sequence always have something bound to them. -/
theorem linkAad_ne_nil (dir ctr : Nat) : linkAad dir ctr ≠ [] := by
  rw [linkAad]
  exact fun h => List.cons_ne_nil _ _ (List.append_eq_nil_iff.mp h).2

/-- The associated data tells the direction and the number. -/
theorem linkAad_inj {dir dir' ctr ctr' : Nat} (hctr : ctr < 256 ^ 8) (hctr' : ctr' < 256 ^ 8)
    (h : linkAad dir ctr = linkAad dir' ctr') : dir = dir' ∧ ctr = ctr' := by
  have htail := List.append_cancel_left h
  rw [List.cons.injEq] at htail
  exact ⟨htail.1, beBytes_inj hctr hctr' htail.2⟩

/-! ### Sealing and opening -/

/-- An end that kept its directions and counters, and did not stop checking numbers. Most steps
leave an end so, and then its part of the invariant is unchanged. -/
structure Quiet (e e' : LinkEnd) : Prop where
  dirTx : e'.dirTx = e.dirTx
  dirRx : e'.dirRx = e.dirRx
  txCtr : e'.txCtr = e.txCtr
  rxCtr : e'.rxCtr = e.rxCtr
  rxSeq : e.rxSeq = true → e'.rxSeq = true

/-- An end that stays as it is. -/
theorem Quiet.refl (e : LinkEnd) : Quiet e e := ⟨rfl, rfl, rfl, rfl, id⟩

/-- Quiet steps after each other. -/
theorem Quiet.trans {e e' e'' : LinkEnd} (h : Quiet e e') (h' : Quiet e' e'') : Quiet e e'' :=
  ⟨h'.dirTx.trans h.dirTx, h'.dirRx.trans h.dirRx, h'.txCtr.trans h.txCtr, h'.rxCtr.trans h.rxCtr,
    fun hseq => h'.rxSeq (h.rxSeq hseq)⟩

/-- Sealing loses the frame, or leaves it without a number, or numbers it. It is lost when it does
not fit the buffer or the counter is used up, and the link closes. -/
theorem encryptIntoWriting_cases (e : LinkEnd) (m : LinkMsg) :
    ((encryptIntoWriting e m).2 = none ∧ Quiet e (encryptIntoWriting e m).1)
      ∨ (e.txSeq = false ∧ (encryptIntoWriting e m).2 = some ⟨[], m⟩
        ∧ Quiet e (encryptIntoWriting e m).1)
      ∨ (e.txSeq = true ∧ e.txCtr + 1 < 256 ^ 8
        ∧ encryptIntoWriting e m
          = ({ e with txCtr := e.txCtr + 1 }, some ⟨linkAad e.dirTx e.txCtr, m⟩)) := by
  unfold encryptIntoWriting
  split
  · exact Or.inl ⟨rfl, Quiet.refl e⟩
  split
  · exact Or.inl ⟨rfl, Quiet.refl e⟩
  split
  · rename_i hseq
    split
    · rename_i hctr
      exact Or.inr (Or.inr ⟨hseq, hctr, rfl⟩)
    · exact Or.inl ⟨rfl, rfl, rfl, rfl, rfl, id⟩
  · rename_i hseq
    have hoff : e.txSeq = false := Bool.eq_false_iff.mpr hseq
    split
    · exact Or.inr (Or.inl ⟨hoff, rfl, rfl, rfl, rfl, rfl, id⟩)
    · exact Or.inr (Or.inl ⟨hoff, rfl, Quiet.refl e⟩)

/-- An offer or a go does not touch the counter of an end that checks numbers, and starts it at 0
if the end did not. -/
theorem linkSeqRecv_quiet {e : LinkEnd} (h : e.rxSeq = false → e.rxCtr = 0) (what : Str) :
    Quiet e (linkSeqRecv e what) := by
  unfold linkSeqRecv
  split
  · show Quiet e (if e.goQueued then _ else _)
    split
    · exact ⟨rfl, rfl, rfl, rfl, id⟩
    · exact ⟨rfl, rfl, rfl, rfl, id⟩
  split
  · rename_i hgo
    have hoff : e.rxSeq = false := by
      rw [Bool.and_eq_true, Bool.not_eq_true'] at hgo
      exact hgo.2
    exact ⟨rfl, rfl, rfl, (h hoff).symm, fun _ => rfl⟩
  · exact Quiet.refl e

/-- A frame is refused, or opens without a number, or is the next frame of the other direction. -/
theorem openFrame_cases {e : LinkEnd} (h : e.rxSeq = false → e.rxCtr = 0) (wire : List Frame)
    (f : Frame) :
    ((openFrame wire e f).2 = false ∧ Quiet e (openFrame wire e f).1)
      ∨ ((openFrame wire e f).2 = true ∧ e.rxSeq = false ∧ Quiet e (openFrame wire e f).1)
      ∨ ((openFrame wire e f).2 = true ∧ e.rxSeq = true ∧ f ∈ wire
        ∧ f.aad = linkAad e.dirRx e.rxCtr
        ∧ e.rxCtr + 1 < 256 ^ 8
        ∧ Quiet { e with rxCtr := e.rxCtr + 1 } (openFrame wire e f).1) := by
  unfold openFrame
  extract_lets aad e'
  split
  · exact Or.inl ⟨rfl, rfl, rfl, rfl, rfl, id⟩
  rename_i hopen
  rw [not_or, not_not, not_not] at hopen
  split
  · exact Or.inl ⟨rfl, rfl, rfl, rfl, rfl, id⟩
  rename_i hctr
  by_cases hseq : e.rxSeq = true
  · right; right
    have he : e' = { e with rxCtr := e.rxCtr + 1 } := if_pos hseq
    have haad : aad = linkAad e.dirRx e.rxCtr := if_pos hseq
    have hlt : e.rxCtr + 1 < 256 ^ 8 := by
      rw [hseq, Bool.true_and, decide_eq_true_eq] at hctr
      exact Nat.not_le.mp hctr
    have hon : e'.rxSeq = false → e'.rxCtr = 0 := by
      intro hoff
      rw [he] at hoff
      rw [hseq] at hoff
      cases hoff
    split
    · refine ⟨rfl, hseq, hopen.1, hopen.2.trans haad, hlt, ?_⟩
      rw [← he]
      exact linkSeqRecv_quiet hon _
    · refine ⟨rfl, hseq, hopen.1, hopen.2.trans haad, hlt, ?_⟩
      rw [← he]
      exact Quiet.refl _
  · right; left
    have hoff : e.rxSeq = false := Bool.eq_false_iff.mpr hseq
    have he : e' = e := if_neg hseq
    rw [he]
    split
    · exact ⟨rfl, hoff, linkSeqRecv_quiet h _⟩
    · exact ⟨rfl, hoff, Quiet.refl e⟩

/-! ### What every event keeps -/

/-- The side that changed. -/
@[simp] theorem side_put_self (n : LinkNet) (s : Side) (x : LinkSide) :
    (n.put s x).side s = x := by
  cases s <;> rfl

/-- The other did not. -/
@[simp] theorem side_put_other (n : LinkNet) (s : Side) (x : LinkSide) :
    (n.put s x).side s.other = n.side s.other := by
  cases s <;> rfl

/-- Nothing went over the wire by that. -/
@[simp] theorem wire_put (n : LinkNet) (s : Side) (x : LinkSide) : (n.put s x).wire = n.wire := by
  cases s <;> rfl

/-- There are two sides. -/
theorem Side.eq_or_eq_other (s t : Side) : t = s ∨ t = s.other := by
  cases s <;> cases t <;> decide

/-- The other of the other is the side itself. -/
@[simp] theorem Side.other_other (s : Side) : s.other.other = s := by
  cases s <;> rfl

/-- An end and its logs: the frames it sealed have their numbers, and the counters count the logs.
The two directions differ, which keeps a reflected frame from opening. -/
structure SideOk (x : LinkSide) : Prop where
  dirs : x.state.dirTx ≠ x.state.dirRx
  sent : x.state.txCtr = x.sealedLog.length
  sentLt : x.state.txCtr < 256 ^ 8
  numbers : ∀ i f, x.sealedLog[i]? = some f → f.aad = linkAad x.state.dirTx i
  taken : x.state.rxCtr = x.acceptedLog.length
  takenLt : x.state.rxCtr < 256 ^ 8
  takenOff : x.state.rxSeq = false → x.acceptedLog = []

/-- A link: a frame with associated data is one of a log, and what an end accepted is a prefix of
what the other sealed. -/
structure LinkInv (n : LinkNet) : Prop where
  sides : ∀ s, SideOk (n.side s)
  wire : ∀ f ∈ n.wire, f.aad = [] ∨ ∃ s, f ∈ (n.side s).sealedLog
  agree : ∀ s, (n.side s).acceptedLog <+: (n.side s.other).sealedLog

/-- An end that does not check sequence numbers has counted none. -/
theorem SideOk.rxCtr_zero {x : LinkSide} (h : SideOk x) (hoff : x.state.rxSeq = false) :
    x.state.rxCtr = 0 := by
  rw [h.taken, h.takenOff hoff, List.length_nil]

/-- A quiet step keeps a side sound. -/
theorem SideOk.quiet {x : LinkSide} (h : SideOk x) {e : LinkEnd} (hq : Quiet x.state e) :
    SideOk { x with state := e } where
  dirs := by rw [hq.dirTx, hq.dirRx]; exact h.dirs
  sent := by rw [hq.txCtr]; exact h.sent
  sentLt := by rw [hq.txCtr]; exact h.sentLt
  numbers := by rw [hq.dirTx]; exact h.numbers
  taken := by rw [hq.rxCtr]; exact h.taken
  takenLt := by rw [hq.rxCtr]; exact h.takenLt
  takenOff := by
    intro hoff
    refine h.takenOff (Bool.eq_false_iff.mpr fun hseq => ?_)
    rw [hq.rxSeq hseq] at hoff
    cases hoff

/-- One more numbered frame: the log and the counter grow by one. -/
theorem SideOk.seal {x : LinkSide} (h : SideOk x) (hctr : x.state.txCtr + 1 < 256 ^ 8)
    (m : LinkMsg) (queued : List LinkMsg) :
    SideOk
      { x with
        state := { x.state with txCtr := x.state.txCtr + 1, queued := queued }
        sealedLog := x.sealedLog ++ [⟨linkAad x.state.dirTx x.state.txCtr, m⟩] } where
  dirs := h.dirs
  sent := by
    rw [List.length_append, List.length_singleton, h.sent]
  sentLt := hctr
  numbers := by
    intro i f hf
    rw [List.getElem?_append] at hf
    split at hf
    · exact h.numbers i f hf
    · rename_i hi
      have hzero : i - x.sealedLog.length = 0 := by
        cases hsub : i - x.sealedLog.length with
        | zero => rfl
        | succ k => rw [hsub] at hf; cases hf
      rw [hzero] at hf
      rw [← Option.some.inj hf]
      show linkAad _ x.state.txCtr = linkAad _ i
      rw [h.sent]
      congr 1
      omega
  taken := h.taken
  takenLt := h.takenLt
  takenOff := h.takenOff

/-- One more accepted frame: the log and the counter grow by one. -/
theorem SideOk.accept {x : LinkSide} (h : SideOk x) (hctr : x.state.rxCtr + 1 < 256 ^ 8)
    (hseq : x.state.rxSeq = true) (f : Frame) :
    SideOk
      { x with
        state := { x.state with rxCtr := x.state.rxCtr + 1 }
        acceptedLog := x.acceptedLog ++ [f] } where
  dirs := h.dirs
  sent := h.sent
  sentLt := h.sentLt
  numbers := h.numbers
  taken := by rw [List.length_append, List.length_singleton, h.taken]
  takenLt := hctr
  takenOff := by
    intro hoff
    rw [hseq] at hoff
    cases hoff

/-- An end changed, with the same logs. The other end and the wire are not looked at again. -/
theorem LinkInv.put {n : LinkNet} (h : LinkInv n) {s : Side} {x : LinkSide} (hx : SideOk x)
    (hsealed : x.sealedLog = (n.side s).sealedLog)
    (haccepted : x.acceptedLog = (n.side s).acceptedLog) :
    LinkInv (n.put s x) := by
  have hlogs : ∀ t, ((n.put s x).side t).sealedLog = (n.side t).sealedLog
      ∧ ((n.put s x).side t).acceptedLog = (n.side t).acceptedLog := by
    intro t
    rcases Side.eq_or_eq_other s t with rfl | rfl
    · rw [side_put_self]
      exact ⟨hsealed, haccepted⟩
    · rw [side_put_other]
      exact ⟨rfl, rfl⟩
  refine ⟨?_, ?_, ?_⟩
  · intro t
    rcases Side.eq_or_eq_other s t with rfl | rfl
    · rw [side_put_self]
      exact hx
    · rw [side_put_other]
      exact h.sides _
  · intro f hf
    rw [wire_put] at hf
    refine (h.wire f hf).imp id ?_
    rintro ⟨t, ht⟩
    exact ⟨t, by rw [(hlogs t).1]; exact ht⟩
  · intro t
    rw [(hlogs t).2, (hlogs t.other).1]
    exact h.agree t

/-- One more frame on the wire: a plain one, or one of a log. -/
theorem LinkInv.onWire {n : LinkNet} (h : LinkInv n) {f : Frame}
    (hf : f.aad = [] ∨ ∃ s, f ∈ (n.side s).sealedLog) :
    LinkInv { n with wire := n.wire ++ [f] } := by
  have hside : ∀ t, LinkNet.side { n with wire := n.wire ++ [f] } t = n.side t := by
    intro t
    cases t <;> rfl
  refine ⟨?_, ?_, ?_⟩
  · intro t
    rw [hside]
    exact h.sides t
  · intro g hg
    simp only [hside]
    rcases List.mem_append.mp hg with hg | hg
    · exact h.wire g hg
    · rw [List.mem_singleton.mp hg]
      exact hf
  · intro t
    rw [hside, hside]
    exact h.agree t

/-- An end sealed a numbered frame: its log grows at the end, so prefixes of it stay prefixes. -/
theorem LinkInv.sealed {n : LinkNet} (h : LinkInv n) {s : Side} {x : LinkSide}
    (hx : SideOk x) {f : Frame} (hsealed : x.sealedLog = (n.side s).sealedLog ++ [f])
    (haccepted : x.acceptedLog = (n.side s).acceptedLog) : LinkInv (n.put s x) := by
  refine ⟨?_, ?_, ?_⟩
  · intro t
    rcases Side.eq_or_eq_other s t with rfl | rfl
    · rw [side_put_self]
      exact hx
    · rw [side_put_other]
      exact h.sides _
  · intro g hg
    rw [wire_put] at hg
    refine (h.wire g hg).imp id ?_
    rintro ⟨t, ht⟩
    refine ⟨t, ?_⟩
    rcases Side.eq_or_eq_other s t with rfl | rfl
    · rw [side_put_self, hsealed]
      exact List.mem_append_left _ ht
    · rwa [side_put_other]
  · intro t
    rcases Side.eq_or_eq_other s t with rfl | rfl
    · rw [side_put_self, side_put_other, haccepted]
      exact h.agree t
    · rw [side_put_other, Side.other_other, side_put_self, hsealed]
      have hagree := h.agree s.other
      rw [Side.other_other] at hagree
      exact hagree.trans (List.prefix_append _ _)

/-- The frame with the number an end waits for is the next one of the other end's log. It is on
the wire, so it is in a log; by its direction it is not in the end's own; by its number it is at
that place of the other one. -/
theorem LinkInv.next {n : LinkNet} (h : LinkInv n) {s : Side} {f : Frame} (hwire : f ∈ n.wire)
    (haad : f.aad = linkAad (n.side s).state.dirRx (n.side s).state.rxCtr) :
    (n.side s.other).sealedLog[(n.side s).acceptedLog.length]? = some f := by
  rcases h.wire f hwire with hnil | ⟨t, ht⟩
  · exact absurd (haad.symm.trans hnil) (linkAad_ne_nil _ _)
  obtain ⟨i, hi⟩ := List.getElem?_of_mem ht
  have hlen : i < (n.side t).sealedLog.length := (List.getElem?_eq_some_iff.mp hi).1
  have hlt : i < 256 ^ 8 := by
    have := (h.sides t).sentLt
    rw [(h.sides t).sent] at this
    omega
  have heq := ((h.sides t).numbers i f hi).symm.trans haad
  obtain ⟨hdir, hctr⟩ := linkAad_inj hlt (h.sides s).takenLt heq
  rw [(h.sides s).taken] at hctr
  rcases Side.eq_or_eq_other s t with rfl | rfl
  · -- an end's own frame, sent back to it, has the wrong direction byte
    exact absurd hdir (h.sides t).dirs
  · rw [← hctr]
    exact hi

/-- An end accepted the next frame, so what it accepted is a prefix that is longer by one. -/
theorem LinkInv.accepted {n : LinkNet} (h : LinkInv n) {s : Side} {x : LinkSide}
    (hx : SideOk x) {f : Frame} (hsealed : x.sealedLog = (n.side s).sealedLog)
    (haccepted : x.acceptedLog = (n.side s).acceptedLog ++ [f])
    (hnext : (n.side s.other).sealedLog[(n.side s).acceptedLog.length]? = some f) :
    LinkInv (n.put s x) := by
  have hlog : ∀ t, ((n.put s x).side t).sealedLog = (n.side t).sealedLog := by
    intro t
    rcases Side.eq_or_eq_other s t with rfl | rfl
    · rw [side_put_self, hsealed]
    · rw [side_put_other]
  refine ⟨?_, ?_, ?_⟩
  · intro t
    rcases Side.eq_or_eq_other s t with rfl | rfl
    · rw [side_put_self]
      exact hx
    · rw [side_put_other]
      exact h.sides _
  · intro g hg
    rw [wire_put] at hg
    refine (h.wire g hg).imp id ?_
    rintro ⟨t, ht⟩
    exact ⟨t, by rwa [hlog]⟩
  · intro t
    rw [hlog]
    rcases Side.eq_or_eq_other s t with rfl | rfl
    · rw [side_put_self, haccepted]
      exact prefix_concat_next (h.agree t) hnext
    · rw [side_put_other]
      exact h.agree s.other

/-- Sending the next message in the queue keeps the invariant: it gets the next number. -/
theorem LinkInv.drain {n : LinkNet} (h : LinkInv n) (s : Side) (i : Nat) :
    LinkInv (n.drain s i) := by
  unfold LinkNet.drain
  cases hm : (n.side s).state.queued[i]? with
  | none => exact h
  | some m =>
    have hx := h.sides s
    have hpop : Quiet (n.side s).state ((n.side s).state.unqueue i) := ⟨rfl, rfl, rfl, rfl, id⟩
    show LinkInv (n.sealAt s (encryptIntoWriting ((n.side s).state.unqueue i) m))
    rcases encryptIntoWriting_cases ((n.side s).state.unqueue i) m with
      ⟨hf, hq⟩ | ⟨hoff, hf, hq⟩ | ⟨hseq, hctr, heq⟩
    · unfold LinkNet.sealAt
      rw [hf]
      exact h.put (hx.quiet (hpop.trans hq)) rfl rfl
    · -- not numbered yet: nothing of the logs changes
      have hoff' : (n.side s).state.txSeq = false := hoff
      simp only [LinkNet.sealAt, hf, hoff', Bool.false_eq_true, if_false]
      exact LinkInv.onWire (h.put (hx.quiet (hpop.trans hq)) rfl rfl) (Or.inl rfl)
    · have hseq' : (n.side s).state.txSeq = true := hseq
      rw [heq]
      simp only [LinkNet.sealAt, hseq', if_true]
      refine LinkInv.onWire (h.sealed (hx.seal hctr m _) rfl rfl) (Or.inr ⟨s, ?_⟩)
      rw [side_put_self]
      exact List.mem_append_right _ (List.mem_singleton.mpr rfl)

/-- A frame that arrives is the next one or is dropped with the link. -/
theorem LinkInv.deliver {n : LinkNet} (h : LinkInv n) (s : Side) (f : Frame) :
    LinkInv (n.deliver s f) := by
  unfold LinkNet.deliver
  extract_lets x r
  have hx : SideOk x := h.sides s
  rcases openFrame_cases (fun hoff => hx.rxCtr_zero hoff) n.wire f with
    ⟨hr, hq⟩ | ⟨hr, hoff, hq⟩ | ⟨hr, hseq, hwire, haad, hctr, hq⟩
  · have hlog : (r.2 && x.state.rxSeq) = false := by rw [show r.2 = false from hr, Bool.false_and]
    rw [hlog, if_neg Bool.false_ne_true]
    exact h.put (hx.quiet hq) rfl rfl
  · have hlog : (r.2 && x.state.rxSeq) = false := by rw [hoff, Bool.and_false]
    rw [hlog, if_neg Bool.false_ne_true]
    exact h.put (hx.quiet hq) rfl rfl
  · have hlog : (r.2 && x.state.rxSeq) = true := by rw [hseq, Bool.and_true]; exact hr
    rw [hlog, if_pos rfl]
    exact h.accepted ((hx.accept hctr hseq f).quiet hq) rfl rfl (h.next hwire haad)

/-- Every event keeps the invariant. -/
theorem LinkInv.stepAt {n : LinkNet} (h : LinkInv n) (ev : LinkEvent) :
    LinkInv (n.stepAt ev) := by
  cases ev with
  | queue s m => exact h.put ((h.sides s).quiet ⟨rfl, rfl, rfl, rfl, id⟩) rfl rfl
  | drop s i => exact h.put ((h.sides s).quiet ⟨rfl, rfl, rfl, rfl, id⟩) rfl rfl
  | drain s i => exact h.drain s i
  | deliver s f => exact h.deliver s f
  | close s => exact h.put ((h.sides s).quiet ⟨rfl, rfl, rfl, rfl, id⟩) rfl rfl

/-- The two ends of a new link send in their own directions. Between hubs the lower uuid decides
which is which; a bot takes those of its hub the other way. -/
theorem linkInv_start (kind : LinkKind) (cap cap' : Nat) (early : List LinkMsg) :
    LinkInv (linkStart kind cap cap' early) := by
  have hstart : ∀ e : LinkEnd, e.dirTx ≠ e.dirRx → e.txCtr = 0 → e.rxCtr = 0 →
    SideOk { state := e } := by
    intro e hdirs htx hrx
    refine ⟨hdirs, htx, ?_, ?_, hrx, ?_, fun _ => rfl⟩
    · rw [htx]
      decide
    · intro i f hf
      cases hf
    · rw [hrx]
      decide
  have hdirs : ∀ typ uuid peerUuid cap, (linkOffer typ uuid peerUuid cap).dirTx
      ≠ (linkOffer typ uuid peerUuid cap).dirRx := by
    intro typ uuid peerUuid cap
    cases typ with
    | hub =>
      unfold linkOffer
      extract_lets lower dirs
      show dirs.1.toNat ≠ dirs.2.toNat
      cases hlower : lower with
      | true =>
        have hdirs : dirs = ('L', 'G') := if_pos hlower
        rw [hdirs]
        decide
      | false =>
        have hdirs : dirs = ('G', 'L') := if_neg (Bool.eq_false_iff.mp hlower)
        rw [hdirs]
        decide
    | bot => exact (by decide : 'H'.toNat ≠ 'B'.toNat)
    | admin => exact (by decide : 'H'.toNat ≠ 'B'.toNat)
  have hearly : ∀ f ∈ early.map (Frame.mk []), f.aad = [] := by
    intro f hf
    obtain ⟨m, -, rfl⟩ := List.mem_map.mp hf
    rfl
  cases kind with
  | hubs uuid peerUuid uuid' peerUuid' =>
    refine ⟨fun t => ?_, fun f hf => Or.inl (hearly f hf), fun t => ?_⟩
    · cases t <;> exact hstart _ (hdirs _ _ _ _) rfl rfl
    · cases t <;> exact List.nil_prefix
  | bot hubUuid =>
    refine ⟨fun t => ?_, fun f hf => Or.inl (hearly f hf), fun t => ?_⟩
    · cases t with
      | dialler =>
        refine hstart _ ?_ rfl rfl
        exact (hdirs .bot hubUuid none cap').symm
      | listener => exact hstart _ (hdirs _ _ _ _) rfl rfl
    · cases t <;> exact List.nil_prefix

/-- The invariant holds after every run, by induction from its end. -/
theorem linkInv_run (kind : LinkKind) (cap cap' : Nat) (early : List LinkMsg)
    (evs : List LinkEvent) :
    LinkInv ((linkStart kind cap cap' early).run evs) := by
  unfold LinkNet.run
  refine List.foldlRecOn (motive := LinkInv) evs _ (linkInv_start kind cap cap' early) ?_
  intro n hn ev _
  unfold LinkNet.step
  split
  · exact hn.stepAt ev
  · exact hn

/-- Numbered frames differ: each has its own number. -/
theorem SideOk.nodup {x : LinkSide} (h : SideOk x) : x.sealedLog.Nodup := by
  rw [List.nodup_iff_getElem?_ne_getElem?]
  intro i j hij hj heq
  have hget : x.sealedLog[j]? = some x.sealedLog[j] := List.getElem?_eq_getElem hj
  have hlen := h.sent ▸ h.sentLt
  have hnum := (h.numbers i _ (heq.trans hget)).symm.trans (h.numbers j _ hget)
  have := (linkAad_inj (by omega) (by omega) hnum).2
  omega

/-- Whatever is queued, dropped and sealed at the two ends, and whatever the network hands over:
what an end accepted since a go is a prefix of what the other sealed after its go, without
repetitions. -/
theorem link_delivers_prefix (kind : LinkKind) (cap cap' : Nat) (early : List LinkMsg)
    (evs : List LinkEvent) (s : Side) :
    let n := (linkStart kind cap cap' early).run evs
    (n.side s).acceptedLog <+: (n.side s.other).sealedLog ∧ (n.side s).acceptedLog.Nodup := by
  intro n
  have h : LinkInv n := linkInv_run kind cap cap' early evs
  exact ⟨h.agree s, ((h.sides s.other).nodup).sublist (h.agree s).sublist⟩

/-- The offers and one go, two numbered frames, and the first of them twice: the second copy ends
the link. -/
example :
    let offer : Frame := ⟨[], cmdLinkSeq, "offer".toList⟩
    let first : Frame := ⟨linkAad 'L'.toNat 0, 5, "x".toList⟩
    let n := (linkStart (.hubs "a".toList "b".toList "b".toList "a".toList) 1000 1000 []).run
      [.drain .dialler 0, .drain .listener 0, .deliver .listener offer, .deliver .dialler offer,
        .drain .dialler 0, .deliver .listener ⟨[], cmdLinkSeq, "go".toList⟩,
        .queue .dialler ⟨5, "x".toList⟩, .drain .dialler 0, .queue .dialler ⟨5, "y".toList⟩,
        .drain .dialler 0, .deliver .listener first, .deliver .listener first]
    n.listener.acceptedLog = [first] ∧ n.dialler.sealedLog.length = 2
      ∧ n.listener.state.live = false := by
  decide +kernel

end IrcHub.Proofs
