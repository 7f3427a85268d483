import IrcHub.Hub.Queue
import IrcHub.Lib.Fifo
import Mathlib.Data.List.Induction

/-!
# `IrcHub.Proofs.Queue`: the outbound queue accounts for every message

Each step of the queue changes one lane by one event of a queue (`Exact.change`): a message goes
in at the end, gets the payload of another, or comes out at the front. So the counters are the
sums of what waits, no difference is below zero, and each lane lets its messages out in order.

* `Exact`: every counter is the sum it stands for, and every lane is a queue
* `enqueue_ok`, `drainWritable_ok`, `queueDestroy_ok`: what each operation keeps
* `run_accounts`: the accounts of a whole run, and that what was brought into the lanes is what
  the calls of `enqueue` were accepted with
* `run_capped_iff`: the byte cap holds throughout a run exactly when every message of it makes
  room for itself
* `run_over_cap`: a run that passes the cap

The arithmetic of the model is checked, so that each of these results also says that no counter
over- or underflows. The socket is a parameter: a drain is given the outcome of every send.
-/

set_option autoImplicit false

namespace IrcHub.Proofs

open IrcHub.Hub IrcHub.Hub.OutQueue

/-! ### Sizes -/

/-- Bytes of the payloads of some messages. -/
def lenSum (msgs : List QueuedMsg) : Nat := (msgs.map QueuedMsg.len).sum

/-- No messages, no bytes. -/
@[simp] theorem lenSum_nil : lenSum [] = 0 := rfl

/-- One message more. -/
@[simp] theorem lenSum_cons (m : QueuedMsg) (msgs : List QueuedMsg) :
    lenSum (m :: msgs) = m.len + lenSum msgs := by
  simp [lenSum]

/-- Messages behind others. -/
@[simp] theorem lenSum_append (a b : List QueuedMsg) : lenSum (a ++ b) = lenSum a + lenSum b := by
  simp [lenSum]

/-- A message takes as much as a bulk one may at most. -/
theorem lenSum_le (msgs : List QueuedMsg) : lenSum msgs ≤ msgs.length * maxBulkPayload := by
  induction msgs with
  | nil => exact Nat.zero_le _
  | cons m msgs ih =>
    have hm : m.len ≤ maxBulkPayload := m.fits
    rw [lenSum_cons, List.length_cons, Nat.add_mul, Nat.one_mul]
    omega

/-- Bytes of all that waits. -/
def allLen (lanes : Lane → QueueLane) : Nat := (Lane.all.map fun l => lenSum (lanes l).msgs).sum

/-- The bytes of all lanes. -/
theorem allLen_eq (lanes : Lane → QueueLane) :
    allLen lanes = lenSum (lanes .urgent).msgs + lenSum (lanes .delta).msgs + lenSum
      (lanes .bulk).msgs := by
  simp [allLen, Lane.all, Nat.add_assoc]

/-- They change by what the lane changes. -/
theorem allLen_update (lanes : Lane → QueueLane) (l : Lane) (x : QueueLane) :
    allLen (Function.update lanes l x) + lenSum (lanes l).msgs = allLen lanes
      + lenSum x.msgs := by
  rw [allLen_eq, allLen_eq]
  cases l
  all_goals simp [Function.update]
  all_goals omega

/-! ### Events of a lane -/

/-- The lane of an event's message. A message that is coalesced takes the place of one of its own
lane. -/
def eventLane : QueueEvent → Lane
  | .queued m | .dropped m | .left m | .destroyed m => m.lane
  | .coalesced old _ => old.lane

/-- An event as one of a queue, so that the library's rules for queues apply. -/
def eventFifo : QueueEvent → Fifo.Ev QueuedMsg
  | .queued m => .push m
  | .coalesced old new => .replace old new
  | .dropped m | .left m | .destroyed m => .pop m

/-- What happened on a lane. -/
def laneEvents (l : Lane) (trace : List QueueEvent) : List (Fifo.Ev QueuedMsg) :=
  (trace.filter (eventLane · = l)).map eventFifo

/-- One event more, in its lane. -/
theorem laneEvents_concat (l : Lane) (trace : List QueueEvent) (e : QueueEvent) :
    laneEvents l (trace ++ [e]) = laneEvents l trace ++ (if eventLane e = l then [eventFifo e]
      else []) := by
  unfold laneEvents
  rw [List.filter_append, List.map_append]
  by_cases h : eventLane e = l <;> simp [h]

/-- The payload an event brought into the queue: a message went in with it, or gave it to one that
waits. -/
def broughtIn : QueueEvent → Option (List UInt8)
  | .queued m => some m.payload
  | .coalesced _ new => some new.payload
  | .dropped _ | .left _ | .destroyed _ => none

/-- What was ever brought into a queue, in order. -/
def entered (c : OutQueue) : List (List UInt8) := c.trace.filterMap broughtIn

/-- One event more brings in what it brings in. -/
theorem entered_concat {c c' : OutQueue} {e : QueueEvent} (h : c'.trace = c.trace ++ [e]) :
    entered c' = entered c ++ (broughtIn e).toList := by
  unfold entered
  rw [h, List.filterMap_append]
  cases hin : broughtIn e with
  | none => rw [List.filterMap_cons_none hin, List.filterMap_nil, Option.toList_none]
  | some x => rw [List.filterMap_cons_some hin, List.filterMap_nil, Option.toList_some]

/-! ### The invariant -/

/-- Every counter is the sum it stands for, and every lane is a queue. `kept` says that no urgent
message was dropped to make room. -/
structure Exact (c : OutQueue) : Prop where
  bytes : ∀ l, (c.outLanes l).bytes = lenSum (c.outLanes l).msgs
  total : c.outTotalBytes = allLen c.outLanes
  own : ∀ l, ∀ m ∈ (c.outLanes l).msgs, m.lane = l
  room : ∀ l, (c.outLanes l).msgs.length ≤ maxQueuePerLane
  fifo : ∀ l, Fifo.Run (laneEvents l c.trace) (c.outLanes l).msgs
  kept : ∀ m, QueueEvent.dropped m ∈ c.trace → m.lane ≠ .urgent

/-- Two queues with the same messages, counters and history. -/
structure SameQueue (c c' : OutQueue) : Prop where
  lanes : c'.outLanes = c.outLanes
  total : c'.outTotalBytes = c.outTotalBytes
  trace : c'.trace = c.trace

/-- A queue is the same as itself. -/
theorem SameQueue.refl (c : OutQueue) : SameQueue c c := ⟨rfl, rfl, rfl⟩

/-- Steps that leave the queue compose. -/
theorem SameQueue.trans {a b c : OutQueue} (h : SameQueue a b) (h' : SameQueue b c) :
    SameQueue a c :=
  ⟨h'.lanes.trans h.lanes, h'.total.trans h.total, h'.trace.trans h.trace⟩

/-- Nothing entered where nothing happened. -/
theorem SameQueue.entered {c c' : OutQueue} (h : SameQueue c c') :
    entered c' = Proofs.entered c := by
  unfold Proofs.entered
  rw [h.trace]

/-- Counters that were right stay right. -/
theorem Exact.congr {c c' : OutQueue} (h : Exact c) (hsame : SameQueue c c') : Exact c' := by
  obtain ⟨hlanes, htotal, htrace⟩ := hsame
  constructor
  · rw [hlanes]; exact h.bytes
  · rw [htotal, hlanes]; exact h.total
  · rw [hlanes]; exact h.own
  · rw [hlanes]; exact h.room
  · rw [hlanes, htrace]; exact h.fifo
  · rw [htrace]; exact h.kept

/-- Everything that waits together, with one more message, is a size. This is why no sum
overflows. -/
theorem Exact.small {c : OutQueue} (h : Exact c) (m : QueuedMsg) :
    (∀ l, (c.outLanes l).bytes + m.len < 2 ^ 64) ∧ c.outTotalBytes + m.len < 2 ^ 64 := by
  have hm : m.len ≤ maxBulkPayload := m.fits
  have hbulk : maxBulkPayload * (3 * maxQueuePerLane + 1) < 2 ^ 64 := by decide
  have hlane : ∀ l, lenSum (c.outLanes l).msgs ≤ maxQueuePerLane * maxBulkPayload := fun l =>
    Nat.le_trans (lenSum_le _) (Nat.mul_le_mul_right _ (h.room l))
  generalize maxBulkPayload = bulk at *
  have hcap : maxQueuePerLane = 256 := rfl
  rw [hcap] at hlane hbulk
  constructor
  · intro l
    rw [h.bytes l]
    have := hlane l
    omega
  · rw [h.total, allLen_eq]
    have hu := hlane .urgent
    have hd := hlane .delta
    have hb := hlane .bulk
    omega

/-- One lane changes by one event, and the counters with it. Each operation comes down to this. -/
theorem Exact.change {c c' : OutQueue} {l : Lane} {x : QueueLane} {e : QueueEvent} (h : Exact c)
    (hlanes : c'.outLanes = Function.update c.outLanes l x) (htrace : c'.trace = c.trace ++ [e])
    (hlane : eventLane e = l) (hstep : Fifo.Step (c.outLanes l).msgs (eventFifo e) x.msgs)
    (hbytes : x.bytes = lenSum x.msgs)
    (htotal : c'.outTotalBytes + lenSum (c.outLanes l).msgs = c.outTotalBytes + lenSum x.msgs)
    (hown : ∀ m ∈ x.msgs, m.lane = l) (hroom : x.msgs.length ≤ maxQueuePerLane)
    (hkept : ∀ m, e = .dropped m → m.lane ≠ .urgent) : Exact c' := by
  have hat : c'.outLanes l = x := by rw [hlanes, Function.update_self]
  have hother : ∀ l', l' ≠ l → c'.outLanes l' = c.outLanes l' := fun l' hne => by
    rw [hlanes, Function.update_of_ne hne]
  constructor
  · intro l'
    by_cases hl : l' = l
    · rw [hl, hat, hbytes]
    · rw [hother l' hl, h.bytes]
  · have hsum := allLen_update c.outLanes l x
    have htot := h.total
    rw [hlanes]
    omega
  · intro l'
    by_cases hl : l' = l
    · rw [hl, hat]; exact hown
    · rw [hother l' hl]; exact h.own l'
  · intro l'
    by_cases hl : l' = l
    · rw [hl, hat]; exact hroom
    · rw [hother l' hl]; exact h.room l'
  · intro l'
    rw [htrace, laneEvents_concat, hlane]
    by_cases hl : l' = l
    · rw [hl, hat, if_pos rfl]
      exact .snoc (h.fifo l) hstep
    · rw [hother l' hl, if_neg (Ne.symm hl), List.append_nil]
      exact h.fifo l'
  · intro m hm
    rw [htrace, List.mem_append, List.mem_singleton] at hm
    exact hm.elim (h.kept m) fun heq => hkept m heq.symm

/-! ### Putting a message in -/

/-- That a push was lost is noted elsewhere. -/
theorem sameQueue_cfgPushLost (c : OutQueue) (m : QueuedMsg) : SameQueue c (c.cfgPushLost m) := by
  unfold cfgPushLost
  simp only []
  split <;> split <;> exact ⟨rfl, rfl, rfl⟩

/-- So is the log line of a drop. -/
theorem sameQueue_logDrop (c : OutQueue) (now : Int) : SameQueue c (c.logDrop now) := by
  unfold logDrop
  split <;> exact ⟨rfl, rfl, rfl⟩

/-- The message of the key is somewhere in the lane. -/
theorem coalesceInto_some {m old : QueuedMsg} {msgs msgs' : List QueuedMsg}
    (h : coalesceInto m msgs = some (old, msgs')) :
    ∃ a b, msgs = a ++ old :: b ∧ msgs' = a ++ replaced old m :: b := by
  induction msgs generalizing msgs' with
  | nil => exact (nomatch h)
  | cons x rest ih =>
    unfold coalesceInto at h
    split at h
    · obtain ⟨rfl, rfl⟩ := Prod.mk.inj (Option.some.inj h)
      exact ⟨[], rest, rfl, rfl⟩
    · obtain ⟨⟨y, l⟩, hrest, heq⟩ := Option.map_eq_some_iff.mp h
      obtain ⟨hy, rfl⟩ := Prod.mk.inj heq
      obtain rfl : y = old := hy
      obtain ⟨a, b, rfl, rfl⟩ := ih hrest
      exact ⟨x :: a, b, rfl, rfl⟩

/-- A lane after a coalesced message: nothing faults, and the total changes by the difference of
the sizes. -/
theorem coalesce_ok {c : OutQueue} {l : Lane} {old m : QueuedMsg} {msgs : List QueuedMsg}
    (h : Exact c) (hfind : coalesceInto m (c.outLanes l).msgs = some (old, msgs)) :
    ∃ c', c.coalesce l old m msgs = .ok c' ∧ Exact c'
      ∧ c'.outTotalBytes + old.len = c.outTotalBytes + m.len
      ∧ entered c' = entered c ++ [m.payload] := by
  obtain ⟨a, b, hmsgs, rfl⟩ := coalesceInto_some hfind
  obtain ⟨hsmall, htotal⟩ := h.small m
  have hbytes := h.bytes l
  have hsum := h.total
  have hlen : (replaced old m).len = m.len := rfl
  have hin : lenSum (c.outLanes l).msgs ≤ allLen c.outLanes := by
    rw [allLen_eq]
    cases l <;> omega
  have hold : old.len ≤ lenSum (c.outLanes l).msgs := by
    rw [hmsgs, lenSum_append, lenSum_cons]
    omega
  have hownOld : old.lane = l :=
    h.own l old (by rw [hmsgs]; exact List.mem_append_right _ List.mem_cons_self)
  unfold coalesce
  rw [addUsize_ok (hsmall l), checked_bind, subUsize_ok (by omega), checked_bind,
    addUsize_ok htotal, checked_bind, subUsize_ok (by omega), checked_bind]
  refine ⟨_, rfl, ?_, ?_, entered_concat (e := .coalesced old (replaced old m)) rfl⟩
  · refine Exact.change h rfl rfl hownOld ?_ ?_ ?_ ?_ ?_ ?_
    · rw [hmsgs]
      exact .replace a old (replaced old m) b
    · rw [hbytes, hmsgs]
      simp only [lenSum_append, lenSum_cons, hlen]
      omega
    · rw [hmsgs] at hold hin ⊢
      simp only [lenSum_append, lenSum_cons, hlen] at hold hin ⊢
      show c.outTotalBytes + m.len - old.len + _ = _
      omega
    · intro x hx
      rcases List.mem_append.mp hx with hx | hx
      · exact h.own l x (by rw [hmsgs]; exact List.mem_append_left _ hx)
      · rcases List.mem_cons.mp hx with rfl | hx
        · exact hownOld
        · exact h.own l x (by
            rw [hmsgs]; exact List.mem_append_right _ (List.mem_cons_of_mem _ hx))
    · have hroom := h.room l
      rw [hmsgs] at hroom
      simpa using hroom
    · exact fun _ heq => (nomatch heq)
  · show c.outTotalBytes + m.len - old.len + old.len = _
    omega

/-- A message at the end of a lane that has room for it. -/
theorem pushBack_ok {c : OutQueue} {m : QueuedMsg} (now : Int) (h : Exact c)
    (hroom : (c.outLanes m.lane).msgs.length < maxQueuePerLane) :
    ∃ c', c.pushBack m now = .ok c' ∧ Exact c' ∧ c'.outTotalBytes = c.outTotalBytes + m.len
      ∧ c'.fd = c.fd
      ∧ entered c' = entered c ++ [m.payload]
      ∧ (c'.outLanes m.lane).msgs = (c.outLanes m.lane).msgs ++ [m] ∧ ∀ l, l ≠ m.lane →
        c'.outLanes l = c.outLanes l := by
  unfold pushBack
  -- the clock of the write stall touches nothing else
  have hsame : SameQueue c
    (if c.hasPendingWrites then c else { c with writeWaitSince := now }) := by
    split <;> exact ⟨rfl, rfl, rfl⟩
  have hfd : (if c.hasPendingWrites then c else { c with writeWaitSince := now }).fd = c.fd := by
    split <;> rfl
  generalize (if c.hasPendingWrites then c else { c with writeWaitSince := now }) = d
    at hsame hfd ⊢
  replace h := h.congr hsame
  rw [← hsame.lanes] at hroom ⊢
  rw [← hsame.total, ← hsame.entered]
  obtain ⟨hsmall, htotal⟩ := h.small m
  have hbytes := h.bytes m.lane
  simp only []
  rw [addUsize_ok (hsmall m.lane), addUsize_ok htotal, checked_bind, checked_bind]
  refine ⟨_, rfl, ?_, rfl, hfd, entered_concat (e := .queued m) rfl, ?_, ?_⟩
  · refine Exact.change h rfl rfl rfl ?_ ?_ ?_ ?_ ?_ ?_
    · exact .push _ m
    · rw [lenSum_append, lenSum_cons, lenSum_nil, hbytes, Nat.add_zero]
    · rw [lenSum_append, lenSum_cons, lenSum_nil]
      show d.outTotalBytes + m.len + _ = _
      omega
    · intro x hx
      rcases List.mem_append.mp hx with hx | hx
      · exact h.own _ x hx
      · rw [List.mem_singleton.mp hx]
    · rw [List.length_append, List.length_singleton]
      exact hroom
    · exact fun _ heq => (nomatch heq)
  · show (Function.update d.outLanes m.lane _ m.lane).msgs = _
    rw [Function.update_self]
  · exact fun l hne => Function.update_of_ne hne _ _

/-- The message at the front of a lane comes out, whatever becomes of it. `hkept` is for the one
event that must not happen to an urgent message. -/
theorem popFront {c : OutQueue} {l : Lane} {old : QueuedMsg} {rest : List QueuedMsg}
    {e : QueueEvent} (h : Exact c) (hmsgs : (c.outLanes l).msgs = old :: rest)
    (hev : eventFifo e = .pop old) (hlane : eventLane e = old.lane)
    (hkept : ∀ m, e = .dropped m → l ≠ .urgent) :
    Exact (c.account l ⟨rest, (c.outLanes l).bytes - old.len⟩ (c.outTotalBytes - old.len) e)
      ∧ c.outTotalBytes - old.len + old.len = c.outTotalBytes := by
  have hbytes := h.bytes l
  have hsum := h.total
  have hown : old.lane = l := h.own l old (by rw [hmsgs]; exact List.mem_cons_self)
  have hin : lenSum (c.outLanes l).msgs ≤ allLen c.outLanes := by
    rw [allLen_eq]
    cases l <;> omega
  rw [hmsgs, lenSum_cons] at hbytes hin
  refine ⟨Exact.change h rfl rfl (hlane.trans hown) ?_ ?_ ?_ ?_ ?_ ?_, by omega⟩
  · rw [hev, hmsgs]
    exact .pop old rest
  · show (c.outLanes l).bytes - old.len = lenSum rest
    omega
  · rw [hmsgs, lenSum_cons]
    show c.outTotalBytes - old.len + (old.len + lenSum rest) = c.outTotalBytes + lenSum rest
    omega
  · exact fun x hx => h.own l x (by rw [hmsgs]; exact List.mem_cons_of_mem _ hx)
  · have hroom := h.room l
    rw [hmsgs, List.length_cons] at hroom
    exact Nat.le_of_succ_le hroom
  · intro m heq
    subst heq
    have hm : m = old := by
      injection hev
    rw [hm, hown]
    exact hkept m rfl

/-- The sizes that come off a lane with its first message are there. -/
theorem Exact.front {c : OutQueue} {l : Lane} {old : QueuedMsg} {rest : List QueuedMsg}
    (h : Exact c) (hmsgs : (c.outLanes l).msgs = old :: rest) : old.len ≤ (c.outLanes l).bytes
    ∧ old.len ≤ c.outTotalBytes := by
  have hbytes := h.bytes l
  have hsum := h.total
  have hin : lenSum (c.outLanes l).msgs ≤ allLen c.outLanes := by
    rw [allLen_eq]
    cases l <;> omega
  rw [hmsgs, lenSum_cons] at hbytes hin
  omega

/-- The bytes that a lane's oldest message frees. -/
def oldestLen (c : OutQueue) (l : Lane) : Nat :=
  ((c.outLanes l).msgs.head?.map QueuedMsg.len).getD 0

/-- A lane that is not the urgent one drops its oldest message, if there is one. -/
theorem dropOldest_ok {c : OutQueue} {l : Lane} (now : Int) (h : Exact c) (hl : l ≠ .urgent) :
    ∃ c', c.dropOldest l now = .ok c' ∧ Exact c'
      ∧ c'.outTotalBytes + oldestLen c l = c.outTotalBytes
      ∧ entered c' = entered c
      ∧ (c'.outLanes l).msgs = (c.outLanes l).msgs.tail := by
  unfold dropOldest oldestLen
  cases hmsgs : (c.outLanes l).msgs with
  | nil => exact ⟨c, rfl, h, rfl, rfl, hmsgs⟩
  | cons old rest =>
    obtain ⟨hbytes, htotal⟩ := h.front hmsgs
    simp only []
    rw [subUsize_ok hbytes, subUsize_ok htotal, checked_bind, checked_bind]
    have hpop := popFront h hmsgs (e := .dropped old) rfl rfl (fun _ _ => hl)
    have hsame := (sameQueue_logDrop
      (c.account l ⟨rest, (c.outLanes l).bytes - old.len⟩ (c.outTotalBytes - old.len)
      (.dropped old)) now).trans (sameQueue_cfgPushLost _ old)
    refine ⟨_, rfl, hpop.1.congr hsame, ?_, ?_, ?_⟩
    · rw [hsame.total]
      exact hpop.2
    · rw [hsame.entered, entered_concat (c := c) rfl]
      exact List.append_nil _
    · rw [hsame.lanes]
      show (Function.update c.outLanes l _ l).msgs = rest
      rw [Function.update_self]

/-- The message of the same key that waits, with its lane after the replacement. -/
def found (c : OutQueue) (m : QueuedMsg) : Option (QueuedMsg × List QueuedMsg) :=
  if m.coalesceKey.isEmpty then none else coalesceInto m (c.outLanes m.lane).msgs

/-- A message makes room for itself: with what it replaces, or with what its lane drops for it,
the total stays within the cap. A queue without a connection takes nothing in. -/
def MakesRoom (c : OutQueue) (m : QueuedMsg) : Prop :=
  c.fd < 0 ∨
    match found c m with
    | some (old, _) => c.outTotalBytes + m.len ≤ maxQueuedBytesPerPeer + old.len
    | none =>
        m.lane = .urgent ∨ c.outTotalBytes + m.len ≤ maxQueuedBytesPerPeer + oldestLen c m.lane

/-- Whether a lane or the whole queue has no room for a message. -/
def Full (c : OutQueue) (m : QueuedMsg) : Prop :=
  maxQueuePerLane ≤ (c.outLanes m.lane).msgs.length
    ∨ maxQueuedBytesPerPeer < c.outTotalBytes + m.len

instance (c : OutQueue) (m : QueuedMsg) : Decidable (Full c m) :=
  inferInstanceAs (Decidable (_ ∨ _))

/-- Whether a message finds room, as the code computes it. With the counters right nothing
overflows. -/
theorem full_eq {c : OutQueue} {m : QueuedMsg} (h : Exact c) :
    c.full m = .ok (decide (Full c m)) := by
  have htotal := (h.small m).2
  unfold full
  rw [addUsize_ok htotal]
  by_cases hlane : maxQueuePerLane ≤ (c.outLanes m.lane).msgs.length
  · have hfull : Full c m := .inl hlane
    rw [if_pos hlane, decide_eq_true hfull]
  · rw [if_neg hlane]
    exact congrArg Except.ok (decide_eq_decide.mpr ⟨.inr, fun h => h.resolve_left hlane⟩)

/-- `enqueue` by its branches, in the order of the source. -/
theorem enqueue_eq {c : OutQueue} {m : QueuedMsg} (now : Int) (h : Exact c) (hfd : ¬c.fd < 0) :
    c.enqueue m now =
      match found c m with
      | some (old, msgs) => (c.coalesce m.lane old m msgs).map (·, true)
      | none =>
        if Full c m then
          if m.lane = .urgent then .ok (c, false)
            else (c.dropOldest m.lane now >>= (·.pushBack m now)).map (·, true)
        else (c.pushBack m now).map (·, true) := by
  unfold enqueue
  rw [if_neg hfd]
  show (match found c m with | some (old, msgs) => _ | none => _) = _
  cases found c m with
  | some p => rfl
  | none =>
    simp only []
    rw [full_eq h, checked_bind]
    by_cases hf : Full c m
    · rw [decide_eq_true hf, if_pos rfl, if_pos hf]
      split
      · rfl
      · cases c.dropOldest m.lane now with
        | error e => rfl
        | ok d => rfl
    · rw [decide_eq_false hf, if_neg Bool.false_ne_true, if_neg hf]
      rfl

/-- Putting a message in keeps the accounts, and the cap if and only if the message makes room. It
is answered `true` exactly when the payload was brought in. -/
theorem enqueue_ok {c : OutQueue} (m : QueuedMsg) (now : Int) (h : Exact c) :
    ∃ c' took, c.enqueue m now = .ok (c', took) ∧ Exact c'
      ∧ entered c' = entered c ++ (if took then [m.payload] else [])
      ∧ (c.outTotalBytes ≤ maxQueuedBytesPerPeer →
        (c'.outTotalBytes ≤ maxQueuedBytesPerPeer ↔ MakesRoom c m)) := by
  by_cases hfd : c.fd < 0
  · exact ⟨c, false, by rw [enqueue, if_pos hfd], h, (List.append_nil _).symm, fun hcap =>
      ⟨fun _ => .inl hfd, fun _ => hcap⟩⟩
  rw [enqueue_eq now h hfd]
  unfold MakesRoom
  cases hfound : found c m with
  | some p =>
    obtain ⟨old, msgs⟩ := p
    have hfind : coalesceInto m (c.outLanes m.lane).msgs = some (old, msgs) := by
      unfold found at hfound
      split at hfound
      · exact (nomatch hfound)
      · exact hfound
    obtain ⟨c', hc', hacc, htotal, hin⟩ := coalesce_ok h hfind
    simp only []
    rw [hc']
    exact ⟨c', true, rfl, hacc, hin, fun _ => by rw [or_iff_right hfd]; omega⟩
  | none =>
    simp only []
    by_cases hfull : Full c m
    · rw [if_pos hfull]
      by_cases hurgent : m.lane = .urgent
      · rw [if_pos hurgent]
        exact ⟨c, false, rfl, h, (List.append_nil _).symm,
          fun hcap => ⟨fun _ => .inr (.inl hurgent), fun _ => hcap⟩⟩
      · obtain ⟨d, hd, hacc, htotal, hsame, htail⟩ := dropOldest_ok now h hurgent
        have hroom : (d.outLanes m.lane).msgs.length < maxQueuePerLane := by
          have := h.room m.lane
          rw [htail, List.length_tail]
          have hpos : 0 < maxQueuePerLane := by decide
          omega
        obtain ⟨c', hc', hacc', htotal', -, hin, -⟩ := pushBack_ok now hacc hroom
        rw [if_neg hurgent, hd, checked_bind, hc']
        exact ⟨c', true, rfl, hacc', hsame ▸ hin,
          fun _ => by rw [or_iff_right hfd, or_iff_right hurgent]; omega⟩
    · obtain ⟨hlane, hbytes⟩ := not_or.mp hfull
      obtain ⟨c', hc', hacc', htotal', -, hin, -⟩ := pushBack_ok now h (Nat.not_le.mp hlane)
      rw [if_neg hfull, hc']
      refine ⟨c', true, rfl, hacc', hin, fun _ => ⟨fun _ => .inr (.inr ?_), fun _ => ?_⟩⟩
      · omega
      · omega

/-! ### Draining -/

/-- Looking at what is in flight leaves the queue. -/
theorem sameQueue_pushInFlight (outcomes : List SendOutcome) (c : OutQueue) :
    SameQueue c (pushInFlight outcomes c).1 := by
  induction outcomes generalizing c with
  | nil =>
    unfold pushInFlight
    split
    · exact ⟨rfl, rfl, rfl⟩
    split
    · exact ⟨rfl, rfl, rfl⟩
    · exact .refl c
  | cons o rest ih =>
    unfold pushInFlight
    split
    · exact ⟨rfl, rfl, rfl⟩
    split
    · exact ⟨rfl, rfl, rfl⟩
    cases o with
    | sent n now =>
      simp only []
      split
      · exact SameQueue.trans (b := c.wrote n now) ⟨rfl, rfl, rfl⟩ (ih _)
      · exact .refl c
    | wouldBlock => exact .refl c
    | error => exact ⟨rfl, rfl, rfl⟩

/-- So does opening the window of the log. -/
theorem sameQueue_openWindow (c : OutQueue) (now : Int) : SameQueue c (c.openWindow now) := by
  unfold openWindow
  split
  · exact .refl c
  · exact ⟨rfl, rfl, rfl⟩

/-- Taking messages off a lane keeps the accounts, and the total does not grow. By induction on
the number of turns. -/
theorem drainLane_ok (turns : Nat → SendTurn) (l : Lane) (n : Nat) {i : Nat} {c : OutQueue}
    (h : Exact c) :
    ∃ c' next, drainLane turns l n i c = .ok (c', next) ∧ Exact c'
      ∧ c'.outTotalBytes ≤ c.outTotalBytes ∧ entered c' = entered c := by
  induction n generalizing i c with
  | zero => exact ⟨c, some i, rfl, h, Nat.le_refl _, rfl⟩
  | succ n ih =>
    unfold drainLane
    -- the lane is empty
    cases hmsgs : (c.outLanes l).msgs with
    | nil => exact ⟨c, some i, rfl, h, Nat.le_refl _, rfl⟩
    | cons m rest =>
      have hopen := sameQueue_openWindow c (turns i).now
      simp only []
      generalize c.openWindow (turns i).now = d at hopen ⊢
      rw [← hopen.lanes] at hmsgs
      rw [← hopen.total, ← hopen.entered]
      replace h := h.congr hopen
      split
      -- the window of the rate is used up, and the turn ends
      · exact ⟨d, none, rfl, h, Nat.le_refl _, rfl⟩
      obtain ⟨hbytes, htotal⟩ := h.front hmsgs
      -- the message leaves the lane, and both counters go down by its length
      rw [subUsize_ok hbytes, subUsize_ok htotal, checked_bind, checked_bind]
      obtain ⟨hacc, -⟩ := popFront h hmsgs (e := .left m) rfl rfl (fun _ heq => (nomatch heq))
      have hless : (d.account l ⟨rest, (d.outLanes l).bytes - m.len⟩ (d.outTotalBytes - m.len)
        (.left m)).outTotalBytes
          ≤ d.outTotalBytes := Nat.sub_le _ _
      have hin : entered (d.account l ⟨rest, (d.outLanes l).bytes - m.len⟩
          (d.outTotalBytes - m.len) (.left m)) = entered d := by
        rw [entered_concat (c := d) rfl]
        exact List.append_nil _
      generalize d.account l ⟨rest, (d.outLanes l).bytes - m.len⟩ (d.outTotalBytes - m.len)
        (.left m) = e at hacc hless hin ⊢
      split
      · -- it was not sealed: it is lost
        have hsame := sameQueue_cfgPushLost e m
        obtain ⟨c', next, hc', hacc', hle, heq⟩ := ih (hacc.congr hsame)
        exact ⟨c', next, hc', hacc', Nat.le_trans hle (hsame.total ▸ hless),
          heq.trans (hsame.entered.trans hin)⟩
      -- it is written, and the turn goes on if all of it went out
      · have hstart : SameQueue e { e with writingLen := e.encryptIntoWriting m (turns i).sealed,
                                           writingOffset := 0 } :=
          ⟨rfl, rfl, rfl⟩
        have hsame := hstart.trans (sameQueue_pushInFlight (turns i).sends _)
        have hacc' := hacc.congr hsame
        have hle := hsame.total ▸ hless
        have hin' := hsame.entered.trans hin
        generalize pushInFlight (turns i).sends
            { e with writingLen := e.encryptIntoWriting m (turns i).sealed, writingOffset := 0 }
            = sent at hacc' hle hin' ⊢
        obtain ⟨f, more⟩ := sent
        simp only [] at hacc' hle hin' ⊢
        split
        · obtain ⟨c', next, hc', hacc', hle', heq⟩ := ih hacc'
          exact ⟨c', next, hc', hacc', Nat.le_trans hle' hle, heq.trans hin'⟩
        · exact ⟨f, none, rfl, hacc', hle, hin'⟩

/-- The lanes are drained in their order, by induction on them. Counters stay right and nothing
comes in. -/
theorem drainLanes_ok (turns : Nat → SendTurn) (lanes : List Lane) {i : Nat} {c : OutQueue}
    (h : Exact c) :
    ∃ c', drainLanes turns lanes i c = .ok c' ∧ Exact c'
      ∧ c'.outTotalBytes ≤ c.outTotalBytes ∧ entered c' = entered c := by
  induction lanes generalizing i c with
  | nil => exact ⟨c, rfl, h, Nat.le_refl _, rfl⟩
  | cons l rest ih =>
    obtain ⟨d, next, hd, hacc, hle, hin⟩ :=
      drainLane_ok turns l (c.outLanes l).msgs.length h (i := i)
    unfold drainLanes
    rw [hd, checked_bind]
    cases next with
    | none => exact ⟨d, rfl, hacc, hle, hin⟩
    | some j =>
      obtain ⟨c', hc', hacc', hle', heq⟩ := ih hacc (i := j)
      exact ⟨c', hc', hacc', Nat.le_trans hle' hle, heq.trans hin⟩

/-- So is the queue when the socket takes bytes: first what is in flight, then the lanes in their
order. -/
theorem drainWritable_ok (first : List SendOutcome) (turns : Nat → SendTurn) {c : OutQueue}
    (h : Exact c) :
    ∃ c', c.drainWritable first turns = .ok c' ∧ Exact c'
      ∧ c'.outTotalBytes ≤ c.outTotalBytes ∧ entered c' = entered c := by
  unfold drainWritable
  split
  · exact ⟨c, rfl, h, Nat.le_refl _, rfl⟩
  · have hsame := sameQueue_pushInFlight first c
    have hacc := h.congr hsame
    have htotal := hsame.total
    have hin := hsame.entered
    generalize pushInFlight first c = sent at hacc htotal hin ⊢
    obtain ⟨d, more⟩ := sent
    simp only [] at hacc htotal hin ⊢
    split
    · obtain ⟨c', hc', hacc', hle, heq⟩ := drainLanes_ok turns Lane.all hacc (i := 0)
      exact ⟨c', hc', hacc', htotal ▸ hle, heq.trans hin⟩
    · exact ⟨d, rfl, hacc, htotal.le, hin⟩

/-- A queue that is destroyed has nothing left, and what was left is noted as destroyed. -/
theorem queueDestroy_ok {c : OutQueue} (h : Exact c) : Exact c.queueDestroy := by
  constructor
  · exact fun _ => rfl
  · rfl
  · exact fun _ _ hm => absurd hm List.not_mem_nil
  · exact fun _ => Nat.zero_le _
  · intro l
    have hgone : laneEvents l c.queueDestroy.trace = laneEvents l c.trace
      ++ (c.outLanes l).msgs.map Fifo.Ev.pop := by
      have hlane : ∀ l' : Lane, ((c.outLanes l').msgs.map QueueEvent.destroyed).filter
        (eventLane · = l)
          = if l' = l then (c.outLanes l').msgs.map QueueEvent.destroyed else [] := by
        intro l'
        by_cases hl : l' = l
        · rw [if_pos hl, List.filter_eq_self]
          intro e he
          obtain ⟨m, hm, rfl⟩ := List.mem_map.mp he
          exact decide_eq_true ((h.own l' m hm).trans hl)
        · rw [if_neg hl, List.filter_eq_nil_iff]
          intro e he
          obtain ⟨m, hm, rfl⟩ := List.mem_map.mp he
          have hother : ¬eventLane (.destroyed m) = l :=
            fun heq => hl ((h.own l' m hm).symm.trans heq)
          exact ne_true_of_eq_false (decide_eq_false hother)
      unfold laneEvents queueDestroy
      rw [List.filter_append, List.map_append]
      congr 1
      simp only [Lane.all, List.flatMap_cons, List.flatMap_nil, List.append_nil,
        List.filter_append, hlane]
      cases l <;> simp [eventFifo, Function.comp_def]
    rw [hgone]
    exact (h.fifo l).clear
  · intro m hm
    unfold queueDestroy at hm
    rcases List.mem_append.mp hm with hm | hm
    · exact h.kept m hm
    · obtain ⟨l, -, hl⟩ := List.mem_flatMap.mp hm
      obtain ⟨m', -, heq⟩ := List.mem_map.mp hl
      exact (nomatch heq)

/-- Nothing enters as it is destroyed. -/
theorem entered_queueDestroy (c : OutQueue) : entered c.queueDestroy = entered c := by
  have hnone : (Lane.all.flatMap fun l => (c.outLanes l).msgs.map QueueEvent.destroyed).filterMap
      broughtIn = [] := by
    rw [List.filterMap_eq_nil_iff]
    intro e he
    obtain ⟨l, -, hl⟩ := List.mem_flatMap.mp he
    obtain ⟨m, -, rfl⟩ := List.mem_map.mp hl
    rfl
  unfold entered queueDestroy
  rw [List.filterMap_append, hnone, List.append_nil]

/-! ### Runs -/

/-- What an operation puts in: the payload of an `enqueue` that is answered `true`. -/
def accepted (c : OutQueue) : QueueOp → List (List UInt8)
  | .enqueue m now =>
    match c.enqueue m now with
    | .ok (_, true) => [m.payload]
    | _ => []
  | .drain _ _ | .destroy => []

/-- What a list of operations puts in, in order. -/
def acceptedRun (c : OutQueue) : List QueueOp → List (List UInt8)
  | [] => []
  | op :: ops =>
    accepted c op ++
      match c.step op with
      | .ok d => acceptedRun d ops
      | .error _ => []

/-- No operation overflows a counter, the counters stay right, and what enters is what was
accepted. -/
theorem step_ok {c : OutQueue} (op : QueueOp) (h : Exact c) : ∃ c', c.step op = .ok c'
    ∧ Exact c' ∧ entered c' = entered c ++ accepted c op := by
  cases op with
  | enqueue m now =>
    obtain ⟨c', took, hc', hacc, hin, -⟩ := enqueue_ok m now h
    refine ⟨c', by rw [step, hc']; rfl, hacc, ?_⟩
    rw [hin, accepted, hc']
    cases took <;> rfl
  | drain first turns =>
    obtain ⟨c', hc', hacc, -, hin⟩ := drainWritable_ok first turns h
    exact ⟨c', hc', hacc, hin.trans (List.append_nil _).symm⟩
  | destroy =>
    exact ⟨_, rfl, queueDestroy_ok h, (entered_queueDestroy c).trans (List.append_nil _).symm⟩

/-- So no run does, and what enters in it is what its calls were accepted with, in order. -/
theorem run_ok {c : OutQueue} (ops : List QueueOp) (h : Exact c) : ∃ c', c.run ops = .ok c'
    ∧ Exact c' ∧ entered c' = entered c ++ acceptedRun c ops := by
  induction ops generalizing c with
  | nil => exact ⟨c, rfl, h, (List.append_nil _).symm⟩
  | cons op ops ih =>
    obtain ⟨d, hd, hacc, hin⟩ := step_ok op h
    obtain ⟨c', hc', hacc', hin'⟩ := ih hacc
    refine ⟨c', by rw [run, List.foldlM_cons, hd, checked_bind]; exact hc', hacc', ?_⟩
    rw [hin', hin, acceptedRun, hd, List.append_assoc]

/-- An empty queue has its counters right. -/
theorem accounted_new (fd : Int) (sock : Bool) (size : Nat) : Exact (OutQueue.new fd sock size) :=
  ⟨fun _ => rfl, rfl, fun _ _ hm => absurd hm List.not_mem_nil, fun _ => Nat.zero_le _,
   fun _ => .nil,
    fun _ hm => absurd hm List.not_mem_nil⟩

/-- In every run the counters are exact, no difference is below zero, the lanes stay within their
length and let their messages out in order, and no urgent message makes room for another. What was
ever brought into the lanes is, in order, what the calls of `enqueue` were accepted with. -/
theorem run_accounts (fd : Int) (sock : Bool) (size : Nat) (ops : List QueueOp) :
    ∃ c, (OutQueue.new fd sock size).run ops = .ok c
      ∧ (∀ l, (c.outLanes l).bytes = ((c.outLanes l).msgs.map QueuedMsg.len).sum
          ∧ (c.outLanes l).msgs.length ≤ maxQueuePerLane)
      ∧ c.outTotalBytes = (Lane.all.map fun l => (c.outLanes l).bytes).sum
      ∧ (∀ l, List.Forall₂ (Fifo.Became (laneEvents l c.trace))
        (Fifo.pushes (laneEvents l c.trace))
          (Fifo.pops (laneEvents l c.trace) ++ (c.outLanes l).msgs))
      ∧ (∀ m, QueueEvent.dropped m ∈ c.trace → m.lane ≠ .urgent)
      ∧ c.trace.filterMap broughtIn = acceptedRun (OutQueue.new fd sock size) ops := by
  obtain ⟨c, hc, hacc, hin⟩ := run_ok ops (accounted_new fd sock size)
  refine ⟨c, hc, fun l => ⟨hacc.bytes l, hacc.room l⟩, ?_, fun l =>
    (hacc.fifo l).served, hacc.kept, hin⟩
  rw [hacc.total]
  show (Lane.all.map fun l => lenSum (c.outLanes l).msgs).sum = _
  exact congrArg List.sum (List.map_congr_left fun l _ => (hacc.bytes l).symm)

/-! ### The byte cap -/

/-- Taking a queue one step further. -/
theorem run_concat {c : OutQueue} (ops : List QueueOp) (op : QueueOp) :
    c.run (ops ++ [op]) = (c.run ops >>= fun d => d.step op) := by
  unfold run
  rw [List.foldlM_append]
  cases ops.foldlM step c with
  | error e => rfl
  | ok d =>
    show [op].foldlM step d = d.step op
    rw [List.foldlM_cons]
    cases d.step op <;> rfl

/-- A step keeps the cap if and only if it is no message that makes no room for itself. -/
theorem step_capped_iff {c c' : OutQueue} {op : QueueOp} (h : Exact c)
    (hcap : c.outTotalBytes ≤ maxQueuedBytesPerPeer) (hstep : c.step op = .ok c') :
    c'.outTotalBytes ≤ maxQueuedBytesPerPeer ↔ ∀ m now, op = .enqueue m now → MakesRoom c m := by
  cases op with
  | enqueue m now =>
    obtain ⟨d, took, hd, -, -, hiff⟩ := enqueue_ok m now h
    have hd' : c.step (.enqueue m now) = .ok d := by rw [step, hd]; rfl
    obtain rfl : d = c' := Except.ok.inj (hd'.symm.trans hstep)
    rw [hiff hcap]
    constructor
    · intro hroom m' now' heq
      injection heq with hm hnow
      exact hm ▸ hroom
    · exact fun hall => hall m now rfl
  | drain first turns =>
    obtain ⟨d, hd, -, hle, -⟩ := drainWritable_ok first turns h
    obtain rfl : d = c' := Except.ok.inj (hd.symm.trans hstep)
    exact ⟨fun _ _ _ heq => (nomatch heq), fun _ => Nat.le_trans hle hcap⟩
  | destroy =>
    obtain rfl : c.queueDestroy = c' := Except.ok.inj hstep
    exact ⟨fun _ _ _ heq => (nomatch heq), fun _ => Nat.zero_le _⟩

/-- The total stays within the cap throughout a run if and only if every message of the run makes
room for itself. -/
theorem run_capped_iff (fd : Int) (sock : Bool) (size : Nat) (ops : List QueueOp) :
    (∀ pre post c, ops = pre ++ post → (OutQueue.new fd sock size).run pre = .ok c →
        c.outTotalBytes ≤ maxQueuedBytesPerPeer)
      ↔ ∀ pre m now post c, ops = pre ++ .enqueue m now :: post →
        (OutQueue.new fd sock size).run pre = .ok c → MakesRoom c m := by
  have hnew := accounted_new fd sock size
  constructor
  · intro hcap pre m now post c hops hrun
    obtain ⟨d, hd, hacc, -⟩ := run_ok pre hnew
    obtain rfl : d = c := Except.ok.inj (hd.symm.trans hrun)
    obtain ⟨c', hc', -⟩ := step_ok (.enqueue m now) hacc
    have hnext : (OutQueue.new fd sock size).run (pre ++ [.enqueue m now]) = .ok c' := by
      rw [run_concat, hrun]
      exact hc'
    have hafter := hcap (pre ++ [.enqueue m now]) post c'
      (by rw [hops, List.append_assoc]; rfl) hnext
    exact (step_capped_iff hacc (hcap pre _ d hops hrun) hc').mp hafter m now rfl
  · intro hroom pre
    -- on the part of the run that is done, its last step first
    induction pre using List.reverseRecOn with
    | nil =>
      intro post c _ hrun
      obtain rfl := Except.ok.inj hrun
      exact Nat.zero_le _
    | append_singleton pre op ih =>
      intro post c' hops hrun
      rw [List.append_assoc] at hops
      obtain ⟨c, hc, hacc, -⟩ := run_ok pre hnew
      rw [run_concat, hc] at hrun
      refine (step_capped_iff hacc (ih _ c hops hc) hrun).mpr ?_
      intro m now heq
      exact hroom pre m now post c (by rw [hops, heq]; rfl) hc

/-- A message of the largest size. -/
def bulkMessage : QueuedMsg :=
  { cmd := 0x04, lane := .bulk, payload := List.replicate maxBulkPayload 0,
    fits := (List.length_replicate).le }

def deltaMessage : QueuedMsg := { cmd := 0x11, lane := .delta, payload := [0], fits := by decide }

/-- The message of the example is as long as a bulk one may be. -/
theorem bulkMessage_len : bulkMessage.len = maxBulkPayload := List.length_replicate

/-- Messages that wait on the bulk lane only. -/
structure BulkOnly (c : OutQueue) (msgs : List QueuedMsg) : Prop where
  acc : Exact c
  fd : ¬c.fd < 0
  total : c.outTotalBytes = lenSum msgs
  bulk : (c.outLanes .bulk).msgs = msgs
  delta : (c.outLanes .delta).msgs = []

/-- One more message on a bulk lane with room for it. -/
theorem BulkOnly.enqueue {c : OutQueue} {msgs : List QueuedMsg} (h : BulkOnly c msgs)
    {m : QueuedMsg} (hlane : m.lane = .bulk) (hkey : m.coalesceKey = [])
    (hroom : msgs.length < maxQueuePerLane) (hcap : lenSum msgs + m.len ≤ maxQueuedBytesPerPeer) :
    ∃ c', c.step (.enqueue m 0) = .ok c' ∧ BulkOnly c' (msgs ++ [m]) := by
  have hfound : found c m = none := by rw [found, hkey]; rfl
  have hfull : ¬Full c m := by
    unfold Full
    rw [hlane, h.bulk, h.total]
    omega
  obtain ⟨c', hc', hacc, htotal, hfd, -, hmsgs, hother⟩ :=
    pushBack_ok 0 h.acc (by rw [hlane, h.bulk]; exact hroom)
  refine ⟨c', ?_, hacc, by rw [hfd]; exact h.fd, ?_, ?_, ?_⟩
  · rw [step, enqueue_eq 0 h.acc h.fd, hfound]
    simp only []
    rw [if_neg hfull, hc']
    rfl
  · rw [htotal, h.total, lenSum_append, lenSum_cons, lenSum_nil, Nat.add_zero]
  · rw [hlane, h.bulk] at hmsgs
    exact hmsgs
  · rw [hother .delta (by rw [hlane]; exact Lane.noConfusion), h.delta]

/-- A delta message that finds the queue full drops nothing, for its own lane is empty, and goes
in all the same. -/
theorem BulkOnly.enqueue_full {c : OutQueue} {msgs : List QueuedMsg} (h : BulkOnly c msgs)
    {m : QueuedMsg} (hlane : m.lane = .delta) (hkey : m.coalesceKey = [])
    (hcap : maxQueuedBytesPerPeer < lenSum msgs + m.len) :
    ∃ c', c.step (.enqueue m 0) = .ok c' ∧ c'.outTotalBytes = lenSum msgs + m.len := by
  have hfound : found c m = none := by rw [found, hkey]; rfl
  have hfull : Full c m := .inr (by rw [h.total]; exact hcap)
  have hdrop : c.dropOldest m.lane 0 = .ok c := by rw [hlane, dropOldest, h.delta]
  have hroom : (c.outLanes m.lane).msgs.length < maxQueuePerLane := by
    rw [hlane, h.delta]
    decide
  obtain ⟨c', hc', -, htotal, -⟩ := pushBack_ok 0 h.acc hroom
  refine ⟨c', ?_, htotal.trans (congrArg (· + m.len) h.total)⟩
  rw [step, enqueue_eq 0 h.acc h.fd, hfound]
  simp only []
  rw [if_pos hfull, if_neg (by rw [hlane]; exact Lane.noConfusion), hdrop, checked_bind, hc']
  rfl

/-- Three bulk messages of the largest size fill the queue, and a delta message takes it over its
cap. The messages are parameters, so that none of the bytes is ever looked at. -/
theorem over_cap {c : OutQueue} {big small : QueuedMsg} (h : BulkOnly c [])
    (hbig : big.len = maxBulkPayload) (hlane : big.lane = .bulk) (hkey : big.coalesceKey = [])
    (hsmall : 0 < small.len) (hlane' : small.lane = .delta) (hkey' : small.coalesceKey = []) :
    ∃ d, c.run [.enqueue big 0, .enqueue big 0, .enqueue big 0, .enqueue small 0] = .ok d
      ∧ d.outTotalBytes = maxQueuedBytesPerPeer + small.len := by
  have hcap : maxQueuedBytesPerPeer = 3 * big.len := by rw [hbig]
  have hroom : maxQueuePerLane = 256 := rfl
  have hsum : ∀ n, lenSum (List.replicate n big) = n * big.len := fun n => by
    rw [lenSum, List.map_replicate, List.sum_replicate_nat]
  have hfill : ∀ n, n ≤ 3 → ∃ d, c.run (List.replicate n (.enqueue big 0)) = .ok d
    ∧ BulkOnly d (List.replicate n big) := by
    intro n hn
    induction n with
    | zero => exact ⟨c, rfl, h⟩
    | succ n ih =>
      obtain ⟨d, hd, hbulk⟩ := ih (Nat.le_of_succ_le hn)
      have hfits : lenSum (List.replicate n big) + big.len ≤ maxQueuedBytesPerPeer := by
        rw [hsum, hcap, ← Nat.succ_mul]
        exact Nat.mul_le_mul_right _ hn
      obtain ⟨d', hd', hbulk'⟩ :=
        hbulk.enqueue hlane hkey (by rw [List.length_replicate]; omega) hfits
      refine ⟨d', ?_, ?_⟩
      · rw [List.replicate_succ', run_concat, hd, checked_bind, hd']
      · rw [List.replicate_succ']
        exact hbulk'
  obtain ⟨d, hd, hbulk⟩ := hfill 3 (Nat.le_refl 3)
  obtain ⟨e, he, htotal⟩ := hbulk.enqueue_full hlane' hkey' (by rw [hsum, hcap]; omega)
  refine ⟨e, ?_, by rw [htotal, hsum, hcap]⟩
  show c.run (List.replicate 3 (.enqueue big 0) ++ [.enqueue small 0]) = _
  rw [run_concat, hd, checked_bind, he]

/-- Three bulk messages and a small one: the cap is passed, because one message of the lane is
dropped and no more. -/
theorem run_over_cap : ∃ c, (OutQueue.new 3 true 65536).run
    [.enqueue bulkMessage 0, .enqueue bulkMessage 0, .enqueue bulkMessage 0,
    .enqueue deltaMessage 0] = .ok c
      ∧ maxQueuedBytesPerPeer < c.outTotalBytes := by
  have hnew : BulkOnly (OutQueue.new 3 true 65536) [] :=
    ⟨accounted_new 3 true 65536, by rw [OutQueue.new]; decide, rfl, rfl, rfl⟩
  obtain ⟨c, hc, htotal⟩ := @over_cap _ bulkMessage deltaMessage hnew bulkMessage_len rfl rfl
    Nat.one_pos rfl rfl
  exact ⟨c, hc, htotal ▸ Nat.lt_add_of_pos_right Nat.one_pos⟩

end IrcHub.Proofs
