import IrcHub.Hub.LogRing
import IrcHub.Lib.Ring
import Mathlib.Data.List.Induction

/-!
# `IrcHub.Proofs.LogRing`: what a console misses of the log

`View` says what a console is owed: every line of its level since it subscribed, from the oldest
line that the ring holds on where it asked for that, but for the lines that were overwritten
first. The ring and the link give that (`Faithful`) as long as nothing takes them to the point
where the ring is full: there they go back one line too few (`log_replays_iff`).

* `Stands`: the ring holds the newest lines of the view, each under its number
* `pushLines_logs`: the lines that are handed over are those of the level, from the link's place
  on
* `push_iff`, `subscribe_iff`: a push and a subscription do what they should if and only if they
  keep away from the full ring
* `step_faithful_iff`, `log_replays_iff`: so does one step, and a whole run

The view keeps every line that was ever logged and counts what is lost; the ring keeps slots and
numbers. The invariant that carries the run is `Stands`, and the equivalence for one step is
proved from it, so the run lemma is an induction from the end of the run.
-/

set_option autoImplicit false

namespace IrcHub.Proofs

open IrcHub.Hub IrcHub.Hub.LogLink IrcHub.Hub.LogRing

/-! ### What a console is owed -/

/-- What a console is owed, kept beside the ring: all lines, where the console stands among them,
and what it had so far. -/
structure View where
  /-- Every line that was ever logged. -/
  lines : List LogLine := []
  level : Int := -1
  /-- The lines before this one are done with. -/
  pos : Nat := 0
  sent : List LogLine := []
  /-- The lines that were overwritten before they were sent. -/
  lost : Nat := 0

/-- The oldest line that a ring of its size holds. -/
def View.held (v : View) : Nat := v.lines.length - consoleLogRing

/-- A console that was not subscribed starts at the newest line, or at the oldest that is held if
it asked for a replay. One that was goes on where it stands, with its new level. -/
def View.subscribe (v : View) (level : Int) (replay : Bool) : View :=
  { v with
    level := level
    pos := if 0 ≤ level && v.level < 0 then (if replay then v.held else v.lines.length)
      else v.pos }

/-- A push sends what is left from the console's place on and is still held, and counts the rest
as lost. -/
def View.push (v : View) : View :=
  if v.level < 0 then v
  else
    { v with
      sent := v.sent ++ (v.lines.drop (max v.pos v.held)).filter (·.level ≤ v.level)
      lost := v.lost + (v.held - v.pos)
      pos := v.lines.length }

/-- What an operation makes of the view. A hub without a ring logs nothing. -/
def View.step (mapped : Bool) (v : View) : LogOp → View
  | .append level line now =>
    if mapped then { v
      with lines := v.lines ++ [LogRing.entry (v.lines.length + 1) level line now] } else v
  | .opened => { lines := v.lines, pos := v.lines.length }
  | .subscribe topics =>
    match wanted topics with
    | .ok (level, replay) => v.subscribe level replay
    | .error _ => v
  | .push => v.push
  | .other _ | .drain _ => v

def View.run (mapped : Bool) (ops : List LogOp) : View := ops.foldl (View.step mapped) {}

/-- The ring and the link stand for a view: the newest lines are in their slots, numbers count
from one, and the link is subscribed at the level of the view. -/
structure Stands (mapped : Bool) (s : LogState) (v : View) : Prop where
  on : s.ring.mapped = mapped
  next : s.ring.next = v.lines.length + 1
  slots : Ring.Holds consoleLogRing 1 s.ring.slots v.lines
  seqs : ∀ i x, v.lines[i]? = some x → x.seq = i + 1
  empty : mapped = false → v.lines = []
  level : s.link.logLevel = v.level
  pos : v.pos ≤ v.lines.length

/-- The console had what it is owed: the lines that were handed to its queue are those of the
view, its drops are those that were overwritten and those that the queue had no room for, and it
goes on where the view does. -/
structure Faithful (s : LogState) (v : View) : Prop where
  logs : s.link.logs = v.sent.map LogLine.data
  drops : s.link.drops = v.lost + s.link.refused
  next : 0 ≤ v.level → s.link.logNext = v.pos + 1
  /-- The oldest line that is replayed is the one that `get|log` reports. -/
  oldest : ∀ line, v.lines[v.held]? = some line → 0 < line.ts → s.ring.ringOldest = some line.ts

/-- An operation keeps away from the point where the ring is full: a push finds fewer lines to
hand over than the ring has slots, and a replay starts before the ring was filled. -/
def Roomy (s : LogState) : LogOp → Prop
  | .push => 0 ≤ s.link.logLevel → s.ring.next < s.link.logNext + consoleLogRing
  | .subscribe topics =>
    ∀ level, wanted topics = .ok (level, true) → 0 ≤ level → s.link.logLevel < 0 →
      s.ring.next ≤ consoleLogRing
  | _ => True

/-! ### The ring -/

/-- The line under a number is in its slot while the ring holds it. -/
theorem Stands.slot {mapped : Bool} {s : LogState} {v : View} (h : Stands mapped s v) {i : Nat}
    {x : LogLine} (hi : v.lines[i]? = some x) (hheld : v.held ≤ i) :
    s.ring.slots ((i + 1) % consoleLogRing) = x ∧ x.seq = i + 1 := by
  refine ⟨h.slots i x hi ?_, h.seqs i x hi⟩
  unfold View.held at hheld
  omega

/-- `get|log` reports the time of the oldest line that is held. -/
theorem Stands.ringOldest {mapped : Bool} {s : LogState} {v : View} (h : Stands mapped s v)
    {line : LogLine} (hline : v.lines[v.held]? = some line) (hts : 0 < line.ts) :
    s.ring.ringOldest = some line.ts := by
  obtain ⟨hlt, -⟩ := List.getElem?_eq_some_iff.mp hline
  obtain ⟨hslot, -⟩ := h.slot hline (Nat.le_refl _)
  have hmapped : s.ring.mapped = true := by
    rw [h.on]
    cases mapped with
    | true => rfl
    | false =>
      rw [h.empty rfl] at hlt
      exact absurd hlt (Nat.not_lt_zero _)
  have hnumber : s.ring.next - s.ring.lines = v.held + 1 := by
    unfold LogRing.lines View.held
    rw [h.next]
    unfold View.held at hlt
    omega
  have hsome : s.ring.lines ≠ 0 := by
    unfold LogRing.lines
    rw [h.next]
    have hring : consoleLogRing = 1024 := rfl
    omega
  rw [LogRing.ringOldest, if_neg hsome, hnumber, hmapped, hslot]
  simp only [if_true]
  rw [if_pos hts]

/-- A line more in the ring and in the view of it. An old line may fall out of the ring, never out
of the view. -/
theorem Stands.append {mapped : Bool} {s : LogState} {v : View} (h : Stands mapped s v)
    (level : Int) (line : List UInt8) (now : Int) :
    Stands mapped { s with ring := s.ring.logAppend level line now }
      (v.step mapped (.append level line now)) := by
  obtain ⟨hmapped, hnext, hslots, hseqs, hempty, hlevel, hpos⟩ := h
  unfold LogRing.logAppend View.step
  rw [hmapped]
  cases mapped with
  | false => exact ⟨hmapped, hnext, hslots, hseqs, hempty, hlevel, hpos⟩
  | true =>
    simp only [Bool.not_true, Bool.false_eq_true, if_false, if_true]
    rw [hnext]
    refine ⟨rfl, ?_, hslots.append _, ?_, (nomatch ·), hlevel, ?_⟩
    · show v.lines.length + 1 + 1 = (v.lines ++ [_]).length + 1
      rw [List.length_append]
      rfl
    · intro i x hi
      by_cases hlast : i < v.lines.length
      · rw [List.getElem?_append_left hlast] at hi
        exact hseqs i x hi
      · obtain ⟨hlt, hx⟩ := List.getElem?_eq_some_iff.mp hi
        rw [List.length_append, List.length_singleton] at hlt
        have hi' : i = v.lines.length := by omega
        subst hi'
        rw [List.getElem_append_right (Nat.le_refl _)] at hx
        simp only [Nat.sub_self, List.getElem_cons_zero] at hx
        rw [← hx]
        rfl
    · show v.pos ≤ (v.lines ++ [_]).length
      rw [List.length_append]
      omega

/-! ### The link -/

/-- An event changes the queue and the counters, and the two counters by the same. -/
theorem event_same (l : LogLink) (size : Nat) :
    (l.event size).logLevel = l.logLevel ∧ (l.event size).logNext = l.logNext
    ∧ (l.event size).logs = l.logs
      ∧ (l.event size).drops + l.refused = l.drops + (l.event size).refused := by
  unfold LogLink.event
  simp only []
  split
  · exact ⟨rfl, rfl, rfl, Nat.add_right_comm _ _ _⟩
  · exact ⟨rfl, rfl, rfl, rfl⟩

/-- Handing over lines counts what the queue refuses, and nothing else. The link moves on by as
many lines as there were. -/
theorem pushLines_counts (r : LogRing) (n : Nat) (l : LogLink) :
    (LogLink.pushLines r n l).logLevel = l.logLevel
    ∧ (LogLink.pushLines r n l).logNext = l.logNext + n
      ∧ (LogLink.pushLines r n l).drops + l.refused
        = l.drops + (LogLink.pushLines r n l).refused := by
  induction n generalizing l with
  | zero => exact ⟨rfl, rfl, rfl⟩
  | succ n ih =>
    have hline : (LogLink.pushLine r l).logLevel = l.logLevel
      ∧ (LogLink.pushLine r l).logNext = l.logNext + 1
        ∧ (LogLink.pushLine r l).drops + l.refused
          = l.drops + (LogLink.pushLine r l).refused := by
      unfold LogLink.pushLine
      simp only []
      split
      · obtain ⟨hlevel, hnext, -, hcount⟩ := event_same { l with logNext := l.logNext + 1 }
          (4 + (r.slots (l.logNext % consoleLogRing)).data.length)
        exact ⟨hlevel, hnext, hcount⟩
      · exact ⟨rfl, rfl, rfl⟩
    obtain ⟨hlevel, hnext, hcount⟩ := hline
    obtain ⟨hlevel', hnext', hcount'⟩ := ih (LogLink.pushLine r l)
    rw [LogLink.pushLines]
    exact ⟨hlevel'.trans hlevel, by rw [hnext', hnext]; omega, by omega⟩

/-- The lines that are handed over are those of the level, from the link's place to the end. By
induction on their number; `hheld` says that the ring still holds them all. -/
theorem pushLines_logs {mapped : Bool} {s : LogState} {v : View} (h : Stands mapped s v)
    {p n : Nat} {l : LogLink} (hlen : p + n = v.lines.length) (hnext : l.logNext = p + 1)
    (hheld : v.held ≤ p) :
    (LogLink.pushLines s.ring n l).logs
      = l.logs ++ ((v.lines.drop p).filter fun x => x.level ≤ l.logLevel).map LogLine.data := by
  induction n generalizing p l with
  | zero =>
    rw [List.drop_eq_nil_of_le (by omega)]
    exact (List.append_nil _).symm
  | succ n ih =>
    have hlt : p < v.lines.length := by omega
    have hget : v.lines[p]? = some v.lines[p] := List.getElem?_eq_getElem hlt
    obtain ⟨hslot, hseq⟩ := h.slot hget hheld
    have hmapped : s.ring.mapped = true := by
      rw [h.on]
      cases mapped with
      | true => rfl
      | false =>
        rw [h.empty rfl] at hlt
        exact absurd hlt (Nat.not_lt_zero _)
    have hline : (LogLink.pushLine s.ring l).logLevel = l.logLevel
      ∧ (LogLink.pushLine s.ring l).logNext = p + 1 + 1
        ∧ (LogLink.pushLine s.ring l).logs
          = l.logs ++ ([v.lines[p]].filter fun x => x.level ≤ l.logLevel).map LogLine.data := by
      unfold LogLink.pushLine
      simp only []
      rw [hnext, hslot, hmapped, hseq]
      simp only [decide_true, Bool.true_and]
      by_cases hlevel : v.lines[p].level ≤ l.logLevel
      · have hwanted : ([v.lines[p]].filter fun x => decide (x.level ≤ l.logLevel))
          = [v.lines[p]] := by simp [hlevel]
        obtain ⟨hlevel', hnext', -⟩ :=
          event_same { l with logNext := p + 1 + 1 } (4 + v.lines[p].data.length)
        rw [hwanted, if_pos (decide_eq_true hlevel)]
        exact ⟨hlevel', hnext', rfl⟩
      · have hunwanted : ([v.lines[p]].filter fun x => decide (x.level ≤ l.logLevel)) = [] := by
          simp [hlevel]
        rw [hunwanted, if_neg (by simpa using hlevel)]
        exact ⟨rfl, rfl, (List.append_nil _).symm⟩
    obtain ⟨hlevel, hnext', hlogs⟩ := hline
    rw [LogLink.pushLines, ih (by omega) hnext' (by omega), hlevel, hlogs, List.append_assoc,
      ← List.map_append, ← List.filter_append, List.singleton_append, List.getElem_cons_drop]

/-! ### Steps -/

/-- The oldest line of a full ring. -/
theorem oldest_eq (next : Nat) : oldest next = next - consoleLogRing + 1 := by
  unfold LogLink.oldest
  split <;> omega

/-- A push goes back to the oldest line at most, and counts the lines before it. -/
theorem pushLog_eq (r : LogRing) {l : LogLink} (hlevel : 0 ≤ l.logLevel) :
    ∃ l', l.pushLog r = LogLink.pushLines r (r.next - l'.logNext) l' ∧ l'.logLevel = l.logLevel
      ∧ l'.logs = l.logs
      ∧ l'.refused = l.refused ∧ l'.logNext = max l.logNext (r.next - consoleLogRing + 1)
      ∧ l'.drops = l.drops + (r.next - consoleLogRing + 1 - l.logNext) := by
  unfold LogLink.pushLog
  rw [if_neg (by omega), oldest_eq]
  simp only []
  refine ⟨_, rfl, ?_⟩
  by_cases hbehind : l.logNext < r.next - consoleLogRing + 1
  · rw [if_pos hbehind]
    exact ⟨rfl, rfl, rfl, (Nat.max_eq_right (Nat.le_of_lt hbehind)).symm, rfl⟩
  · rw [if_neg hbehind]
    exact ⟨rfl, rfl, rfl, (Nat.max_eq_left (Nat.not_lt.mp hbehind)).symm, by omega⟩

/-- A push hands over what is owed if and only if it finds fewer lines to hand over than the ring
has slots. Otherwise it counts one line too many as lost, and leaves that one out. -/
theorem push_iff {mapped : Bool} {s : LogState} {v : View} (h : Stands mapped s v)
    (hf : Faithful s v) :
    Faithful { s with link := s.link.pushLog s.ring } v.push ↔ Roomy s .push := by
  obtain ⟨hlogs, hdrops, hnext, holdest⟩ := hf
  have hring := h.next
  have hpos := h.pos
  have hcap : consoleLogRing = 1024 := rfl
  unfold View.push Roomy
  rw [h.level]
  by_cases hlevel : v.level < 0
  · -- no lines are wanted: the link skips them
    have hskip : s.link.pushLog s.ring = { s.link with logNext := s.ring.next } :=
      if_pos (by rw [h.level]; exact hlevel)
    rw [if_pos hlevel, hskip]
    exact ⟨fun _ hwants => absurd hlevel (Int.not_lt.mpr hwants),
      fun _ => ⟨hlogs, hdrops, fun hwants => absurd hlevel (Int.not_lt.mpr hwants), holdest⟩⟩
  have hwants : 0 ≤ v.level := Int.not_lt.mp hlevel
  have hstart := hnext hwants
  have hlevel' : 0 ≤ s.link.logLevel := h.level ▸ hwants
  have hheld : v.held = v.lines.length - consoleLogRing := rfl
  obtain ⟨l, hpush, hl, hlogs', hrefused, hfrom, hdrops'⟩ := pushLog_eq s.ring hlevel'
  obtain ⟨-, hnext', hcount⟩ := pushLines_counts s.ring (s.ring.next - l.logNext) l
  rw [if_neg hlevel, hpush]
  constructor
  · intro hafter hasks
    have hcounted : (LogLink.pushLines s.ring (s.ring.next - l.logNext) l).drops
        = v.lost + (v.held - v.pos)
          + (LogLink.pushLines s.ring (s.ring.next - l.logNext) l).refused := hafter.drops
    omega
  · intro hroom
    have hroom := hroom hwants
    have hplace : l.logNext = v.pos + 1 := by omega
    refine ⟨?_, ?_, fun _ => ?_, holdest⟩
    · have hlen : v.pos + (s.ring.next - l.logNext) = v.lines.length := by omega
      have hmax : max v.pos v.held = v.pos := by omega
      show (LogLink.pushLines s.ring _ _).logs = _
      rw [pushLines_logs h hlen hplace (by omega), hlogs', hlogs, hmax, List.map_append,
        hl, h.level]
    · show (LogLink.pushLines s.ring _ _).drops = v.lost + (v.held - v.pos)
        + (LogLink.pushLines s.ring _ _).refused
      omega
    · show (LogLink.pushLines s.ring _ _).logNext = v.lines.length + 1
      omega

/-- What is pushed is what the ring holds from the first line that was not sent. -/
theorem Stands.push {mapped : Bool} {s : LogState} {v : View} (h : Stands mapped s v) :
    Stands mapped { s with link := s.link.pushLog s.ring } v.push := by
  have hlevel : (s.link.pushLog s.ring).logLevel = v.level := by
    by_cases hnone : s.link.logLevel < 0
    · rw [LogLink.pushLog, if_pos hnone]
      exact h.level
    · obtain ⟨l, hpush, hl, -⟩ := pushLog_eq s.ring (Int.not_lt.mp hnone)
      rw [hpush, (pushLines_counts s.ring _ l).1, hl, h.level]
  unfold View.push
  split
  · exact ⟨h.on, h.next, h.slots, h.seqs, h.empty, hlevel, h.pos⟩
  · exact ⟨h.on, h.next, h.slots, h.seqs, h.empty, hlevel, Nat.le_refl _⟩

/-- Subscribing is roomy unless a replay is asked for that has already lost lines. -/
theorem roomy_subscribe (s : LogState) (topics : Str) : Roomy s (.subscribe topics) ↔
    ∀ level, wanted topics = .ok (level, true) → 0 ≤ level → s.link.logLevel < 0 →
      s.ring.next ≤ consoleLogRing :=
  Iff.rfl

/-- A subscription goes on where it should if and only if it does not replay a ring that was
filled. -/
theorem subscribe_iff {mapped : Bool} {s : LogState} {v : View} (h : Stands mapped s v)
    (hf : Faithful s v) {topics : Str} {l : LogLink}
    (hl : s.link.subscribe s.ring.next topics = .ok l) :
    Stands mapped { s with link := l } (v.step mapped (.subscribe topics))
      ∧ (Faithful { s with link := l } (v.step mapped (.subscribe topics))
        ↔ Roomy s (.subscribe topics)) := by
  obtain ⟨hlogs, hdrops, hnext, holdest⟩ := hf
  have hring := h.next
  have hpos := h.pos
  have hcap : consoleLogRing = 1024 := rfl
  have hold := oldest_eq s.ring.next
  have hheld : v.held = v.lines.length - consoleLogRing := rfl
  unfold LogLink.subscribe at hl
  -- a topic that is refused leaves the link as it is
  cases hwanted : wanted topics with
  | error e =>
    rw [hwanted] at hl
    cases hl
  -- the level wanted, and whether the lines of the past are asked for
  | ok want =>
    obtain ⟨level, replay⟩ := want
    rw [hwanted, checked_bind] at hl
    obtain rfl := Except.ok.inj hl
    have hview : v.step mapped (.subscribe topics) = v.subscribe level replay := by
      rw [View.step, hwanted]
    rw [hview]
    rw [roomy_subscribe, hwanted]
    unfold View.subscribe
    rw [← h.level]
    -- a link that heard no log and hears it now
    by_cases hstarts : 0 ≤ level ∧ s.link.logLevel < 0
    · have hstarts' : (decide (0 ≤ level) && decide (s.link.logLevel < 0)) = true := by
        rw [Bool.and_eq_true, decide_eq_true_eq, decide_eq_true_eq]
        exact hstarts
      rw [if_pos hstarts', if_pos hstarts']
      cases replay with
      -- with the past: the replay starts at the oldest line, which is the next one if the ring is
      -- not full
      | true =>
        refine ⟨⟨h.on, hring, h.slots, h.seqs, h.empty, rfl, Nat.sub_le _ _⟩, ?_⟩
        constructor
        · intro hafter level' _ _ _
          have hplace : oldest s.ring.next = v.held + 1 := hafter.next hstarts.1
          omega
        · intro hroom
          have hroom := hroom level rfl hstarts.1 hstarts.2
          exact ⟨hlogs, hdrops, fun _ => show oldest s.ring.next = v.held + 1 by omega, holdest⟩
      -- without it: the next line is the first
      | false =>
        exact ⟨⟨h.on, hring, h.slots, h.seqs, h.empty, rfl, Nat.le_refl _⟩,
          fun _ _ heq => (nomatch heq), fun _ => ⟨hlogs, hdrops, fun _ => hring, holdest⟩⟩
    -- a link that hears the log already goes on where it was
    · have hstarts' : ¬(decide (0 ≤ level) && decide (s.link.logLevel < 0)) = true := by
        rw [Bool.and_eq_true, decide_eq_true_eq, decide_eq_true_eq]
        exact hstarts
      rw [if_neg hstarts', if_neg hstarts']
      refine ⟨⟨h.on, hring, h.slots, h.seqs, h.empty, rfl, hpos⟩, ?_, ?_⟩
      · intro _ level' heq hwants hfresh
        obtain rfl : level = level' := congrArg Prod.fst (Except.ok.inj heq)
        exact absurd ⟨hwants, hfresh⟩ hstarts
      · intro _
        refine ⟨hlogs, hdrops, fun hwants => hnext ?_, holdest⟩
        rw [← h.level]
        exact Int.not_lt.mp (not_and.mp hstarts hwants)

/-- One step keeps the view, and is faithful if and only if it keeps away from the full ring. The
cases are the operations. -/
theorem step_faithful_iff {mapped : Bool} {s s' : LogState} {v : View} {op : LogOp}
    (h : Stands mapped s v) (hf : Faithful s v) (hstep : s.step op = .ok s') :
    Stands mapped s' (v.step mapped op) ∧ (Faithful s' (v.step mapped op) ↔ Roomy s op) := by
  cases op with
  -- a line is appended: the link is where it was
  | append level line now =>
    obtain rfl := Except.ok.inj hstep
    have hkept := h.append level line now
    refine ⟨hkept, fun _ => trivial, fun _ => ?_⟩
    have hsame : (v.step mapped (.append level line now)).sent = v.sent
        ∧ (v.step mapped (.append level line now)).lost = v.lost
        ∧ (v.step mapped (.append level line now)).level = v.level
        ∧ (v.step mapped (.append level line now)).pos = v.pos := by
      cases mapped <;> exact ⟨rfl, rfl, rfl, rfl⟩
    obtain ⟨hsent, hlost, hlevel, hpos⟩ := hsame
    refine ⟨?_, ?_, ?_, fun line hline hts => hkept.ringOldest hline hts⟩
    · rw [hsent]
      exact hf.logs
    · rw [hlost]
      exact hf.drops
    · rw [hlevel, hpos]
      exact hf.next
  -- a console opens, and hears no log yet
  | opened =>
    obtain rfl := Except.ok.inj hstep
    exact ⟨⟨h.on, h.next, h.slots, h.seqs, h.empty, rfl, Nat.le_refl _⟩, fun _ => trivial,
      fun _ => ⟨rfl, rfl, fun _ => h.next, hf.oldest⟩⟩
  | subscribe topics =>
    have hbind : (s.link.subscribe s.ring.next topics).map (fun l => { s with link := l })
      = .ok s' := hstep
    cases hl : s.link.subscribe s.ring.next topics with
    | error e =>
      rw [hl] at hbind
      cases hbind
    | ok l =>
      rw [hl] at hbind
      obtain rfl := Except.ok.inj hbind
      exact subscribe_iff h hf hl
  -- the lines that fit go out
  | push =>
    obtain rfl := Except.ok.inj hstep
    exact ⟨h.push, push_iff h hf⟩
  -- another event takes a place, or is refused and counted
  | other size =>
    obtain rfl := Except.ok.inj hstep
    obtain ⟨hlevel, hnext, hlogs, hcount⟩ := event_same s.link size
    have hdrops := hf.drops
    refine ⟨⟨h.on, h.next, h.slots, h.seqs, h.empty, hlevel.trans h.level, h.pos⟩,
      fun _ => trivial, fun _ =>
      ⟨hlogs.trans hf.logs, ?_, fun hwants => hnext.trans (hf.next hwants), hf.oldest⟩⟩
    show (s.link.event size).drops = v.lost + (s.link.event size).refused
    omega
  -- the queue is drained, which the ring does not notice
  | drain n =>
    obtain rfl := Except.ok.inj hstep
    exact ⟨⟨h.on, h.next, h.slots, h.seqs, h.empty, h.level, h.pos⟩, fun _ => trivial,
      fun _ => ⟨hf.logs, hf.drops, hf.next, hf.oldest⟩⟩

/-! ### Runs -/

/-- One operation more. -/
theorem LogState.run_concat {s : LogState} (ops : List LogOp) (op : LogOp) :
    s.run (ops ++ [op]) = (s.run ops >>= fun t => t.step op) := by
  unfold LogState.run
  rw [List.foldlM_append]
  cases ops.foldlM LogState.step s with
  | error e => rfl
  | ok t =>
    show [op].foldlM LogState.step t = t.step op
    rw [List.foldlM_cons]
    cases t.step op <;> rfl

/-- One operation more, on the view. -/
theorem View.run_concat (mapped : Bool) (ops : List LogOp) (op : LogOp) :
    View.run mapped (ops ++ [op]) = (View.run mapped ops).step mapped op := List.foldl_concat ..

/-- Before anything is logged the view stands for the state and nothing was lost. -/
theorem start_faithful (mapped : Bool) : Stands mapped (LogState.new mapped) {}
    ∧ Faithful (LogState.new mapped) {} :=
  ⟨⟨rfl, rfl, .nil _ _ _, fun _ _ h => (nomatch h), fun _ => rfl, rfl, Nat.le_refl _⟩,
    ⟨rfl, rfl, fun h => absurd h (by decide), fun _ h => (nomatch h)⟩⟩

/-- The last step of a run. -/
theorem run_concat_ok {s s' : LogState} {ops : List LogOp} {op : LogOp}
    (h : s.run (ops ++ [op]) = .ok s') :
    ∃ t, s.run ops = .ok t ∧ t.step op = .ok s' := by
  rw [LogState.run_concat] at h
  cases hs : s.run ops with
  | error e =>
    rw [hs] at h
    cases h
  | ok t =>
    rw [hs] at h
    exact ⟨t, rfl, h⟩

/-- A run that is faithful on the way stands for its view. -/
theorem kept_run (mapped : Bool) {pre : List LogOp} {s : LogState}
    (hall : ∀ p q t, pre = p ++ q → (LogState.new mapped).run p = .ok t →
    Faithful t (View.run mapped p)) (hrun : (LogState.new mapped).run pre = .ok s) :
    Stands mapped s (View.run mapped pre) := by
  induction pre using List.reverseRecOn generalizing s with
  | nil =>
    obtain rfl := Except.ok.inj hrun
    exact (start_faithful mapped).1
  | append_singleton pre op ih =>
    obtain ⟨t, ht, hstep⟩ := run_concat_ok hrun
    have hkept := ih (fun p q u hpre hu =>
      hall p (q ++ [op]) u (by rw [hpre, List.append_assoc]) hu) ht
    rw [View.run_concat]
    exact (step_faithful_iff hkept (hall pre [op] t rfl ht) hstep).1

/-- A console has what it is owed throughout a run if and only if no step of the run reaches the
point where the ring is full. Both sides speak of the prefixes of the run that succeed. -/
theorem log_replays_iff (mapped : Bool) (ops : List LogOp) :
    (∀ pre post s, ops = pre ++ post → (LogState.new mapped).run pre = .ok s →
    Faithful s (View.run mapped pre))
      ↔ ∀ pre op post s s', ops = pre ++ op :: post → (LogState.new mapped).run pre = .ok s →
        s.step op = .ok s' → Roomy s op := by
  constructor
  · intro hall pre op post s s' hops hrun hstep
    have hfaithful : ∀ p q t, pre = p ++ q → (LogState.new mapped).run p = .ok t →
      Faithful t (View.run mapped p) :=
      fun p q t hpre ht => hall p (q ++ op :: post) t (by rw [hops, hpre, List.append_assoc]) ht
    have hkept := kept_run mapped hfaithful hrun
    have hnext : (LogState.new mapped).run (pre ++ [op]) = .ok s' := by
      rw [LogState.run_concat, hrun]
      exact hstep
    have hafter := hall (pre ++ [op]) post s' (by rw [hops, List.append_assoc]; rfl) hnext
    rw [View.run_concat] at hafter
    exact (step_faithful_iff hkept (hfaithful pre [] s (List.append_nil pre).symm hrun)
      hstep).2.mp hafter
  · intro hroom pre post s hops hrun
    suffices hboth : Stands mapped s (View.run mapped pre) ∧ Faithful s (View.run mapped pre)
      from hboth.2
    induction pre using List.reverseRecOn generalizing post s with
    | nil =>
      obtain rfl := Except.ok.inj hrun
      exact start_faithful mapped
    | append_singleton pre op ih =>
      rw [List.append_assoc] at hops
      obtain ⟨t, ht, hstep⟩ := run_concat_ok hrun
      obtain ⟨hkept, hfaithful⟩ := ih _ t hops ht
      obtain ⟨hkept', hiff⟩ := step_faithful_iff hkept hfaithful hstep
      rw [View.run_concat]
      exact ⟨hkept', hiff.mpr (hroom pre op post t s hops ht hstep)⟩

/-! ### A full ring -/

/-- Lines that are logged move the ring on and leave the link alone. By induction on their number,
so that runs over a full ring need no evaluation. -/
theorem run_appends {s : LogState} {v : View} (h : Stands true s v)
    (hf : Faithful s v) (n : Nat) :
    ∃ t w, s.run (List.replicate n (.append 4 [] 0)) = .ok t
      ∧ (List.replicate n (LogOp.append 4 [] 0)).foldl (View.step true) v = w ∧ Stands true t w
      ∧ Faithful t w
      ∧ t.link = s.link ∧ t.ring.next = s.ring.next + n := by
  induction n generalizing s v with
  | zero => exact ⟨s, v, rfl, rfl, h, hf, rfl, rfl⟩
  | succ n ih =>
    have hstep : s.step (.append 4 [] 0) = .ok { s with ring := s.ring.logAppend 4 [] 0 } := rfl
    obtain ⟨hkept, hiff⟩ := step_faithful_iff h hf hstep
    obtain ⟨t, w, ht, hw, hkept', hfaithful', hlink, hnext⟩ := ih hkept (hiff.mpr trivial)
    refine ⟨t, w, ?_, hw, hkept', hfaithful', hlink, ?_⟩
    · rw [List.replicate_succ, LogState.run, List.foldlM_cons]
      exact ht
    · have hone : (s.ring.logAppend 4 [] 0).next = s.ring.next + 1 := by
        rw [LogRing.logAppend, h.on]
        rfl
      rw [hnext, hone]
      omega

/-- The topic of the example asks for every line, without a replay. -/
theorem wanted_all : wanted "log=4".toList = .ok (4, false) := by decide +kernel

/-- A console subscribes, and then as many lines come before the first push as the ring has slots,
or more. -/
theorem push_behind {n : Nat} (hn : consoleLogRing ≤ n) : ∃ s, (LogState.new true).run
      (.subscribe "log=4".toList :: (List.replicate n (.append 4 [] 0) ++ [.push])) = .ok s
    ∧ ¬Faithful s (View.run true
      (.subscribe "log=4".toList :: (List.replicate n (.append 4 [] 0) ++ [.push]))) := by
  obtain ⟨hstart, hfaithful⟩ := start_faithful true
  have hsub : (LogState.new true).link.subscribe (LogState.new true).ring.next "log=4".toList
      = .ok { logNext := 1, logLevel := 4 } := by
    rw [LogLink.subscribe, wanted_all]
    rfl
  obtain ⟨hkept, hiff⟩ := subscribe_iff hstart hfaithful hsub
  have hroom : Roomy (LogState.new true) (.subscribe "log=4".toList) :=
    fun level heq => absurd (congrArg Prod.snd (Except.ok.inj (wanted_all.symm.trans heq)))
      Bool.false_ne_true
  obtain ⟨t, w, ht, hw, hkept', hfaithful', hlink, hnext⟩ := run_appends hkept (hiff.mpr hroom) n
  refine ⟨{ t with link := t.link.pushLog t.ring }, ?_, ?_⟩
  · rw [LogState.run, List.foldlM_cons, LogState.step, hsub]
    show LogState.run _ _ = _
    rw [LogState.run_concat, ht]
    rfl
  · rw [View.run, List.foldl_cons, List.foldl_append, hw]
    intro hafter
    have hlate := (push_iff hkept' hfaithful').mp hafter (by rw [hlink]; decide)
    have hbehind : t.ring.next = 1 + n := hnext
    have hplace : t.link.logNext = 1 := by rw [hlink]
    omega

/-- The ring is filled once before the first push. No line was overwritten, yet the push counts
one and leaves out the oldest. -/
theorem push_full : ∃ s, (LogState.new true).run
      (.subscribe "log=4".toList :: (List.replicate 1024 (.append 4 [] 0) ++ [.push])) = .ok s
    ∧ ¬Faithful s (View.run true
      (.subscribe "log=4".toList :: (List.replicate 1024 (.append 4 [] 0) ++ [.push]))) :=
  push_behind (Nat.le_refl _)

end IrcHub.Proofs
