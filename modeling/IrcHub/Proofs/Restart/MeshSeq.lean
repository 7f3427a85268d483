import IrcHub.Hub.MeshSeq
import IrcHub.Lib.Lww
import IrcHub.Proofs.Decimal

/-!
# `IrcHub.Proofs.Restart.MeshSeq`: the mesh counter across restarts

The counter is written with all its digits and read with `parseUint`, which takes ten of them. A
counter past `10 ^ 10` is lost by a restart, and a counter with the clock in it always is past it.
What is left is the floor of the clock, which rises by 1024 a second.

* `bootLamport_lamportLine`: what a start makes of the saved counter
* `SeqAhead.step`: a step within `SeqSafe` keeps the counter ahead of every number handed out
* `seq_increasing`: the numbers of a run of such steps increase
* `seq_goes_back`: a clock that was stepped back between two starts

A number that was handed out and not saved is no part of this: `SeqSafe` asks that everything is
saved when the hub restarts. Its other part is about the restarts that lose the counter: the floor
of the clock must not be below what was handed out.
-/

set_option autoImplicit false

namespace IrcHub.Proofs

open IrcHub.Hub Str

/-- Digits have no white space. -/
private theorem trim_toDigits (n : Nat) : trim (Nat.toDigits 10 n) = Nat.toDigits 10 n := by
  have hspace : ∀ c ∈ Nat.toDigits 10 n, isSpace c = false := by
    intro c hc
    obtain ⟨hlo, hhi⟩ := toNat_of_isDigit (isDigit_of_mem_toDigits hc)
    simp only [isSpace, Bool.or_eq_false_iff, Bool.and_eq_false_iff, decide_eq_false_iff_not,
      beq_eq_false_iff_ne]
    omega
  have hdrop : ∀ l : Str, (∀ c ∈ l, isSpace c = false) → l.dropWhile isSpace = l := by
    intro l hl
    cases l with
    | nil => rfl
    | cons c l => rw [List.dropWhile_cons, hl c List.mem_cons_self, if_neg Bool.false_ne_true]
  have hrev : ∀ c ∈ (Nat.toDigits 10 n).reverse, isSpace c = false :=
    fun c hc => hspace c (List.mem_reverse.mp hc)
  rw [trim, hdrop _ hspace, hdrop _ hrev, List.reverse_reverse]

/-- A start reads the saved counter back if it has at most ten digits, and takes it for 0 if
not. -/
theorem bootLamport_lamportLine (loadNow bootNow : Int) {n : Nat} (hn : n < u64Size) :
    bootLamport loadNow bootNow (some (lamportLine n))
      = max (max (if n < 10 ^ 10 then n else 0) (timeFloor loadNow)) (timeFloor bootNow) := by
  have hsplit : splitOnce '|' (lamportLine n) = some ("lamport_seq".toList, Nat.toDigits 10 n) :=
    splitOnce_eq_some_iff.mpr ⟨rfl, by decide⟩
  have hread : ((parseUint (trim (Nat.toDigits 10 n)) (u64Size - 1)).getD 0).toNat
      = if n < 10 ^ 10 then n else 0 := by
    rw [trim_toDigits, parseUint_toDigits]
    by_cases hten : n < 10 ^ 10
    · have hmax : (n : Int) ≤ u64Size - 1 := by
        have : n < 18446744073709551616 := hn
        show (n : Int) ≤ (18446744073709551616 : Nat) - 1
        omega
      rw [if_pos ⟨hten, hmax⟩, if_pos hten]
      rfl
    · rw [if_neg fun h => hten h.1, if_neg hten]
      rfl
  have hload : loadLamportLine loadNow 0 (lamportLine n)
      = max (if n < 10 ^ 10 then n else 0) (timeFloor loadNow) := by
    rw [loadLamportLine, hsplit]
    simp only [if_pos trivial, hread]
  unfold bootLamport
  simp only [hload]
  generalize max (if n < 10 ^ 10 then n else 0) (timeFloor loadNow) = a
  split
  · omega
  · omega

/-! ### Runs -/

/-- A step that does not set the counter back: no number past the last one of 64 bits; and a
restart comes with everything saved, and finds a counter of at most ten digits or a clock whose
floor is not below the numbers handed out. -/
def SeqSafe (st : SeqState) : SeqEvent → Prop
  | .next => st.seq + 1 < u64Size
  | .save => True
  | .restart loadNow bootNow => st.unsaved = false ∧
      ((∀ n, st.saved = some n → n < 10 ^ 10)
        ∨ ∀ x ∈ st.issued, x ≤ max (timeFloor loadNow) (timeFloor bootNow))

/-- The counter is ahead of every number handed out, and so is the saved one when nothing is
unsaved. -/
structure SeqAhead (st : SeqState) : Prop where
  fits : st.seq < u64Size
  savedFits : ∀ n, st.saved = some n → n < u64Size
  sorted : st.issued.Pairwise (· < ·)
  ahead : ∀ x ∈ st.issued, x ≤ st.seq
  savedAhead : st.unsaved = false → ∀ x ∈ st.issued, ∃ n, st.saved = some n ∧ x ≤ n

/-- The floor from the clock is a 64-bit number. -/
theorem timeFloor_lt (now : Int) : timeFloor now < u64Size := Nat.mod_lt _ (by decide)

/-- A safe step keeps the counter ahead of what was handed out. The cases are the events. -/
theorem SeqAhead.step {st : SeqState} (h : SeqAhead st) {e : SeqEvent} (he : SeqSafe st e) :
    SeqAhead (seqStep st e) := by
  cases e with
  -- a number is handed out: it is one more than the last
  | next =>
    have hnext : nextLamportSeq st.seq = st.seq + 1 := Nat.mod_eq_of_lt he
    refine ⟨?_, h.savedFits, ?_, ?_, fun hdirty => Bool.noConfusion hdirty⟩
    · show nextLamportSeq st.seq < u64Size
      rw [hnext]
      exact he
    · show (st.issued ++ [nextLamportSeq st.seq]).Pairwise (· < ·)
      rw [List.pairwise_append]
      refine ⟨h.sorted, List.pairwise_singleton _ _, ?_⟩
      intro x hx y hy
      rw [List.mem_singleton.mp hy, hnext]
      exact Nat.lt_succ_of_le (h.ahead x hx)
    · intro x hx
      show x ≤ nextLamportSeq st.seq
      rw [hnext]
      rcases List.mem_append.mp hx with hx | hx
      · exact Nat.le_succ_of_le (h.ahead x hx)
      · rw [List.mem_singleton.mp hx, hnext]
  -- the counter is saved, ahead of every number handed out
  | save =>
    refine ⟨h.fits, ?_, h.sorted, h.ahead, ?_⟩
    · rintro n ⟨⟩
      exact h.fits
    · exact fun _ x hx => ⟨st.seq, rfl, h.ahead x hx⟩
  -- a restart comes to the saved counter, or to the floor
  | restart loadNow bootNow =>
    obtain ⟨hsaved, hor⟩ := he
    -- the counter a start comes to
    have hboot : ∀ n, st.saved = some n → bootLamport loadNow bootNow (st.saved.map lamportLine)
        = max (max (if n < 10 ^ 10 then n else 0) (timeFloor loadNow)) (timeFloor bootNow) := by
      intro n hn
      rw [hn, Option.map_some, bootLamport_lamportLine loadNow bootNow (h.savedFits n hn)]
    have hload := timeFloor_lt loadNow
    have hmain := timeFloor_lt bootNow
    refine ⟨?_, h.savedFits, h.sorted, ?_, h.savedAhead⟩
    · show bootLamport loadNow bootNow (st.saved.map lamportLine) < u64Size
      cases hn : st.saved with
      | none =>
        rw [Option.map_none, bootLamport]
        split
        · exact hmain
        · exact by decide
      | some n =>
        rw [← hn, hboot n hn]
        have hfits := h.savedFits n hn
        refine max_lt (max_lt ?_ hload) hmain
        split
        · exact hfits
        · exact by decide
    -- it is ahead of every number handed out before, by the one or by the other
    · intro x hx
      show x ≤ bootLamport loadNow bootNow (st.saved.map lamportLine)
      obtain ⟨n, hn, hle⟩ := h.savedAhead hsaved x hx
      rw [hboot n hn]
      rcases hor with hshort | hfloor
      · rw [if_pos (hshort n hn)]
        exact le_max_of_le_left (le_max_of_le_left hle)
      · have hx' := hfloor x hx
        omega

/-- In every state of a run of safe steps, the numbers handed out so far increase. -/
theorem seq_increasing {seq : Nat} {saved : Option Nat} (hseq : seq < u64Size)
    (hsaved : ∀ n, saved = some n → n < u64Size) {events : List SeqEvent}
    (hsafe : Lww.Along SeqSafe seqStep { seq := seq, saved := saved } events) (n : Nat) :
    ((events.take n).foldl seqStep { seq := seq, saved := saved }).issued.Pairwise (· < ·) := by
  have hstart : SeqAhead { seq := seq, saved := saved } :=
    ⟨hseq, hsaved, List.Pairwise.nil, fun x hx => (List.not_mem_nil hx).elim,
      fun _ x hx => (List.not_mem_nil hx).elim⟩
  exact (Lww.inv_run (fun st e hst he => hst.step he) hstart (hsafe.take n)).sorted

instance (st : SeqState) (e : SeqEvent) : Decidable (SeqSafe st e) :=
  match e with
  | .next => inferInstanceAs (Decidable (_ < _))
  | .save => .isTrue trivial
  | .restart a b =>
    have : Decidable (∀ n, st.saved = some n → n < 10 ^ 10) :=
      inferInstanceAs (Decidable (∀ n ∈ st.saved, n < 10 ^ 10))
    inferInstanceAs (Decidable (st.unsaved = false ∧ ((∀ n, st.saved = some n → n < 10 ^ 10)
      ∨ ∀ x ∈ st.issued, x ≤ max (timeFloor a) (timeFloor b))))

/-- A hub starts, hands out a number, saves, and starts again a minute later. -/
theorem seq_increasing_restart :
    ([.restart 1700000000 1700000000, .next, .save, .restart 1700000060 1700000061,
    .next].foldl seqStep
        { seq := 0 }).issued.Pairwise (· < ·) := by
  have hsafe : Lww.Along SeqSafe seqStep { seq := 0 }
      [.restart 1700000000 1700000000, .next, .save, .restart 1700000060 1700000061, .next] :=
    ⟨by decide +kernel, by decide +kernel, trivial, by decide +kernel, by decide +kernel, trivial⟩
  exact seq_increasing (by decide) (fun n hn => by cases hn) hsafe 5

/-- The same hub with its clock stepped back before the second start: everything was saved, and
the number it hands out then is below the one it had handed out. -/
theorem seq_goes_back :
    ([.restart 1700000000 1700000000, .next, .save, .restart 1600000000 1600000000,
    .next].foldl seqStep
        { seq := 0 }) = {
      seq := 1638400000001
      saved := some 1740800000001
      issued := [1740800000001, 1638400000001]
      unsaved := true } := by
  decide +kernel

end IrcHub.Proofs
