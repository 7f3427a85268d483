import IrcHub.Hub.Update
import IrcHub.Lib.Natural
import Mathlib.Data.Char

/-!
# `IrcHub.Proofs.Update.Versions`: the order of versions

`versionCmp` drops a leading letter and compares in the natural order (`Natural.cmp`).

* `strverscmp_eq`, `versionCmp_eq`: the two are the same
* `cmp_dotted`, `cmp_intercalate`: on dotted numbers it is the order of the lists of numbers
* `Plain`, `not_tangled_of_plain`: versions of digits and dots are never tangled
* `versionOrder_exact`: it is a total order at three versions exactly when they are not tangled,
  as `2.4rc1`, `2.5` and `2.40` are
* `release_candidate_goes_round`: these three

The natural order looks at numbers where both texts have one and at characters elsewhere. At a
place where one text has a longer number and another a letter the two ways meet, and that is the
only way a circle comes about.
-/

set_option autoImplicit false

namespace IrcHub.Proofs

open IrcHub.Hub Str
open Natural (Tangled)

/-! ### The natural order -/

/-- Digits are a range of characters. -/
theorem isDigit_iff {c : Char} : c.isDigit = true ↔ '0' ≤ c ∧ c ≤ '9' := by
  rw [Char.isDigit, Bool.and_eq_true, decide_eq_true_eq, decide_eq_true_eq]
  exact Iff.rfl

/-- The digits among the characters. -/
def charDigits : Natural.Digits Char where
  digit := Char.isDigit
  convex := by
    intro d e c hd he hc hlt
    rw [isDigit_iff] at hd he
    refine lt_of_le_of_lt he.2 (lt_of_not_ge fun hle => ?_)
    rw [isDigit_iff.mpr ⟨hd.1.trans hlt.le, hle⟩] at hc
    cases hc

/-- Characters compare by code. -/
theorem compare_toNat (a b : Char) : compare a.toNat b.toNat = compare a b := by
  rcases lt_trichotomy a b with h | h | h
  · rw [compare_lt_iff_lt.mpr h, compare_lt_iff_lt.mpr (show a.toNat < b.toNat from h)]
  · rw [h, Std.ReflOrd.compare_self, Std.ReflOrd.compare_self]
  · rw [compare_gt_iff_gt.mpr h, compare_gt_iff_gt.mpr (show b.toNat < a.toNat from h)]

/-- The comparison of C, on what stands before a NUL. -/
theorem strverscmp_eq (s t : Str) : strverscmp s t = Natural.cmp charDigits (untilNul s)
    (untilNul t) := by
  unfold strverscmp
  generalize untilNul s = s
  generalize untilNul t = t
  induction s generalizing t with
  | nil => cases t <;> rfl
  | cons a s ih =>
    cases t with
    | nil => rfl
    | cons b t =>
      by_cases hab : a = b
      · subst hab
        rw [Natural.cmp_cons_same, ← ih]
        simp only [verDiff, if_true]
      · rw [Natural.cmp_cons_ne hab]
        simp only [verDiff, if_neg hab, compare_toNat]
        rfl

variable {a b c : Str}

/-- Without a NUL that is all. -/
theorem untilNul_of_not_mem (h : '\x00' ∉ a) : untilNul a = a :=
  List.takeWhile_eq_self_iff.mpr fun _ hc => bne_iff_ne.mpr fun heq => h (heq ▸ hc)

/-- Taking the letter off brings nothing in. -/
theorem mem_of_mem_stripV {d : Char} (h : d ∈ stripV a) : d ∈ a := by
  unfold stripV at h
  split at h
  · exact List.mem_cons_of_mem _ h
  · exact List.mem_cons_of_mem _ h
  · exact h

/-- Versions compare by that order, without their letters. -/
theorem versionCmp_eq (ha : '\x00' ∉ a) (hb : '\x00' ∉ b) :
    versionCmp a b = Natural.cmp charDigits (stripV a) (stripV b) := by
  unfold versionCmp
  rw [strverscmp_eq, untilNul_of_not_mem fun h => ha (mem_of_mem_stripV h),
    untilNul_of_not_mem fun h => hb (mem_of_mem_stripV h)]

/-! ### Dotted numbers -/

/-- The value of a digit. -/
def digitVal (c : Char) : Nat := c.toNat - '0'.toNat

/-- Decimal digits are ordered by their values. -/
theorem digitVal_values : Natural.Values charDigits digitVal 10 where
  lt_base d hd := by
    have hhi : d.toNat ≤ 57 := (isDigit_iff.mp hd).2
    show d.toNat - 48 < 10
    omega
  lt_iff d e hd he := by
    have hlo : 48 ≤ d.toNat := (isDigit_iff.mp hd).1
    have hlo' : 48 ≤ e.toNat := (isDigit_iff.mp he).1
    show d.toNat < e.toNat ↔ d.toNat - 48 < e.toNat - 48
    omega

/-- A version of numbers without leading zeros and dots between them, with or without a letter in
front. -/
structure Dotted (v : Str) (parts : List Str) : Prop where
  text : stripV v = ['.'].intercalate parts
  some : parts ≠ []
  numbers : ∀ n ∈ parts, Natural.Number charDigits digitVal n

/-- The order of lists of numbers: by the first two that differ, and the shorter list before the
longer. -/
def numbersCmp (as bs : List Str) : Ordering :=
  List.compareLex compare (as.map (Natural.value digitVal 10))
    (bs.map (Natural.value digitVal 10))

/-- The parts after the first. -/
def dotted (parts : List Str) : Str := parts.flatMap ('.' :: ·)

/-- Numbers with dots between. -/
theorem intercalate_dotted (n : Str) (parts : List Str) :
    ['.'].intercalate (n :: parts) = n ++ dotted parts := by
  induction parts generalizing n with
  | nil => rw [List.intercalate_singleton, dotted, List.flatMap_nil, List.append_nil]
  | cons m parts ih =>
    rw [List.intercalate_cons_cons, ih]
    simp [dotted]

/-- A number is followed by a dot or by nothing. -/
theorem ends_dotted (parts : List Str) : Natural.Ends charDigits (dotted parts) := by
  cases parts with
  | nil => exact fun c hc => nomatch hc
  | cons n parts =>
    intro c hc
    cases hc
    exact ⟨by decide, fun d hd => lt_of_lt_of_le (by decide) (isDigit_iff.mp hd).1⟩

/-- Dotted numbers compare number by number. -/
theorem cmp_dotted {as bs : List Str} (has : ∀ n ∈ as, Natural.Number charDigits digitVal n)
    (hbs : ∀ n ∈ bs, Natural.Number charDigits digitVal n) :
    Natural.cmp charDigits (dotted as) (dotted bs) = numbersCmp as bs := by
  induction as generalizing bs with
  | nil => cases bs <;> rfl
  | cons m as ih =>
    cases bs with
    | nil => rfl
    | cons n bs =>
      obtain ⟨hm, has⟩ := List.forall_mem_cons.mp has
      obtain ⟨hn, hbs⟩ := List.forall_mem_cons.mp hbs
      show Natural.cmp charDigits ('.' :: (m ++ dotted as)) ('.' :: (n ++ dotted bs)) = _
      rw [Natural.cmp_cons_same, Natural.cmp_number digitVal_values hm hn (ends_dotted as)
        (ends_dotted bs), ih has hbs, numbersCmp, numbersCmp, List.map_cons, List.map_cons,
        List.compareLex_cons_cons]

/-- Dotted numbers are ordered number by number. -/
theorem cmp_intercalate {as bs : List Str} (ha : Dotted a as) (hb : Dotted b bs) :
    Natural.cmp charDigits (stripV a) (stripV b) = numbersCmp as bs := by
  obtain ⟨htext, hsome, has⟩ := ha
  obtain ⟨htext', hsome', hbs⟩ := hb
  cases as with
  | nil => exact absurd rfl hsome
  | cons m as =>
    cases bs with
    | nil => exact absurd rfl hsome'
    | cons n bs =>
      have h := cmp_dotted has hbs
      rwa [htext, htext', intercalate_dotted, intercalate_dotted,
        ← Natural.cmp_cons_same (a := '.')]

/-! ### A total order -/

/-- What an order of versions keeps at three of them: swapping turns it round, it is transitive,
equal are only equal texts, and on dotted numbers it is that of the numbers. -/
structure VersionOrder (a b c : Str) : Prop where
  reverse : versionCmp b a = (versionCmp a b).swap
  trans : versionCmp a b ≠ .gt → versionCmp b c ≠ .gt → versionCmp a c ≠ .gt
  same : versionCmp a b = .eq ↔ stripV a = stripV b
  numbers : ∀ as bs, Dotted a as → Dotted b bs → versionCmp a b = numbersCmp as bs

/-- From one of three versions on: it has a number and a letter above the digits right after it,
the third has a longer number that begins the same, and the number of the second at this place is
between the two. -/
def VersionsTangled (a b c : Str) : Prop :=
  Tangled charDigits (stripV a) (stripV b) (stripV c)
    ∨ Tangled charDigits (stripV b) (stripV c) (stripV a)
    ∨ Tangled charDigits (stripV c) (stripV a) (stripV b)

/-- A version of digits and dots, with or without a letter in front. -/
structure Plain (v : Str) : Prop where
  some : stripV v ≠ []
  letters : ∀ c ∈ stripV v, c.isDigit = true ∨ c = '.'

instance (v : Str) : Decidable (Plain v) :=
  have : Decidable (∀ c ∈ stripV v, c.isDigit = true ∨ c = '.') := List.decidableBAll _ _
  decidable_of_iff (stripV v ≠ [] ∧ ∀ c ∈ stripV v, c.isDigit = true ∨ c = '.')
    ⟨fun h => ⟨h.1, h.2⟩, fun h => ⟨h.some, h.letters⟩⟩

/-- Such versions are in a linear order. -/
def Plain.low {v : Str} (h : Plain v) : Natural.LowText charDigits where
  text := stripV v
  low c hc hno d hd := by
    have hdot : c = '.' := (h.letters c hc).resolve_left fun hyes =>
      Bool.false_ne_true (hno.symm.trans hyes)
    exact hdot ▸ lt_of_lt_of_le (by decide) (isDigit_iff.mp hd).1

/-- A plain version has no NUL. -/
theorem Plain.not_mem {v : Str} (h : Plain v) : '\x00' ∉ v := by
  intro hmem
  have hstrip : '\x00' ∈ stripV v := by
    unfold stripV
    split
    · exact (List.mem_cons.mp hmem).resolve_left (by decide)
    · exact (List.mem_cons.mp hmem).resolve_left (by decide)
    · exact hmem
  exact (h.letters _ hstrip).elim (by decide) (by decide)

/-- Plain versions are not tangled: their letters are all below the digits. -/
theorem not_tangled_of_plain (ha : Plain a) (hb : Plain b) (hc : Plain c) :
    ¬ VersionsTangled a b c := fun h =>
  h.elim ha.low.not_tangled fun h => h.elim hb.low.not_tangled hc.low.not_tangled

/-- Versions are in a total order, exactly at three of them that are not tangled. Transitivity is
the only part that can fail; the others hold at any three. -/
theorem versionOrder_exact {a b c : Str} (ha : '\x00' ∉ a) (hb : '\x00' ∉ b) (hc : '\x00' ∉ c) :
    VersionOrder a b c ↔ ¬ VersionsTangled a b c := by
  constructor
  · intro h
    have htrans := h.trans
    rw [versionCmp_eq ha hb, versionCmp_eq hb hc, versionCmp_eq ha hc] at htrans
    exact Natural.trans_iff.mp htrans
  · intro h
    refine ⟨?_, ?_, ?_, fun as bs has hbs => ?_⟩
    · rw [versionCmp_eq ha hb, versionCmp_eq hb ha, Natural.cmp_swap]
    · rw [versionCmp_eq ha hb, versionCmp_eq hb hc, versionCmp_eq ha hc]
      exact Natural.trans_iff.mpr h
    · rw [versionCmp_eq ha hb, Natural.cmp_eq_iff]
    · rw [versionCmp_eq ha hb, cmp_intercalate has hbs]

/-- Releases are in a total order. -/
theorem versionOrder_releases : VersionOrder "v2.4.1".toList "2.4.2".toList "2.4.10".toList :=
  (versionOrder_exact (by decide) (by decide) (by decide)).mpr
    (not_tangled_of_plain (by decide +kernel) (by decide +kernel) (by decide +kernel))

/-- A release candidate is before the next release, that one before a later one, and this before
the candidate. -/
theorem release_candidate_goes_round :
    versionCmp "2.4rc1".toList "2.5".toList = .lt ∧ versionCmp "2.5".toList "2.40".toList = .lt
      ∧ versionCmp "2.40".toList "2.4rc1".toList = .lt
      ∧ ¬ VersionOrder "2.4rc1".toList "2.5".toList "2.40".toList := by
  refine ⟨by decide +kernel, by decide +kernel, by decide +kernel, fun h => ?_⟩
  exact h.trans (by decide +kernel) (by decide +kernel) (by decide +kernel)

end IrcHub.Proofs
