import Mathlib.Order.Compare
import Mathlib.Data.List.TakeWhile
import Mathlib.Data.Nat.Digits.Lemmas

/-!
# `IrcHub.Lib.Natural`: the natural order of texts with numbers

Two texts are compared at their first difference: two digits there by the length of the runs of
digits they begin, then by themselves, and other letters by themselves. So `1.10` comes after
`1.9`. The runs are those of the rest of the texts, so what two texts are compared by depends on
more than the place where they differ.

- `cmp_swap`, `cmp_eq_iff`: the order is antisymmetric and tells texts apart
- `trans_iff`: it is transitive at three texts exactly when they are not `Tangled`
- `tangled_of_cycle`, `Tangled.cycle`: three texts go round exactly when they are tangled, which
  takes a letter above the digits right after a number
- `LowText`: the texts without such letters. They are linearly ordered (`LowText.lt_iff`)
- `cmp_number`: numbers without leading zeros are ordered by their values

The cycle is real. Of a number that is followed by a letter above the digits, the same digits with
more digits, and a text that begins with that letter, each comes before the next. Orders of this
kind are used for versions, where such a letter is rare but not excluded.

The alphabet is arbitrary: `Digits` says which letters are digits, and the others are below all of
them or above.
-/

set_option autoImplicit false

namespace Natural

/-- Letters that are digits. The other letters are below all of them or above all of them. -/
structure Digits (α : Type) [LinearOrder α] where
  digit : α → Bool
  convex : ∀ {d e c : α}, digit d = true → digit e = true → digit c = false → d < c → e < c

variable {α : Type} [LinearOrder α] (D : Digits α)

/-- How many digits a text begins with. -/
def run (s : List α) : Nat := (s.takeWhile D.digit).length

/-- The natural order. -/
def cmp : List α → List α → Ordering
  | [], [] => .eq
  | [], _ :: _ => .lt
  | _ :: _, [] => .gt
  | a :: s, b :: t =>
    if a = b then cmp s t
    else if D.digit a && D.digit b then (compare (run D s) (run D t)).then (compare a b)
    else compare a b

variable {D} {a b c d x y z : α} {s t u : List α}

/-- The run at the head of a text is one longer than that of its tail, or empty. -/
theorem run_cons : run D (a :: s) = if D.digit a then run D s + 1 else 0 := by
  unfold run
  rw [List.takeWhile_cons]
  split <;> rfl

/-- A shared first character decides nothing: the order of two texts is that of their rests. -/
@[simp] theorem cmp_cons_same : cmp D (a :: s) (a :: t) = cmp D s t := by
  rw [cmp, if_pos rfl]

/-- Where two texts first differ, two digits compare by the length of their runs and then by
themselves, anything else by itself alone. -/
theorem cmp_cons_ne (h : a ≠ b) : cmp D (a :: s) (b :: t)
    = if D.digit a && D.digit b then (compare (run D s) (run D t)).then (compare a b)
      else compare a b := by
  rw [cmp, if_neg h]

/-- Turning the texts round turns the answer round. -/
theorem cmp_swap (s t : List α) : cmp D t s = (cmp D s t).swap := by
  induction s generalizing t with
  | nil => cases t <;> rfl
  | cons a s ih =>
    cases t with
    | nil => rfl
    | cons b t =>
      by_cases h : a = b
      · subst h
        rw [cmp_cons_same, cmp_cons_same, ih]
      · rw [cmp_cons_ne h, cmp_cons_ne (Ne.symm h), Bool.and_comm]
        split
        · rw [Ordering.swap_then, ← Std.OrientedOrd.eq_swap, ← Std.OrientedOrd.eq_swap]
        · exact Std.OrientedOrd.eq_swap

/-- Only a text itself compares equal to it. The order has no ties, so two different versions are
never taken for one. -/
theorem cmp_eq_iff : cmp D s t = .eq ↔ s = t := by
  induction s generalizing t with
  | nil => cases t <;> simp [cmp]
  | cons a s ih =>
    cases t with
    | nil => simp [cmp]
    | cons b t =>
      by_cases h : a = b
      · subst h
        rw [cmp_cons_same, ih, List.cons.injEq, eq_self_iff_true, true_and]
      · rw [cmp_cons_ne h]
        refine ⟨fun heq => absurd ?_ h, fun heq => absurd (List.cons.inj heq).1 h⟩
        split at heq
        · exact compare_eq_iff_eq.mp (Ordering.then_eq_eq.mp heq).2
        · exact compare_eq_iff_eq.mp heq

/-! ### One place -/

/-- A run of `m` more digits after `d` is before one of `n` more after `e`. -/
def RunLt (m : Nat) (d : α) (n : Nat) (e : α) : Prop := m < n ∨ m = n ∧ d < e

/-- Runs are ordered by length and then by first character, which is transitive. -/
theorem RunLt.trans {m n k : Nat} {d e f : α} (h : RunLt m d n e) (h' : RunLt n e k f) :
    RunLt m d k f := by
  rcases h with h | ⟨rfl, h⟩
  · rcases h' with h' | ⟨rfl, -⟩
    · exact .inl (h.trans h')
    · exact .inl h
  · rcases h' with h' | ⟨rfl, h'⟩
    · exact .inl h'
    · exact .inr ⟨rfl, h.trans h'⟩

/-- No run comes before itself. -/
theorem not_runLt_self {m : Nat} : ¬ RunLt m d m d := by
  rintro (h | ⟨-, h⟩)
  · exact lt_irrefl _ h
  · exact lt_irrefl _ h

/-- The order at the first difference of two texts. -/
theorem cmp_cons_lt (h : a ≠ b) : cmp D (a :: s) (b :: t) = .lt
    ↔ if D.digit a && D.digit b then RunLt (run D s) a (run D t) b else a < b := by
  rw [cmp_cons_ne h]
  split
  · rw [Ordering.then_eq_lt, compare_lt_iff_lt, compare_eq_iff_eq, compare_lt_iff_lt]
    rfl
  · exact compare_lt_iff_lt

/-- At one place three different letters do not go round. A cycle therefore has two texts that go
on alike where the third does not, which is the case `tangled_of_same` takes up. -/
theorem not_round (hab : a ≠ b) (hbc : b ≠ c) (hca : c ≠ a) (h₁ : cmp D (a :: s) (b :: t) = .lt)
    (h₂ : cmp D (b :: t) (c :: u) = .lt) (h₃ : cmp D (c :: u) (a :: s) = .lt) : False := by
  rw [cmp_cons_lt hab] at h₁
  rw [cmp_cons_lt hbc] at h₂
  rw [cmp_cons_lt hca] at h₃
  cases ha : D.digit a <;> cases hb : D.digit b <;> cases hc : D.digit c <;>
    simp only [ha, hb, hc, Bool.and_true, Bool.and_false, Bool.false_eq_true, if_true, if_false]
      at h₁ h₂ h₃
  · exact lt_irrefl _ ((h₁.trans h₂).trans h₃)
  · exact lt_irrefl _ ((h₁.trans h₂).trans h₃)
  · exact lt_irrefl _ ((h₁.trans h₂).trans h₃)
  · -- the letter `a` is between two digits
    exact lt_asymm h₁ (D.convex hc hb ha h₃)
  · exact lt_irrefl _ ((h₁.trans h₂).trans h₃)
  · exact lt_asymm h₂ (D.convex ha hc hb h₁)
  · exact lt_asymm h₃ (D.convex hb ha hc h₂)
  · exact not_runLt_self ((h₁.trans h₂).trans h₃)

/-! ### Going round -/

/-- The text `x` has a number and then a letter above the digits, `y` has a longer number that
begins the same, and the number of `z` at the same place is longer or greater than the one of `x`
and shorter or smaller than the one of `y`. -/
def Tangled (D : Digits α) (x z y : List α) : Prop :=
  ∃ p d r e x' e' y' d' z', x = p ++ d :: (r ++ e :: x') ∧ y = p ++ d :: (r ++ e' :: y')
    ∧ z = p ++ d' :: z'
    ∧ d ≠ d' ∧ (∀ c ∈ d :: d' :: r, D.digit c = true) ∧ D.digit e = false
    ∧ D.digit e' = true ∧ d < e
    ∧ RunLt r.length d (run D z') d' ∧ RunLt (run D z') d' (run D (r ++ e' :: y')) d

/-- A shared first character keeps three texts tangled. -/
theorem Tangled.cons (x : α) (h : Tangled D s t u) : Tangled D (x :: s) (x :: t) (x :: u) := by
  obtain ⟨p, d, r, e, x', e', y', d', z', rfl, rfl, rfl, h⟩ := h
  exact ⟨x :: p, d, r, e, x', e', y', d', z', rfl, rfl, rfl, h⟩

/-- A run that covers a first part goes on into the second. -/
theorem run_append (hr : ∀ c ∈ s, D.digit c = true) : run D (s ++ t) = s.length + run D t := by
  unfold run
  rw [List.takeWhile_append_of_pos hr, List.length_append]

/-- A run ends at the first character that is not a digit. -/
theorem run_eq_length (hr : ∀ c ∈ s, D.digit c = true) (he : D.digit a = false) :
    run D (s ++ a :: t) = s.length := by
  rw [run_append hr, run_cons, he]
  rfl

/-- The text with the shorter run of digits is the later one only if it goes on above the digits.
This is the one way in which the length of a run and the order disagree. -/
theorem high_of_lt (hlt : cmp D s t = .lt) (hrun : run D t < run D s) :
    ∃ r e t' e' s', t = r ++ e :: t'
    ∧ s = r ++ e' :: s' ∧ (∀ c ∈ r, D.digit c = true) ∧ D.digit e = false ∧ D.digit e' = true
    ∧ e' < e := by
  induction s generalizing t with
  | nil => exact absurd hrun (Nat.not_lt_zero _)
  | cons a s ih =>
    cases t with
    | nil => cases hlt
    | cons b t =>
      have ha : D.digit a = true := by
        by_contra hno
        rw [run_cons (a := a), if_neg hno] at hrun
        exact Nat.not_lt_zero _ hrun
      by_cases hab : a = b
      · subst hab
        rw [cmp_cons_same] at hlt
        rw [run_cons, run_cons, if_pos ha, if_pos ha] at hrun
        obtain ⟨r, e, t', e', s', rfl, rfl, hr, h⟩ := ih hlt (Nat.lt_of_succ_lt_succ hrun)
        exact ⟨a :: r, e, t', e', s', rfl, rfl, List.forall_mem_cons.mpr ⟨ha, hr⟩, h⟩
      rw [cmp_cons_lt hab, ha, Bool.true_and] at hlt
      cases hb : D.digit b with
      | false =>
        rw [hb, if_neg Bool.false_ne_true] at hlt
        exact ⟨[], b, t, a, s, rfl, rfl, fun c hc => absurd hc List.not_mem_nil, hb, ha, hlt⟩
      | true =>
        rw [hb, if_pos rfl] at hlt
        rw [run_cons, run_cons, if_pos ha, if_pos hb] at hrun
        rcases hlt with hlt | ⟨hlt, -⟩ <;> omega

/-- Two texts that go on alike where the third does not: if the three go round, they are tangled.
The third differs from both at this place, and the other two are compared by what comes later. -/
theorem tangled_of_same (hxz : x ≠ z) (hab : cmp D (x :: s) (x :: t) = .lt)
    (hbc : cmp D (x :: t) (z :: u) = .lt) (hca : cmp D (z :: u) (x :: s) = .lt) :
    Tangled D (x :: t) (z :: u) (x :: s) := by
  rw [cmp_cons_same] at hab
  rw [cmp_cons_lt hxz] at hbc
  rw [cmp_cons_lt hxz.symm, Bool.and_comm] at hca
  split at hbc
  · rename_i hdigits
    rw [if_pos hdigits] at hca
    simp only [Bool.and_eq_true] at hdigits
    have hrun : run D t < run D s := (hbc.trans hca).resolve_right fun h => lt_irrefl _ h.2
    obtain ⟨r, e, t', e', s', rfl, rfl, hr, he, he', hlt⟩ := high_of_lt hab hrun
    rw [run_eq_length hr he] at hbc
    refine ⟨[], x, r, e, t', e', s', z, u, rfl, rfl, rfl, hxz, ?_, he, he',
      D.convex he' hdigits.1 he hlt, hbc, hca⟩
    exact List.forall_mem_cons.mpr ⟨hdigits.1, List.forall_mem_cons.mpr ⟨hdigits.2, hr⟩⟩
  · rename_i hdigits
    rw [if_neg hdigits] at hca
    exact absurd hbc (lt_asymm hca)

/-- Three texts that go round are tangled, from one of them on. The induction drops the letters
that all three share; `not_round` leaves the case of `tangled_of_same`. -/
theorem tangled_of_cycle (hab : cmp D s t = .lt) (hbc : cmp D t u = .lt) (hca : cmp D u s = .lt) :
    Tangled D s t u ∨ Tangled D t u s ∨ Tangled D u s t := by
  induction s generalizing t u with
  | nil => cases u <;> cases hca
  | cons x s ih =>
    cases t with
    | nil => cases hab
    | cons y t =>
      cases u with
      | nil => cases hbc
      | cons z u =>
        by_cases hxy : x = y
        · subst hxy
          by_cases hxz : x = z
          · subst hxz
            rw [cmp_cons_same] at hab hbc hca
            exact (ih hab hbc hca).imp (.cons x) (.imp (.cons x) (.cons x))
          · exact .inr (.inl (tangled_of_same hxz hab hbc hca))
        by_cases hyz : y = z
        · subst hyz
          exact .inr (.inr (tangled_of_same (Ne.symm hxy) hbc hca hab))
        by_cases hzx : z = x
        · subst hzx
          exact .inl (tangled_of_same hxy hca hab hbc)
        · exact (not_round hxy hyz hzx hab hbc hca).elim

/-- Tangled texts go round: each is before the next and the last before the first. -/
theorem Tangled.cycle (h : Tangled D s t u) : cmp D s t = .lt ∧ cmp D t u = .lt
    ∧ cmp D u s = .lt := by
  obtain ⟨p, d, r, e, x', e', y', d', z', rfl, rfl, rfl, hne, hdigits, he, he', hde, hlt, hlt'⟩ :=
    h
  have happend : ∀ (q v w : List α), cmp D (q ++ v) (q ++ w) = cmp D v w := by
    intro q v w
    induction q with
    | nil => rfl
    | cons c q ih => rw [List.cons_append, List.cons_append, cmp_cons_same, ih]
  obtain ⟨hd, hrest⟩ := List.forall_mem_cons.mp hdigits
  obtain ⟨hd', hr⟩ := List.forall_mem_cons.mp hrest
  refine ⟨?_, ?_, ?_⟩
  · rw [happend, cmp_cons_lt hne, hd, hd', run_eq_length hr he]
    exact hlt
  · rw [happend, cmp_cons_lt hne.symm, hd, hd']
    exact hlt'
  · have hlow := D.convex hd he' he hde
    rw [happend, cmp_cons_same, happend, cmp_cons_lt hlow.ne, he, Bool.and_false,
      if_neg Bool.false_ne_true]
    exact hlow

/-- The order is transitive at three texts exactly when they are not tangled, in any of the three
orders round. It is stated for "not after", which is what a caller tests. -/
theorem trans_iff : (cmp D s t ≠ .gt → cmp D t u ≠ .gt → cmp D s u ≠ .gt)
    ↔ ¬ (Tangled D s t u ∨ Tangled D t u s ∨ Tangled D u s t) := by
  constructor
  · intro h htangled
    obtain ⟨hab, hbc, hca⟩ : cmp D s t = .lt ∧ cmp D t u = .lt ∧ cmp D u s = .lt := by
      rcases htangled with h | h | h
      · exact h.cycle
      · obtain ⟨h₁, h₂, h₃⟩ := h.cycle
        exact ⟨h₃, h₁, h₂⟩
      · obtain ⟨h₁, h₂, h₃⟩ := h.cycle
        exact ⟨h₂, h₃, h₁⟩
    refine h (by rw [hab]; decide) (by rw [hbc]; decide) ?_
    rw [cmp_swap u s, hca]
    rfl
  · intro h hab hbc hac
    have hca : cmp D u s = .lt := by
      rw [cmp_swap s u, hac]
      rfl
    have hne : cmp D s t ≠ .eq := fun heq => hbc (cmp_eq_iff.mp heq ▸ hac)
    have hne' : cmp D t u ≠ .eq := fun heq => hab (cmp_eq_iff.mp heq ▸ hac)
    have hlt : cmp D s t = .lt := by cases hcmp : cmp D s t <;> simp_all
    have hlt' : cmp D t u = .lt := by cases hcmp : cmp D t u <;> simp_all
    exact h (tangled_of_cycle hlt hlt' hca)

/-! ### Texts without letters above the digits -/

/-- A text of digits and letters below them. -/
@[ext] structure LowText (D : Digits α) where
  text : List α
  low : ∀ c ∈ text, D.digit c = false → ∀ d, D.digit d = true → c < d

/-- A text without letters above the digits is tangled with no two others: what breaks
transitivity is such a letter right after a number. -/
theorem LowText.not_tangled (v : LowText D) : ¬ Tangled D v.text t u := by
  rintro ⟨p, d, r, e, x', e', y', d', z', htext, -, -, -, hdigits, he, -, hde, -⟩
  have hmem : e ∈ v.text := by
    rw [htext]
    exact List.mem_append_right _
      (List.mem_cons_of_mem _ (List.mem_append_right _ List.mem_cons_self))
  exact lt_asymm hde (v.low e hmem he d (hdigits d List.mem_cons_self))

instance : LinearOrder (LowText D) where
  le v w := cmp D v.text w.text ≠ .gt
  lt v w := cmp D v.text w.text = .lt
  le_refl v := by
    show cmp D v.text v.text ≠ .gt
    rw [cmp_eq_iff.mpr rfl]
    decide
  le_trans u v w := trans_iff.mpr fun h => h.elim u.not_tangled fun h =>
    h.elim v.not_tangled w.not_tangled
  lt_iff_le_not_ge v w := by
    rw [cmp_swap v.text]
    cases cmp D v.text w.text <;> decide
  le_antisymm v w h h' := by
    have heq : cmp D v.text w.text = .eq := by
      rw [cmp_swap v.text] at h'
      cases hcmp : cmp D v.text w.text with
      | eq => rfl
      | lt => exact absurd (hcmp ▸ rfl) h'
      | gt => exact absurd hcmp h
    exact LowText.ext (cmp_eq_iff.mp heq)
  le_total v w := by
    show cmp D v.text w.text ≠ .gt ∨ cmp D w.text v.text ≠ .gt
    rw [cmp_swap v.text]
    cases cmp D v.text w.text <;> decide
  toDecidableLE v w := inferInstanceAs (Decidable (_ ≠ _))
  toDecidableLT v w := inferInstanceAs (Decidable (_ = _))
  toDecidableEq v w := decidable_of_iff (v.text = w.text) LowText.ext_iff.symm

/-- The order of such texts is that of `cmp`. -/
theorem LowText.lt_iff {v w : LowText D} : v < w ↔ cmp D v.text w.text = .lt := Iff.rfl

/-! ### Numbers -/

section Numbers

variable {dig : α → Nat} {base : Nat} {m n : List α}

/-- The value of a number. -/
def value (dig : α → Nat) (base : Nat) (s : List α) : Nat := Nat.ofDigits base (s.reverse.map dig)

/-- Letters stand for the digits of a base, in their order. -/
structure Values (D : Digits α) (dig : α → Nat) (base : Nat) : Prop where
  lt_base : ∀ d, D.digit d = true → dig d < base
  lt_iff : ∀ d e, D.digit d = true → D.digit e = true → (d < e ↔ dig d < dig e)

/-- A number without a leading zero. -/
structure Number (D : Digits α) (dig : α → Nat) (s : List α) : Prop where
  digits : ∀ c ∈ s, D.digit c = true
  some : s ≠ []
  noZero : ∀ c ∈ s.head?, dig c = 0 → s.length = 1

/-- A text does not go on with a digit, nor above the digits. -/
def Ends (D : Digits α) (s : List α) : Prop := ∀ c ∈ s.head?, D.digit c = false
    ∧ ∀ d, D.digit d = true → c < d

omit [LinearOrder α] in
/-- The first digit counts with the weight of all the others behind it. -/
theorem value_cons (c : α) (s : List α) :
    value dig base (c :: s) = value dig base s + base ^ s.length * dig c := by
  unfold value
  rw [List.reverse_cons, List.map_append, Nat.ofDigits_append, List.length_map,
    List.length_reverse]
  simp

/-- A number of `n` digits stays below the base to the power `n`. -/
theorem value_lt (hval : Values D dig base) (hs : ∀ c ∈ s, D.digit c = true) :
    value dig base s < base ^ s.length := by
  induction s with
  | nil => exact Nat.one_pos
  | cons c s ih =>
    obtain ⟨hc, hs⟩ := List.forall_mem_cons.mp hs
    have hlow := ih hs
    have hhigh := Nat.mul_le_mul_left (base ^ s.length) (hval.lt_base c hc)
    rw [value_cons, List.length_cons, Nat.pow_succ]
    rw [Nat.mul_succ] at hhigh
    omega

/-- The run of a number that is followed by no digit is the number. -/
theorem run_of_ends (hs : ∀ c ∈ m, D.digit c = true) (hend : Ends D t) :
    run D (m ++ t) = m.length := by
  rw [run_append hs]
  cases t with
  | nil => rfl
  | cons c t =>
    rw [run_cons, (hend c rfl).1]
    rfl

/-- Of two numbers with the same number of digits the greater is the later, and equal ones leave
it to what comes after. `hval` says that the digits are in the order of their values, `hs` and
`ht` that the numbers end where they seem to. -/
theorem cmp_same_length (hval : Values D dig base) (hm : ∀ c ∈ m, D.digit c = true)
    (hn : ∀ c ∈ n, D.digit c = true) (hlen : m.length = n.length) (hs : Ends D s)
    (ht : Ends D t) :
    cmp D (m ++ s) (n ++ t) = (compare (value dig base m) (value dig base n)).then
      (cmp D s t) := by
  induction m generalizing n with
  | nil =>
    cases List.length_eq_zero_iff.mp hlen.symm
    rw [Std.ReflOrd.compare_self]
    rfl
  | cons a m ih =>
    cases n with
    | nil => cases hlen
    | cons b n =>
      obtain ⟨ha, hm'⟩ := List.forall_mem_cons.mp hm
      obtain ⟨hb, hn'⟩ := List.forall_mem_cons.mp hn
      have hrest : m.length = n.length := Nat.succ.inj hlen
      rw [value_cons, value_cons, hrest]
      by_cases hab : a = b
      · subst hab
        have hcmp : compare (value dig base m + base ^ n.length * dig a)
          (value dig base n + base ^ n.length * dig a)
            = compare (value dig base m) (value dig base n) := by
          rcases Nat.lt_trichotomy (value dig base m) (value dig base n) with h | h | h
          · rw [compare_lt_iff_lt.mpr h, compare_lt_iff_lt.mpr (Nat.add_lt_add_right h _)]
          · rw [h, Std.ReflOrd.compare_self, Std.ReflOrd.compare_self]
          · rw [compare_gt_iff_gt.mpr h, compare_gt_iff_gt.mpr (Nat.add_lt_add_right h _)]
        rw [List.cons_append, List.cons_append, cmp_cons_same, ih hm' hn' hrest, hcmp]
      · rw [List.cons_append, List.cons_append, cmp_cons_ne hab, ha, hb, run_of_ends hm' hs,
          run_of_ends hn' ht, hrest, Std.ReflOrd.compare_self]
        have hlow := value_lt hval hm'
        have hlow' := value_lt hval hn'
        rw [hrest] at hlow
        show compare a b = _
        rcases lt_or_gt_of_ne hab with hlt | hlt
        · have hmul := Nat.mul_le_mul_left (base ^ n.length) ((hval.lt_iff a b ha hb).mp hlt)
          rw [Nat.mul_succ] at hmul
          rw [compare_lt_iff_lt.mpr hlt, compare_lt_iff_lt.mpr (by omega)]
          rfl
        · have hmul := Nat.mul_le_mul_left (base ^ n.length) ((hval.lt_iff b a hb ha).mp hlt)
          rw [Nat.mul_succ] at hmul
          rw [compare_gt_iff_gt.mpr hlt, compare_gt_iff_gt.mpr (by omega)]
          rfl

/-- The number with fewer digits is the earlier, whatever follows. No leading zeros are excluded
here; they are what makes this differ from the order of the values. -/
theorem cmp_shorter (hm : ∀ c ∈ m, D.digit c = true) (hn : ∀ c ∈ n, D.digit c = true)
    (hlen : m.length < n.length) (hs : Ends D s) (ht : Ends D t) :
    cmp D (m ++ s) (n ++ t) = .lt := by
  induction m generalizing n with
  | nil =>
    cases n with
    | nil => cases hlen
    | cons b n =>
      cases s with
      | nil => rfl
      | cons c s =>
        obtain ⟨hc, hlow⟩ := hs c rfl
        have hlt := hlow b (hn b List.mem_cons_self)
        rw [List.nil_append, List.cons_append, cmp_cons_lt hlt.ne, hc, Bool.false_and,
          if_neg Bool.false_ne_true]
        exact hlt
  | cons a m ih =>
    cases n with
    | nil => cases hlen
    | cons b n =>
      obtain ⟨ha, hm'⟩ := List.forall_mem_cons.mp hm
      obtain ⟨hb, hn'⟩ := List.forall_mem_cons.mp hn
      have hrest : m.length < n.length := Nat.lt_of_succ_lt_succ hlen
      by_cases hab : a = b
      · subst hab
        rw [List.cons_append, List.cons_append, cmp_cons_same]
        exact ih hm' hn' hrest
      · rw [List.cons_append, List.cons_append, cmp_cons_lt hab, ha, hb, run_of_ends hm' hs,
          run_of_ends hn' ht]
        exact .inl hrest

/-- A number with fewer digits is smaller. `Number` excludes leading zeros. -/
theorem value_shorter (hval : Values D dig base) (hm : Number D dig m) (hn : Number D dig n)
    (hlen : m.length < n.length) : value dig base m < value dig base n := by
  cases n with
  | nil => cases hlen
  | cons b n =>
    have hpos : 0 < m.length := List.length_pos_iff.mpr hm.some
    have hb : 0 < dig b := Nat.pos_of_ne_zero fun hzero => by
      have := hn.noZero b rfl hzero
      omega
    have hbase : 0 < base :=
      lt_of_le_of_lt (Nat.zero_le _) (hval.lt_base b (hn.digits b List.mem_cons_self))
    calc value dig base m < base ^ m.length := value_lt hval hm.digits
      _ ≤ base ^ n.length := Nat.pow_le_pow_right hbase (Nat.le_of_lt_succ hlen)
      _ ≤ base ^ n.length * dig b := Nat.le_mul_of_pos_right _ hb
      _ ≤ value dig base (b :: n) := by
        rw [value_cons]
        exact Nat.le_add_left ..

/-- Numbers without leading zeros are ordered by their values. -/
theorem cmp_number (hval : Values D dig base) (hm : Number D dig m) (hn : Number D dig n)
    (hs : Ends D s) (ht : Ends D t) :
    cmp D (m ++ s) (n ++ t) = (compare (value dig base m) (value dig base n)).then
      (cmp D s t) := by
  rcases Nat.lt_trichotomy m.length n.length with hlen | hlen | hlen
  · rw [cmp_shorter hm.digits hn.digits hlen hs ht,
      compare_lt_iff_lt.mpr (value_shorter hval hm hn hlen)]
    rfl
  · exact cmp_same_length hval hm.digits hn.digits hlen hs ht
  · rw [cmp_swap, cmp_shorter hn.digits hm.digits hlen ht hs,
      compare_gt_iff_gt.mpr (value_shorter hval hn hm hlen)]
    rfl

end Numbers

end Natural
