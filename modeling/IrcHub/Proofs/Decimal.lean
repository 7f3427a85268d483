import IrcHub.Hub.Cstr
import Mathlib.Data.List.TakeWhile

/-!
# `IrcHub.Proofs.Decimal`: numbers are read back as they were written

Numbers are read back as they were written. A number is written with `Nat.toDigits 10`, with a
sign in front of it below zero. Records carry their stamps and times as such texts, so every
result about a line that is read back rests on this module.

* `foldl_strtollStep`, `foldl_strtollStep_neg`: the digits of a number within the range, and of
  one below zero
* `strtoll_digits`: digits are read up to what follows them
* `strtoll_ofInt`, `strtoll_ofInt_append`: the text of every number of the 64-bit range is read
  back, also with text after it that is no digit
* `parseUint_toDigits`: `parseUint` takes ten digits at most: it reads the numbers below `10 ^ 10`
  back, up to its `max`, and no others

`strtoll` saturates, and the overflow flag is set only by a digit that leaves the range. For the
text of a number of the range it is never set, at the lower end as well, whose magnitude has no
positive counterpart.
-/

set_option autoImplicit false

namespace IrcHub.Proofs

open IrcHub.Hub Str
open String (utf8Len)

/-! ### Digits -/

/-- A number has at least one digit. -/
theorem toDigits_ne_nil (n : Nat) : Nat.toDigits 10 n ≠ [] := by
  intro h
  have := congrArg List.length h
  rw [List.length_nil, List.length_eq_zero_iff] at this
  exact absurd this Nat.toDigits_ne_nil

/-- It is written in digits. -/
theorem isDigit_of_mem_toDigits {n : Nat} {c : Char} (h : c ∈ Nat.toDigits 10 n) :
    c.isDigit = true :=
  Nat.isDigit_of_mem_toDigits (by decide) (by decide) h

/-- The code of a digit. -/
theorem toNat_of_isDigit {c : Char} (h : c.isDigit = true) : 48 ≤ c.toNat ∧ c.toNat ≤ 57 := by
  simp only [Char.isDigit, Bool.and_eq_true, decide_eq_true_eq, UInt32.le_iff_toNat_le, ge_iff_le]
    at h
  exact h

/-- Each takes one byte. -/
theorem utf8Len_toDigits (n : Nat) :
    utf8Len (Nat.toDigits 10 n) = (Nat.toDigits 10 n).length := by
  refine utf8Len_eq_length fun c hc => ?_
  have := (toNat_of_isDigit (isDigit_of_mem_toDigits hc)).2
  omega

/-- A number is written without a bar. -/
theorem bar_notMem_ofInt (x : Int) : '|' ∉ ofInt x := by
  have hdigits : ∀ n, '|' ∉ Nat.toDigits 10 n :=
    fun n hbar => absurd (isDigit_of_mem_toDigits hbar) (by decide)
  cases x with
  | ofNat n => exact hdigits n
  | negSucc n =>
    intro hbar
    rcases List.mem_cons.mp hbar with hbar | hbar
    · exact absurd hbar (by decide)
    · exact hdigits _ hbar

/-- Reading more digits does not make a number smaller. -/
theorem le_ofDigitChars (l : Str) (v : Nat) : v ≤ Nat.ofDigitChars 10 l v := by
  rw [Nat.ofDigitChars_eq_ofDigitChars_zero]
  have : 0 < 10 ^ l.length := Nat.pos_of_ne_zero (by simp)
  have := Nat.le_mul_of_pos_left v this
  omega

/-! ### `strtoll` -/

/-- The digits of a number within the range: the loop builds the value up and never overflows. `v`
is what was read before, and the induction is on the digits. -/
private theorem foldl_strtollStep {l : Str} (hl : ∀ c ∈ l, c.isDigit = true) (v : Nat)
    (hmax : (Nat.ofDigitChars 10 l v : Int) ≤ i64Max) :
    l.foldl (strtollStep false) (some (v : Int)) = some (Nat.ofDigitChars 10 l v : Int) := by
  induction l generalizing v with
  | nil => rfl
  | cons c l ih =>
    rw [Nat.ofDigitChars_cons] at hmax ⊢
    obtain ⟨hlo, hhi⟩ := toNat_of_isDigit (hl c List.mem_cons_self)
    have hle := le_ofDigitChars l (10 * v + (c.toNat - '0'.toNat))
    have hzero : '0'.toNat = 48 := rfl
    have hcap : i64Max = 9223372036854775807 := rfl
    -- neither the product nor the sum leaves the range
    have hstep : strtollStep false (some (v : Int)) c
        = some ((10 * v + (c.toNat - '0'.toNat) : Nat) : Int) := by
      have hmul : checkI64 ((v : Int) * 10) = some ((v : Int) * 10) := by
        rw [checkI64, if_pos]
        show -9223372036854775808 ≤ (v : Int) * 10 ∧ (v : Int) * 10 ≤ 9223372036854775807
        omega
      have hsum : checkI64 ((v : Int) * 10 + ((c.toNat : Int) - '0'.toNat))
          = some ((v : Int) * 10 + ((c.toNat : Int) - '0'.toNat)) := by
        rw [checkI64, if_pos]
        show -9223372036854775808 ≤ (v : Int) * 10 + ((c.toNat : Int) - '0'.toNat)
          ∧ (v : Int) * 10 + ((c.toNat : Int) - '0'.toNat) ≤ 9223372036854775807
        omega
      simp only [strtollStep, Option.bind_eq_bind, Option.bind_some, hmul,
        Bool.false_eq_true, if_false, hsum]
      congr 1
      omega
    rw [List.foldl_cons, hstep]
    exact ih (fun d hd => hl d (List.mem_cons_of_mem _ hd)) _ hmax

/-- Digits end where something else begins. -/
private theorem takeWhile_digits {l rest : Str} (hl : ∀ c ∈ l, c.isDigit = true)
    (hrest : ∀ c ∈ rest.head?, c.isDigit = false) : (l ++ rest).takeWhile Char.isDigit = l := by
  rw [List.takeWhile_append_of_pos hl]
  cases rest with
  | nil => exact List.append_nil l
  | cons c rest =>
    rw [List.takeWhile_cons, hrest c rfl, if_neg Bool.false_ne_true]
    exact List.append_nil l

/-- Digits are neither white space nor a sign, so the reader is at the number at once. -/
private theorem strtoll_start {c : Char} (l : Str) (h : c.isDigit = true) :
    isCSpace c = false ∧ strtollSign (c :: l) = (false, 0, c :: l) := by
  have hc := toNat_of_isDigit h
  constructor
  · have hne : ∀ d : Char, d.toNat < 48 → (c == d) = false := by
      intro d hd
      rw [beq_eq_false_iff_ne]
      rintro rfl
      omega
    have hvt : (c.toNat == 0x0b) = false := by rw [beq_eq_false_iff_ne]; omega
    have hff : (c.toNat == 0x0c) = false := by rw [beq_eq_false_iff_ne]; omega
    rw [isCSpace, hne ' ' (by decide), hne '\t' (by decide), hne '\n' (by decide),
      hne '\r' (by decide), hvt, hff]
    rfl
  · unfold strtollSign
    split
    · rename_i heq
      cases heq
      exact absurd hc.1 (by decide)
    · rename_i heq
      cases heq
      exact absurd hc.1 (by decide)
    · rfl

/-- Digits are read up to what follows them. `hrest` says that this is no digit. -/
theorem strtoll_digits {l rest : Str} (hl : ∀ c ∈ l, c.isDigit = true) (hne : l ≠ [])
    (hmax : (Nat.ofDigitChars 10 l 0 : Int) ≤ i64Max)
    (hrest : ∀ c ∈ rest.head?, c.isDigit = false) :
    strtoll (l ++ rest) = ((Nat.ofDigitChars 10 l 0 : Int), l.length) := by
  have htake := takeWhile_digits hl hrest
  have hval : l.foldl (strtollStep false) (some 0) = some (Nat.ofDigitChars 10 l 0 : Int) :=
    foldl_strtollStep hl 0 hmax
  cases l with
  | nil => exact absurd rfl hne
  | cons c l =>
    obtain ⟨hspace, hsign⟩ := strtoll_start (l ++ rest) (hl c List.mem_cons_self)
    rw [List.cons_append] at htake ⊢
    unfold strtoll
    rw [List.takeWhile_cons, List.dropWhile_cons, hspace]
    simp only [Bool.false_eq_true, if_false, hsign, htake, hval, List.isEmpty_cons,
      List.length_nil]
    simp

/-- The digits of a number below zero, whose magnitude may be one more than the greatest number of
the range. -/
private theorem foldl_strtollStep_neg {l : Str} (hl : ∀ c ∈ l, c.isDigit = true) (v : Nat)
    (hmax : Nat.ofDigitChars 10 l v ≤ 9223372036854775808) :
    l.foldl (strtollStep true) (some (-(v : Int))) = some (-(Nat.ofDigitChars 10 l v : Int)) := by
  induction l generalizing v with
  | nil => rfl
  | cons c l ih =>
    rw [Nat.ofDigitChars_cons] at hmax ⊢
    obtain ⟨hlo, hhi⟩ := toNat_of_isDigit (hl c List.mem_cons_self)
    have hle := le_ofDigitChars l (10 * v + (c.toNat - '0'.toNat))
    have hzero : '0'.toNat = 48 := rfl
    -- neither the product nor the difference leaves the range
    have hstep : strtollStep true (some (-(v : Int))) c
        = some (-((10 * v + (c.toNat - '0'.toNat) : Nat) : Int)) := by
      have hmul : checkI64 (-(v : Int) * 10) = some (-(v : Int) * 10) := by
        rw [checkI64, if_pos]
        show -9223372036854775808 ≤ -(v : Int) * 10 ∧ -(v : Int) * 10 ≤ 9223372036854775807
        omega
      have hdiff : checkI64 (-(v : Int) * 10 - ((c.toNat : Int) - '0'.toNat))
          = some (-(v : Int) * 10 - ((c.toNat : Int) - '0'.toNat)) := by
        rw [checkI64, if_pos]
        show -9223372036854775808 ≤ -(v : Int) * 10 - ((c.toNat : Int) - '0'.toNat)
          ∧ -(v : Int) * 10 - ((c.toNat : Int) - '0'.toNat) ≤ 9223372036854775807
        omega
      simp only [strtollStep, Option.bind_eq_bind, Option.bind_some, hmul, if_true, hdiff]
      congr 1
      omega
    rw [List.foldl_cons, hstep]
    exact ih (fun d hd => hl d (List.mem_cons_of_mem _ hd)) _ hmax

/-- A minus sign and digits are read up to what follows them. -/
theorem strtoll_minus {l rest : Str} (hl : ∀ c ∈ l, c.isDigit = true) (hne : l ≠ [])
    (hmax : Nat.ofDigitChars 10 l 0 ≤ 9223372036854775808)
    (hrest : ∀ c ∈ rest.head?, c.isDigit = false) :
    strtoll ('-' :: l ++ rest) = (-(Nat.ofDigitChars 10 l 0 : Int), l.length + 1) := by
  have htake := takeWhile_digits hl hrest
  have hempty : l.isEmpty = false := List.isEmpty_eq_false_iff.mpr hne
  have hval : l.foldl (strtollStep true) (some 0) = some (-(Nat.ofDigitChars 10 l 0 : Int)) :=
    foldl_strtollStep_neg hl 0 hmax
  have hspace : isCSpace '-' = false := by decide
  have hsign : strtollSign ('-' :: (l ++ rest)) = (true, 1, l ++ rest) := rfl
  rw [List.cons_append]
  unfold strtoll
  rw [List.takeWhile_cons, List.dropWhile_cons, hspace]
  simp only [Bool.false_eq_true, if_false, hsign, htake, hval, hempty, List.length_nil,
    Nat.zero_add, Nat.add_comm 1]

/-- Every 64-bit number is read up to what follows it. -/
theorem strtoll_ofInt_append {x : Int} {rest : Str} (hlo : i64Min ≤ x) (hhi : x ≤ i64Max)
    (hrest : ∀ c ∈ rest.head?, c.isDigit = false) :
    strtoll (ofInt x ++ rest) = (x, (ofInt x).length) := by
  cases x with
  | ofNat n =>
    have hread := strtoll_digits (fun c hc => isDigit_of_mem_toDigits hc) (toDigits_ne_nil n)
      (by rw [Nat.ofDigitChars_ten_toDigits]; exact hhi) hrest
    rw [Nat.ofDigitChars_ten_toDigits] at hread
    exact hread
  | negSucc n =>
    have hcap : i64Min = -9223372036854775808 := rfl
    have hread := strtoll_minus (fun c hc => isDigit_of_mem_toDigits hc) (toDigits_ne_nil (n + 1))
      (by rw [Nat.ofDigitChars_ten_toDigits]; omega) hrest
    rw [Nat.ofDigitChars_ten_toDigits] at hread
    exact hread

/-- A number that is not negative is read back whole. -/
theorem strtoll_ofInt {x : Int} (hlo : 0 ≤ x) (hhi : x ≤ i64Max) :
    strtoll (ofInt x) = (x, (ofInt x).length) := by
  have hread := strtoll_ofInt_append (Int.le_trans (by decide) hlo) hhi
    (fun c hc => absurd hc (Option.not_mem_none c) : ∀ c ∈ ([] : Str).head?, c.isDigit = false)
  rwa [List.append_nil] at hread

/-- Every 64-bit number is read back. -/
theorem atoll_ofInt_i64 {x : Int} (hlo : -9223372036854775808 ≤ x)
    (hhi : x ≤ 9223372036854775807) :
    atoll (ofInt x) = x := by
  have hread := strtoll_ofInt_append hlo hhi
    (fun c hc => absurd hc (Option.not_mem_none c) : ∀ c ∈ ([] : Str).head?, c.isDigit = false)
  rw [List.append_nil] at hread
  exact congrArg Prod.fst hread

/-- A 64-bit number is read back from its digits. -/
theorem atoll_toDigits {n : Nat} (h : (n : Int) ≤ i64Max) : atoll (Nat.toDigits 10 n) = n :=
  congrArg Prod.fst (strtoll_ofInt (Int.natCast_nonneg n) h)

/-! ### `parseUint` -/

/-- The text of a number is taken exactly if it has at most ten digits and is within `max`. -/
theorem parseUint_toDigits (n : Nat) (max : Int) :
    parseUint (Nat.toDigits 10 n) max = if n < 10 ^ 10 ∧ (n : Int) ≤ max then some (n : Int)
      else none := by
  have hall : (Nat.toDigits 10 n).all Char.isDigit = true :=
    List.all_eq_true.mpr fun c hc => isDigit_of_mem_toDigits hc
  have hempty : (Nat.toDigits 10 n).isEmpty = false := by
    rw [List.isEmpty_eq_false_iff]
    exact toDigits_ne_nil n
  unfold parseUint
  rw [hempty, hall, utf8Len_toDigits, Bool.false_or, Bool.not_true, Bool.or_false]
  by_cases hlen : n < 10 ^ 10
  · have hten : ¬ (Nat.toDigits 10 n).length > 10 :=
      Nat.not_lt.mpr ((Nat.length_toDigits_le_iff (by decide) (by decide)).mpr hlen)
    have hatoll : atoll (Nat.toDigits 10 n) = n := by
      refine atoll_toDigits ?_
      show (n : Int) ≤ 9223372036854775807
      omega
    rw [hatoll, decide_eq_false hten, Bool.false_or]
    by_cases hmax : (n : Int) ≤ max
    · rw [if_neg (by simpa using hmax), if_pos ⟨hlen, hmax⟩]
    · rw [if_pos (by simpa using hmax), if_neg fun h => hmax h.2]
  · have hten : (Nat.toDigits 10 n).length > 10 := by
      rw [gt_iff_lt, ← Nat.not_le, Nat.length_toDigits_le_iff (by decide) (by decide)]
      exact hlen
    rw [decide_eq_true hten, Bool.true_or, if_pos rfl, if_neg fun h => hlen h.1]

end IrcHub.Proofs
