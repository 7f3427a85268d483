import IrcHub.Hub.Strtoll
import IrcHub.Lib.Utf8
import Mathlib.Data.List.TakeWhile

/-!
# `IrcHub.Proofs.Strtoll`: both readers of a number are C's

There are two readers of a signed number in the source, one in the hub and one in the console, and
both mean to do what `strtoll` of C does. `Numeral` says what C takes: white space, a sign,
digits.

* `Cstr.foldlM_digitStep`: the hub's loop keeps the exact number while it fits 64 bits, and a flag
  from then on
* `Fmt.foldlM_digitStep`: the console's loop keeps the exact number up to its cut-off, and a lower
  bound past the 64 bits from then on
* `numeral_parts`: there is one way to read a number, and both readers take it
* `strtoll_agree`: the two give the same value and length, those of C

Both loops are modelled with checked arithmetic, the hub's in 64 bits and the console's in 128, so
the result also says that neither is stopped. The rest of the development reads texts of
characters: `strtoll_encode` is the step from one to the other.
-/

set_option autoImplicit false

namespace IrcHub.Proofs

open IrcHub.Hub
open Terminal (Bytes encode)
open Str

/-! ### Classes of bytes -/

/-- The reader's test for a blank is that of C. -/
theorem isSpace_iff {b : UInt8} : Fmt.isSpace b = true ↔ CSpace b := by
  simp only [Fmt.isSpace, CSpace, Bool.or_eq_true, Bool.and_eq_true,
    decide_eq_true_eq, beq_iff_eq, UInt8.le_iff_toNat_le]
  exact Iff.rfl

/-- The two tests for white space are the same. -/
theorem isCSpaceByte_eq : Cstr.isCSpaceByte = Fmt.isSpace := by
  funext b
  rw [Bool.eq_iff_iff, isSpace_iff]
  simp only [Cstr.isCSpaceByte, CSpace, Bool.or_eq_true, beq_iff_eq, ← UInt8.toNat_inj,
    UInt8.toNat_ofNat]
  omega

/-- So is the one for a digit. -/
theorem isDigitByte_iff {b : UInt8} : isDigitByte b = true ↔ CDigit b := by
  simp only [isDigitByte, CDigit, Bool.and_eq_true, decide_eq_true_eq, UInt8.le_iff_toNat_le]
  exact Iff.rfl

/-- A digit is worth what it is. -/
theorem digitOf_ok {b : UInt8} (h : CDigit b) :
    digitOf b = .ok ((b.toNat - 0x30 : Nat) : Int) := by
  have hle : (0x30 : UInt8) ≤ b := UInt8.le_iff_toNat_le.mpr h.1
  have h1 := h.1
  rw [digitOf, if_pos hle]
  congr 1
  omega

/-! ### Digits -/

/-- A number with the sign it was read with. -/
def signed (neg : Bool) (m : Nat) : Int := if neg then -(m : Int) else m

/-- Zero has no sign. -/
theorem signed_zero (neg : Bool) : signed neg 0 = 0 := by
  cases neg <;> rfl

/-- One more digit of a number of any size. -/
def moreDigit (m : Nat) (b : UInt8) : Nat := m * 10 + (b.toNat - 0x30)

/-- A number is counted digit by digit. -/
theorem decimal_eq_foldl (digits : Bytes) : decimal digits = digits.foldl moreDigit 0 := rfl

namespace Cstr

open IrcHub.Hub.Cstr

/-- What the hub's loop holds after digits that stand for `m`. -/
structure Tracks (neg : Bool) (st : Int × Bool) (m : Nat) : Prop where
  exact_value : st.2 = false → st.1 = signed neg m ∧ i64Min ≤ st.1 ∧ st.1 ≤ i64Max
  outside : st.2 = true → ¬(i64Min ≤ signed neg m ∧ signed neg m ≤ i64Max)

/-- One digit more: the state is the number so far, or past the range it has saturated. -/
theorem digitStep_tracks {neg : Bool} {st : Int × Bool} {m : Nat} {b : UInt8}
    (h : Tracks neg st m) (hb : CDigit b) :
    ∃ st', digitStep neg st b = .ok st' ∧ Tracks neg st' (moreDigit m b) := by
  obtain ⟨v, overflow⟩ := st
  have hd : b.toNat - 0x30 ≤ 9 := by
    have := hb.2
    omega
  unfold digitStep
  rw [digitOf_ok hb, checked_bind]
  generalize hdv : b.toNat - 0x30 = d at hd
  have hmore : moreDigit m b = m * 10 + d := by rw [moreDigit, hdv]
  rw [hmore]
  cases overflow with
  | true =>
    -- a number that has left the range grows further away from it
    have hout := h.outside rfl
    refine ⟨(v, true), rfl, fun hf => (nomatch hf), fun _ hin => hout ?_⟩
    cases neg
    all_goals simp only [signed, i64Min, i64Max, Bool.false_eq_true, if_false, if_true] at hin ⊢
    all_goals omega
  | false =>
    obtain ⟨hv, hlo, hhi⟩ := h.exact_value rfl
    simp only [Bool.false_eq_true, if_false]
    have hvalue : (if neg then v * 10 - (d : Int) else v * 10 + (d : Int)) = signed neg
      (m * 10 + d) := by
      rw [show v = signed neg m from hv]
      cases neg
      all_goals simp only [signed, Bool.false_eq_true, if_false, if_true]
      all_goals push_cast
      all_goals omega
    by_cases hten : i64Min ≤ v * 10 ∧ v * 10 ≤ i64Max
    · rw [show checkI64 (v * 10) = some (v * 10) from if_pos hten, Option.bind_some]
      by_cases hsum : i64Min ≤ signed neg (m * 10 + d) ∧ signed neg (m * 10 + d) ≤ i64Max
      · refine ⟨(signed neg (m * 10 + d), false), ?_, fun _ => ⟨rfl, hsum⟩, fun hf =>
          (nomatch hf)⟩
        rw [hvalue, checkI64, if_pos hsum]
      · refine ⟨(v, true), ?_, fun hf => (nomatch hf), fun _ => hsum⟩
        rw [hvalue, checkI64, if_neg hsum]
    · refine ⟨(v, true), ?_, fun hf => (nomatch hf), fun _ hin => hten ?_⟩
      · rw [show checkI64 (v * 10) = none from if_neg hten]
        rfl
      · rw [show v = signed neg m from hv]
        cases neg
        all_goals simp only [signed, i64Min, i64Max, Bool.false_eq_true, if_false, if_true]
          at hin ⊢
        all_goals push_cast at hin
        all_goals omega

/-- So is the state after all digits, by induction on them. -/
theorem foldlM_digitStep {neg : Bool} {digits : Bytes} (hdigits : ∀ b ∈ digits, CDigit b)
    {st : Int × Bool} {m : Nat} (h : Tracks neg st m) :
    ∃ st', digits.foldlM (digitStep neg) st = .ok st'
      ∧ Tracks neg st' (digits.foldl moreDigit m) := by
  induction digits generalizing st m with
  | nil => exact ⟨st, rfl, h⟩
  | cons b digits ih =>
    obtain ⟨st', hstep, h'⟩ := digitStep_tracks h (hdigits b List.mem_cons_self)
    rw [List.foldlM_cons, hstep, checked_bind]
    exact ih (fun x hx => hdigits x (List.mem_cons_of_mem _ hx)) h'

/-- The value the hub gives is the nearest one. -/
theorem Tracks.saturate {neg : Bool} {st : Int × Bool} {m : Nat} (h : Tracks neg st m) :
    (if st.2 then (if neg then i64Min else i64Max) else st.1) = saturate (signed neg m) := by
  obtain ⟨v, overflow⟩ := st
  cases overflow with
  | true =>
    have hout := h.outside rfl
    cases neg
    all_goals simp only [signed, Hub.saturate, i64Min, i64Max, Bool.false_eq_true, if_false,
      if_true] at hout ⊢
    all_goals omega
  | false =>
    obtain ⟨hv, hlo, hhi⟩ := h.exact_value rfl
    rw [← hv]
    simp only [Hub.saturate, Bool.false_eq_true, if_false]
    omega

end Cstr

namespace Fmt

open IrcHub.Hub.Fmt

/-- Ten times the console's cut-off and its negative are far from the ends of 128 bits. -/
theorem checkI128_ok {x : Int} (hlo : -92233720368547758090 ≤ x)
    (hhi : x ≤ 92233720368547758100) :
    checkI128 x = .ok x := by
  refine if_pos ⟨?_, ?_⟩
  · show -170141183460469231731687303715884105728 ≤ x
    omega
  · show x ≤ 170141183460469231731687303715884105727
    omega

/-- What the console's loop holds after digits that stand for `m`. -/
structure Tracks (v : Int) (m : Nat) : Prop where
  nonneg : 0 ≤ v
  small : v < (i64Max + 2) * 10
  exact_value : v < i64Max + 2 → v = m
  beyond : i64Max + 2 ≤ v → v ≤ m

/-- One digit more for the hub's own reader: its state is the number so far, or past the range. -/
theorem digitStep_tracks {v : Int} {m : Nat} {b : UInt8} (h : Tracks v m) (hb : CDigit b) :
    ∃ v', digitStep v b = .ok v' ∧ Tracks v' (moreDigit m b) := by
  have hd : b.toNat - 0x30 ≤ 9 := by
    have := hb.2
    omega
  have hnonneg := h.nonneg
  have hsmall := h.small
  unfold digitStep
  rw [digitOf_ok hb]
  generalize hdv : b.toNat - 0x30 = d at hd
  have hmore : moreDigit m b = m * 10 + d := by rw [moreDigit, hdv]
  rw [hmore]
  by_cases hcut : v < i64Max + 2
  · have hv := h.exact_value hcut
    have hcap : v < 9223372036854775809 := hcut
    have hten : checkI128 (v * 10) = .ok (v * 10) := checkI128_ok (by omega) (by omega)
    have hsum : checkI128 (v * 10 + (d : Int)) = .ok (v * 10 + d) :=
      checkI128_ok (by omega) (by omega)
    refine ⟨v * 10 + d, ?_, ?_⟩
    · rw [if_pos hcut, hten, checked_bind, checked_bind, hsum]
    · refine ⟨by omega, ?_, fun _ => by push_cast; omega, fun _ => by push_cast; omega⟩
      show v * 10 + d < 92233720368547758090
      omega
  · refine ⟨v, if_neg hcut, hnonneg, hsmall, fun hlt => absurd hlt hcut, fun _ => ?_⟩
    have := h.beyond (by omega)
    push_cast
    omega

/-- So is its state after all digits. -/
theorem foldlM_digitStep {digits : Bytes} (hdigits : ∀ b ∈ digits, CDigit b) {v : Int} {m : Nat}
    (h : Tracks v m) :
    ∃ v', digits.foldlM digitStep v = .ok v' ∧ Tracks v' (digits.foldl moreDigit m) := by
  induction digits generalizing v m with
  | nil => exact ⟨v, rfl, h⟩
  | cons b digits ih =>
    obtain ⟨v', hstep, h'⟩ := digitStep_tracks h (hdigits b List.mem_cons_self)
    rw [List.foldlM_cons, hstep, checked_bind]
    exact ih (fun x hx => hdigits x (List.mem_cons_of_mem _ hx)) h'

/-- The value the console gives is the nearest one. -/
theorem Tracks.saturate {neg : Bool} {v : Int} {m : Nat} (h : Tracks v m) :
    applySign neg v = .ok (signed neg v.toNat)
      ∧ max i64Min (min i64Max (signed neg v.toNat)) = saturate (signed neg m) := by
  have hnonneg := h.nonneg
  have hsmall : v < 92233720368547758090 := h.small
  have hcut : v = m ∨ (9223372036854775809 ≤ v ∧ v ≤ m) := by
    by_cases hlt : v < i64Max + 2
    · exact .inl (h.exact_value hlt)
    · have hge : i64Max + 2 ≤ v := by omega
      exact .inr ⟨hge, h.beyond hge⟩
  cases neg with
  | false =>
    simp only [signed, applySign, Hub.saturate, Bool.false_eq_true, if_false]
    refine ⟨by rw [Int.toNat_of_nonneg hnonneg], ?_⟩
    show max (-9223372036854775808) (min 9223372036854775807 _) = max (-9223372036854775808)
      (min 9223372036854775807 _)
    omega
  | true =>
    have hneg : checkI128 (-v) = .ok (-v) := checkI128_ok (by omega) (by omega)
    simp only [signed, applySign, Hub.saturate, if_true]
    refine ⟨by rw [hneg, Int.toNat_of_nonneg hnonneg], ?_⟩
    show max (-9223372036854775808) (min 9223372036854775807 _) = max (-9223372036854775808)
      (min 9223372036854775807 _)
    omega

end Fmt

/-! ### The reader of characters -/

section Characters

variable {p : UInt8 → Bool} {q : Char → Bool}

/-- A test of bytes and one of characters that agree: only ASCII passes. -/
structure SameTest (p : UInt8 → Bool) (q : Char → Bool) : Prop where
  ascii : ∀ c : Char, c.toNat < 0x80 → p (UInt8.ofNat c.toNat) = q c
  bytes : ∀ b : UInt8, 0x80 ≤ b.toNat → p b = false
  chars : ∀ c : Char, 0x80 ≤ c.toNat → q c = false

/-- The byte of an ASCII character. -/
def charByte (c : Char) : UInt8 := UInt8.ofNat c.toNat

/-- Two tests that agree scan a text alike, by characters and by bytes. -/
theorem SameTest.scan (h : SameTest p q) (s : Str) :
    (encode s).takeWhile p = (s.takeWhile q).map charByte
    ∧ (encode s).dropWhile p = encode (s.dropWhile q) := by
  induction s with
  | nil => exact ⟨rfl, rfl⟩
  | cons c s ih =>
    have hcons : encode (c :: s) = String.utf8EncodeChar c ++ encode s := rfl
    by_cases hascii : c.toNat < 0x80
    · rw [hcons, Utf8.encode_ascii hascii, List.singleton_append]
      cases hq : q c with
      | true =>
        have hp : p (UInt8.ofNat c.toNat) = true := (h.ascii c hascii).trans hq
        rw [List.takeWhile_cons_of_pos hp, List.dropWhile_cons_of_pos hp,
          List.takeWhile_cons_of_pos hq, List.dropWhile_cons_of_pos hq, ih.1, ih.2]
        exact ⟨rfl, rfl⟩
      | false =>
        have hp : ¬p (UInt8.ofNat c.toNat) = true := by
          rw [h.ascii c hascii, hq]
          decide
        have hq' : ¬q c = true := Bool.eq_false_iff.mp hq
        rw [List.takeWhile_cons_of_neg hp, List.dropWhile_cons_of_neg hp,
          List.takeWhile_cons_of_neg hq', List.dropWhile_cons_of_neg hq', hcons,
          Utf8.encode_ascii hascii]
        exact ⟨rfl, rfl⟩
    · obtain ⟨b, l, hb, -, hlow, -⟩ := Utf8.encode_lead c
      have hhigh : 0x80 ≤ b.toNat := by omega
      have hp : ¬p b = true := Bool.eq_false_iff.mp (h.bytes b hhigh)
      have hq : ¬q c = true := Bool.eq_false_iff.mp (h.chars c (by omega))
      rw [hcons, hb, List.cons_append, List.takeWhile_cons_of_neg hp,
        List.dropWhile_cons_of_neg hp, List.takeWhile_cons_of_neg hq,
        List.dropWhile_cons_of_neg hq, hcons, hb]
      exact ⟨rfl, rfl⟩

end Characters

/-- An ASCII character is its byte. -/
theorem toNat_charByte {c : Char} (h : c.toNat < 0x80) : (charByte c).toNat = c.toNat := by
  rw [charByte, UInt8.toNat_ofNat']
  omega

/-- Characters are compared by code. -/
theorem char_eq_iff {c d : Char} : c = d ↔ c.toNat = d.toNat :=
  ⟨congrArg Char.toNat, fun h => Char.ext (UInt32.toNat_inj.mp h)⟩

/-- The blanks of C by code. -/
theorem isCSpace_iff {c : Char} : isCSpace c = true ↔ c.toNat = 0x20
    ∨ (9 ≤ c.toNat ∧ c.toNat ≤ 13) := by
  have h : isCSpace c = true ↔ c.toNat = 0x20 ∨ c.toNat = 0x09 ∨ c.toNat = 0x0A ∨ c.toNat = 0x0B
    ∨ c.toNat = 0x0C
      ∨ c.toNat = 0x0D := by
    simp only [isCSpace, Bool.or_eq_true, beq_iff_eq, char_eq_iff, or_assoc]
    exact Iff.rfl
  rw [h]
  omega

/-- The digits by code. -/
theorem isDigit_iff_toNat {c : Char} : c.isDigit = true ↔ 0x30 ≤ c.toNat ∧ c.toNat ≤ 0x39 := by
  simp only [Char.isDigit, Bool.and_eq_true, decide_eq_true_eq, UInt32.le_iff_toNat_le, ge_iff_le]
  exact Iff.rfl

/-- The tests for a blank agree. -/
theorem sameTest_space : SameTest Fmt.isSpace isCSpace := by
  constructor
  · intro c hc
    rw [Bool.eq_iff_iff, isSpace_iff, isCSpace_iff, CSpace, ← UInt8.toNat_inj, UInt8.toNat_ofNat',
      Nat.mod_eq_of_lt (by omega)]
    exact Iff.rfl
  · intro b hb
    rw [Bool.eq_false_iff, ne_eq, isSpace_iff, CSpace, ← UInt8.toNat_inj]
    show ¬(b.toNat = 0x20 ∨ _)
    omega
  · intro c hc
    rw [Bool.eq_false_iff, ne_eq, isCSpace_iff]
    omega

/-- The tests for a digit agree. -/
theorem sameTest_digit : SameTest isDigitByte Char.isDigit := by
  constructor
  · intro c hc
    rw [Bool.eq_iff_iff, isDigitByte_iff, isDigit_iff_toNat, CDigit, UInt8.toNat_ofNat',
      Nat.mod_eq_of_lt (by omega)]
  · intro b hb
    rw [Bool.eq_false_iff, ne_eq, isDigitByte_iff, CDigit]
    omega
  · intro c hc
    rw [Bool.eq_false_iff, ne_eq, isDigit_iff_toNat]
    omega

/-- The hub's loop over digits, with the value and its flag as one optional value. -/
theorem foldlM_digitStep_chars {neg : Bool} {digits : Str}
    (hdigits : ∀ c ∈ digits, c.isDigit = true) (v : Int) (overflow : Bool) :
    ∃ st, (digits.map charByte).foldlM (Cstr.digitStep neg) (v, overflow) = .ok st
      ∧ digits.foldl (strtollStep neg) (if overflow then none else some v) = if st.2 then none
        else some st.1 := by
  induction digits generalizing v overflow with
  | nil => exact ⟨(v, overflow), rfl, rfl⟩
  | cons c digits ih =>
    have hc := isDigit_iff_toNat.mp (hdigits c List.mem_cons_self)
    have hbyte := toNat_charByte (c := c) (by omega)
    have hdigit : CDigit (charByte c) := by
      unfold CDigit
      omega
    have hrest : ∀ d ∈ digits, d.isDigit = true :=
      fun d hd => hdigits d (List.mem_cons_of_mem _ hd)
    rw [List.map_cons, List.foldlM_cons, List.foldl_cons]
    have hsub : (((charByte c).toNat - 0x30 : Nat) : Int) = (c.toNat : Int) - '0'.toNat := by
      show _ = (c.toNat : Int) - 48
      omega
    unfold Cstr.digitStep
    rw [digitOf_ok hdigit, checked_bind, hsub]
    cases overflow with
    | true => exact ih hrest v true
    | false =>
      have hstep : strtollStep neg (some v) c = (checkI64 (v * 10)).bind fun x =>
          checkI64 (if neg then x - ((c.toNat : Int) - '0'.toNat)
            else x + ((c.toNat : Int) - '0'.toNat)) := rfl
      simp only [Bool.false_eq_true, if_false, hstep]
      cases (checkI64 (v * 10)).bind fun x =>
          checkI64 (if neg then x - ((c.toNat : Int) - '0'.toNat)
            else x + ((c.toNat : Int) - '0'.toNat)) with
      | some x => exact ih hrest x false
      | none => exact ih hrest v true

/-! ### The parts of a text -/

/-- Length of the sign at the start of what follows the white space. -/
def signLen (t : Bytes) : Nat := if t.head? == some 0x2D || t.head? == some 0x2B then 1 else 0

/-- The digits both readers read. -/
def digitsOf (s : Bytes) : Bytes :=
  ((s.dropWhile Fmt.isSpace).drop (signLen (s.dropWhile Fmt.isSpace))).takeWhile isDigitByte

/-- A scan that stops at once. -/
theorem scan_stop {p : UInt8 → Bool} {l : Bytes} (h : ∀ b ∈ l.head?, p b = false) :
    l.takeWhile p = [] ∧ l.dropWhile p = l := by
  cases l with
  | nil => exact ⟨rfl, rfl⟩
  | cons b l =>
    have hb : ¬p b = true := Bool.eq_false_iff.mp (h b rfl)
    exact ⟨List.takeWhile_cons_of_neg hb, List.dropWhile_cons_of_neg hb⟩

/-- A number starts with at most one sign. -/
theorem take_signLen (t : Bytes) :
    t.take (signLen t) = [] ∨ t.take (signLen t) = [0x2B] ∨ t.take (signLen t) = [0x2D] := by
  cases t with
  | nil => exact .inl rfl
  | cons b t =>
    by_cases hminus : b = 0x2D
    · subst hminus
      exact .inr (.inr rfl)
    by_cases hplus : b = 0x2B
    · subst hplus
      exact .inr (.inl rfl)
    · have hzero : signLen (b :: t) = 0 := by
        simp [signLen, hminus, hplus]
      rw [hzero]
      exact .inl rfl

/-- A sign counts only where a digit or nothing of a sign follows it. -/
theorem signLen_append {sign rest : Bytes} (hsign : sign = [] ∨ sign = [0x2B] ∨ sign = [0x2D])
    (hhead : sign = [] → ∀ b ∈ rest.head?, CDigit b) : signLen (sign ++ rest) = sign.length := by
  rcases hsign with rfl | rfl | rfl
  · cases rest with
    | nil => rfl
    | cons b rest =>
      have hb := hhead rfl b rfl
      have hminus : b ≠ 0x2D := by
        rintro rfl
        exact absurd hb.1 (by decide)
      have hplus : b ≠ 0x2B := by
        rintro rfl
        exact absurd hb.1 (by decide)
      simp [signLen, hminus, hplus]
  · rfl
  · rfl

/-- No digit is a blank. -/
theorem not_cSpace_of_cDigit {b : UInt8} (h : CDigit b) : ¬CSpace b := by
  rintro (rfl | hspace)
  · exact absurd h.1 (by decide)
  · have := h.1
    omega

/-- There is one way to read a number: the white space, the sign and the digits are those the
readers take. -/
theorem numeral_parts {s : Bytes} (p : Numeral s) :
    p.space = s.takeWhile Fmt.isSpace ∧ s.dropWhile Fmt.isSpace = p.sign ++ (p.digits ++ p.rest)
      ∧ signLen (s.dropWhile Fmt.isSpace) = p.sign.length ∧ p.digits = digitsOf s := by
  obtain ⟨d, ds, hdigits⟩ := List.exists_cons_of_ne_nil p.some_digit
  have hd : CDigit d := p.digits_only d (hdigits ▸ List.mem_cons_self)
  have htext : s = p.space ++ (p.sign ++ (p.digits ++ p.rest)) := by
    rw [← List.append_assoc, ← List.append_assoc]
    exact p.text
  -- the white space ends at the sign, or at the first digit
  have hstop : ∀ b ∈ (p.sign ++ (p.digits ++ p.rest)).head?, Fmt.isSpace b = false := by
    intro b hb
    rw [Bool.eq_false_iff, ne_eq, isSpace_iff]
    rcases p.sign_one with hs | hs | hs
    · rw [hs, hdigits] at hb
      rw [show b = d from (Option.some.inj hb).symm]
      exact not_cSpace_of_cDigit hd
    · rw [hs] at hb
      rw [show b = 0x2B from (Option.some.inj hb).symm]
      exact not_or.mpr ⟨by decide, by decide⟩
    · rw [hs] at hb
      rw [show b = 0x2D from (Option.some.inj hb).symm]
      exact not_or.mpr ⟨by decide, by decide⟩
  have hspace : ∀ b ∈ p.space, Fmt.isSpace b = true :=
    fun b hb => isSpace_iff.mpr (p.space_only b hb)
  have htake : s.takeWhile Fmt.isSpace = p.space := by
    refine (congrArg (List.takeWhile Fmt.isSpace) htext).trans ?_
    rw [List.takeWhile_append_of_pos hspace, (scan_stop hstop).1, List.append_nil]
  have hdrop : s.dropWhile Fmt.isSpace = p.sign ++ (p.digits ++ p.rest) := by
    refine (congrArg (List.dropWhile Fmt.isSpace) htext).trans ?_
    rw [List.dropWhile_append_of_pos hspace, (scan_stop hstop).2]
  have hlen : signLen (s.dropWhile Fmt.isSpace) = p.sign.length := by
    rw [hdrop]
    refine signLen_append p.sign_one fun _ b hb => ?_
    rw [hdigits] at hb
    rw [show b = d from (Option.some.inj hb).symm]
    exact hd
  refine ⟨htake.symm, hdrop, hlen, ?_⟩
  have hrest : ∀ b ∈ p.rest.head?, isDigitByte b = false := fun b hb => by
    rw [Bool.eq_false_iff, ne_eq, isDigitByte_iff]
    exact p.longest b hb
  unfold digitsOf
  rw [hlen, hdrop, List.drop_left, List.takeWhile_append_of_pos fun b hb =>
    isDigitByte_iff.mpr (p.digits_only b hb), (scan_stop hrest).1, List.append_nil]

/-- Where the readers find a digit, there is a number. -/
theorem nonempty_numeral {s : Bytes} (h : digitsOf s ≠ []) : Nonempty (Numeral s) := by
  refine ⟨{
    space := s.takeWhile Fmt.isSpace
    sign := (s.dropWhile Fmt.isSpace).take (signLen (s.dropWhile Fmt.isSpace))
    digits := digitsOf s
    rest := ((s.dropWhile Fmt.isSpace).drop (signLen (s.dropWhile Fmt.isSpace))).dropWhile
      isDigitByte
    text := ?_
    space_only := fun b hb => isSpace_iff.mp (List.mem_takeWhile_imp hb)
    sign_one := take_signLen _
    digits_only := fun b hb => isDigitByte_iff.mp (List.mem_takeWhile_imp hb)
    some_digit := h
    longest := fun b hb hdigit => ?_ }⟩
  · unfold digitsOf
    rw [List.append_assoc, List.takeWhile_append_dropWhile, List.append_assoc,
      List.take_append_drop, List.takeWhile_append_dropWhile]
  · have hhead := List.head?_dropWhile_not isDigitByte
      ((s.dropWhile Fmt.isSpace).drop (signLen (s.dropWhile Fmt.isSpace)))
    rw [hb] at hhead
    exact absurd (isDigitByte_iff.mpr hdigit) (Bool.eq_false_iff.mp hhead)

/-- The number a text starts with, as both readers give it: nothing without a digit, else the
nearest number of 64 bits and how far it goes. -/
def reading (s : Bytes) : Int × Nat :=
  if (digitsOf s).isEmpty then (0, 0)
  else (saturate (signed ((s.dropWhile Fmt.isSpace).head? == some 0x2D) (decimal (digitsOf s))),
    (s.takeWhile Fmt.isSpace).length + signLen (s.dropWhile Fmt.isSpace) + (digitsOf s).length)

/-- The sign that was read is the number's. -/
theorem numeral_neg {s : Bytes} (p : Numeral s) :
    ((s.dropWhile Fmt.isSpace).head? == some 0x2D) = decide (p.sign = [0x2D]) := by
  obtain ⟨d, ds, hcons⟩ := List.exists_cons_of_ne_nil p.some_digit
  have hd := (p.digits_only d (hcons ▸ List.mem_cons_self)).1
  rw [(numeral_parts p).2.1]
  rcases p.sign_one with hs | hs | hs
  · rw [hs, hcons, Bool.eq_iff_iff, beq_iff_eq, decide_eq_true_iff]
    constructor
    · intro h
      rw [show d = 0x2D from Option.some.inj h] at hd
      exact absurd hd (by decide)
    · intro h
      exact absurd h (by decide)
  · rw [hs]
    rfl
  · rw [hs]
    rfl

/-- Reading so is what C does. -/
theorem cStrtoll_reading (s : Bytes) : CStrtoll s (reading s).1 (reading s).2 := by
  constructor
  · intro p
    obtain ⟨hspace, -, hsign, hdigits⟩ := numeral_parts p
    have hsome : (digitsOf s).isEmpty = false := by
      rw [← hdigits, List.isEmpty_eq_false_iff]
      exact p.some_digit
    unfold reading
    rw [if_neg (Bool.eq_false_iff.mp hsome)]
    constructor
    · simp only [numeral_neg p, signed, Numeral.value, decide_eq_true_eq, hdigits]
    · simp only [Numeral.length, hspace, hsign, hdigits]
  · intro hempty
    have hnil : digitsOf s = [] := by
      by_contra h
      exact absurd (nonempty_numeral h) (not_nonempty_iff.mpr hempty)
    unfold reading
    rw [hnil]
    exact ⟨rfl, rfl⟩

/-- What is read as digits is digits. -/
theorem digitsOf_cDigit {s : Bytes} : ∀ b ∈ digitsOf s, CDigit b :=
  fun _ hb => isDigitByte_iff.mp (List.mem_takeWhile_imp hb)

/-- The hub's reader, once its loop over the digits is done. -/
theorem Cstr.strtoll_of_run {s : Bytes} {st : Int × Bool}
    (hrun : (digitsOf s).foldlM (Cstr.digitStep ((s.dropWhile Fmt.isSpace).head? == some 0x2D))
    (0, false) = .ok st) :
    Cstr.strtoll s = .ok (if (digitsOf s).isEmpty then (0, 0)
      else (if st.2 then (if (s.dropWhile Fmt.isSpace).head? == some 0x2D then i64Min else i64Max)
        else st.1, (s.takeWhile Fmt.isSpace).length + signLen (s.dropWhile Fmt.isSpace)
        + (digitsOf s).length)) := by
  unfold Cstr.strtoll
  rw [isCSpaceByte_eq]
  show (digitsOf s).foldlM _ _ >>= _ = _
  rw [hrun, checked_bind]
  show (if (digitsOf s).isEmpty = true then _ else _) = _
  split <;> rfl

/-- The hub's reader. -/
theorem Cstr.strtoll_eq (s : Bytes) : Cstr.strtoll s = .ok (reading s) := by
  have hzero : Cstr.Tracks ((s.dropWhile Fmt.isSpace).head? == some 0x2D) (0, false) 0 :=
    ⟨fun _ => ⟨(signed_zero _).symm, by decide, by decide⟩, fun h => (nomatch h)⟩
  obtain ⟨st, hrun, htracks⟩ := Cstr.foldlM_digitStep (digitsOf_cDigit (s := s)) hzero
  rw [Cstr.strtoll_of_run hrun, htracks.saturate]
  rfl

/-- A text starts with an ASCII byte only where its first character is that one. -/
theorem head_encode {c d : Char} {t : Str} (hd : d.toNat < 0x80) :
    ((encode (c :: t)).head? == some (charByte d)) = decide (c = d) := by
  obtain ⟨b, l, hb, -, hlow, -⟩ := Utf8.encode_lead c
  have hcons : encode (c :: t) = String.utf8EncodeChar c ++ encode t := rfl
  rw [Bool.eq_iff_iff, beq_iff_eq, decide_eq_true_iff, hcons, hb, List.cons_append,
    List.head?_cons, Option.some.injEq, ← UInt8.toNat_inj, toNat_charByte hd]
  constructor
  · intro h
    have hascii : c.toNat < 0x80 := by omega
    have hbyte : charByte c = b := (List.cons.inj ((Utf8.encode_ascii hascii).symm.trans hb)).1
    rw [char_eq_iff, ← toNat_charByte hascii, hbyte, h]
  · rintro rfl
    have hbyte : charByte c = b := (List.cons.inj ((Utf8.encode_ascii hd).symm.trans hb)).1
    rw [← hbyte, toNat_charByte hd]

/-- The sign of a text and of its characters. -/
theorem strtollSign_encode (t : Str) :
    strtollSign t = ((encode t).head? == some 0x2D, signLen (encode t),
      t.drop (signLen (encode t)))
      ∧ (encode t).drop (signLen (encode t)) = encode (t.drop (signLen (encode t))) := by
  cases t with
  | nil => exact ⟨rfl, rfl⟩
  | cons c t =>
    have hminus : ((encode (c :: t)).head? == some 0x2D) = decide (c = '-') :=
      head_encode (d := '-') (by decide)
    have hplus : ((encode (c :: t)).head? == some 0x2B) = decide (c = '+') :=
      head_encode (d := '+') (by decide)
    unfold signLen
    rw [hminus, hplus]
    by_cases h1 : c = '-'
    · subst h1
      exact ⟨rfl, rfl⟩
    by_cases h2 : c = '+'
    · subst h2
      exact ⟨rfl, rfl⟩
    · simp only [h1, h2, decide_false, Bool.or_self, Bool.false_eq_true, if_false,
        List.drop_zero, and_true]
      unfold strtollSign
      split
      · rename_i heq
        exact absurd (List.cons.inj heq).1 h2
      · rename_i heq
        exact absurd (List.cons.inj heq).1 h1
      · rfl

/-- What the hub reads from the bytes of a text is what it reads from its characters. -/
theorem strtoll_encode (s : Str) : Cstr.strtoll (encode s) = .ok (strtoll s) := by
  obtain ⟨hspace, hrest⟩ := sameTest_space.scan s
  obtain ⟨hsign, hdrop⟩ := strtollSign_encode (s.dropWhile isCSpace)
  rw [← hrest] at hsign hdrop
  have hdigits : digitsOf (encode s)
      = (((s.dropWhile isCSpace).drop (signLen ((encode s).dropWhile Fmt.isSpace))).takeWhile
        Char.isDigit).map
        charByte := by
    unfold digitsOf
    rw [hdrop]
    exact (sameTest_digit.scan _).1
  have hall : ∀ c ∈ ((s.dropWhile isCSpace).drop
    (signLen ((encode s).dropWhile Fmt.isSpace))).takeWhile Char.isDigit,
      c.isDigit = true := fun c hc => List.mem_takeWhile_imp hc
  obtain ⟨st, hrun, hfold⟩ :=
    @foldlM_digitStep_chars (((encode s).dropWhile Fmt.isSpace).head? == some 0x2D) _ hall 0 false
  rw [← hdigits] at hrun
  rw [Cstr.strtoll_of_run hrun, hspace, hdigits, List.isEmpty_map, List.length_map,
    List.length_map]
  unfold strtoll
  rw [hsign]
  rw [if_neg Bool.false_ne_true] at hfold
  simp only [hfold]
  split
  · rfl
  · obtain ⟨v, overflow⟩ := st
    cases overflow <;> rfl

/-- The console's reader. -/
theorem Fmt.strtoll_eq (s : Bytes) : Fmt.strtoll s = .ok (reading s) := by
  obtain ⟨v, hrun, htracks⟩ := Fmt.foldlM_digitStep (digitsOf_cDigit (s := s)) (m := 0) (v := 0)
    ⟨by decide, by decide, fun _ => rfl, fun h => absurd h (by decide)⟩
  obtain ⟨hneg, hclamp⟩ :=
    @Fmt.Tracks.saturate ((s.dropWhile Fmt.isSpace).head? == some 0x2D) _ _ htracks
  unfold Fmt.strtoll
  show (digitsOf s).foldlM _ _ >>= _ = _
  rw [hrun, checked_bind]
  unfold reading
  show (if (digitsOf s).isEmpty = true then _ else _) = _
  split
  · rfl
  · rw [hneg, checked_bind, hclamp]
    rfl

/-- What is read lies within the text. -/
theorem reading_le (s : Bytes) : (reading s).2 ≤ s.length := by
  by_cases h : digitsOf s = []
  · unfold reading
    rw [h]
    exact Nat.zero_le _
  · obtain ⟨p⟩ := nonempty_numeral h
    have hlen := congrArg List.length p.text
    simp only [List.length_append] at hlen
    rw [((cStrtoll_reading s).number p).2]
    show p.space.length + p.sign.length + p.digits.length ≤ s.length
    omega

/-- On every text the hub's reader and the console's give the same value and the same length,
those of C's `strtoll`, and neither is stopped by its arithmetic. -/
theorem strtoll_agree (s : Bytes) :
    ∃ v n, Cstr.strtoll s = .ok (v, n) ∧ Fmt.strtoll s = .ok (v, n) ∧ CStrtoll s v n
      ∧ n ≤ s.length :=
  ⟨(reading s).1, (reading s).2, Cstr.strtoll_eq s, Fmt.strtoll_eq s, cStrtoll_reading s,
   reading_le s⟩

end IrcHub.Proofs
