import IrcHub.Lib.Utf8
import IrcHub.Ui.Text

/-!
# `IrcHub.Proofs.Ui.Utf8`: the console's UTF-8 acceptor is the standard decoder

`utf8Len` and `utf8Cp` assemble a code point by shifting and check it afterwards: not overlong, no
surrogate, not past the last one. On the encoding of a character they give its length and its
number, whatever follows, and they take nothing else.

* `leadByte_some`: what a lead byte may be, and what it says
* `utf8Len_lead`: after a lead byte the acceptor takes the whole sequence or nothing
* `encode_parts`, `encode_of_parts`: an encoding has these parts, and such parts are an encoding
* `utf8Len_encode`, `utf8Cp_encode`: it takes every character
* `utf8Len_pos`: it takes nothing else

The standard encoder is that of the language, so a character here is a scalar value and needs no
condition.
-/

set_option autoImplicit false

namespace IrcHub.Proofs

open IrcHub.Console
open Terminal (Bytes encode utf8EncodeChar_cases)
open String (utf8EncodeChar)
open Utf8 (IsCont)

/-- The console's test for a continuation byte is that of UTF-8. -/
theorem isCont_iff {b : UInt8} : isCont b = true ↔ IsCont b := by
  simp only [isCont, beq_iff_eq, IsCont]
  omega

/-! ### Lead bytes -/

/-- A lead byte of a sequence of two. -/
theorem leadByte_two {a : UInt8} (h : 0xC2 ≤ a.toNat ∧ a.toNat ≤ 0xDF) :
    leadByte a = some (2, 0x80, a.toNat % 0x20) :=
  if_pos ⟨UInt8.le_iff_toNat_le.mpr h.1, UInt8.le_iff_toNat_le.mpr h.2⟩

/-- A lead byte of a sequence of three. -/
theorem leadByte_three {a : UInt8} (h : 0xE0 ≤ a.toNat ∧ a.toNat ≤ 0xEF) :
    leadByte a = some (3, 0x800, a.toNat % 0x10) := by
  have h2 : ¬((0xC2 : UInt8) ≤ a ∧ a ≤ 0xDF) := fun hc => by
    have : a.toNat ≤ 0xDF := UInt8.le_iff_toNat_le.mp hc.2
    omega
  unfold leadByte
  rw [if_neg h2]
  exact if_pos ⟨UInt8.le_iff_toNat_le.mpr h.1, UInt8.le_iff_toNat_le.mpr h.2⟩

/-- A lead byte of a sequence of four. -/
theorem leadByte_four {a : UInt8} (h : 0xF0 ≤ a.toNat ∧ a.toNat ≤ 0xF4) :
    leadByte a = some (4, 0x10000, a.toNat % 0x08) := by
  have h2 : ¬((0xC2 : UInt8) ≤ a ∧ a ≤ 0xDF) := fun hc => by
    have : a.toNat ≤ 0xDF := UInt8.le_iff_toNat_le.mp hc.2
    omega
  have h3 : ¬((0xE0 : UInt8) ≤ a ∧ a ≤ 0xEF) := fun hc => by
    have : a.toNat ≤ 0xEF := UInt8.le_iff_toNat_le.mp hc.2
    omega
  unfold leadByte
  rw [if_neg h2, if_neg h3]
  exact if_pos ⟨UInt8.le_iff_toNat_le.mpr h.1, UInt8.le_iff_toNat_le.mpr h.2⟩

/-- What a lead byte may be: of two, three or four bytes, with the bits it carries. -/
theorem leadByte_some {a : UInt8} {r : Nat × Nat × Nat} (h : leadByte a = some r) :
    ((0xC2 ≤ a.toNat ∧ a.toNat ≤ 0xDF) ∧ r = (2, 0x80, a.toNat % 0x20))
      ∨ ((0xE0 ≤ a.toNat ∧ a.toNat ≤ 0xEF) ∧ r = (3, 0x800, a.toNat % 0x10))
      ∨ ((0xF0 ≤ a.toNat ∧ a.toNat ≤ 0xF4) ∧ r = (4, 0x10000, a.toNat % 0x08)) := by
  unfold leadByte at h
  simp only [UInt8.le_iff_toNat_le] at h
  split at h
  · rename_i h2
    exact .inl ⟨h2, (Option.some.inj h).symm⟩
  split at h
  · rename_i h3
    exact .inr (.inl ⟨h3, (Option.some.inj h).symm⟩)
  split at h
  · rename_i h4
    exact .inr (.inr ⟨h4, (Option.some.inj h).symm⟩)
  · exact absurd h (by simp)

/-- The acceptor after an ASCII byte. -/
theorem utf8Len_ascii {a : UInt8} (h : a.toNat < 0x80) (s : Bytes) : utf8Len (a :: s) = 1 :=
  if_pos (UInt8.lt_iff_toNat_lt.mpr h)

/-- A code point in the shortest form that is a character's. -/
def ShortestForm (least cp : Nat) : Prop := least ≤ cp ∧ cp ≤ 0x10FFFF
    ∧ ¬(0xD800 ≤ cp ∧ cp ≤ 0xDFFF)

/-- A lead byte is not ASCII. -/
theorem not_ascii_of_leadByte {a : UInt8} {r : Nat × Nat × Nat} (h : leadByte a = some r) :
    ¬a.toNat < 0x80 := by
  rcases leadByte_some h with ⟨hr, _⟩ | ⟨hr, _⟩ | ⟨hr, _⟩ <;> omega

/-- The acceptor after a lead byte: it takes the whole sequence or nothing. -/
theorem utf8Len_lead {a : UInt8} {len least bits : Nat} (h : leadByte a = some (len, least, bits))
    (s : Bytes) :
    (utf8Len (a :: s) = len ∧ len ≤ s.length + 1 ∧ (∀ b ∈ s.take (len - 1), IsCont b)
        ∧ ShortestForm least ((s.take (len - 1)).foldl moreBits bits))
      ∨ (utf8Len (a :: s) = 0 ∧ ¬(len ≤ s.length + 1 ∧ (∀ b ∈ s.take (len - 1), IsCont b)
        ∧ ShortestForm least ((s.take (len - 1)).foldl moreBits bits))) := by
  have hlow : ¬a < 0x80 := fun hlt => not_ascii_of_leadByte h (UInt8.lt_iff_toNat_lt.mp hlt)
  rw [utf8Len, if_neg hlow, h]
  simp only
  split
  · rename_i hshort
    rw [Bool.or_eq_true, decide_eq_true_eq] at hshort
    refine .inr ⟨rfl, fun hall => ?_⟩
    rcases hshort with hshort | hany
    · omega
    · obtain ⟨b, hb, hcont⟩ := List.any_eq_true.mp hany
      rw [isCont_iff.mpr (hall.2.1 b hb)] at hcont
      exact absurd hcont (by decide)
  · rename_i hlong
    rw [Bool.or_eq_true, decide_eq_true_eq, not_or] at hlong
    split
    · rename_i hbad
      refine .inr ⟨rfl, fun hall => ?_⟩
      obtain ⟨h1, h2, h3⟩ := hall.2.2
      simp only [Bool.or_eq_true, Bool.and_eq_true, decide_eq_true_eq] at hbad
      omega
    · rename_i hgood
      simp only [Bool.or_eq_true, Bool.and_eq_true, decide_eq_true_eq] at hgood
      refine .inl ⟨rfl, by omega, fun b hb => ?_, by omega, by omega, by omega⟩
      rw [← isCont_iff]
      by_contra hcont
      exact hlong.2 (List.any_eq_true.mpr ⟨b, hb, by simp [hcont]⟩)

/-- The parts of an encoding of more than one byte, as the acceptor takes it apart. -/
theorem encode_parts {c : Char} (h : 0x80 ≤ c.toNat) :
    ∃ a t least bits, utf8EncodeChar c = a :: t ∧ leadByte a = some (t.length + 1, least, bits)
      ∧ (∀ b ∈ t, IsCont b) ∧ t.foldl moreBits bits = c.toNat ∧ ShortestForm least c.toNat := by
  have hmax := Terminal.toNat_le c
  have hsur : ¬(0xD800 ≤ c.toNat ∧ c.toNat ≤ 0xDFFF) := by
    have hv := c.valid
    unfold UInt32.isValidChar Nat.isValidChar at hv
    have hn : c.val.toNat = c.toNat := rfl
    omega
  rcases utf8EncodeChar_cases c with ⟨h1, _⟩ | ⟨h1, h2, heq⟩ | ⟨h1, h2, heq⟩ | ⟨h1, heq⟩
  · omega
  · refine ⟨_, _, _, _, heq, leadByte_two ?_, ?_, ?_, h1, hmax, hsur⟩
    · rw [UInt8.toNat_ofNat']
      omega
    · simp only [List.forall_mem_cons, List.not_mem_nil, IsEmpty.forall_iff, implies_true,
        and_true, IsCont, UInt8.toNat_ofNat']
      omega
    · simp only [List.foldl_cons, List.foldl_nil, moreBits, UInt8.toNat_ofNat']
      omega
  · refine ⟨_, _, _, _, heq, leadByte_three ?_, ?_, ?_, h1, hmax, hsur⟩
    · rw [UInt8.toNat_ofNat']
      omega
    · simp only [List.forall_mem_cons, List.not_mem_nil, IsEmpty.forall_iff, implies_true,
        and_true, IsCont, UInt8.toNat_ofNat']
      omega
    · simp only [List.foldl_cons, List.foldl_nil, moreBits, UInt8.toNat_ofNat']
      omega
  · refine ⟨_, _, _, _, heq, leadByte_four ?_, ?_, ?_, h1, hmax, hsur⟩
    · rw [UInt8.toNat_ofNat']
      omega
    · simp only [List.forall_mem_cons, List.not_mem_nil, IsEmpty.forall_iff, implies_true,
        and_true, IsCont, UInt8.toNat_ofNat']
      omega
    · simp only [List.foldl_cons, List.foldl_nil, moreBits, UInt8.toNat_ofNat']
      omega

/-- Bytes that pass the acceptor's checks are an encoding. The shortest form is what makes it
unique. -/
theorem encode_of_parts {a : UInt8} {len least bits : Nat} {s : Bytes}
    (hlead : leadByte a = some (len, least, bits)) (hfit : len ≤ s.length + 1)
    (hcont : ∀ b ∈ s.take (len - 1), IsCont b)
    (hproper : ShortestForm least ((s.take (len - 1)).foldl moreBits bits)) :
    ∃ c, utf8EncodeChar c = a :: s.take (len - 1) := by
  obtain ⟨hleast, hmax, hsur⟩ := hproper
  rcases leadByte_some hlead with ⟨hr, heq⟩ | ⟨hr, heq⟩ | ⟨hr, heq⟩
  · obtain ⟨rfl, rfl, rfl⟩ : len = 2 ∧ least = 0x80 ∧ bits = a.toNat % 0x20 := by
      simpa only [Prod.mk.injEq] using heq
    match s, hfit with
    | b :: s, _ =>
      exact ⟨_, Utf8.utf8EncodeChar_two hr (hcont b (by simp))⟩
  · obtain ⟨rfl, rfl, rfl⟩ : len = 3 ∧ least = 0x800 ∧ bits = a.toNat % 0x10 := by
      simpa only [Prod.mk.injEq] using heq
    match s, hfit with
    | [b], hfit => simp at hfit
    | b :: c :: s, _ =>
      exact ⟨_, Utf8.utf8EncodeChar_three hr (hcont b (by simp))
        (hcont c (by simp)) rfl hleast hsur⟩
  · obtain ⟨rfl, rfl, rfl⟩ : len = 4 ∧ least = 0x10000 ∧ bits = a.toNat % 0x08 := by
      simpa only [Prod.mk.injEq] using heq
    match s, hfit with
    | [b], hfit => simp at hfit
    | [b, c], hfit => simp at hfit
    | b :: c :: d :: s, _ =>
      exact ⟨_, Utf8.utf8EncodeChar_four hr (hcont b (by simp)) (hcont c (by simp))
        (hcont d (by simp)) rfl hleast hmax⟩

/-- The acceptor takes every character, with anything after it. -/
theorem utf8Len_encode (c : Char) (s : Bytes) : utf8Len (utf8EncodeChar c ++ s) = c.utf8Size := by
  by_cases hascii : c.toNat < 0x80
  · rw [Utf8.encode_ascii hascii, List.singleton_append, Utf8.utf8Size_eq_one hascii]
    refine utf8Len_ascii ?_ s
    rw [UInt8.toNat_ofNat']
    omega
  · obtain ⟨a, t, least, bits, heq, hlead, hcont, hcp, hproper⟩ :=
      encode_parts (c := c) (by omega)
    have hsize : c.utf8Size = t.length + 1 := by
      rw [← String.length_utf8EncodeChar, heq, List.length_cons]
    have htake : (t ++ s).take (t.length + 1 - 1) = t := by
      rw [Nat.add_sub_cancel, List.take_left]
    rw [heq, List.cons_append, hsize]
    rcases utf8Len_lead hlead (t ++ s) with ⟨hlen, _⟩ | ⟨_, hnot⟩
    · exact hlen
    · rw [htake, hcp, List.length_append] at hnot
      exact absurd ⟨by omega, hcont, hproper⟩ hnot

/-- It takes nothing else: where it gives a length, the encoding of a character stands there. -/
theorem utf8Len_pos {s : Bytes} (h : 0 < utf8Len s) : ∃ c, utf8EncodeChar c <+: s
    ∧ c.utf8Size = utf8Len s := by
  cases s with
  | nil => exact absurd h (by decide)
  | cons a s =>
    by_cases hascii : a.toNat < 0x80
    · obtain ⟨hn, heq⟩ := Utf8.ascii_encode hascii
      refine ⟨Char.ofNat a.toNat, ⟨s, by rw [heq]; rfl⟩, ?_⟩
      rw [Utf8.utf8Size_eq_one (by omega), utf8Len_ascii hascii]
    · have hlow : ¬a < 0x80 := fun hlt => hascii (UInt8.lt_iff_toNat_lt.mp hlt)
      cases hlead : leadByte a with
      | none =>
        rw [utf8Len, if_neg hlow, hlead] at h
        exact absurd h (Nat.lt_irrefl 0)
      | some r =>
        obtain ⟨len, least, bits⟩ := r
        rcases utf8Len_lead hlead s with ⟨hlen, hfit, hcont, hproper⟩ | ⟨hzero, _⟩
        · obtain ⟨c, hc⟩ : ∃ c, utf8EncodeChar c = a :: s.take (len - 1) :=
            encode_of_parts hlead hfit hcont hproper
          refine ⟨c, ?_, ?_⟩
          · rw [hc]
            exact List.cons_prefix_cons.mpr ⟨rfl, List.take_prefix _ _⟩
          · have hpos : 0 < len := by
              rw [hlen] at h
              exact h
            rw [← String.length_utf8EncodeChar, hc, List.length_cons, List.length_take, hlen]
            omega
        · rw [hzero] at h
          exact absurd h (by decide)

/-- The code point of the first character is its number. -/
theorem utf8Cp_encode (c : Char) (s : Bytes) :
    utf8Cp (utf8EncodeChar c ++ s) c.utf8Size = c.toNat := by
  by_cases hascii : c.toNat < 0x80
  · rw [Utf8.encode_ascii hascii, List.singleton_append, Utf8.utf8Size_eq_one hascii,
      utf8Cp, if_pos rfl, UInt8.toNat_ofNat']
    omega
  · obtain ⟨a, t, least, bits, heq, hlead, hcont, hcp, hproper⟩ :=
      encode_parts (c := c) (by omega)
    have hsize : c.utf8Size = t.length + 1 := by
      rw [← String.length_utf8EncodeChar, heq, List.length_cons]
    have htake : (t ++ s).take (t.length + 1 - 1) = t := by
      rw [Nat.add_sub_cancel, List.take_left]
    rw [heq, List.cons_append, hsize]
    have hbits : t.length + 1 ≠ 1 ∧ bits
        = a.toNat % (if t.length + 1 = 2 then 0x20 else if t.length + 1 = 3 then 0x10
          else 0x08) := by
      rcases leadByte_some hlead with ⟨_, hr⟩ | ⟨_, hr⟩ | ⟨_, hr⟩
      all_goals
        simp only [Prod.mk.injEq] at hr
        rw [hr.1]
        exact ⟨by decide, hr.2.2⟩
    rw [utf8Cp, if_neg hbits.1, htake, ← hbits.2, hcp]

end IrcHub.Proofs
