import IrcHub.Proofs.Ui.Utf8
import IrcHub.Ui.Keys

/-!
# `IrcHub.Proofs.Ui.Typed`: typed characters

A character is typed as the bytes of its encoding, one after the other, and put into the input
line as the same bytes.

* `utf8Encode_toNat`: the editor's own encoder gives the encoding of a character
* `visible_bytes`: the encoding of a visible character has no control byte in it
* `utf8Byte_cases`: the last byte of a character gives the character, or nothing
-/

set_option autoImplicit false

namespace IrcHub.Proofs

open IrcHub.Console
open IrcHub.Console.Ui
open Terminal (Bytes encode utf8EncodeChar_cases)
open String (utf8EncodeChar)
open Utf8 (IsCont)

/-- A character that is not a control character. -/
def Visible (c : Char) : Prop := 0x20 ≤ c.toNat ∧ c.toNat ≠ 0x7F
    ∧ ¬(0x80 ≤ c.toNat ∧ c.toNat ≤ 0x9F)

/-- What the editor inserts for a character is its encoding. The cases are the four lengths. -/
theorem utf8Encode_toNat (c : Char) : utf8Encode c.toNat = utf8EncodeChar c := by
  have hmax := Terminal.toNat_le c
  unfold utf8Encode
  rcases utf8EncodeChar_cases c with ⟨h1, heq⟩ | ⟨h1, h2, heq⟩ | ⟨h1, h2, heq⟩ | ⟨h1, heq⟩
  · rw [heq, if_pos h1]
  · have hlead : c.toNat / 64 % 32 + 0xC0 = 0xC0 + c.toNat / 0x40 := by omega
    have hlast : c.toNat % 64 + 0x80 = 0x80 + c.toNat % 0x40 := by omega
    rw [heq, if_neg (by omega), if_pos h2, hlead, hlast]
  · have hlead : c.toNat / 4096 % 16 + 0xE0 = 0xE0 + c.toNat / 0x1000 := by omega
    have hmid : c.toNat / 64 % 64 + 0x80 = 0x80 + c.toNat / 0x40 % 0x40 := by omega
    have hlast : c.toNat % 64 + 0x80 = 0x80 + c.toNat % 0x40 := by omega
    rw [heq, if_neg (by omega), if_neg (by omega), if_pos h2, hlead, hmid, hlast]
  · have hlead : c.toNat / 262144 % 8 + 0xF0 = 0xF0 + c.toNat / 0x40000 := by omega
    have hsecond : c.toNat / 4096 % 64 + 0x80 = 0x80 + c.toNat / 0x1000 % 0x40 := by omega
    have hmid : c.toNat / 64 % 64 + 0x80 = 0x80 + c.toNat / 0x40 % 0x40 := by omega
    have hlast : c.toNat % 64 + 0x80 = 0x80 + c.toNat % 0x40 := by omega
    rw [heq, if_neg (by omega), if_neg (by omega), if_neg (by omega), hlead, hsecond, hmid, hlast]

/-- The bytes of a visible character are no control bytes. -/
theorem visible_bytes {c : Char} (h : Visible c) : ∀ x ∈ utf8EncodeChar c, 0x20 ≤ x.toNat
    ∧ x.toNat ≠ 0x7F := by
  obtain ⟨hlow, hdel, -⟩ := h
  have hmax := Terminal.toNat_le c
  rcases utf8EncodeChar_cases c with ⟨h1, heq⟩ | ⟨h1, h2, heq⟩ | ⟨h1, h2, heq⟩ | ⟨h1, heq⟩
  all_goals
    rw [heq]
    simp only [List.forall_mem_cons, List.not_mem_nil, IsEmpty.forall_iff, implies_true, and_true,
      UInt8.toNat_ofNat']
    omega

/-- The last byte of a character: the character, or nothing where the bytes are no encoding. -/
theorem utf8Byte_cases (lay : Layout) (s : Ui) (x : UInt8) (now : Int) :
    (∃ u, s.utf8Byte lay x now = { s with utf8 := u })
      ∨ ∃ c, Visible c ∧ s.utf8Byte lay x now
        = { s.feedChar lay c.toNat now with utf8 := [] } := by
  unfold utf8Byte
  simp only
  generalize s.utf8 ++ [x] = u
  generalize hneed : (if 0xF0 ≤ u.headD 0 then 4 else if 0xE0 ≤ u.headD 0 then 3 else 2) = need
  have hsize : 2 ≤ need := by
    rw [← hneed]
    split
    · omega
    · split <;> omega
  split
  · rename_i hlen
    by_cases hchar : Console.utf8Len u = need ∧ ¬(0x80 ≤ utf8Cp u need ∧ utf8Cp u need ≤ 0x9F)
    · simp only [if_pos hchar]
      obtain ⟨hfits, hctl⟩ := hchar
      obtain ⟨c, hprefix, hc⟩ := utf8Len_pos (s := u) (by omega)
      have hwhole : utf8EncodeChar c = u :=
        hprefix.eq_of_length (by rw [String.length_utf8EncodeChar, hc, hfits, hlen])
      have hcp : utf8Cp u need = c.toNat := by
        rw [← hfits, ← hc, ← hwhole]
        have := utf8Cp_encode c []
        rwa [List.append_nil] at this
      have hwide : 0x80 ≤ c.toNat := by
        by_contra hlow
        have := Utf8.utf8Size_eq_one (c := c) (by omega)
        omega
      rw [hcp] at hctl ⊢
      exact .inr ⟨c, ⟨by omega, by omega, hctl⟩, rfl⟩
    · simp only [if_neg hchar]
      exact .inl ⟨[], rfl⟩
  · exact .inl ⟨u, rfl⟩

end IrcHub.Proofs
