import Mathlib.Data.List.Chain

/-!
# `IrcHub.Lib.Terminal`: byte text a terminal may be given

A terminal acts on control bytes, and one that reads UTF-8 acts on the encodings of U+0080 to
U+009F as well: those are the eight-bit forms of the escape sequences. Text that a program shows
and that others may choose must therefore contain neither, also not after it was cut or put
together with other text.

- `encode`: the UTF-8 encoding of a text
- `Printable`: a character that is no control, of either kind
- `Clean`: the encoding of printable characters. `Clean.append` puts such texts together
- `utf8EncodeChar_cases`: the bytes of an encoding, by its length
- `clean_char`: the encoding of one printable character

A clean text is the encoding of whole characters. That is why a cut has to be made between
characters: the bytes of half a character are clean by themselves and join what follows into
another one.
-/

set_option autoImplicit false

namespace Terminal

abbrev Bytes := List UInt8

/-! ### Texts of bytes that may follow each other -/

section Joined

variable {ok : UInt8 → Prop} {R : UInt8 → UInt8 → Prop} {a : UInt8} {l m : Bytes}

end Joined

/-! ### Safe text -/

/-! ### Tidy text -/

/-! ### Clean text -/

/-- The UTF-8 encoding of a text. -/
def encode (cs : List Char) : Bytes := cs.flatMap String.utf8EncodeChar

/-- A character that is no control. -/
def Printable (c : Char) : Prop := 0x20 ≤ c.toNat ∧ ¬(0x7f ≤ c.toNat ∧ c.toNat ≤ 0x9F)

instance (c : Char) : Decidable (Printable c) := inferInstanceAs (Decidable (_ ∧ _))

/-- The encoding of printable characters. -/
def Clean (l : Bytes) : Prop := ∃ cs, l = encode cs ∧ ∀ c ∈ cs, Printable c

/-- Nothing at all is clean. -/
theorem clean_nil : Clean [] := ⟨[], rfl, fun _ h => (List.not_mem_nil h).elim⟩

/-- Clean bytes after clean bytes: each part leaves the terminal in its ground state. -/
theorem Clean.append {l m : Bytes} (hl : Clean l) (hm : Clean m) : Clean (l ++ m) := by
  obtain ⟨cs, rfl, hcs⟩ := hl
  obtain ⟨ds, rfl, hds⟩ := hm
  refine ⟨cs ++ ds, (List.flatMap_append ..).symm, fun c hc => ?_⟩
  exact (List.mem_append.mp hc).elim (hcs c) (hds c)

/-- The encoding of a character, by its length. The bytes are given by the bits of the character's
number, as the definition has them, with the range of numbers of each length. -/
theorem utf8EncodeChar_cases (c : Char) :
    (c.toNat < 0x80 ∧ String.utf8EncodeChar c = [UInt8.ofNat c.toNat])
      ∨ (0x80 ≤ c.toNat ∧ c.toNat < 0x800
          ∧ String.utf8EncodeChar c = [UInt8.ofNat (c.toNat / 64 % 32 + 0xC0),
            UInt8.ofNat (c.toNat % 64 + 0x80)])
      ∨ (0x800 ≤ c.toNat ∧ c.toNat < 0x10000
          ∧ String.utf8EncodeChar c = [UInt8.ofNat (c.toNat / 4096 % 16 + 0xE0),
            UInt8.ofNat (c.toNat / 64 % 64 + 0x80), UInt8.ofNat (c.toNat % 64 + 0x80)])
      ∨ (0x10000 ≤ c.toNat ∧ String.utf8EncodeChar c = [UInt8.ofNat (c.toNat / 262144 % 8 + 0xF0),
            UInt8.ofNat (c.toNat / 4096 % 64 + 0x80), UInt8.ofNat (c.toNat / 64 % 64 + 0x80),
            UInt8.ofNat (c.toNat % 64 + 0x80)]) := by
  have hn : c.val.toNat = c.toNat := rfl
  unfold String.utf8EncodeChar
  rw [hn]
  simp only []
  split
  · exact .inl ⟨by omega, rfl⟩
  split
  · exact .inr (.inl ⟨by omega, by omega, rfl⟩)
  split
  · exact .inr (.inr (.inl ⟨by omega, by omega, rfl⟩))
  · exact .inr (.inr (.inr ⟨by omega, rfl⟩))

/-- The largest code point. -/
theorem toNat_le (c : Char) : c.toNat ≤ 0x10FFFF := by
  have hv := c.valid
  unfold UInt32.isValidChar Nat.isValidChar at hv
  have hn : c.val.toNat = c.toNat := rfl
  omega

/-- A printable character is clean, however many bytes it takes. -/
theorem clean_char {c : Char} (h : Printable c) : Clean (String.utf8EncodeChar c) := by
  refine ⟨[c], (List.append_nil _).symm, fun d hd => ?_⟩
  rw [List.mem_singleton.mp hd]
  exact h

/-! ### What a terminal sees -/

end Terminal
