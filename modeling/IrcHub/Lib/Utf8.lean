import IrcHub.Lib.Terminal

/-!
# `IrcHub.Lib.Utf8`: reading UTF-8

Byte texts that may hold anything, read as UTF-8. What Lean's core has is the encoding of a
character; this module adds what reading needs.

* `decodeFirst`: the character a text starts with. It is the one whose encoding the text starts
  with, and there is one at most (`decodeFirst_eq_some_iff`, `encode_prefix_unique`). `decode`
  reads a text that is UTF-8 throughout (`decode_eq_some_iff`).
* `encode_lead`, `not_inside`: an encoding starts with a byte that no other one continues with, so
  two encodings in one text never overlap.
* `exists_block`: a place in a text put together from blocks lies in one of them.
* `utf8EncodeChar_two`, `utf8EncodeChar_three`, `utf8EncodeChar_four`: the bytes that a reader
  assembles by shifting are the encoding of the number it gets.

The last three are what a decoder written out byte by byte is checked against. Each asks for the
shortest form (`hleast`), and for a number that is a character: no surrogate (`hsur`), and none
above the last one (`hmax`). A decoder that leaves one of these checks out reads bytes that no
encoder writes.
-/

set_option autoImplicit false

namespace Utf8

open Terminal
open String (utf8EncodeChar)

/-! ### The standard decoder -/

/-- The character a text starts with, if it starts with the encoding of one. -/
def decodeFirst (s : Bytes) : Option Char := s.toByteArray.utf8DecodeChar? 0

/-- A character is read back from the front of any text. -/
theorem decodeFirst_encode (c : Char) (s : Bytes) :
    decodeFirst (utf8EncodeChar c ++ s) = some c := by
  unfold decodeFirst
  rw [List.toByteArray_append]
  exact ByteArray.utf8DecodeChar?_utf8EncodeChar_append

/-- The decoder takes exactly the encodings. -/
theorem decodeFirst_eq_some_iff {s : Bytes} {c : Char} : decodeFirst s = some c
    ↔ utf8EncodeChar c <+: s := by
  constructor
  · intro h
    have hbytes := ByteArray.eq_of_utf8DecodeChar?_eq_some h
    have hlist := congrArg (fun a : ByteArray => a.data.toList) hbytes
    simp only [List.data_toByteArray, ByteArray.data_append, Array.toList_append,
      List.toList_toArray] at hlist
    exact ⟨_, hlist.symm⟩
  · rintro ⟨t, rfl⟩
    exact decodeFirst_encode c t

/-- A whole text read as UTF-8, where that is what it is. -/
def decode (s : Bytes) : Option (List Char) := (String.fromUTF8? s.toByteArray).map String.toList

/-- A text is read as characters exactly when it is their encoding. So reading is the inverse of
`encode` where it succeeds, and it fails on every text that is no encoding. -/
theorem decode_eq_some_iff {s : Bytes} {cs : List Char} : decode s = some cs ↔ s = encode cs := by
  unfold decode String.fromUTF8?
  constructor
  · intro h
    split at h
    · rename_i hv
      have hcs : (String.fromUTF8 s.toByteArray hv).toList = cs := Option.some.inj h
      have hbytes : (String.ofList cs).toByteArray = s.toByteArray := by
        rw [← hcs, String.ofList_toList]
        rfl
      rw [String.toByteArray_ofList] at hbytes
      exact (List.toByteArray_inj.mp hbytes).symm
    · exact absurd h (by simp)
  · rintro rfl
    have hv : (encode cs).toByteArray.IsValidUTF8 := ⟨cs, rfl⟩
    have hof : String.fromUTF8 (encode cs).toByteArray hv = String.ofList cs := rfl
    rw [dif_pos hv, hof, Option.map_some, String.toList_ofList]

/-- One character alone. -/
theorem decode_char (c : Char) : decode (utf8EncodeChar c) = some [c] :=
  decode_eq_some_iff.mpr (List.append_nil _).symm

/-- A text starts with one encoding at most. -/
theorem encode_prefix_unique {s : Bytes} {c d : Char} (hc : utf8EncodeChar c <+: s)
    (hd : utf8EncodeChar d <+: s) :
    c = d := by
  have h := (decodeFirst_eq_some_iff.mpr hc).symm.trans (decodeFirst_eq_some_iff.mpr hd)
  exact Option.some.inj h

/-- No character takes no bytes. -/
theorem encode_ne_nil (c : Char) : utf8EncodeChar c ≠ [] := by
  intro h
  have hlen := String.length_utf8EncodeChar c
  rw [h] at hlen
  exact absurd hlen (Nat.ne_of_lt c.utf8Size_pos)

/-! ### Lead and continuation bytes -/

/-- A byte inside an encoding: `b & 0xC0 == 0x80`. -/
def IsCont (b : UInt8) : Prop := 0x80 ≤ b.toNat ∧ b.toNat < 0xC0

/-- An encoding: a lead byte, then continuation bytes only. -/
theorem encode_lead (c : Char) :
    ∃ b l, utf8EncodeChar c = b :: l ∧ ¬IsCont b ∧ (c.toNat < 0x80 ↔ b.toNat < 0x80)
      ∧ ∀ x ∈ l, IsCont x := by
  have hmax := toNat_le c
  rcases utf8EncodeChar_cases c with ⟨h1, heq⟩ | ⟨h1, h2, heq⟩ | ⟨h1, h2, heq⟩ | ⟨h1, heq⟩
  all_goals refine ⟨_, _, heq, ?_⟩
  all_goals simp only [List.forall_mem_cons, List.not_mem_nil, IsEmpty.forall_iff, implies_true,
    and_true, IsCont, UInt8.toNat_ofNat']
  all_goals omega

/-- An ASCII character is its own encoding. -/
theorem encode_ascii {c : Char} (h : c.toNat < 0x80) :
    utf8EncodeChar c = [UInt8.ofNat c.toNat] := by
  rcases utf8EncodeChar_cases c with ⟨_, heq⟩ | ⟨h1, _⟩ | ⟨h1, _⟩ | ⟨h1, _⟩
  · exact heq
  all_goals omega

/-- ASCII takes one byte. -/
theorem utf8Size_eq_one {c : Char} (h : c.toNat < 0x80) : c.utf8Size = 1 := by
  rw [← String.length_utf8EncodeChar, encode_ascii h, List.length_singleton]

/-- The character of a number that is one. -/
theorem toNat_ofNat_scalar {n : Nat} (hmax : n ≤ 0x10FFFF) (hsur : ¬(0xD800 ≤ n ∧ n ≤ 0xDFFF)) :
    (Char.ofNat n).toNat = n := by
  have hvalid : n.isValidChar := by
    unfold Nat.isValidChar
    omega
  unfold Char.ofNat
  rw [dif_pos hvalid]
  rfl

/-- An ASCII byte is the encoding of the character of its number. -/
theorem ascii_encode {b : UInt8} (h : b.toNat < 0x80) :
    (Char.ofNat b.toNat).toNat = b.toNat ∧ utf8EncodeChar (Char.ofNat b.toNat) = [b] := by
  have hn : (Char.ofNat b.toNat).toNat = b.toNat := toNat_ofNat_scalar (by omega) (by omega)
  refine ⟨hn, ?_⟩
  rw [encode_ascii (by omega), hn, UInt8.ofNat_toNat]

/-- No encoding starts inside another. The second byte of an encoding is a continuation byte, and
an encoding never starts with one. -/
theorem not_inside {s : Bytes} {c d : Char} {i : Nat} (hc : utf8EncodeChar c <+: s) (h0 : 0 < i)
    (hi : i < c.utf8Size) : ¬utf8EncodeChar d <+: s.drop i := by
  rintro ⟨t, ht⟩
  obtain ⟨u, rfl⟩ := hc
  obtain ⟨b, l, hcl, -, -, hl⟩ := encode_lead c
  obtain ⟨x, m, hdm, hx, -⟩ := encode_lead d
  have hlen : l.length + 1 = c.utf8Size := by
    rw [← String.length_utf8EncodeChar, hcl, List.length_cons]
  have hget : (utf8EncodeChar c ++ u)[i]? = some x := by
    have hhead : ((utf8EncodeChar c ++ u).drop i)[0]? = some x := by
      rw [← ht, hdm]
      rfl
    rwa [List.getElem?_drop, Nat.add_zero] at hhead
  rw [hcl, List.cons_append, List.getElem?_cons, if_neg (by omega),
    List.getElem?_append_left (by omega)] at hget
  exact hx (hl x (List.mem_of_getElem? hget))

/-- A place in a text that is put together from blocks lies in one of them. It finds the row of a
listing that a position belongs to. -/
theorem exists_block {α β : Type} {f : α → List β} {l : List α} {m : Nat}
    (h : m < (l.flatMap f).length) :
    ∃ p a q, l = p ++ a :: q ∧ (p.flatMap f).length ≤ m
      ∧ m < (p.flatMap f).length + (f a).length := by
  induction l generalizing m with
  | nil => exact absurd h (Nat.not_lt_zero m)
  | cons a l ih =>
    rw [List.flatMap_cons, List.length_append] at h
    by_cases hin : m < (f a).length
    · exact ⟨[], a, l, rfl, Nat.zero_le m, by simpa using hin⟩
    · obtain ⟨p, b, q, rfl, hlo, hhi⟩ := ih (m := m - (f a).length) (by omega)
      refine ⟨a :: p, b, q, rfl, ?_, ?_⟩
      all_goals rw [List.flatMap_cons, List.length_append]
      all_goals omega

/-! ### Numbers put together from bytes -/

/-- Two bytes with their bits. -/
theorem utf8EncodeChar_two {a b : UInt8} (ha : 0xC2 ≤ a.toNat ∧ a.toNat ≤ 0xDF) (hb : IsCont b) :
    utf8EncodeChar (Char.ofNat (a.toNat % 0x20 * 0x40 + b.toNat % 0x40)) = [a, b] := by
  have hb1 := hb.1
  have hb2 := hb.2
  have hn := toNat_ofNat_scalar (n := a.toNat % 0x20 * 0x40 + b.toNat % 0x40)
    (by omega) (by omega)
  rcases utf8EncodeChar_cases (Char.ofNat (a.toNat % 0x20 * 0x40 + b.toNat % 0x40))
    with ⟨h1, _⟩ | ⟨_, _, heq⟩ | ⟨h1, _⟩ | ⟨h1, _⟩
  · omega
  · rw [heq, hn]
    simp only [List.cons.injEq, and_true, ← UInt8.toNat_inj, UInt8.toNat_ofNat']
    omega
  all_goals omega

/-- Three bytes with their bits, the shortest form of a character. `ha` to `hc` are the ranges of
the bytes, `hn` the number they stand for, `hleast` that two bytes would not do, `hsur` that it is
no surrogate. -/
theorem utf8EncodeChar_three {a b c : UInt8} {n : Nat} (ha : 0xE0 ≤ a.toNat ∧ a.toNat ≤ 0xEF)
    (hb : IsCont b) (hc : IsCont c)
    (hn : n = (a.toNat % 0x10 * 0x40 + b.toNat % 0x40) * 0x40 + c.toNat % 0x40)
    (hleast : 0x800 ≤ n) (hsur : ¬(0xD800 ≤ n ∧ n ≤ 0xDFFF)) :
    utf8EncodeChar (Char.ofNat n) = [a, b, c] := by
  have hb1 := hb.1
  have hb2 := hb.2
  have hc1 := hc.1
  have hc2 := hc.2
  have hval := toNat_ofNat_scalar (n := n) (by omega) hsur
  rcases utf8EncodeChar_cases (Char.ofNat n) with ⟨h1, _⟩ | ⟨_, h1, _⟩ | ⟨_, _, heq⟩ | ⟨h1, _⟩
  · omega
  · omega
  · rw [heq, hval]
    simp only [List.cons.injEq, and_true, ← UInt8.toNat_inj, UInt8.toNat_ofNat']
    omega
  · omega

/-- Four bytes with their bits, the shortest form of a character. `hleast` and `hmax` keep the
number between what three bytes hold and the last character there is. -/
theorem utf8EncodeChar_four {a b c d : UInt8} {n : Nat} (ha : 0xF0 ≤ a.toNat ∧ a.toNat ≤ 0xF4)
    (hb : IsCont b) (hc : IsCont c) (hd : IsCont d)
    (hn : n = ((a.toNat % 0x08 * 0x40 + b.toNat % 0x40) * 0x40 + c.toNat % 0x40) * 0x40
    + d.toNat % 0x40) (hleast : 0x10000 ≤ n) (hmax : n ≤ 0x10FFFF) :
    utf8EncodeChar (Char.ofNat n) = [a, b, c, d] := by
  have hb1 := hb.1
  have hb2 := hb.2
  have hc1 := hc.1
  have hc2 := hc.2
  have hd1 := hd.1
  have hd2 := hd.2
  have hval := toNat_ofNat_scalar (n := n) hmax (by omega)
  rcases utf8EncodeChar_cases (Char.ofNat n) with ⟨h1, _⟩ | ⟨_, h1, _⟩ | ⟨_, h1, _⟩ | ⟨_, heq⟩
  · omega
  · omega
  · omega
  · rw [heq, hval]
    simp only [List.cons.injEq, and_true, ← UInt8.toNat_inj, UInt8.toNat_ofNat']
    omega

end Utf8
