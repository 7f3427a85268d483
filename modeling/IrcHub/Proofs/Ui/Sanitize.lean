import IrcHub.Proofs.Ui.Utf8
import IrcHub.Ui.Reply

/-!
# `IrcHub.Proofs.Ui.Sanitize`: text made safe to show

`sanitize` gives clean text, that is the UTF-8 encoding of characters that are no controls, of
less than `cap` bytes, and leaves clean text alone that is short enough.

* `clean_sanitizeFrom`, `length_sanitizeFrom`: what is written, from wherever the walk starts
* `sanitizeFrom_encode`: text of printable characters passes, as long as there is room
* `sanitize_iff`: it changes exactly what is not clean or too long, and nothing twice

Every byte string is allowed as input, since the console shows what a hub sends it. Controls are
dropped, a tab becomes a blank, and a byte that is part of no character becomes a question mark.
-/

set_option autoImplicit false

namespace IrcHub.Proofs

open IrcHub.Console Terminal Utf8
open String (utf8EncodeChar)

variable {cap n used : Nat} {s : Bytes}

/-! ### Characters -/

/-- Two texts of one encoding are the same. -/
theorem encode_inj {cs ds : List Char} (h : encode cs = encode ds) : cs = ds :=
  Option.some.inj ((decode_eq_some_iff.mpr rfl).symm.trans (decode_eq_some_iff.mpr h))

/-- A clean encoding is one of printable characters. -/
theorem clean_encode_iff {cs : List Char} : Clean (encode cs) ↔ ∀ c ∈ cs, Printable c := by
  constructor
  · rintro ⟨ds, heq, hds⟩
    rw [encode_inj heq]
    exact hds
  · exact fun h => ⟨cs, rfl, h⟩

/-- A printable byte below 0x80 is a clean text. -/
theorem clean_ascii {b : UInt8} (hlow : ¬b < 0x20) (hdel : b ≠ 0x7f) (hascii : b < 0x80) :
    Clean [b] := by
  have h20 : ¬b.toNat < 0x20 := fun h => hlow (UInt8.lt_iff_toNat_lt.mpr h)
  have h80 : b.toNat < 0x80 := UInt8.lt_iff_toNat_lt.mp hascii
  have h7f : b.toNat ≠ 0x7f := fun h => hdel (UInt8.toNat_inj.mp h)
  obtain ⟨hn, heq⟩ := ascii_encode h80
  have hclean : Clean (utf8EncodeChar (Char.ofNat b.toNat)) := clean_char ⟨by omega, by omega⟩
  rwa [heq] at hclean

/-! ### What comes out -/

/-- What is written is clean from wherever the walk starts. By induction on its steps. -/
theorem clean_sanitizeFrom (cap n used : Nat) (s : Bytes) :
    Clean (sanitizeFrom cap n used s) := by
  induction n generalizing used s with
  | zero => exact clean_nil
  | succ n ih =>
    cases s with
    | nil => exact clean_nil
    | cons c rest =>
      rw [sanitizeFrom]
      split
      · exact clean_nil
      split
      · exact Clean.append (l := [0x20]) (clean_ascii (by decide) (by decide) (by decide))
          (ih _ rest)
      split
      · exact ih _ rest
      · next hctl =>
        obtain ⟨hlow, hdel⟩ := not_or.mp hctl
        split
        · next hascii => exact Clean.append (l := [c]) (clean_ascii hlow hdel hascii) (ih _ rest)
        · next hascii =>
          simp only []
          split
          · exact Clean.append (l := [0x3f]) (clean_ascii (by decide) (by decide) (by decide))
              (ih _ rest)
          · next hlen =>
            split
            · exact ih _ _
            · next hc1 =>
              split
              · exact clean_nil
              · -- the sequence is that of a character, and no control
                obtain ⟨d, ⟨t, ht⟩, hsize⟩ := utf8Len_pos (Nat.pos_of_ne_zero hlen)
                have htake : (c :: rest).take (IrcHub.Console.utf8Len (c :: rest))
                  = utf8EncodeChar d := by
                  rw [← hsize, ← String.length_utf8EncodeChar, ← ht, List.take_left]
                have hcp : utf8Cp (c :: rest) (IrcHub.Console.utf8Len (c :: rest)) = d.toNat := by
                  rw [← hsize, ← ht]
                  exact utf8Cp_encode d t
                rw [htake]
                rw [hcp] at hc1
                refine Clean.append (clean_char ?_) (ih _ _)
                have hhigh : ¬d.toNat < 0x80 := by
                  intro hd
                  rw [encode_ascii hd, List.singleton_append, List.cons.injEq] at ht
                  refine hascii (UInt8.lt_iff_toNat_lt.mpr ?_)
                  rw [← ht.1, UInt8.toNat_ofNat']
                  show d.toNat % 256 < 128
                  omega
                exact ⟨by omega, by omega⟩

/-- It never takes more than the room that is left, the NUL that ends the buffer apart. -/
theorem length_sanitizeFrom (cap n used : Nat) (s : Bytes) :
    (sanitizeFrom cap n used s).length ≤ cap - 1 - used := by
  induction n generalizing used s with
  | zero => exact Nat.zero_le _
  | succ n ih =>
    cases s with
    | nil => exact Nat.zero_le _
    | cons c rest =>
      rw [sanitizeFrom]
      have hone : ∀ x : UInt8, ¬cap ≤ used + 1 →
          (x :: sanitizeFrom cap n (used + 1) rest).length ≤ cap - 1 - used := by
        intro x hroom
        have hrest := ih (used + 1) rest
        rw [List.length_cons]
        omega
      split
      · exact Nat.zero_le _
      · next hroom =>
        split
        · exact hone _ hroom
        split
        · exact ih _ rest
        split
        · exact hone _ hroom
        simp only []
        split
        · exact hone _ hroom
        split
        · exact ih _ _
        split
        · exact Nat.zero_le _
        · next hfits =>
          have hrest := ih (used + IrcHub.Console.utf8Len (c :: rest))
            ((c :: rest).drop (IrcHub.Console.utf8Len (c :: rest)))
          have htake := List.length_take_le (IrcHub.Console.utf8Len (c :: rest)) (c :: rest)
          rw [List.length_append]
          omega

/-- Text of printable characters passes, as long as there is room. By induction on the
characters. -/
theorem sanitizeFrom_encode {cs : List Char} (hcs : ∀ c ∈ cs, Printable c)
    (hn : (encode cs).length ≤ n) (hroom : cs ≠ [] → used + (encode cs).length < cap) :
    sanitizeFrom cap n used (encode cs) = encode cs := by
  induction cs generalizing n used with
  | nil => cases n <;> rfl
  | cons d cs ih =>
    have hd : Printable d := hcs d List.mem_cons_self
    have hroom := hroom (List.cons_ne_nil d cs)
    have hcons : encode (d :: cs) = utf8EncodeChar d ++ encode cs := List.flatMap_cons
    have hlen : (encode (d :: cs)).length = d.utf8Size + (encode cs).length := by
      rw [hcons, List.length_append, String.length_utf8EncodeChar]
    have hpos := d.utf8Size_pos
    rw [hlen] at hn hroom
    obtain ⟨m, rfl⟩ : ∃ m, n = m + 1 := ⟨n - 1, by omega⟩
    have hrest : ∀ m', (encode cs).length ≤ m' →
      sanitizeFrom cap m' (used + d.utf8Size) (encode cs) = encode cs :=
      fun m' hm => ih (fun c hc => hcs c (List.mem_cons_of_mem _ hc)) hm fun _ => by omega
    rw [hcons]
    -- an ASCII character is a byte of its own, and not a control
    by_cases hascii : d.toNat < 0x80
    · have hbyte : utf8EncodeChar d = [UInt8.ofNat d.toNat] := encode_ascii hascii
      have hval : (UInt8.ofNat d.toNat).toNat = d.toNat := by
        rw [UInt8.toNat_ofNat']
        show d.toNat % 256 = d.toNat
        omega
      have hsize : d.utf8Size = 1 := utf8Size_eq_one hascii
      rw [hsize] at hrest hroom
      have htab : UInt8.ofNat d.toNat ≠ 0x09 := by
        intro h
        have := congrArg UInt8.toNat h
        rw [hval] at this
        have h9 : d.toNat = 9 := this
        have := hd.1
        omega
      have hctl : ¬(UInt8.ofNat d.toNat < 0x20 ∨ UInt8.ofNat d.toNat = 0x7f) := by
        rintro (h | h)
        · have := UInt8.lt_iff_toNat_lt.mp h
          rw [hval] at this
          have h20 : d.toNat < 32 := this
          have := hd.1
          omega
        · have := congrArg UInt8.toNat h
          rw [hval] at this
          have h7f : d.toNat = 127 := this
          have := hd.2
          omega
      have h80 : UInt8.ofNat d.toNat < 0x80 :=
        UInt8.lt_iff_toNat_lt.mpr (by rw [hval]; exact hascii)
      rw [hbyte, List.singleton_append, sanitizeFrom, if_neg (by omega), if_neg htab,
        if_neg hctl, if_pos h80, hrest m (by omega)]
    · -- the lead byte is above 0x7f, and the sequence is the character's
      have hul : IrcHub.Console.utf8Len (utf8EncodeChar d ++ encode cs) = d.utf8Size :=
        utf8Len_encode d (encode cs)
      have hcp : utf8Cp (utf8EncodeChar d ++ encode cs) d.utf8Size = d.toNat :=
        utf8Cp_encode d (encode cs)
      have htake : (utf8EncodeChar d ++ encode cs).take d.utf8Size = utf8EncodeChar d := by
        rw [← String.length_utf8EncodeChar, List.take_left]
      have hdrop : (utf8EncodeChar d ++ encode cs).drop d.utf8Size = encode cs := by
        rw [← String.length_utf8EncodeChar, List.drop_left]
      obtain ⟨a, t, least, bits, heq, hlead, -⟩ := encode_parts (c := d) (by omega)
      have ha : ¬a.toNat < 0x80 := not_ascii_of_leadByte hlead
      have hhigh : ¬a < 0x80 := fun h => ha (UInt8.lt_iff_toNat_lt.mp h)
      have htab : a ≠ 0x09 := fun h => ha (by rw [h]; decide)
      have hctl : ¬(a < 0x20 ∨ a = 0x7f) := by
        rintro (h | h)
        · have h20 : a.toNat < 32 := UInt8.lt_iff_toNat_lt.mp h
          omega
        · exact ha (by rw [h]; decide)
      rw [heq, List.cons_append] at hul hcp htake hdrop ⊢
      rw [sanitizeFrom, if_neg (by omega), if_neg htab, if_neg hctl, if_neg hhigh]
      simp only [hul, hcp, htake, hdrop]
      have hc1 : ¬(0x80 ≤ d.toNat ∧ d.toNat ≤ 0x9F) := fun h => hd.2 ⟨by omega, h.2⟩
      rw [if_neg (Nat.ne_of_gt hpos), if_neg hc1, if_neg (by omega), hrest m (by omega)]
      rfl

/-! ### The whole text -/

/-- Sanitised text is clean, whatever the bytes were. -/
theorem clean_sanitize (s : Bytes) (cap : Nat) : Clean (sanitize s cap) :=
  clean_sanitizeFrom cap s.length 0 s

/-- And it leaves room for the end mark. -/
theorem length_sanitize (s : Bytes) (cap : Nat) : (sanitize s cap).length ≤ cap - 1 :=
  length_sanitizeFrom cap s.length 0 s

/-- Clean text with room for it stays as it is. -/
theorem sanitize_clean (hclean : Clean s) (hcap : s.length < cap) : sanitize s cap = s := by
  obtain ⟨cs, rfl, hcs⟩ := hclean
  exact sanitizeFrom_encode hcs (Nat.le_refl _) fun _ => by omega

/-- Text that passes whole is what `cleanDup` leaves alone. -/
theorem cleanDup_iff : cleanDup s = s ↔ Clean s :=
  ⟨fun h => h ▸ clean_sanitize s _, fun h => sanitize_clean h (Nat.lt_succ_self _)⟩

/-- What `sanitize` shows of any bytes is clean and less than `cap` bytes long. It is the text
itself exactly for clean text that short, and is not changed by another pass. -/
theorem sanitize_iff (s : Bytes) (cap : Nat) :
    Clean (sanitize s cap) ∧ (sanitize s cap).length ≤ cap - 1
      ∧ (sanitize s cap = s ↔ Clean s ∧ s.length ≤ cap - 1)
      ∧ sanitize (sanitize s cap) cap = sanitize s cap := by
  have hself : ∀ t : Bytes, Clean t → t.length ≤ cap - 1 → sanitize t cap = t := by
    intro t hclean hlen
    by_cases hnil : t = []
    · rw [hnil]
      rfl
    · have hpos := List.length_pos_iff.mpr hnil
      exact sanitize_clean hclean (by omega)
  refine ⟨clean_sanitize s cap, length_sanitize s cap, ⟨fun h => ?_, fun h => hself s h.1 h.2⟩,
    hself _ (clean_sanitize s cap) (length_sanitize s cap)⟩
  rw [← h]
  exact ⟨clean_sanitize s cap, length_sanitize s cap⟩

end IrcHub.Proofs
