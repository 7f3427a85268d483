import IrcHub.Hub.Logging
import IrcHub.Proofs.Ui.Utf8

/-!
# `IrcHub.Proofs.Logging`: log lines cannot be forged

Every message splits in one way into characters and stray bytes, `Part`s (`exists_parts`). A stray
byte is part of no character anywhere in the message (`not_inSequence`), because encodings do not
overlap. What the log gets is `render` of the parts: printable characters and tabs as they are,
newlines indented, everything else as escapes.

* `utf8Len_decodeFirst`: the acceptor takes what the decoder takes, so the fallback is never used
* `sanitize_eq_render`: the message is written part by part
* `render_indented`, `shown_of_mem_render`: nothing else in it can end a line or move a cursor
* `sanitize_faithful`: all of this for every message

The decoder is that of the language, `decodeFirst`, and the acceptor is the byte test of the
source. They are compared on every byte string, not only on valid texts.
-/

set_option autoImplicit false

namespace IrcHub.Proofs.Logging

open IrcHub.Hub.Logging
open Terminal (Bytes encode)
open String (utf8EncodeChar)
open Utf8 (decode decodeFirst)

/-! ### The acceptor -/

/-- The acceptor is the console's, less the ASCII bytes. -/
theorem utf8Len_cons (a : UInt8) (s : Bytes) :
    utf8Len (a :: s) = if a.toNat < 0x80 then 0 else Console.utf8Len (a :: s) := by
  by_cases h : a.toNat < 0x80
  · rw [if_pos h, utf8Len]
    cases hlead : Console.leadByte a with
    | none => rfl
    | some r => exact absurd h (not_ascii_of_leadByte hlead)
  · have hlow : ¬a < 0x80 := fun hlt => h (UInt8.lt_iff_toNat_lt.mp hlt)
    rw [if_neg h, utf8Len, Console.utf8Len]
    exact (if_neg hlow).symm

/-- A character of more than one byte is taken. -/
theorem utf8Len_encode {c : Char} (hc : 0x80 ≤ c.toNat) (s : Bytes) :
    utf8Len (utf8EncodeChar c ++ s) = c.utf8Size := by
  obtain ⟨b, l, hb, -, hlow, -⟩ := Utf8.encode_lead c
  rw [← Proofs.utf8Len_encode c s, hb, List.cons_append, utf8Len_cons, if_neg (by omega)]

/-- A length is only given to the encoding of a character that stands there. The cases are the
byte patterns of the source. -/
theorem utf8Len_pos {s : Bytes} (h : 0 < utf8Len s) :
    ∃ c, 0x80 ≤ c.toNat ∧ c.utf8Size = utf8Len s ∧ utf8EncodeChar c <+: s := by
  cases s with
  | nil => exact absurd h (Nat.lt_irrefl 0)
  | cons a s =>
    rw [utf8Len_cons] at h ⊢
    by_cases hlow : a.toNat < 0x80
    · rw [if_pos hlow] at h
      exact absurd h (Nat.lt_irrefl 0)
    · rw [if_neg hlow] at h ⊢
      obtain ⟨c, hpre, hsize⟩ := Proofs.utf8Len_pos h
      refine ⟨c, ?_, hsize, hpre⟩
      obtain ⟨b, l, hb, -, hascii, -⟩ := Utf8.encode_lead c
      rw [hb] at hpre
      have hba : b = a := (List.cons_prefix_cons.mp hpre).1
      rw [hba] at hascii
      omega

/-- A character at the front is as long as its first byte says. -/
theorem take_utf8Len {s : Bytes} {c : Char} (hpre : utf8EncodeChar c <+: s)
    (hsize : c.utf8Size = utf8Len s) :
    s.take (utf8Len s) = utf8EncodeChar c := by
  obtain ⟨t, rfl⟩ := hpre
  rw [← hsize, ← String.length_utf8EncodeChar, List.take_left]

/-- The acceptor takes exactly the characters of more than one byte that the decoder takes. -/
theorem utf8Len_decodeFirst (s : Bytes) (c : Char) :
    decodeFirst s = some c ∧ 0x80 ≤ c.toNat ↔ 0 < utf8Len s
      ∧ s.take (utf8Len s) = utf8EncodeChar c := by
  constructor
  · rintro ⟨hdec, hc⟩
    have hpre := Utf8.decodeFirst_eq_some_iff.mp hdec
    have hsize : c.utf8Size = utf8Len s := by
      obtain ⟨t, rfl⟩ := hpre
      exact (utf8Len_encode hc t).symm
    exact ⟨hsize ▸ c.utf8Size_pos, take_utf8Len hpre hsize⟩
  · rintro ⟨hpos, htake⟩
    obtain ⟨d, hd, hsize, hpre⟩ := utf8Len_pos hpos
    have hcd : c = d := by
      refine Utf8.encode_prefix_unique (s := s) ?_ hpre
      rw [← htake]
      exact List.take_prefix _ s
    rw [hcd]
    exact ⟨Utf8.decodeFirst_eq_some_iff.mpr hpre, hd⟩

/-- The fallback is never used. -/
theorem decode_utf8Len {s : Bytes} (h : 0 < utf8Len s) :
    ∃ c, decode (s.take (utf8Len s)) = some [c] := by
  obtain ⟨c, -, hsize, hpre⟩ := utf8Len_pos h
  exact ⟨c, by rw [take_utf8Len hpre hsize, Utf8.decode_char]⟩

/-! ### Parts of a message -/

/-- A character, or a byte that belongs to none. -/
inductive Part
  | char (c : Char)
  | stray (b : UInt8)
  deriving DecidableEq

/-- The bytes of a part: the encoding of the character, or the byte. -/
def Part.bytes : Part → Bytes
  | .char c => utf8EncodeChar c
  | .stray b => [b]

/-- A byte of a message that some encoding in the message covers. -/
def InSequence (s : Bytes) (j : Nat) : Prop := ∃ i c, i ≤ j ∧ j < i + c.utf8Size
    ∧ utf8EncodeChar c <+: s.drop i

/-- The parts of a message: where a stray byte stands, no encoding starts. -/
structure Parts (s : Bytes) (parts : List Part) : Prop where
  whole : parts.flatMap Part.bytes = s
  stray : ∀ l b r, parts = l ++ .stray b :: r → 0x80 ≤ b.toNat
    ∧ ∀ c, ¬utf8EncodeChar c <+: (.stray b :: r).flatMap Part.bytes

/-- One part more in front. A stray byte must be one that starts no character here, or the parts
would not be the text's. -/
theorem Parts.cons {s : Bytes} {parts : List Part} (h : Parts s parts) (x : Part)
    (hx : ∀ b, x = .stray b → 0x80 ≤ b.toNat ∧ ∀ c, ¬utf8EncodeChar c <+: x.bytes ++ s) :
    Parts (x.bytes ++ s) (x :: parts) := by
  constructor
  · rw [List.flatMap_cons, h.whole]
  · intro l b r hparts
    cases l with
    | nil =>
      obtain ⟨rfl, rfl⟩ := List.cons.inj hparts
      rw [List.flatMap_cons, h.whole]
      exact hx b rfl
    | cons y l => exact h.stray l b r (List.cons.inj hparts).2

/-- Every message has parts. By induction on its length: the first part takes at least one
byte. -/
theorem exists_parts (s : Bytes) : ∃ parts, Parts s parts := by
  induction hn : s.length using Nat.strong_induction_on generalizing s with
  | _ n ih =>
    cases s with
    | nil => exact ⟨[], rfl, fun l b r h => by simp at h⟩
    | cons a s =>
      cases hdec : decodeFirst (a :: s) with
      | some c =>
        obtain ⟨t, ht⟩ := Utf8.decodeFirst_eq_some_iff.mp hdec
        have hlen : t.length < n := by
          have := congrArg List.length ht
          have hpos := c.utf8Size_pos
          rw [List.length_append, String.length_utf8EncodeChar] at this
          omega
        obtain ⟨parts, hparts⟩ := ih t.length hlen t rfl
        refine ⟨.char c :: parts, ?_⟩
        rw [← ht]
        exact hparts.cons (.char c) fun b hb => (nomatch hb)
      | none =>
        obtain ⟨parts, hparts⟩ := ih s.length (by rw [← hn, List.length_cons]; omega) s rfl
        refine ⟨.stray a :: parts, hparts.cons (.stray a) fun b hb => ?_⟩
        obtain rfl := Part.stray.inj hb
        have hnone : ∀ c, ¬utf8EncodeChar c <+: a :: s := fun c hc => by
          rw [Utf8.decodeFirst_eq_some_iff.mpr hc] at hdec
          exact absurd hdec (by simp)
        refine ⟨?_, hnone⟩
        by_contra hlow
        obtain ⟨-, henc⟩ := Utf8.ascii_encode (b := a) (by omega)
        exact hnone _ ⟨s, by rw [henc]; rfl⟩

/-- A stray byte is part of no character of the message. A character that covered it would start
before it, inside or at the start of another part, and encodings do not overlap. -/
theorem Parts.not_inSequence {s : Bytes} {parts : List Part} (h : Parts s parts)
    {l r : List Part} {b : UInt8} (hparts : parts = l ++ .stray b :: r) :
    ¬InSequence s (l.flatMap Part.bytes).length := by
  rintro ⟨i, c, hij, hji, hpre⟩
  have hs : s = l.flatMap Part.bytes ++ (.stray b :: r).flatMap Part.bytes := by
    rw [← List.flatMap_append, ← hparts, h.whole]
  have hi : i < (parts.flatMap Part.bytes).length := by
    rw [hparts, List.flatMap_append, List.length_append, List.flatMap_cons, List.length_append]
    show i < _ + (1 + _)
    omega
  -- the encoding starts in some part, which is not behind the stray byte
  obtain ⟨p, x, q, hsplit, hlo, hhi⟩ := Utf8.exists_block hi
  have hdrop : s.drop (p.flatMap Part.bytes).length = x.bytes ++ q.flatMap Part.bytes := by
    rw [← h.whole, hsplit, List.flatMap_append, List.drop_left, List.flatMap_cons]
  -- that part comes before the stray byte, or is it
  have horder : (l = p ∧ x = .stray b) ∨ ∃ m, l = p ++ x :: m := by
    rcases List.append_eq_append_iff.mp (hsplit.symm.trans hparts) with ⟨m, hl, hm⟩ | ⟨m, hp, hm⟩
    · cases m with
      | nil => exact .inl ⟨hl.trans (List.append_nil p), (List.cons.inj hm).1⟩
      | cons y m =>
        obtain ⟨rfl, -⟩ := List.cons.inj hm
        exact .inr ⟨m, hl⟩
    · cases m with
      | nil => exact .inl ⟨(hp.trans (List.append_nil l)).symm, (List.cons.inj hm).1.symm⟩
      | cons y m =>
        obtain ⟨rfl, -⟩ := List.cons.inj hm
        rw [hp, List.flatMap_append, List.length_append, List.flatMap_cons, List.length_append]
          at hlo
        change _ + (1 + _) ≤ i at hlo
        omega
  cases x with
  -- it is a stray byte itself, and those start no character
  | stray b' =>
    have hstart : i = (p.flatMap Part.bytes).length := by
      change i < _ + 1 at hhi
      omega
    rw [hstart, hdrop] at hpre
    exact (h.stray p b' q hsplit).2 c hpre
  | char d =>
    have hd : utf8EncodeChar d <+: s.drop (p.flatMap Part.bytes).length := by
      rw [hdrop]
      exact List.prefix_append _ _
    have hsize : (Part.bytes (.char d)).length = d.utf8Size := String.length_utf8EncodeChar d
    rw [hsize] at hhi
    by_cases hstart : i = (p.flatMap Part.bytes).length
    · -- the same character starts there, and the stray byte comes after it
      rw [hstart] at hpre hji
      have hcd : c = d := Utf8.encode_prefix_unique hpre hd
      rcases horder with ⟨-, hx⟩ | ⟨m, hl⟩
      · exact absurd hx (by simp)
      · rw [hl, List.flatMap_append, List.length_append, List.flatMap_cons, List.length_append,
          hsize, hcd] at hji
        omega
    -- it would start inside another character
    · have hinside : utf8EncodeChar c <+: (s.drop (p.flatMap Part.bytes).length).drop
          (i - (p.flatMap Part.bytes).length) := by
        rw [List.drop_drop, Nat.add_sub_cancel' hlo]
        exact hpre
      exact Utf8.not_inside hd (by omega) (by omega) hinside

/-! ### What is written -/

/-- Characters the log takes as they are: tabs, and what is neither below the blank nor DEL. -/
def Shown (c : Char) : Prop := c = '\t' ∨ (0x20 ≤ c.toNat ∧ c.toNat ≠ 0x7F)

instance (c : Char) : Decidable (Shown c) := inferInstanceAs (Decidable (_ ∨ _))

/-- The text of a message's parts. A newline is followed by the indentation unless it ends the
message. -/
def render : List Part → Str
  | [] => []
  | .stray b :: rest => escape b ++ render rest
  | .char c :: rest =>
    if c = '\n' then '\n' :: (if rest = [] then [] else "    ".toList) ++ render rest
    else if Shown c then c :: render rest
    else escape (UInt8.ofNat c.toNat) ++ render rest

/-- What follows the first part is the rest of the text in parts. -/
theorem Parts.tail {x : Part} {s : Bytes} {parts : List Part}
    (h : Parts (x.bytes ++ s) (x :: parts)) :
    Parts s parts := by
  constructor
  · have hwhole := h.whole
    rw [List.flatMap_cons] at hwhole
    exact List.append_cancel_left hwhole
  · intro l b r hparts
    exact h.stray (x :: l) b r (by rw [hparts]; rfl)

/-- No part is empty. -/
theorem Part.bytes_ne_nil (x : Part) : x.bytes ≠ [] := by
  cases x with
  | char c => exact Utf8.encode_ne_nil c
  | stray b => exact List.cons_ne_nil b []

/-- Only the parts of an empty rest are none. -/
theorem Parts.nil_iff {s : Bytes} {parts : List Part} (h : Parts s parts) : s = []
    ↔ parts = [] := by
  cases parts with
  | nil => exact ⟨fun _ => rfl, fun _ => h.whole.symm⟩
  | cons x parts =>
    refine ⟨fun hs => ?_, fun hp => (nomatch hp)⟩
    have hwhole := h.whole
    rw [hs, List.flatMap_cons] at hwhole
    exact absurd (List.append_eq_nil_iff.mp hwhole).1 (Part.bytes_ne_nil x)

/-- A byte of 0x80 or more. -/
theorem sanitize_high {a : UInt8} (h : 0x80 ≤ a.toNat) (s : Bytes) :
    sanitize (a :: s) = if 0 < utf8Len (a :: s) then
        (decode ((a :: s).take (utf8Len (a :: s)))).getD ['?'] ++ sanitize
        ((a :: s).drop (utf8Len (a :: s)))
      else escape a ++ sanitize s := by
  have h1 : ¬a = 0x0A := by
    rintro rfl
    exact absurd h (by decide)
  have h2 : ¬(a = 0x09 ∨ (0x20 ≤ a ∧ a < 0x7F)) := by
    rintro (rfl | hlow)
    · exact absurd h (by decide)
    · have : a.toNat < 0x7F := UInt8.lt_iff_toNat_lt.mp hlow.2
      omega
  have h3 : (0x80 : UInt8) ≤ a := UInt8.le_iff_toNat_le.mpr h
  rw [sanitize, if_neg h1, if_neg h2, if_pos h3]

/-- An ASCII byte: a newline, a character that is shown, or an escape. -/
theorem sanitize_ascii {c : Char} (h : c.toNat < 0x80) (s : Bytes) :
    sanitize (UInt8.ofNat c.toNat :: s) =
      if c = '\n' then '\n' :: (if s = [] then [] else "    ".toList) ++ sanitize s
      else if Shown c then c :: sanitize s
      else escape (UInt8.ofNat c.toNat) ++ sanitize s := by
  have hn : (UInt8.ofNat c.toNat).toNat = c.toNat := by
    rw [UInt8.toNat_ofNat']
    omega
  have hchar : ∀ d : Char, c = d ↔ c.toNat = d.toNat := fun d =>
    ⟨congrArg Char.toNat, fun hd => Char.ext (UInt32.toNat_inj.mp hd)⟩
  have hnl : UInt8.ofNat c.toNat = 0x0A ↔ c = '\n' := by
    rw [hchar, ← UInt8.toNat_inj, hn]
    exact Iff.rfl
  have hshown : UInt8.ofNat c.toNat = 0x09
    ∨ (0x20 ≤ UInt8.ofNat c.toNat ∧ UInt8.ofNat c.toNat < 0x7F) ↔ Shown c := by
    rw [Shown, hchar, ← UInt8.toNat_inj, UInt8.le_iff_toNat_le, UInt8.lt_iff_toNat_lt, hn]
    show c.toNat = 9 ∨ (0x20 ≤ c.toNat ∧ c.toNat < 0x7F) ↔ c.toNat = 9
      ∨ (0x20 ≤ c.toNat ∧ c.toNat ≠ 0x7F)
    omega
  have hhigh : ¬(0x80 : UInt8) ≤ UInt8.ofNat c.toNat := by
    rw [UInt8.le_iff_toNat_le, hn]
    show ¬0x80 ≤ c.toNat
    omega
  rw [sanitize]
  simp only [hnl, hshown, hn, Char.ofNat_toNat, if_neg hhigh]

/-- `sanitize` writes the parts of a message one after the other. -/
theorem sanitize_eq_render {s : Bytes} {parts : List Part} (h : Parts s parts) :
    sanitize s = render parts := by
  induction parts generalizing s with
  | nil =>
    rw [h.nil_iff.mpr rfl, sanitize]
    rfl
  | cons x parts ih =>
    obtain ⟨t, rfl⟩ : ∃ t, s = x.bytes ++ t := ⟨_, h.whole.symm⟩
    have htail := h.tail
    have hrest := ih htail
    cases x with
    | stray b =>
      obtain ⟨hhigh, hnone⟩ := h.stray [] b parts rfl
      have hzero : ¬0 < utf8Len (b :: t) := by
        intro hpos
        obtain ⟨c, -, -, hpre⟩ := utf8Len_pos hpos
        refine hnone c ?_
        rw [List.flatMap_cons, htail.whole]
        exact hpre
      show sanitize (b :: t) = escape b ++ render parts
      rw [sanitize_high hhigh, if_neg hzero, hrest]
    | char c =>
      show sanitize (utf8EncodeChar c ++ t) = _
      by_cases hascii : c.toNat < 0x80
      · rw [Utf8.encode_ascii hascii, List.singleton_append, sanitize_ascii hascii, hrest]
        simp only [htail.nil_iff, render]
      · obtain ⟨b, l, hb, -, hlow, -⟩ := Utf8.encode_lead c
        have hlen := utf8Len_encode (c := c) (by omega) t
        have hdrop : (utf8EncodeChar c ++ t).drop c.utf8Size = t := by
          rw [← String.length_utf8EncodeChar, List.drop_left]
        have htake : (utf8EncodeChar c ++ t).take c.utf8Size = utf8EncodeChar c := by
          rw [← String.length_utf8EncodeChar, List.take_left]
        have hsan := sanitize_high (a := b) (by omega) (l ++ t)
        rw [← List.cons_append, ← hb, hlen, if_pos c.utf8Size_pos, htake, hdrop, Utf8.decode_char,
          hrest] at hsan
        have hnl : c ≠ '\n' := by
          rintro rfl
          exact hascii (by decide)
        have hshown : Shown c := .inr ⟨by omega, by omega⟩
        rw [hsan, render, if_neg hnl, if_pos hshown]
        rfl

/-! ### Lines -/

/-- Every newline but a last one is followed by four spaces. -/
def Indented (s : Str) : Prop := ∀ l r, s = l ++ '\n' :: r → r = [] ∨ "    ".toList <+: r

/-- Text without a newline may stand in front. -/
theorem Indented.append {s t : Str} (ht : Indented t) (hs : '\n' ∉ s) : Indented (s ++ t) := by
  intro l r h
  rcases List.append_eq_append_iff.mp h with ⟨m, hl, hm⟩ | ⟨m, hsm, hm⟩
  · exact ht m r hm
  · cases m with
    | nil => exact ht [] r hm.symm
    | cons x m =>
      obtain ⟨rfl, -⟩ := List.cons.inj hm
      exact absurd (hsm ▸ List.mem_append_right l List.mem_cons_self) hs

/-- A hexadecimal digit is shown as it is. -/
theorem hexDigit_shown : ∀ n < 16, Shown (hexDigit n) ∧ hexDigit n ≠ '\n' := by decide

/-- What stands for a byte is shown as it is. -/
theorem shown_of_mem_escape {b : UInt8} {x : Char} (h : x ∈ escape b) : Shown x ∧ x ≠ '\n' := by
  have hb := b.toNat_lt
  simp only [escape, List.mem_cons, List.not_mem_nil, or_false] at h
  rcases h with rfl | rfl | rfl | rfl
  · decide
  · decide
  · exact hexDigit_shown _ (by omega)
  · exact hexDigit_shown _ (by omega)

/-- Each line of what is rendered but the first is indented, so none can pass for a line of the
log. -/
theorem render_indented (parts : List Part) : Indented (render parts) := by
  induction parts with
  | nil => exact fun l r h =>
      absurd h.symm (List.append_ne_nil_of_right_ne_nil l (List.cons_ne_nil _ r))
  | cons x parts ih =>
    cases x with
    | stray b => exact ih.append fun hmem => (shown_of_mem_escape hmem).2 rfl
    | char c =>
      unfold render
      split
      · by_cases hlast : parts = []
        · rw [hlast, if_pos rfl]
          intro l r h
          have hlen := congrArg List.length h
          simp only [render, List.append_nil, List.length_cons, List.length_nil,
            List.length_append] at hlen
          exact .inl (List.length_eq_zero_iff.mp (by omega))
        · rw [if_neg hlast]
          intro l r h
          cases l with
          | nil =>
            obtain ⟨-, rfl⟩ := List.cons.inj h
            exact .inr (List.prefix_append _ _)
          | cons y l => exact ih.append (by decide) l r (List.cons.inj h).2
      · rename_i hnl
        split
        · exact ih.append (s := [c]) fun hmem => hnl (List.mem_singleton.mp hmem).symm
        · exact ih.append fun hmem => (shown_of_mem_escape hmem).2 rfl

/-- All that is rendered is line ends and characters that are shown. -/
theorem shown_of_mem_render {parts : List Part} {x : Char} (h : x ∈ render parts) : x = '\n'
    ∨ Shown x := by
  induction parts with
  | nil => exact absurd h List.not_mem_nil
  | cons y parts ih =>
    cases y with
    | stray b => exact (List.mem_append.mp h).elim (fun hx => .inr (shown_of_mem_escape hx).1) ih
    | char c =>
      unfold render at h
      split at h
      · rcases List.mem_cons.mp h with hx | h
        · exact .inl hx
        rcases List.mem_append.mp h with hx | h
        · split at hx
          · exact absurd hx List.not_mem_nil
          · refine .inr ?_
            have hblank : x = ' ' := by simpa using hx
            rw [hblank]
            decide
        · exact ih h
      split at h
      · rename_i hshown
        rcases List.mem_cons.mp h with hx | h
        · exact .inr (hx ▸ hshown)
        · exact ih h
      · exact (List.mem_append.mp h).elim (fun hx => .inr (shown_of_mem_escape hx).1) ih

/-- A message is written part by part: its characters in order, and as escapes the bytes that
belong to no character and the controls. Its newlines but a last one are indented, nothing else in
the text is a control but tabs, and the decoder takes whatever the acceptor takes. -/
theorem sanitize_faithful (s : Bytes) :
    (∃ parts, Parts s parts ∧ sanitize s = render parts
      ∧ ∀ l b r, parts = l ++ .stray b :: r → ¬InSequence s (l.flatMap Part.bytes).length)
    ∧ Indented (sanitize s)
    ∧ (∀ x ∈ sanitize s, x = '\n' ∨ Shown x)
    ∧ (∀ t : Bytes, 0 < utf8Len t → ∃ c, decode (t.take (utf8Len t)) = some [c])
    ∧ ∀ (t : Bytes) (c : Char),
        decodeFirst t = some c ∧ 0x80 ≤ c.toNat ↔ 0 < utf8Len t
          ∧ t.take (utf8Len t) = utf8EncodeChar c := by
  obtain ⟨parts, hparts⟩ := exists_parts s
  have hrender := sanitize_eq_render hparts
  refine ⟨⟨parts, hparts, hrender, fun l b r h => hparts.not_inSequence h⟩, ?_, fun x hx => ?_,
    fun t ht => decode_utf8Len ht, utf8Len_decodeFirst⟩
  · rw [hrender]
    exact render_indented parts
  · rw [hrender] at hx
    exact shown_of_mem_render hx

example : render [.char 'a', .char '\n', .stray 0xFF] = "a\n    \\xFF".toList := by decide

end IrcHub.Proofs.Logging
