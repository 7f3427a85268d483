import Mathlib.Data.String.Basic

/-!
# `IrcHub.Lib.Str`: text with byte lengths, cuts and ASCII case

A string slice is a list of characters. Its length is the byte length of its UTF-8 encoding
(`String.utf8Len`), a bounded copy keeps the longest prefix of whole characters that fits
(`trunc`), and case folding touches ASCII letters only (`lower`). The order on `Str` is the
lexicographic order of code points, which is the byte order of the encodings.

Lists of characters and not `String`, since every proof about such text is an induction on it. The
byte length is Lean's own, so a bound on it is a bound on the encoding.

Records are fields joined by a separator, so the module also has the ways to cut one:

* `splitOnce` and `rsplitOnce`: at the first and at the last separator
* `cut`: in front of a given one
* `splitOnce_eq_some_iff`, `rsplitOnce_eq_some_iff`, `cut_eq_iff`: what each of them finds. Later
  proofs use these instead of the recursion
* `le_utf8Len_takeBytes`, `utf8Len_takeBytes_le`: a cut copy is at most as long as the buffer, and
  at most three bytes shorter, since a character that does not fit whole is left out
* `eqIc_iff`, `utf8Len_lower`, `count_lower`: folding keeps lengths and every character that is no
  letter

`ofInt` is the decimal text of an integer and `byteAt` the character that starts at a byte.
-/

set_option autoImplicit false

open String (utf8Len)

/-- Text, as the list of its characters. -/
abbrev Str := List Char

namespace Str

/-! ### Bounded copies -/

/-- The longest prefix of whole characters with at most `n` bytes. -/
def takeBytes : Nat → Str → Str
  | _, [] => []
  | n, c :: s => if c.utf8Size ≤ n then c :: takeBytes (n - c.utf8Size) s else []

/-- What a bounded copy into a buffer of `cap` bytes leaves: one byte is the terminator. -/
def trunc (s : Str) (cap : Nat) : Str := takeBytes (cap - 1) s

/-- What is kept of a text takes no more bytes than there is room for. -/
theorem utf8Len_takeBytes_le (n : Nat) (s : Str) : utf8Len (takeBytes n s) ≤ n := by
  induction s generalizing n with
  | nil => simp [takeBytes]
  | cons c s ih =>
    unfold takeBytes
    split
    · have := ih (n - c.utf8Size)
      simp only [String.utf8Len_cons]
      omega
    · simp

/-- A string that fits is taken whole. -/
theorem takeBytes_of_le {n : Nat} {s : Str} (h : utf8Len s ≤ n) : takeBytes n s = s := by
  induction s generalizing n with
  | nil => simp [takeBytes]
  | cons c s ih =>
    simp only [String.utf8Len_cons] at h
    rw [takeBytes, if_pos (by omega), ih (by omega)]

/-- A first part that fits is taken whole, and what is left of the bytes goes to the second. -/
theorem takeBytes_append_of_le {n : Nat} {s t : Str} (h : utf8Len s ≤ n) :
    takeBytes n (s ++ t) = s ++ takeBytes (n - utf8Len s) t := by
  induction s generalizing n with
  | nil => simp
  | cons c s ih =>
    simp only [String.utf8Len_cons] at h ⊢
    rw [List.cons_append, takeBytes, if_pos (by omega), ih (by omega), List.cons_append,
      Nat.sub_sub, Nat.add_comm]

/-- A first part that does not fit leaves nothing for the second. -/
theorem takeBytes_append_of_lt {n : Nat} {s t : Str} (h : n < utf8Len s) :
    takeBytes n (s ++ t) = takeBytes n s := by
  induction s generalizing n with
  | nil => simp at h
  | cons c s ih =>
    simp only [String.utf8Len_cons] at h
    rw [List.cons_append, takeBytes, takeBytes]
    split
    · rw [ih (by omega)]
    · rfl

/-- What is taken is a start of the string: a cut adds nothing and reorders nothing. -/
theorem takeBytes_isPrefix (n : Nat) (s : Str) : takeBytes n s <+: s := by
  induction s generalizing n with
  | nil => simp [takeBytes]
  | cons c s ih =>
    unfold takeBytes
    split
    · simpa using ih (n - c.utf8Size)
    · simp

/-- A cut text falls short of its bound by less than one character. -/
theorem le_utf8Len_takeBytes {n : Nat} {s : Str} (h : n ≤ utf8Len s) :
    n ≤ utf8Len (takeBytes n s) + 3 := by
  induction s generalizing n with
  | nil => simp at h; omega
  | cons c s ih =>
    have hc := c.utf8Size_le_four
    simp only [String.utf8Len_cons] at h
    unfold takeBytes
    split
    · have := ih (n := n - c.utf8Size) (by omega)
      simp only [String.utf8Len_cons]
      omega
    · simp
      omega

/-- Text of ASCII characters takes a byte for each. -/
theorem utf8Len_eq_length {s : Str} (h : ∀ c ∈ s, c.toNat < 128) : utf8Len s = s.length := by
  induction s with
  | nil => rfl
  | cons c s ih =>
    have hc : c.utf8Size = 1 := Char.utf8Size_eq_one_iff.mpr
      (UInt32.le_iff_toNat_le.mpr (Nat.le_of_lt_succ (h c List.mem_cons_self)))
    rw [String.utf8Len_cons, hc, ih fun d hd => h d (List.mem_cons_of_mem _ hd), List.length_cons]

/-- A field of `cap` bytes holds fewer than `cap`, the last one being for the end mark. Without
room for the mark there is nothing to say, so `cap` is positive. -/
theorem utf8Len_trunc_lt (s : Str) {cap : Nat} (h : 0 < cap) : utf8Len (trunc s cap) < cap := by
  have := utf8Len_takeBytes_le (cap - 1) s
  simp only [trunc]
  omega

/-- A text that fits with a byte to spare is copied whole. The byte is the end mark of the
buffer. -/
theorem trunc_of_lt {s : Str} {cap : Nat} (h : utf8Len s < cap) : trunc s cap = s :=
  takeBytes_of_le (by omega)

/-- A field holds a start of what was written to it. -/
theorem trunc_isPrefix (s : Str) (cap : Nat) : trunc s cap <+: s := takeBytes_isPrefix _ s

/-- A cut brings in no character: what forbids one in the string forbids it in the field. -/
theorem mem_of_mem_trunc {s : Str} {cap : Nat} {c : Char} (h : c ∈ trunc s cap) : c ∈ s :=
  (trunc_isPrefix s cap).subset h

/-! ### ASCII case -/

/-- The text with its ASCII capital letters in lower case. -/
def lower (s : Str) : Str := s.map Char.toLower

/-- Equality up to the case of ASCII letters. -/
def eqIc (s t : Str) : Bool := lower s == lower t

/-- Nothing is in lower case already. -/
@[simp] theorem lower_nil : lower [] = [] := rfl

/-- Lower case goes character by character. -/
@[simp] theorem lower_cons (c : Char) (s : Str) : lower (c :: s) = c.toLower :: lower s := rfl

/-- Lower case goes part by part. -/
@[simp] theorem lower_append (s t : Str) : lower (s ++ t) = lower s ++ lower t := by
  simp [lower]

/-- Two strings are the same without regard to case when their lower case is the same. Every law
of `eqIc` follows from those of equality through this. -/
theorem eqIc_iff {s t : Str} : eqIc s t = true ↔ lower s = lower t := by
  simp [eqIc]

/-- A capital letter moves up by 32 code points. -/
private theorem toNat_toLower_of_upper {c : Char} (h : c.val ≥ 'A'.val ∧ c.val ≤ 'Z'.val) :
    c.toLower.toNat = c.toNat + 32 := by
  have hhi : c.val.toNat ≤ 90 := h.2
  have hd : ('a'.val - 'A'.val).toNat = 32 := rfl
  have hval : c.toLower.val = c.val + ('a'.val - 'A'.val) := congrArg Char.val (dif_pos h)
  show c.toLower.val.toNat = c.val.toNat + 32
  rw [hval, UInt32.toNat_add, hd]
  omega

/-- A folded letter has the size of the letter. -/
private theorem utf8Size_toLower (c : Char) : c.toLower.utf8Size = c.utf8Size := by
  by_cases h : c.val ≥ 'A'.val ∧ c.val ≤ 'Z'.val
  · have hhi : c.toNat ≤ 90 := h.2
    have hn := toNat_toLower_of_upper h
    have h1 : c.toLower.utf8Size = 1 := Char.utf8Size_eq_one_iff.mpr
      (UInt32.le_iff_toNat_le.mpr (by show c.toLower.toNat ≤ 127; omega))
    have h2 : c.utf8Size = 1 := Char.utf8Size_eq_one_iff.mpr
      (UInt32.le_iff_toNat_le.mpr (by show c.toNat ≤ 127; omega))
    rw [h1, h2]
  · rw [show c.toLower = c from dif_neg h]

/-- Lower case takes the same room: only ASCII letters change, each for another of one byte. -/
@[simp] theorem utf8Len_lower (s : Str) : utf8Len (lower s) = utf8Len s := by
  induction s with
  | nil => rfl
  | cons c s ih => simp [ih, utf8Size_toLower]

/-- Folding reaches a character outside the letters from that character only. -/
theorem toLower_eq_iff {c d : Char} (hlow : ¬ (97 ≤ d.toNat ∧ d.toNat ≤ 122))
    (hup : ¬ (65 ≤ d.toNat ∧ d.toNat ≤ 90)) : c.toLower = d ↔ c = d := by
  by_cases h : c.val ≥ 'A'.val ∧ c.val ≤ 'Z'.val
  · have hhi : c.toNat ≤ 90 := h.2
    have hlo : 65 ≤ c.toNat := h.1
    have hn := toNat_toLower_of_upper h
    constructor
    · rintro rfl
      omega
    · rintro rfl
      exact absurd ⟨hlo, hhi⟩ hup
  · rw [show c.toLower = c from dif_neg h]

/-- The star is the only name that folds to it: no other spelling of a name is the name of all
channels. -/
theorem eqIc_star {c : Str} (h : eqIc c ['*'] = true) : c = ['*'] := by
  have hlow := eqIc_iff.mp h
  cases c with
  | nil => cases hlow
  | cons a c =>
    rw [lower_cons, lower_cons, lower_nil, List.cons.injEq] at hlow
    have hstar : Char.toLower '*' = '*' := by decide
    rw [hstar, toLower_eq_iff (by decide) (by decide)] at hlow
    cases c with
    | nil => rw [hlow.1]
    | cons b c => cases hlow.2

/-- Folding neither adds nor removes occurrences of a character outside the letters. -/
theorem count_lower {d : Char} (hlow : ¬ (97 ≤ d.toNat ∧ d.toNat ≤ 122))
    (hup : ¬ (65 ≤ d.toNat ∧ d.toNat ≤ 90)) (s : Str) : (lower s).count d = s.count d := by
  induction s with
  | nil => rfl
  | cons c s ih =>
    simp only [lower_cons, List.count_cons, ih, beq_iff_eq, toLower_eq_iff hlow hup]

/-! ### Cutting at a separator -/

/-- The parts around the first `c`, `none` when there is none. -/
def splitOnce (c : Char) : Str → Option (Str × Str)
  | [] => none
  | a :: s => if a = c then some ([], s) else (splitOnce c s).map fun p => (a :: p.1, p.2)

/-- The parts around the last `c`, `none` when there is none. -/
def rsplitOnce (c : Char) : Str → Option (Str × Str)
  | [] => none
  | a :: s =>
    match rsplitOnce c s with
    | some p => some (a :: p.1, p.2)
    | none => if a = c then some ([], s) else none

/-- A string does not split at a character it does not have, and only then. -/
theorem splitOnce_eq_none_iff {c : Char} {s : Str} : splitOnce c s = none ↔ c ∉ s := by
  induction s with
  | nil => simp [splitOnce]
  | cons a s ih =>
    unfold splitOnce
    by_cases ha : a = c
    · simp [ha]
    · simp [ha, ih, Ne.symm ha]

/-- The split at the last character is there exactly when the one at the first is. -/
theorem rsplitOnce_eq_none_iff {c : Char} {s : Str} : rsplitOnce c s = none ↔ c ∉ s := by
  induction s with
  | nil => simp [rsplitOnce]
  | cons a s ih =>
    unfold rsplitOnce
    split
    · rename_i p hp
      have : ¬ (c ∉ s) := by rw [← ih, hp]; simp
      simp [not_not.mp this]
    · rename_i hn
      have hs := ih.mp hn
      by_cases ha : a = c
      · simp [ha]
      · simp [ha, hs, Ne.symm ha]

/-- The first cut is the one whose left part has no separator. The two parts with the separator
between them are the text, so a field that is read is part of what was sent. -/
theorem splitOnce_eq_some_iff {c : Char} {s a b : Str} :
    splitOnce c s = some (a, b) ↔ s = a ++ c :: b ∧ c ∉ a := by
  induction s generalizing a with
  | nil => simp [splitOnce]
  | cons x s ih =>
    unfold splitOnce
    by_cases hx : x = c
    · subst hx
      rw [if_pos rfl]
      constructor
      · intro h
        cases h
        simp
      · rintro ⟨h, ha⟩
        cases a with
        | nil => simpa using h
        | cons y a => simp_all
    · rw [if_neg hx, Option.map_eq_some_iff]
      constructor
      · rintro ⟨⟨a', b'⟩, h, heq⟩
        cases heq
        obtain ⟨rfl, hb⟩ := ih.mp h
        simp [hb, Ne.symm hx]
      · rintro ⟨h, ha⟩
        cases a with
        | nil => simp_all
        | cons y a =>
          simp only [List.cons_append, List.cons.injEq] at h
          simp only [List.mem_cons, not_or] at ha
          exact ⟨(a, b), ih.mpr ⟨h.2, ha.2⟩, by rw [h.1]⟩

/-- The last cut is the one whose right part has no separator. It reads a last field off a text
whose earlier fields may have the separator in them. -/
theorem rsplitOnce_eq_some_iff {c : Char} {s a b : Str} :
    rsplitOnce c s = some (a, b) ↔ s = a ++ c :: b ∧ c ∉ b := by
  induction s generalizing a b with
  | nil => simp [rsplitOnce]
  | cons x s ih =>
    unfold rsplitOnce
    split
    · rename_i p hp
      obtain ⟨a', b'⟩ := p
      obtain ⟨rfl, hb'⟩ := ih.mp hp
      constructor
      · intro h
        cases h
        simp [hb']
      · rintro ⟨h, hb⟩
        cases a with
        | nil =>
          simp only [List.nil_append, List.cons.injEq] at h
          exact absurd (by rw [← h.2]; simp) hb
        | cons y a =>
          simp only [List.cons_append, List.cons.injEq] at h
          have := ih.mpr ⟨h.2, hb⟩
          rw [hp] at this
          cases this
          rw [h.1]
    · rename_i hn
      have hs : c ∉ s := rsplitOnce_eq_none_iff.mp hn
      constructor
      · intro h
        split at h
        · cases h
          simp_all
        · cases h
      · rintro ⟨h, hb⟩
        cases a with
        | nil => simp_all
        | cons y a => simp_all

/-- The text in front of the `n`-th `c` (counted from 0), and the rest from that `c` on.
With fewer than `n + 1` of them the left part is the whole text. -/
def cut (c : Char) : Nat → Str → Str × Str
  | _, [] => ([], [])
  | n, a :: s =>
    if a = c then
      match n with
      | 0 => ([], a :: s)
      | n + 1 => (a :: (cut c n s).1, (cut c n s).2)
    else (a :: (cut c n s).1, (cut c n s).2)

/-- `u`, `r` is a cut in front of the `n`-th `c`: either `u` holds exactly `n` of them and
`r` starts with the next, or there is no next and `r` is empty. -/
def IsCut (c : Char) (n : Nat) (u r : Str) : Prop :=
  (u.count c = n ∧ ∃ r', r = c :: r') ∨ (u.count c ≤ n ∧ r = [])

/-- Both parts of a cut together are the string, whatever the count. -/
@[simp] theorem cut_append (c : Char) (n : Nat) (s : Str) :
    (cut c n s).1 ++ (cut c n s).2 = s := by
  induction s generalizing n with
  | nil => rfl
  | cons a s ih =>
    unfold cut
    by_cases ha : a = c
    · rw [if_pos ha]
      cases n with
      | zero => rfl
      | succ n => simp [ih]
    · rw [if_neg ha]
      simp [ih]

/-- The parts that `cut` gives are a cut in the sense of the specification, for every text and
every number, also where the text has too few separators: the cut is then at its end. -/
theorem isCut_cut (c : Char) (n : Nat) (s : Str) : IsCut c n (cut c n s).1 (cut c n s).2 := by
  induction s generalizing n with
  | nil => exact .inr ⟨Nat.zero_le _, rfl⟩
  | cons a s ih =>
    unfold cut
    by_cases ha : a = c
    · rw [if_pos ha]
      cases n with
      | zero => exact .inl ⟨rfl, s, by rw [ha]⟩
      | succ n =>
        rcases ih n with ⟨hn, hr⟩ | ⟨hn, hr⟩
        · exact .inl ⟨by simp [ha, hn], hr⟩
        · exact .inr ⟨by simp [ha, hn], hr⟩
    · rw [if_neg ha]
      rcases ih n with ⟨hn, hr⟩ | ⟨hn, hr⟩
      · exact .inl ⟨by simp [ha, hn], hr⟩
      · exact .inr ⟨by simp [ha, hn], hr⟩

/-- A cut in front of the `n`-th separator is the one `cut` finds. So there is one only. -/
theorem cut_append_of_isCut {c : Char} {n : Nat} {u r : Str} (h : IsCut c n u r) :
    cut c n (u ++ r) = (u, r) := by
  induction u generalizing n with
  | nil =>
    rcases h with ⟨hn, r', rfl⟩ | ⟨-, rfl⟩
    · cases hn
      simp [cut]
    · rfl
  | cons a u ih =>
    by_cases ha : a = c
    · subst ha
      cases n with
      | zero => simp [IsCut] at h
      | succ n =>
        have hu : IsCut a n u r := by simpa [IsCut] using h
        simp [cut, ih hu]
    · have hu : IsCut c n u r := by simpa [IsCut, List.count_cons, ha] using h
      simp [cut, ha, ih hu]

/-- `cut` gives exactly the parts that the specification names. With `isCut_cut` and
`cut_append_of_isCut` the specification determines the cut. -/
theorem cut_eq_iff {c : Char} {n : Nat} {s u r : Str} :
    cut c n s = (u, r) ↔ s = u ++ r ∧ IsCut c n u r := by
  constructor
  · intro h
    have happ := cut_append c n s
    have hcut := isCut_cut c n s
    rw [h] at happ hcut
    exact ⟨happ.symm, hcut⟩
  · rintro ⟨rfl, h⟩
    exact cut_append_of_isCut h

/-- The character that starts at byte `i`. -/
def byteAt : Str → Nat → Option Char
  | [], _ => none
  | c :: s, i =>
      if i = 0 then some c else if c.utf8Size ≤ i then byteAt s (i - c.utf8Size) else none

/-! ### Numbers -/

/-- Decimal text of an integer. -/
def ofInt : Int → Str
  | .ofNat n => Nat.toDigits 10 n
  | .negSucc n => '-' :: Nat.toDigits 10 (n + 1)

/-! ### The order -/

/-- A common beginning does not decide the order. -/
theorem append_lt_append_iff (p s t : Str) : p ++ s < p ++ t ↔ s < t := by
  induction p with
  | nil => rfl
  | cons a p ih => simp [ih]

end Str
