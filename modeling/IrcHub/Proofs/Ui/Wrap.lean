import IrcHub.Proofs.Ui.Cuts
import IrcHub.Proofs.Ui.Sanitize
import IrcHub.Ui.Wrap
import Mathlib.Algebra.GroupWithZero.Nat

/-!
# `IrcHub.Proofs.Ui.Wrap`: a wrapped line is the line

`rowOf` is the greedy row of a text in characters, and `wrapEnd` on the bytes ends where it does
(`wrapEnd_encode`). The rows of a line are the pieces of its text: none lost, none split, each
within the width or a single character, and each with as many characters as fit.

* `strWidth_encode`: the width of a text is the sum of its cells
* `rowOf_spec`, `rowFrom_greedy`: a row fits, and could not have taken the next character
* `segments_wrapped`: the rows of a line are its text in such rows, and are counted right
* `cut_and_wrap`: this together with the cutters of `IrcHub.Proofs.Ui.Cuts`

A character may take no cell, one or two. One that is wider than the screen gets a row of its own,
which is the only row that does not fit.
-/

set_option autoImplicit false

namespace IrcHub.Proofs

open IrcHub.Console
open Terminal (Bytes encode)
open String (utf8EncodeChar)

/-! ### Cells -/

/-- The first character of a text, by its length and its cells. -/
theorem nextChar_encode (c : Char) (s : Bytes) :
    nextChar (utf8EncodeChar c ++ s) = (c.utf8Size, cpWidth c.toNat) := by
  have hlen : Nat.max (utf8Len (utf8EncodeChar c ++ s)) 1 = c.utf8Size := by
    rw [utf8Len_encode]
    exact Nat.max_eq_left c.utf8Size_pos
  unfold nextChar
  simp only [hlen, utf8Cp_encode]

/-- Cells of a text. -/
def cells (s : Str) : Nat := (s.map fun c => cpWidth c.toNat).sum

/-- Cells of texts one after the other. -/
theorem cells_append (s t : Str) : cells (s ++ t) = cells s + cells t := by
  unfold cells
  rw [List.map_append, List.sum_append]

/-- Cells of a character. -/
theorem cells_singleton (c : Char) : cells [c] = cpWidth c.toNat := rfl

/-- The width of a text is the sum of its cells. The walk is given at least as many steps as there
are bytes. -/
theorem strWidthFrom_encode {n : Nat} {s : Str} (hn : (encode s).length ≤ n) :
    strWidthFrom n (encode s) = cells s := by
  induction s generalizing n with
  | nil => cases n <;> rfl
  | cons c s ih =>
    have hpos := c.utf8Size_pos
    rw [encode_cons, List.length_append, String.length_utf8EncodeChar] at hn
    cases n with
    | zero => omega
    | succ n =>
      obtain ⟨b, l, hcl, -⟩ := Utf8.encode_lead c
      have hstep : strWidthFrom (n + 1) (encode (c :: s))
          = (nextChar (encode (c :: s))).2 + strWidthFrom n
            ((encode (c :: s)).drop (nextChar (encode (c :: s))).1) := by
        rw [encode_cons, hcl]
        rfl
      have hdrop : (encode (c :: s)).drop c.utf8Size = encode s := by
        rw [encode_cons, ← String.length_utf8EncodeChar, List.drop_left]
      have hnext : nextChar (encode (c :: s)) = (c.utf8Size, cpWidth c.toNat) := by
        rw [encode_cons]
        exact nextChar_encode c _
      rw [hstep, hnext]
      show cpWidth c.toNat + strWidthFrom n ((encode (c :: s)).drop c.utf8Size) = _
      rw [hdrop, ih (by omega)]
      rfl

/-- The width the console gives a text. -/
theorem strWidth_encode (s : Str) : strWidth (encode s) = cells s :=
  strWidthFrom_encode (Nat.le_refl _)

/-! ### One row -/

/-- The rest of a row that holds `used` cells: whether it holds a character already decides about
the first one. -/
def rowFrom (width : Int) : Bool → Nat → Str → Str
  | _, _, [] => []
  | started, used, c :: s =>
    if width < used + cpWidth c.toNat ∧ started = true then []
    else c :: rowFrom width true (used + cpWidth c.toNat) s

/-- The first row of a text. -/
def rowOf (width : Int) (s : Str) : Str := rowFrom width false 0 s

/-- A row is a start of the text. -/
theorem rowFrom_isPrefix (width : Int) (started : Bool) (used : Nat) (s : Str) :
    rowFrom width started used s <+: s := by
  induction s generalizing started used with
  | nil => exact List.prefix_refl _
  | cons c s ih =>
    unfold rowFrom
    split
    · exact List.nil_prefix
    · exact List.cons_prefix_cons.mpr ⟨rfl, ih _ _⟩

/-- Once it holds a character, a row takes only what fits. -/
theorem rowFrom_fits {width : Int} {used : Nat} {s : Str} (h : rowFrom width true used s ≠ []) :
    (used : Int) + cells (rowFrom width true used s) ≤ width := by
  induction s generalizing used with
  | nil => exact absurd rfl h
  | cons c s ih =>
    unfold rowFrom at h ⊢
    split
    · rename_i hfull
      rw [if_pos hfull] at h
      exact absurd rfl h
    · rename_i hroom
      have hcell : (used : Int) + cpWidth c.toNat ≤ width := by
        by_contra hover
        exact hroom ⟨by omega, rfl⟩
      have hcons : cells (c :: rowFrom width true (used + cpWidth c.toNat) s)
          = cpWidth c.toNat + cells (rowFrom width true (used + cpWidth c.toNat) s) := rfl
      rw [hcons]
      by_cases hlast : rowFrom width true (used + cpWidth c.toNat) s = []
      · rw [hlast]
        show (used : Int) + ((cpWidth c.toNat + 0 : Nat) : Int) ≤ width
        omega
      · have := ih hlast
        push_cast at this ⊢
        omega

/-- The character after a row would not have fitted. -/
theorem rowFrom_greedy {width : Int} {started : Bool} {used : Nat} {s t : Str} {c : Char}
    (h : s = rowFrom width started used s ++ c :: t) :
    width < used + cells (rowFrom width started used s) + cpWidth c.toNat := by
  induction s generalizing started used with
  | nil => exact absurd h.symm (List.append_ne_nil_of_right_ne_nil _ (List.cons_ne_nil c t))
  | cons d s ih =>
    unfold rowFrom at h ⊢
    split at h
    · rename_i hfull
      rw [if_pos hfull]
      rw [List.nil_append] at h
      rw [← (List.cons.inj h).1]
      show width < (used : Int) + (0 : Nat) + cpWidth d.toNat
      omega
    · rename_i hroom
      rw [if_neg hroom]
      have hrest := ih (List.cons.inj h).2
      have hcons : cells (d :: rowFrom width true (used + cpWidth d.toNat) s)
          = cpWidth d.toNat + cells (rowFrom width true (used + cpWidth d.toNat) s) := rfl
      rw [hcons]
      push_cast at hrest ⊢
      omega

/-- A row of a text is a prefix of it that holds a character, stays within the width unless it is
one character, and could not have taken the next one. -/
theorem rowOf_spec (width : Int) (c : Char) (s : Str) :
    rowOf width (c :: s) <+: c :: s ∧ rowOf width (c :: s) ≠ []
      ∧ ((cells (rowOf width (c :: s)) : Int) ≤ width ∨ (rowOf width (c :: s)).length = 1) := by
  have hcons : rowOf width (c :: s) = c :: rowFrom width true (0 + cpWidth c.toNat) s :=
    if_neg fun h => (nomatch h.2)
  refine ⟨rowFrom_isPrefix _ _ _ _, by rw [hcons]; exact List.cons_ne_nil _ _, ?_⟩
  rw [hcons]
  by_cases hlast : rowFrom width true (0 + cpWidth c.toNat) s = []
  · rw [hlast]
    exact .inr rfl
  · refine .inl ?_
    have hfits := rowFrom_fits hlast
    have hsum : cells (c :: rowFrom width true (0 + cpWidth c.toNat) s)
        = cpWidth c.toNat + cells (rowFrom width true (0 + cpWidth c.toNat) s) := rfl
    rw [hsum]
    push_cast at hfits ⊢
    omega

/-- The loop over bytes ends where the row of characters does. By induction on the characters,
with the bytes before them. -/
theorem wrapEndFrom_encode (width : Int) (start : Nat) (pre : Bytes) (used : Nat) (s : Str)
    (hstart : start ≤ pre.length) :
    wrapEndFrom (pre ++ encode s) start width used pre.length
      = pre.length + (encode (rowFrom width (decide (start < pre.length)) used s)).length := by
  induction s generalizing pre used with
  | nil =>
    unfold wrapEndFrom
    rw [dif_neg (by rw [encode_nil, List.append_nil]; omega)]
    rfl
  | cons c s ih =>
    have hpos := c.utf8Size_pos
    have hlen : (utf8EncodeChar c).length = c.utf8Size := String.length_utf8EncodeChar c
    have hdrop : (pre ++ encode (c :: s)).drop pre.length = utf8EncodeChar c ++ encode s := by
      rw [List.drop_left, encode_cons]
    unfold wrapEndFrom rowFrom
    rw [dif_pos (by rw [encode_cons, List.length_append, List.length_append, hlen]; omega)]
    simp only [hdrop, nextChar_encode, decide_eq_true_eq]
    split
    · rfl
    · have hmove : pre ++ encode (c :: s) = (pre ++ utf8EncodeChar c) ++ encode s := by
        rw [encode_cons, List.append_assoc]
      have hnext := ih (pre ++ utf8EncodeChar c) (used + cpWidth c.toNat)
        (by rw [List.length_append]; omega)
      have hlt : decide (start < (pre ++ utf8EncodeChar c).length) = true := by
        rw [decide_eq_true_eq, List.length_append, hlen]
        omega
      rw [hlt, List.length_append, hlen] at hnext
      rw [hmove, show ((used : Int) + (cpWidth c.toNat : Int))
        = ((used + cpWidth c.toNat : Nat) : Int) from rfl, hnext, encode_cons,
        List.length_append, hlen]
      omega

/-- A row ends where the specification says, wherever in the text it starts. -/
theorem wrapEnd_encode (width : Int) (pre : Bytes) (s : Str) :
    wrapEnd (pre ++ encode s) pre.length width
      = pre.length + (encode (rowOf width s)).length := by
  have h := wrapEndFrom_encode width pre.length pre 0 s (Nat.le_refl _)
  rw [decide_eq_false (Nat.lt_irrefl _)] at h
  exact h

/-! ### The rows of a line -/

/-- The rows of a line: its text in order, in pieces that fit and that the next character would
have overfilled. -/
structure Wrapped (width : Int) (s : Str) (rows : List Str) : Prop where
  whole : rows.flatten = s
  fits : ∀ p ∈ rows, (strWidth (encode p) : Int) ≤ width ∨ p.length = 1
  greedy : ∀ l p q r, rows = l ++ p :: q :: r → ∃ c t, q = c :: t
    ∧ width < strWidth (encode (p ++ [c]))

/-- One more row in front, after which the text goes on with a character. -/
theorem Wrapped.cons {width : Int} {p s : Str} {c : Char} {rows : List Str}
    (h : Wrapped width (c :: s) rows) (hne : ∀ q ∈ rows, q ≠ [])
    (hfits : (cells p : Int) ≤ width ∨ p.length = 1) (hfull : width < cells p + cpWidth c.toNat) :
    Wrapped width (p ++ c :: s) (p :: rows) := by
  constructor
  · rw [List.flatten_cons, h.whole]
  · intro q hq
    rcases List.mem_cons.mp hq with rfl | hq
    · rw [strWidth_encode]
      exact hfits
    · exact h.fits q hq
  · intro l p' q r hrows
    cases l with
    | nil =>
      obtain ⟨rfl, htail⟩ := List.cons.inj hrows
      obtain ⟨d, t, rfl⟩ := List.exists_cons_of_ne_nil (hne q (htail ▸ List.mem_cons_self))
      have hhead : d = c := by
        have hwhole := h.whole
        rw [htail] at hwhole
        exact (List.cons.inj hwhole).1
      refine ⟨d, t, rfl, ?_⟩
      rw [strWidth_encode, cells_append, cells_singleton, hhead]
      push_cast
      exact hfull
    | cons x l => exact h.greedy l p' q r (List.cons.inj hrows).2

/-- The rows from a byte on at which a character starts. -/
theorem segmentsFrom_wrapped (width : Int) (pre : Bytes) (c : Char) (s : Str) :
    ∃ rows, segmentsFrom (pre ++ encode (c :: s)) width pre.length = rows.map encode
      ∧ Wrapped width (c :: s) rows
      ∧ (∀ p ∈ rows, p ≠ []) ∧ wrapRowsFrom (pre ++ encode (c :: s)) width pre.length
        = rows.length := by
  induction hn : s.length using Nat.strong_induction_on generalizing pre c s with
  | _ n ih =>
    -- the first row is a first part of the text, at a character's end
    obtain ⟨⟨rest, hrest⟩, hne, hfits⟩ := rowOf_spec width c s
    have hend := wrapEnd_encode width pre (c :: s)
    have hstart : pre.length < (pre ++ encode (c :: s)).length := by
      have hpos := c.utf8Size_pos
      rw [encode_cons, List.length_append, List.length_append, String.length_utf8EncodeChar]
      omega
    have hrow : ((pre ++ encode (c :: s)).drop pre.length).take
        (wrapEnd (pre ++ encode (c :: s)) pre.length width - pre.length) = encode
        (rowOf width (c :: s)) := by
      rw [List.drop_left, hend, Nat.add_sub_cancel_left]
      exact take_encode ⟨rest, hrest⟩
    have hsplit : pre ++ encode (c :: s) = (pre ++ encode (rowOf width (c :: s)))
      ++ encode rest := by
      conv_lhs => rw [← hrest]
      rw [encode_append, List.append_assoc]
    have hlen : pre.length + (encode (rowOf width (c :: s))).length
      = (pre ++ encode (rowOf width (c :: s))).length :=
      List.length_append.symm
    -- one step of the loop puts out this row
    unfold segmentsFrom wrapRowsFrom
    rw [dif_pos hstart, hrow, hend]
    cases rest with
    | nil =>
      -- the row is the last one
      have hall : (pre ++ encode (c :: s)).length
        = pre.length + (encode (rowOf width (c :: s))).length := by
        rw [hsplit, encode_nil, List.append_nil, List.length_append]
      rw [dif_neg (by omega)]
      refine ⟨[rowOf width (c :: s)], rfl, ⟨?_, fun p hp => ?_, fun l p q r hrows => ?_⟩,
        fun p hp => ?_, ?_⟩
      · rw [List.append_nil] at hrest
        rw [List.flatten_singleton, hrest]
      · rw [List.mem_singleton.mp hp, strWidth_encode]
        exact hfits
      · have hcount := congrArg List.length hrows
        simp only [List.length_append, List.length_cons, List.length_nil] at hcount
        omega
      · rw [List.mem_singleton.mp hp]
        exact hne
      · unfold wrapRowsFrom
        rw [dif_neg (by omega)]
        rfl
    -- more rows follow: the induction takes the rest of the text, which is shorter
    | cons d rest =>
      have hless : rest.length < n := by
        have hcount := congrArg List.length hrest
        have hpos := List.length_pos_of_ne_nil hne
        simp only [List.length_append, List.length_cons] at hcount
        omega
      obtain ⟨rows, hrows, hwrapped, hnonempty, hcount⟩ :=
        ih rest.length hless (pre ++ encode (rowOf width (c :: s))) d rest rfl
      have hmore : pre.length + (encode (rowOf width (c :: s))).length
        < (pre ++ encode (c :: s)).length := by
        have hpos := d.utf8Size_pos
        rw [hsplit, List.length_append, List.length_append, encode_cons, List.length_append,
          String.length_utf8EncodeChar]
        omega
      rw [dif_pos ⟨hstart, hmore⟩, hlen, hsplit, hrows, hcount]
      refine ⟨rowOf width (c :: s) :: rows, rfl, ?_, fun p hp => ?_, ?_⟩
      -- a further character would not have fit on the first row
      · have hfull : width < cells (rowOf width (c :: s)) + cpWidth d.toNat := by
          have := @rowFrom_greedy width false 0 (c :: s) rest d hrest.symm
          unfold rowOf
          omega
        conv_lhs => rw [← hrest]
        exact hwrapped.cons hnonempty hfits hfull
      · rcases List.mem_cons.mp hp with rfl | hp
        · exact hne
        · exact hnonempty p hp
      · rw [List.length_cons, Nat.add_comm]

/-- Every line is wrapped whole, on a screen of any width. -/
theorem segments_wrapped (s : Str) (width : Int) (hwidth : 1 ≤ width) :
    ∃ rows, segments (encode s) width = rows.map encode ∧ Wrapped width s rows
      ∧ wrapRows (encode s) width = rows.length := by
  cases s with
  | nil =>
    refine ⟨[[]], ?_, ⟨rfl, fun p hp => .inl ?_, fun l p q r hrows => ?_⟩, ?_⟩
    · unfold segments segmentsFrom
      rw [dif_neg fun h => absurd h.1 (Nat.lt_irrefl 0), encode_nil, List.drop_nil, List.take_nil]
      rfl
    · rw [List.mem_singleton.mp hp, strWidth_encode]
      show (0 : Int) ≤ width
      omega
    · have hcount := congrArg List.length hrows
      simp only [List.length_append, List.length_cons, List.length_nil] at hcount
      omega
    · rfl
  | cons c s =>
    obtain ⟨rows, hrows, hwrapped, -, hcount⟩ := segmentsFrom_wrapped width [] c s
    refine ⟨rows, hrows, hwrapped, ?_⟩
    have hne : (encode (c :: s)).isEmpty = false := by
      rw [List.isEmpty_eq_false_iff, encode_cons]
      exact List.append_ne_nil_of_left_ne_nil (Utf8.encode_ne_nil c) _
    unfold wrapRows
    rw [hne, if_neg]
    · exact hcount
    · rw [Bool.false_or, decide_eq_true_eq]
      omega

/-- Cutting and wrapping lose and split nothing: at every limit the three cutters leave the
longest prefix of whole characters, and on every width the rows of a line are its whole text, each
as full as it can be. -/
theorem cut_and_wrap (s : Str) :
    (∀ cap, ∃ p, LongestPrefix s (cap - 1) p ∧ cCut (encode s) cap = encode p
    ∧ cutField (encode s) cap = encode p
      ∧ uprec (encode s) (cap - 1) = (encode p).length
      ∧ (encode s).take (uprec (encode s) (cap - 1)) = encode p)
    ∧ ∀ width : Int, 1 ≤ width → ∃ rows, segments (encode s) width = rows.map encode
    ∧ Wrapped width s rows
      ∧ wrapRows (encode s) width = rows.length :=
  ⟨cuts_agree s, segments_wrapped s⟩

/-- Two wide characters on a screen of two cells: a row each. -/
theorem cut_and_wrap_wide : (1 : Int) ≤ 2
    ∧ segments (encode "日本".toList) 2 = ["日".toList, "本".toList].map encode
    ∧ Wrapped 2 "日本".toList ["日".toList, "本".toList]
    ∧ wrapRows (encode "日本".toList) 2 = 2 := by
  obtain ⟨rows, hcut, hwrapped, hrows⟩ := (cut_and_wrap "日本".toList).2 2 (by decide)
  have htwo : segments (encode "日本".toList) 2 = ["日".toList, "本".toList].map encode := by
    decide +kernel
  have hwhich : rows = ["日".toList, "本".toList] :=
    List.map_injective_iff.mpr (fun _ _ => encode_inj) (hcut.symm.trans htwo)
  subst hwhich
  exact ⟨by decide, htwo, hwrapped, hrows⟩

end IrcHub.Proofs
