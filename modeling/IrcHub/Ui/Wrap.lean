import IrcHub.Ui.Text

/-!
# `IrcHub.Ui.Wrap`: lines wrapped to the width of the screen

Lines wrapped to the width of the screen. A line is cut hard, after the last character that still
fits. A row takes one character at least, also one that is wider than the screen, so the loop over
the rows of a line comes to its end.

- `wrapEnd`: where the row that starts at a byte ends
- `wrapRows`: how many rows a line takes
- `segments`: the rows themselves. An empty line takes an empty row

Rows are counted in one place of the source and cut in another, and both ask `wrapEnd`. Any width
is allowed here, zero as well.
-/

set_option autoImplicit false

namespace IrcHub.Console

open Terminal (Bytes)

/-- A step over the text takes at least one byte, also where the byte starts no character. -/
theorem nextChar_pos (s : Bytes) : 0 < (nextChar s).1 := Nat.le_max_right _ _

/-- `wrapEnd` from a byte on, with the cells taken so far. -/
def wrapEndFrom (s : Bytes) (start : Nat) (width : Int) (w : Int) (i : Nat) : Nat :=
  if _h : i < s.length then
    let next := nextChar (s.drop i)
    if width < w + next.2 ∧ start < i then i else wrapEndFrom s start width (w + next.2)
      (i + next.1)
  else i
termination_by s.length - i
decreasing_by
  have := nextChar_pos (s.drop i)
  omega

/-- Where the row that starts at a byte ends. -/
def wrapEnd (s : Bytes) (start : Nat) (width : Int) : Nat := wrapEndFrom s start width 0 start

/-- The loop never goes back. -/
theorem le_wrapEndFrom (s : Bytes) (start : Nat) (width w : Int) (i : Nat) :
    i ≤ wrapEndFrom s start width w i := by
  fun_induction wrapEndFrom s start width w i with
  | case1 => exact Nat.le_refl _
  | case2 => omega
  | case3 => exact Nat.le_refl _

/-- A row takes one character at least. -/
theorem lt_wrapEnd {s : Bytes} {start : Nat} (width : Int) (h : start < s.length) :
    start < wrapEnd s start width := by
  unfold wrapEnd wrapEndFrom
  rw [dif_pos h]
  simp only [Nat.lt_irrefl, and_false, if_false]
  have hpos := nextChar_pos (s.drop start)
  have hle := le_wrapEndFrom s start width (0 + (nextChar (s.drop start)).2)
    (start + (nextChar (s.drop start)).1)
  omega

/-- `wrapRows` from a byte on. -/
def wrapRowsFrom (s : Bytes) (width : Int) (i : Nat) : Nat :=
  if _h : i < s.length then 1 + wrapRowsFrom s width (wrapEnd s i width) else 0
termination_by s.length - i
decreasing_by
  have := lt_wrapEnd width _h
  omega

/-- How many rows a line takes. -/
def wrapRows (s : Bytes) (width : Int) : Nat := if s.isEmpty || width ≤ 0 then 1
    else wrapRowsFrom s width 0

/-- The rows of a line from a byte on: the first one, and the others while something is left. -/
def segmentsFrom (s : Bytes) (width : Int) (i : Nat) : List Bytes :=
  (s.drop i).take (wrapEnd s i width - i) ::
    if _h : i < s.length ∧ wrapEnd s i width < s.length
      then segmentsFrom s width (wrapEnd s i width) else []
termination_by s.length - i
decreasing_by
  have := lt_wrapEnd width _h.1
  omega

/-- The rows of a line. An empty line takes an empty row. -/
def segments (s : Bytes) (width : Int) : List Bytes := segmentsFrom s width 0

end IrcHub.Console
