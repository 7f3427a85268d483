import IrcHub.Hub.Reply
import IrcHub.Proofs.Decimal
import Mathlib.Data.List.Induction

/-!
# `IrcHub.Proofs.Reply.Build`: the text that calls build

The calls come to rows, each begun by one call and carrying the pairs of the calls after it
(`callRows`). The builder commits the line of each row in turn, up to the first that would take
the text past its bound, and counts from there on.

* `call_begins`, `call_pairs`: one call begins a row or adds to the one that is under construction
* `commit_calls`: so the calls commit the lines of their rows, one after the other
* `commits_kept`: committing keeps a first part of the lines and counts the others
* `replyText_eq`: the text is the lines of a first part of the rows, and a count of the others
  where there are any

`LinesKept` says which first part it is, by the bound and not by the builder's run.
-/

set_option autoImplicit false

namespace IrcHub.Proofs

open IrcHub.Hub Str
open String (utf8Len)

/-! ### Rows -/

/-- A record as the calls give it: its type, the code of a result line, and its pairs. -/
structure Row where
  typ : Str
  code : Option Str := none
  fields : List (Str × Str) := []
  deriving Repr, DecidableEq

/-- The fields of the line of a row. -/
def Row.parts (r : Row) : List Str :=
  r.typ :: (r.code.toList ++ r.fields.map fun f => f.1 ++ '=' :: Reply.escapeValue f.2)

def Row.line (r : Row) : Str := ['|'].intercalate r.parts

/-- The row that a call begins. -/
def callBegins : ReplyCall → Option Row
  | .ok code => some { typ := "ok".toList, code := some code }
  | .err code msg hint => some {
      typ := "err".toList, code := some code
      fields := (msg.toList.map fun m => ("msg".toList, m)) ++ hint.toList.map fun h =>
        ("hint".toList, h) }
  | .record ty => some { typ := ty }
  | _ => none

/-- The pairs that a call adds to the row it is in. -/
def callPairs : ReplyCall → List (Str × Str)
  | .kv key val => [(key, val)]
  | .kvOpt key val => val.toList.map fun v => (key, v)
  | .kvi key v => [(key, ofInt v)]
  | .kvu key v => [(key, Nat.toDigits 10 v)]
  | .kvb key v => [(key, if v then ['1'] else ['0'])]
  | _ => []

def Row.add (r : Row) (fields : List (Str × Str)) : Row := { r with fields := r.fields ++ fields }

/-- The rows of some calls, in a row that was begun before them or in none. Pairs without a row
are dropped, as the builder drops them. -/
def rowsFrom : Option Row → List ReplyCall → List Row
  | cur, [] => cur.toList
  | cur, c :: cs =>
    match callBegins c with
    | some row => cur.toList ++ rowsFrom (some row) cs
    | none => rowsFrom (cur.map fun row => row.add (callPairs c)) cs

def callRows (calls : List ReplyCall) : List Row := rowsFrom none calls

/-- One more item at the end of a joined text. -/
theorem intercalate_concat {α : Type} (x : α) {ls : List (List α)} (l : List α) (hne : ls ≠ []) :
    [x].intercalate (ls ++ [l]) = [x].intercalate ls ++ x :: l := by
  induction ls with
  | nil => exact absurd rfl hne
  | cons a ls ih =>
    cases ls with
    | nil =>
        rw [List.singleton_append, List.intercalate_cons_cons, List.intercalate_singleton,
        List.intercalate_singleton, List.append_assoc, List.singleton_append]
    | cons a' ls =>
      rw [List.cons_append, List.intercalate_cons_of_ne_nil (by simp), ih (List.cons_ne_nil _ _),
        List.intercalate_cons_of_ne_nil (List.cons_ne_nil _ _)]
      simp only [List.append_assoc]

/-- A row with a type and nothing else. -/
theorem Row.line_typ (typ : Str) : Row.line { typ := typ } = typ := List.intercalate_singleton

/-- A row with a type and a code. -/
theorem Row.line_code (typ code : Str) :
    Row.line { typ := typ, code := some code } = typ ++ '|' :: code := by
  show ['|'].intercalate [typ, code] = _
  rw [List.intercalate_cons_cons, List.intercalate_singleton, List.append_assoc,
    List.singleton_append]

/-- Fields that are added follow the line. -/
theorem Row.line_add (r : Row) (fields : List (Str × Str)) :
    (r.add fields).line = r.line ++ fields.flatMap fun f =>
    '|' :: f.1 ++ '=' :: Reply.escapeValue f.2 := by
  induction fields using List.reverseRecOn with
  | nil =>
    show Row.line { r with fields := r.fields ++ [] } = _
    rw [List.append_nil, List.flatMap_nil, List.append_nil]
  | append_singleton fields f ih =>
    have hparts : (r.add (fields ++ [f])).parts = (r.add fields).parts
      ++ [f.1 ++ '=' :: Reply.escapeValue f.2] := by
      unfold Row.parts Row.add
      simp only [List.map_append, List.map_cons, List.map_nil, List.append_assoc,
        List.cons_append]
    have hline : (r.add (fields ++ [f])).line = (r.add fields).line ++ '|'
      :: (f.1 ++ '=' :: Reply.escapeValue f.2) := by
      unfold Row.line
      rw [hparts]
      exact intercalate_concat '|' _ (List.cons_ne_nil _ _)
    rw [hline]
    rw [ih, List.flatMap_append, List.flatMap_singleton, List.append_assoc]
    rfl

/-! ### The builder -/

/-- The builder has a row under construction, or none. -/
def Building (r : Reply) (cur : Option Row) : Prop :=
  r.inLine = cur.isSome ∧ ∀ row, cur = some row → r.line = row.line

/-- A field outside a line is dropped. -/
theorem kv_idle {r : Reply} (h : r.inLine = false) (key val : Str) : r.kv key val = r := by
  unfold Reply.kv
  rw [h]
  rfl

/-- A field within one is added to it. -/
theorem kv_inLine {r : Reply} (h : r.inLine = true) (key val : Str) :
    r.kv key val = { r with line := r.line ++ '|' :: key ++ '=' :: Reply.escapeValue val } := by
  unfold Reply.kv
  rw [if_neg (by rw [h]; exact Bool.false_ne_true)]

/-- So the row being built has the field. -/
theorem Building.pairs {r : Reply} {cur : Option Row} (h : Building r cur) (key val : Str) :
    r.kv key val = { r with line := (r.kv key val).line }
      ∧ Building (r.kv key val) (cur.map fun row => row.add [(key, val)]) := by
  cases cur with
  | none =>
    have hin : r.inLine = false := h.1
    rw [kv_idle hin]
    exact ⟨rfl, h⟩
  | some row =>
    have hin : r.inLine = true := h.1
    rw [kv_inLine hin]
    refine ⟨rfl, hin, fun row' hrow => ?_⟩
    obtain rfl : row.add [(key, val)] = row' := Option.some.inj hrow
    rw [Row.line_add, List.flatMap_singleton, ← h.2 row rfl]
    simp only [List.append_assoc, List.cons_append]

/-- And one that may be missing, if it is there. -/
theorem Building.kvOpt {r : Reply} {cur : Option Row} (h : Building r cur) (key : Str)
    (val : Option Str) :
    r.kvOpt key val = { r with line := (r.kvOpt key val).line }
      ∧ Building (r.kvOpt key val)
        (cur.map fun row => row.add (val.toList.map fun v => (key, v))) := by
  cases val with
  | some v => exact h.pairs key v
  | none =>
    refine ⟨rfl, ?_⟩
    have hsame : (cur.map fun row => row.add (([] : List Str).map fun v => (key, v))) = cur := by
      cases cur with
      | none => rfl
      | some row =>
        show some { row with fields := row.fields ++ [] } = _
        rw [List.append_nil]
    show Building r ((cur.map fun row => row.add (([] : List Str).map fun v => (key, v))))
    rw [hsame]
    exact h

/-- A call that begins a row commits the one before it. -/
theorem call_begins {c : ReplyCall} {row : Row} (hc : callBegins c = some row) (r : Reply) :
    r.call c = { r.commit with inLine := true, line := row.line } := by
  cases c with
  | ok code =>
    obtain rfl := Option.some.inj hc
    rw [Row.line_code]
    rfl
  | err code msg hint =>
    obtain rfl := Option.some.inj hc
    let r₀ : Reply := { r.commit with inLine := true, line := "err|".toList ++ code }
    let row : Row := { typ := "err".toList, code := some code }
    have h₀ : Building r₀ (some row) := by
      refine ⟨rfl, fun row' hrow => ?_⟩
      obtain rfl : row = row' := Option.some.inj hrow
      exact (Row.line_code "err".toList code).symm
    obtain ⟨hmsg, h₁⟩ := h₀.kvOpt "msg".toList msg
    obtain ⟨hhint, h₂⟩ := h₁.kvOpt "hint".toList hint
    have hline := h₂.2 _ rfl
    show (r₀.kvOpt "msg".toList msg).kvOpt "hint".toList hint = _
    rw [hhint, hline, hmsg]
    congr 1
  | record ty =>
    obtain rfl := Option.some.inj hc
    rw [Row.line_typ]
    rfl
  | kv | kvOpt | kvi | kvu | kvb => cases hc

/-- A call that begins no row adds its fields to the row being built. -/
theorem call_pairs {c : ReplyCall} (hc : callBegins c = none) {r : Reply} {cur : Option Row}
    (h : Building r cur) :
    r.call c = { r with line := (r.call c).line }
      ∧ Building (r.call c) (cur.map fun row => row.add (callPairs c)) := by
  cases c with
  | kv key val => exact h.pairs key val
  | kvOpt key val => exact h.kvOpt key val
  | kvi key v => exact h.pairs key (ofInt v)
  | kvu key v => exact h.pairs key (Nat.toDigits 10 v)
  | kvb key v => exact h.pairs key (if v then ['1'] else ['0'])
  | ok | err | record => cases hc

/-- Commit a line that is not yet in the reply. -/
def commitLine (r : Reply) (l : Str) : Reply :=
  ({ r with inLine := true, line := l } : Reply).commit

/-- Without a record under construction. -/
def Reply.rest (r : Reply) : Reply := { r with inLine := false, line := [] }

/-- The row being built is committed as its line. -/
theorem commit_line {r : Reply} {row : Row} (h : Building r (some row)) :
    r.commit = commitLine (Reply.rest r) row.line := by
  have hin : r.inLine = true := h.1
  have hline := h.2 row rfl
  unfold commitLine Reply.rest
  obtain ⟨p, line, inLine, dropped⟩ := r
  subst hin hline
  rfl

/-- A line that fits is taken. One that does not is dropped, and with it every later one. -/
theorem commitLine_eq (r : Reply) (l : Str) : commitLine r l =
    if r.dropped > 0 || utf8Len r.p + (if r.p.isEmpty then 0 else 1) + utf8Len l > consoleReplyMax
      - replyMoreReserve then
      { p := r.p, dropped := r.dropped + 1 }
    else { p := (if r.p.isEmpty then r.p else r.p ++ ['\n']) ++ l, dropped := r.dropped } := rfl

/-- What is left of the reply after a commit is what the commit made. -/
theorem rest_commitLine (r : Reply) (l : Str) : Reply.rest (commitLine r l) = commitLine r l := by
  rw [commitLine_eq, apply_ite Reply.rest]
  rfl

/-- The calls commit the lines of their rows one after the other. By induction on the calls, with
the row that is under construction. -/
theorem commit_calls (calls : List ReplyCall) {r : Reply} {cur : Option Row} (h : Building r cur)
    (hline : cur = none → r.line = []) :
    (calls.foldl Reply.call r).commit = ((rowsFrom cur calls).map Row.line).foldl commitLine
    (Reply.rest r) := by
  induction calls generalizing r cur with
  | nil =>
    cases cur with
    | none =>
      have hin : r.inLine = false := h.1
      show r.commit = Reply.rest r
      unfold Reply.commit Reply.rest
      obtain ⟨p, line, inLine, dropped⟩ := r
      obtain rfl : line = [] := hline rfl
      subst hin
      rfl
    | some row => exact commit_line h
  | cons c calls ih =>
    rw [List.foldl_cons]
    -- a call that begins a row commits the one under construction
    cases hc : callBegins c with
    | some row =>
      have hcall := call_begins hc r
      have hnext : Building (r.call c) (some row) := by
        rw [hcall]
        refine ⟨rfl, fun row' hrow => ?_⟩
        obtain rfl := Option.some.inj hrow
        rfl
      rw [ih hnext fun hrow => (nomatch hrow), rowsFrom, hc, List.map_append, List.foldl_append]
      congr 1
      rw [hcall]
      cases cur with
      | none =>
        have hin : r.inLine = false := h.1
        show Reply.rest { r.commit with inLine := true, line := row.line } = Reply.rest r
        unfold Reply.commit
        rw [hin]
        rfl
      | some old =>
        show Reply.rest { r.commit with inLine := true, line := row.line } = commitLine
          (Reply.rest r) old.line
        rw [← rest_commitLine, ← commit_line h]
        rfl
    -- a call that adds to the row under construction
    | none =>
      obtain ⟨hcall, hnext⟩ := call_pairs hc h
      have hline' : (cur.map fun row => row.add (callPairs c)) = none → (r.call c).line = [] := by
        intro hnone
        have hcur : cur = none := Option.map_eq_none_iff.mp hnone
        have hin : r.inLine = false := by rw [h.1, hcur]; rfl
        rw [← hline hcur]
        cases c with
        | kvOpt key val =>
          cases val with
          | none => rfl
          | some v => exact congrArg Reply.line (kv_idle hin key v)
        | kv key val => exact congrArg Reply.line (kv_idle hin key val)
        | kvi key v => exact congrArg Reply.line (kv_idle hin key _)
        | kvu key v => exact congrArg Reply.line (kv_idle hin key _)
        | kvb key v => exact congrArg Reply.line (kv_idle hin key _)
        | ok | err | record => cases hc
      rw [ih hnext hline', rowsFrom, hc]
      congr 1
      rw [hcall]
      rfl

/-! ### The lines that fit -/

/-- Lines as one text. -/
def wire (lines : List Str) : Str := ['\n'].intercalate lines

/-- The first `k` lines fit the reply, and one more does not. -/
structure LinesKept (lines : List Str) (k : Nat) : Prop where
  le : k ≤ lines.length
  fits : utf8Len (wire (lines.take k)) ≤ consoleReplyMax - replyMoreReserve
  full : k < lines.length →
    consoleReplyMax - replyMoreReserve < utf8Len (wire (lines.take (k + 1)))

/-- Nothing is on the wire when there are no lines, as no line is empty. -/
theorem wire_eq_nil {lines : List Str} (hne : ∀ l ∈ lines, l ≠ []) : wire lines = []
    ↔ lines = [] := by
  constructor
  · intro h
    cases lines with
    | nil => rfl
    | cons l lines =>
      refine absurd ?_ (hne l List.mem_cons_self)
      cases lines with
      | nil => rwa [wire, List.intercalate_singleton] at h
      | cons l' lines =>
        rw [wire, List.intercalate_cons_cons, List.append_assoc] at h
        exact (List.append_eq_nil_iff.mp h).1
  · rintro rfl
    exact List.intercalate_nil

/-- A line after those that are there. -/
theorem wire_concat {lines : List Str} (hne : ∀ l ∈ lines, l ≠ []) (l : Str) :
    wire (lines ++ [l]) = (if (wire lines).isEmpty then wire lines else wire lines ++ ['\n'])
      ++ l := by
  by_cases hnil : lines = []
  · subst hnil
    show ['\n'].intercalate [l] = l
    exact List.intercalate_singleton
  · have hwire : (wire lines).isEmpty = false := by
      rw [List.isEmpty_eq_false_iff]
      exact fun h => hnil ((wire_eq_nil hne).mp h)
    rw [hwire, if_neg Bool.false_ne_true, wire, intercalate_concat _ _ hnil, List.append_assoc]
    rfl

/-- A line more takes its bytes, and one for the line end between. -/
theorem utf8Len_wire_concat {lines : List Str} (hne : ∀ l ∈ lines, l ≠ []) (l : Str) :
    utf8Len (wire (lines ++ [l])) = utf8Len (wire lines) + (if (wire lines).isEmpty then 0 else 1)
      + utf8Len l := by
  rw [wire_concat hne, String.utf8Len_append]
  split
  · rw [Nat.add_zero]
  · rw [String.utf8Len_append]
    rfl

/-- Committing lines keeps a first part of them and counts the others: once a line did not fit,
every later one is counted, also one that would fit. -/
theorem commits_kept {lines : List Str} (hne : ∀ l ∈ lines, l ≠ []) :
    ∃ k, LinesKept lines k
      ∧ lines.foldl commitLine {}
        = { p := wire (lines.take k), dropped := lines.length - k } := by
  induction lines using List.reverseRecOn with
  | nil => exact ⟨0, ⟨Nat.le_refl 0, Nat.zero_le _, fun h => absurd h (Nat.lt_irrefl 0)⟩, rfl⟩
  | append_singleton lines l ih =>
    have hne' : ∀ x ∈ lines, x ≠ [] := fun x hx => hne x (List.mem_append_left _ hx)
    obtain ⟨k, hkept, hfold⟩ := ih hne'
    have hlen : (lines ++ [l]).length = lines.length + 1 := List.length_append
    have htake : ∀ j ≤ lines.length, (lines ++ [l]).take j = lines.take j :=
      fun j hj => List.take_append_of_le_length hj
    rw [List.foldl_append, hfold, List.foldl_cons, List.foldl_nil, commitLine_eq]
    by_cases hlast : k < lines.length
    · -- a line was dropped, and so is every later one
      refine ⟨k, ⟨by omega, by rw [htake k hkept.le]; exact hkept.fits, fun _ => ?_⟩, ?_⟩
      · rw [htake (k + 1) hlast]
        exact hkept.full hlast
      · rw [if_pos, htake k hkept.le]
        · show ({ p := _, dropped := lines.length - k + 1 } : Reply)
            = { p := _, dropped := (lines ++ [l]).length - k }
          rw [hlen, Nat.sub_add_comm hkept.le]
        · rw [Bool.or_eq_true, decide_eq_true_eq]
          exact .inl (Nat.sub_pos_of_lt hlast)
    · have hk : k = lines.length := Nat.le_antisymm hkept.le (Nat.not_lt.mp hlast)
      subst hk
      have hall : lines.take lines.length = lines := List.take_length
      have hall' : (lines ++ [l]).take (lines.length + 1) = lines ++ [l] := by
        rw [← hlen, List.take_length]
      simp only [hall, Nat.sub_self, gt_iff_lt, Nat.lt_irrefl, decide_false, Bool.false_or,
        decide_eq_true_eq, ← utf8Len_wire_concat hne']
      by_cases hfits : consoleReplyMax - replyMoreReserve < utf8Len (wire (lines ++ [l]))
      · refine ⟨lines.length, ⟨by omega, ?_, fun _ => by rw [hall']; exact hfits⟩, ?_⟩
        · rw [htake _ (Nat.le_refl _)]
          exact hkept.fits
        · rw [if_pos hfits, htake _ (Nat.le_refl _), hall, hlen]
          show ({ p := _, dropped := 0 + 1 } : Reply)
            = { p := _, dropped := lines.length + 1 - lines.length }
          rw [Nat.add_sub_cancel_left]
      · refine ⟨lines.length + 1,
          ⟨by omega, by rw [hall']; exact Nat.not_lt.mp hfits, fun h => by omega⟩, ?_⟩
        rw [if_neg hfits, hall', hlen, Nat.sub_self, wire_concat hne']

/-- A number needs no escapes. -/
theorem escapeValue_digits (n : Nat) :
    Reply.escapeValue (Nat.toDigits 10 n) = Nat.toDigits 10 n := by
  have hplain : ∀ v : Str, (∀ c ∈ v, c.isDigit = true) → Reply.escapeValue v = v := by
    intro v hv
    induction v with
    | nil => rfl
    | cons c v ih =>
      have hc := hv c List.mem_cons_self
      have hne : ∀ d : Char, d.isDigit = false → c ≠ d := by
        rintro d hd rfl
        rw [hc] at hd
        exact Bool.true_eq_false.mp hd
      rw [Reply.escapeValue, if_neg (hne _ rfl), if_neg (hne _ rfl), if_neg (hne _ rfl),
        if_neg (hne _ rfl), if_neg (hne _ rfl), ih fun d hd => hv d (List.mem_cons_of_mem _ hd)]
  exact hplain _ fun _ => isDigit_of_mem_toDigits

/-- The row that counts what did not fit. -/
def moreRow (n : Nat) : Row := { typ := "more".toList, fields := [(['n'], Nat.toDigits 10 n)] }

/-- The rows of a text that keeps `k` of them. -/
def keptRows (rows : List Row) (k : Nat) : List Row :=
  rows.take k ++ if k < rows.length then [moreRow (rows.length - k)] else []

/-- What the calls build: the lines of the rows that fit, and the count of the others. -/
theorem replyText_eq {calls : List ReplyCall} (hne : ∀ row ∈ callRows calls, row.line ≠ []) :
    ∃ k, LinesKept ((callRows calls).map Row.line) k
      ∧ replyText calls = wire ((keptRows (callRows calls) k).map Row.line) := by
  have hne' : ∀ l ∈ (callRows calls).map Row.line, l ≠ [] := by
    intro l hl
    obtain ⟨row, hrow, rfl⟩ := List.mem_map.mp hl
    exact hne row hrow
  obtain ⟨k, hkept, hfold⟩ := commits_kept hne'
  have hcommit : (calls.foldl Reply.call {}).commit
      = { p := wire (((callRows calls).map Row.line).take k),
          dropped := ((callRows calls).map Row.line).length - k } := by
    rw [← hfold]
    exact @commit_calls calls _ none ⟨rfl, fun _ h => (nomatch h)⟩ fun _ => rfl
  refine ⟨k, hkept, ?_⟩
  unfold replyText Reply.text
  simp only [hcommit, List.length_map]
  unfold keptRows
  by_cases hlast : k < (callRows calls).length
  · have hmore : (moreRow ((callRows calls).length - k)).line
        = "more|n=".toList ++ Nat.toDigits 10 ((callRows calls).length - k) := by
      show (Row.add { typ := "more".toList } [(['n'], Nat.toDigits 10 _)]).line = _
      rw [Row.line_add, Row.line_typ, List.flatMap_singleton, escapeValue_digits]
      rfl
    rw [if_pos (Nat.sub_pos_of_lt hlast), if_pos hlast, List.map_append, List.map_singleton,
      List.map_take, hmore, wire_concat]
    · split
      · rfl
      · simp only [List.append_assoc]
    · exact fun x hx => hne' x (List.mem_of_mem_take hx)
  · rw [if_neg (by omega), if_neg hlast, List.append_nil, List.map_take]

end IrcHub.Proofs
