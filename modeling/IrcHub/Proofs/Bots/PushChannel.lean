import IrcHub.Hub.Push
import IrcHub.Proofs.Decimal

/-!
# `IrcHub.Proofs.Bots.PushChannel`: a pushed channel is read in each of its shapes

A pushed channel is read in each of its shapes. A bot's `c|` line has a key or none and modes or
none. The decoder tries four scans in turn. Each directive reads its own field up to the bar and
the next one starts at it (`sscanf_set`, `sscanf_int`), so an attempt for another shape stops at
the first field of another kind: at an empty key, or at `add` or `del` where it wants the modes.

- `fiveFields`, `fourFields`: the line with modes and without. An empty key is a key here
- `PushFields`: the fields a bot may send: texts without bars or NULs that fit their buffers,
  modes of 32 bits, a stamp of 64
- `sscanf_set`, `sscanf_set_bar`, `sscanf_lit`, `sscanf_int`: one directive each
- `parsePushChannel_shapes`: the four shapes

A key may look like a number, and is still read as a key: the scan that would take it for the
modes fails later on, at the op.
-/

set_option autoImplicit false

namespace IrcHub.Proofs

open IrcHub.Hub Str
open String (utf8Len)

/-! ### Directives -/

/-- A text of bars and fields: what may follow a field. -/
def moreFields (more : List Str) : Str := more.flatMap ('|' :: ·)

/-- What follows a number is no digit. -/
theorem head_moreFields (more : List Str) : ∀ c ∈ (moreFields more).head?, c.isDigit = false := by
  cases more with
  | nil => exact fun c hc => absurd hc (Option.not_mem_none c)
  | cons f more =>
    intro c hc
    obtain rfl : '|' = c := Option.some.inj hc
    decide

/-- A field that is not empty and fits is read up to its bar. -/
theorem sscanf_set {t : Str} {n : Nat} (rest : Str) (fmt : List Fmt) (hne : t ≠ [])
    (hlen : utf8Len t ≤ n) (hbar : '|' ∉ t) :
    sscanf (t ++ '|' :: rest) (.set n :: fmt) = .s t :: sscanf ('|' :: rest) fmt := by
  have hall : ∀ c ∈ t, (c != '|') = true := by
    intro c hc
    rw [bne_iff_ne]
    rintro rfl
    exact hbar hc
  have htake : (t ++ '|' :: rest).takeWhile (· != '|') = t := by
    rw [List.takeWhile_append_of_pos hall, List.takeWhile_cons, if_neg (by decide),
      List.append_nil]
  simp only [sscanf]
  rw [htake, takeBytes_of_le hlen, List.isEmpty_eq_false_iff.mpr hne, if_neg Bool.false_ne_true,
    List.drop_left]

/-- An empty field is no conversion. -/
theorem sscanf_set_bar (rest : Str) (n : Nat) (fmt : List Fmt) :
    sscanf ('|' :: rest) (.set n :: fmt) = [] := by
  have htake : ('|' :: rest).takeWhile (· != '|') = [] := rfl
  have hnil : takeBytes n ([] : Str) = [] := takeBytes_of_le (Nat.zero_le n)
  simp only [sscanf]
  rw [htake, hnil]
  rfl

/-- A sign of the format that is there is passed over. -/
theorem sscanf_lit (c : Char) (rest : Str) (fmt : List Fmt) :
    sscanf (c :: rest) (.lit c :: fmt) = sscanf rest fmt := by
  rw [sscanf, if_pos (show (c :: rest).head? = some c from rfl), List.tail_cons]

/-- One that is not there ends the scan. -/
theorem sscanf_lit_ne {input : Str} {c : Char} (fmt : List Fmt) (h : input.head? ≠ some c) :
    sscanf input (.lit c :: fmt) = [] := by
  rw [sscanf, if_neg h]

/-- A number is read up to what follows it. -/
theorem sscanf_int {x : Int} {rest : Str} (fmt : List Fmt) (hlo : i64Min ≤ x) (hhi : x ≤ i64Max)
    (hrest : ∀ c ∈ rest.head?, c.isDigit = false) :
    sscanf (ofInt x ++ rest) (.int :: fmt) = .i x :: sscanf rest fmt := by
  have hread := strtoll_ofInt_append hlo hhi hrest
  have hne : (ofInt x).length ≠ 0 := by
    cases x with
    | ofNat n => exact fun h => toDigits_ne_nil n (List.length_eq_zero_iff.mp h)
    | negSucc n => exact Nat.succ_ne_zero _
  simp only [sscanf, hread]
  rw [if_neg hne, List.drop_left]

/-! ### The fields of a channel line -/

/-- The two operations of a line. -/
def IsOp (op : Str) : Prop := op = "add".toList ∨ op = "del".toList

/-- An operation fits its field and has no bar. -/
theorem IsOp.fits {op : Str} (h : IsOp op) : op ≠ [] ∧ utf8Len op ≤ 7 ∧ '|' ∉ op := by
  rcases h with rfl | rfl <;> decide

/-- An operation is no number. -/
theorem sscanf_int_op {op : Str} (rest : Str) (fmt : List Fmt) (h : IsOp op) :
    sscanf (op ++ rest) (.int :: fmt) = [] := by
  have hnone : strtoll (op ++ rest) = (0, 0) := by
    rcases h with rfl | rfl <;> rfl
  simp only [sscanf, hnone]
  rfl

section Shapes

variable {chan key op : Str} {modes ts : Int}

/-- `chan|key|modes|op|ts` and more fields. -/
def fiveFields (chan key : Str) (modes : Int) (op : Str) (ts : Int) (more : List Str) : Str :=
  chan ++ '|' :: (key ++ '|'
    :: (ofInt modes ++ '|' :: (op ++ '|' :: (ofInt ts ++ moreFields more))))

/-- `chan|key|op|ts` and more fields. -/
def fourFields (chan key op : Str) (ts : Int) (more : List Str) : Str :=
  chan ++ '|' :: (key ++ '|' :: (op ++ '|' :: (ofInt ts ++ moreFields more)))

/-- The fields a bot may send. -/
structure PushFields (chan key : Str) (modes : Int) (op : Str) (ts : Int) : Prop where
  chan : 1 ≤ utf8Len chan ∧ utf8Len chan ≤ 64 ∧ '|' ∉ chan ∧ '\x00' ∉ chan
  key : utf8Len key ≤ 30 ∧ '|' ∉ key ∧ '\x00' ∉ key
  modes : -2147483648 ≤ modes ∧ modes ≤ 2147483647
  op : IsOp op
  ts : i64Min ≤ ts ∧ ts ≤ i64Max

/-- The end of a line: operation and stamp. -/
theorem sscanf_end (more : List Str) (h : PushFields chan key modes op ts) :
    sscanf (op ++ '|' :: (ofInt ts ++ moreFields more)) [.set 7, .lit '|', .int]
      = [.s op, .i ts] := by
  obtain ⟨hne, hlen, hbar⟩ := h.op.fits
  rw [sscanf_set _ _ hne hlen hbar, sscanf_lit,
    sscanf_int [] h.ts.1 h.ts.2 (head_moreFields more)]
  rfl

/-- From the modes on. -/
theorem sscanf_modes (more : List Str) (h : PushFields chan key modes op ts) :
    sscanf (ofInt modes ++ '|' :: (op ++ '|' :: (ofInt ts ++ moreFields more)))
      [.int, .lit '|', .set 7, .lit '|', .int] = [.i modes, .s op, .i ts] := by
  have hlo : i64Min ≤ modes := Int.le_trans (by decide) h.modes.1
  have hhi : modes ≤ i64Max := Int.le_trans h.modes.2 (by decide)
  have hbar : ∀ c ∈ ('|' :: (op ++ '|' :: (ofInt ts ++ moreFields more))).head?, c.isDigit
    = false := by
    intro c hc
    obtain rfl : '|' = c := Option.some.inj hc
    decide
  rw [sscanf_int _ hlo hhi hbar, sscanf_lit, sscanf_end more h]

/-- A channel has a name. -/
theorem PushFields.chan_ne (h : PushFields chan key modes op ts) : chan ≠ [] := by
  rintro rfl
  exact absurd h.chan.1 (by decide)

/-- The modes are a 32-bit number, so that storing them changes nothing. -/
theorem toI32_modes (h : PushFields chan key modes op ts) : toI32 modes = modes := by
  obtain ⟨hlo, hhi⟩ := h.modes
  unfold toI32
  omega

/-- A text that begins with no bar. -/
theorem head_ne_bar {t rest : Str} (hne : t ≠ []) (hbar : '|' ∉ t) :
    (t ++ rest).head? ≠ some '|' := by
  cases t with
  | nil => exact absurd rfl hne
  | cons c t =>
    intro heq
    obtain rfl : c = '|' := Option.some.inj heq
    exact hbar List.mem_cons_self

/-- Each shape of a line gives its fields back, whatever fields come after. The two lines with and
without a key make four shapes, since `PushFields` allows an empty one. -/
theorem parsePushChannel_shapes (more : List Str) (h : PushFields chan key modes op ts) :
    parsePushChannel (fiveFields chan key modes op ts more) = some ⟨chan, key, modes, op, ts⟩
      ∧ parsePushChannel (fourFields chan key op ts more) = some ⟨chan, key, 0, op, ts⟩ := by
  obtain ⟨-, hlen, hbar, -⟩ := h.chan
  obtain ⟨hkeyLen, hkeyBar, -⟩ := h.key
  have hset (rest : Str) (fmt : List Fmt) := sscanf_set rest fmt h.chan_ne hlen hbar
  by_cases hkey : key = []
  · subst hkey
    constructor
    · -- the first scan stops at the empty key, the second is for this shape
      unfold parsePushChannel fiveFields
      simp only [hset, sscanf_lit, sscanf_set_bar, List.nil_append, sscanf_modes more h,
        List.length_cons, List.length_nil, convText, convNum, List.getElem?_cons_zero,
        List.getElem?_cons_succ, List.getElem?_nil, Option.map_some, Option.map_none,
        Option.getD_some, Option.getD_none, Conv.text, Conv.num, toI32_modes h]
      rfl
    · unfold parsePushChannel fourFields
      simp only [hset, sscanf_lit, sscanf_set_bar, List.nil_append, sscanf_end more h,
        sscanf_int_op _ _ h.op, List.length_cons, List.length_nil, convText, convNum,
        List.getElem?_cons_zero, List.getElem?_cons_succ, List.getElem?_nil, Option.map_some,
        Option.map_none, Option.getD_some, Option.getD_none, Conv.text, Conv.num]
      rfl
  · have hkset (rest : Str) (fmt : List Fmt) := sscanf_set rest fmt hkey hkeyLen hkeyBar
    constructor
    · unfold parsePushChannel fiveFields
      simp only [hset, hkset, sscanf_lit, sscanf_modes more h, List.length_cons, List.length_nil,
        convText, convNum, List.getElem?_cons_zero, List.getElem?_cons_succ, Option.map_some,
        Option.getD_some, Conv.text, Conv.num, toI32_modes h]
      rfl
    · -- the first scan wants a number where the operation is, the second an empty key
      have hhead (rest : Str) (fmt : List Fmt) : sscanf (key ++ rest) (.lit '|' :: fmt) = [] :=
        sscanf_lit_ne fmt (head_ne_bar hkey hkeyBar)
      unfold parsePushChannel fourFields
      simp only [hset, hkset, sscanf_lit, hhead, sscanf_end more h, sscanf_int_op _ _ h.op,
        List.length_cons, List.length_nil, convText, convNum, List.getElem?_cons_zero,
          List.getElem?_cons_succ,
        List.getElem?_nil, Option.map_some, Option.map_none, Option.getD_some, Option.getD_none,
          Conv.text, Conv.num]
      rfl

end Shapes

/-- A key of digits is read as the key. -/
theorem parsePushChannel_digits :
    parsePushChannel (fiveFields "#c".toList "42".toList (-7) "add".toList 100 []) = some
      ⟨"#c".toList, "42".toList, -7, "add".toList, 100⟩
      ∧ parsePushChannel (fourFields "#c".toList "42".toList "add".toList 100 []) = some
        ⟨"#c".toList, "42".toList, 0, "add".toList, 100⟩ :=
  parsePushChannel_shapes [] ⟨by decide, by decide, by decide, .inl rfl, by decide⟩

end IrcHub.Proofs
