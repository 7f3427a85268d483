import IrcHub.Lib.Fit
import IrcHub.Proofs.Reply.Arrive

/-!
# `IrcHub.Proofs.Reply.Whole`: the answers that arrive whole

An answer is a result line and data records, built of words and of values the console does not
change (`GoodCalls`). It arrives whole when the console has the result line, a first part of the
records, and the count of the others where there are any (`ArrivesWhole`). The builder leaves room
for the count, but the sender cuts at a quarter of the builder's bound, so it is so exactly for
the answers that the sender does not cut.

* `rows_of_good`: the rows of an answer are a result and data
* `arrives_of_fits`: an answer that the sender does not cut is read whole
* `fits_of_arrives`: one that is read whole was not cut
* `arrivesWhole_iff`: the two together
* `listing_cut`: a listing of six hundred bans, of which some are lost without a count

For the second direction a text that was cut has to be told from every whole one. A cut text has
the lines of a first part of it, and the line that counts is never the start of a data record
(`Row.Data.not_more`).
-/

set_option autoImplicit false

namespace IrcHub.Proofs

open IrcHub.Hub IrcHub.Console Str Terminal
open String (utf8Len)

/-! ### The calls of an answer -/

/-- A value that the console shows as it is. -/
def Shown (v : Str) : Prop := cleanDup (encode v) = encode v

instance (v : Str) : Decidable (Shown v) := inferInstanceAs (Decidable (_ = _))

/-- A call with words for types, codes and keys, and shown values. `more` is the builder's own
type, and the records of `network.tree` have no keys. -/
def CallPlain : ReplyCall → Prop
  | .ok code => IsWord code ∧ code ≠ "network.tree".toList
  | .err code msg hint =>
    (IsWord code ∧ code ≠ "network.tree".toList) ∧ (∀ v ∈ msg, Shown v) ∧ ∀ v ∈ hint, Shown v
  | .record ty => IsWord ty ∧ ty ≠ "more".toList
  | .kv key val => IsWord key ∧ Shown val
  | .kvOpt key val => IsWord key ∧ ∀ v ∈ val, Shown v
  | .kvi key _ | .kvu key _ | .kvb key _ => IsWord key

/-- A call that begins a result line. -/
def callIsResult : ReplyCall → Bool
  | .ok _ | .err _ _ _ => true
  | _ => false

/-- The calls of an answer: a result line, then data. -/
structure GoodCalls (calls : List ReplyCall) : Prop where
  result : ∃ first rest, calls = first :: rest ∧ callIsResult first = true
    ∧ ∀ c ∈ rest, callIsResult c = false
  plain : ∀ c ∈ calls, CallPlain c

/-- What is shown is printable. -/
theorem Shown.printable {v : Str} (h : Shown v) : ∀ c ∈ v, Printable c :=
  clean_encode_iff.mp (cleanDup_iff.mp h)

/-- So is a number. -/
theorem printable_toDigits (n : Nat) : ∀ c ∈ Nat.toDigits 10 n, Printable c := by
  intro c hc
  obtain ⟨hlow, hhigh⟩ := toNat_of_isDigit (isDigit_of_mem_toDigits hc)
  exact ⟨by omega, by omega⟩

/-- And one with a sign. -/
theorem printable_ofInt (n : Int) : ∀ c ∈ ofInt n, Printable c := by
  intro c hc
  unfold ofInt at hc
  split at hc
  · exact printable_toDigits _ c hc
  · rcases List.mem_cons.mp hc with rfl | hc
    · decide
    · exact printable_toDigits _ c hc

/-- The pairs of a plain call have words for keys and printable values. -/
theorem pairs_of_plain {c : ReplyCall} (h : CallPlain c) :
    ∀ f ∈ callPairs c, IsWord f.1 ∧ ∀ x ∈ f.2, Printable x := by
  intro f hf
  cases c with
  | kv key val =>
    rw [List.mem_singleton.mp hf]
    exact ⟨h.1, h.2.printable⟩
  | kvOpt key val =>
    obtain ⟨v, hv, rfl⟩ := List.mem_map.mp hf
    exact ⟨h.1, (h.2 v (Option.mem_toList.mp hv)).printable⟩
  | kvi key v =>
    rw [List.mem_singleton.mp hf]
    exact ⟨h, printable_ofInt v⟩
  | kvu key v =>
    rw [List.mem_singleton.mp hf]
    exact ⟨h, printable_toDigits v⟩
  | kvb key v =>
    rw [List.mem_singleton.mp hf]
    refine ⟨h, fun x hx => ?_⟩
    cases v with
    | true => exact List.mem_singleton.mp hx ▸ (by decide : Printable '1')
    | false => exact List.mem_singleton.mp hx ▸ (by decide : Printable '0')
  | ok | err | record => exact absurd hf List.not_mem_nil

/-- A good row with printable fields more is good. -/
theorem Row.Good.add {r : Row} (h : r.Good) {fields : List (Str × Str)}
    (hfields : ∀ f ∈ fields, IsWord f.1 ∧ ∀ x ∈ f.2, Printable x) : (r.add fields).Good where
  typ := h.typ
  code := h.code
  keys f hf := (List.mem_append.mp hf).elim (h.keys f) fun hf => (hfields f hf).1
  values f hf := (List.mem_append.mp hf).elim (h.values f) fun hf => (hfields f hf).2

/-- A data record. -/
structure Row.Data (r : Row) : Prop where
  good : r.Good
  code : r.code = none
  typ : r.typ ≠ "more".toList

/-- What follows a row that was begun: its pairs, and data records. -/
theorem rowsFrom_data (calls : List ReplyCall) {row : Row} (hrow : row.Good)
    (hdata : ∀ c ∈ calls, callIsResult c = false) (hplain : ∀ c ∈ calls, CallPlain c) :
    ∃ row' data, rowsFrom (some row) calls = row' :: data ∧ row'.Good ∧ row'.typ = row.typ
      ∧ row'.code = row.code
      ∧ ∀ d ∈ data, d.Data := by
  induction calls generalizing row with
  | nil => exact ⟨row, [], rfl, hrow, rfl, rfl, fun _ hd => absurd hd List.not_mem_nil⟩
  | cons c calls ih =>
    have hc := hdata c List.mem_cons_self
    have hp := hplain c List.mem_cons_self
    have ih := fun {r : Row} (hr : r.Good) =>
      ih hr (fun x hx => hdata x (List.mem_cons_of_mem _ hx)) fun x hx =>
      hplain x (List.mem_cons_of_mem _ hx)
    have hpairs : callBegins c = none → ∃ row' data, rowsFrom (some row) (c :: calls)
      = row' :: data ∧ row'.Good
        ∧ row'.typ = row.typ ∧ row'.code = row.code ∧ ∀ d ∈ data, d.Data := by
      intro hbegins
      rw [rowsFrom, hbegins]
      exact ih (hrow.add (pairs_of_plain hp))
    cases c with
    | record ty =>
      have hgood : ({ typ := ty } : Row).Good :=
        ⟨hp.1, fun _ h => absurd h (Option.not_mem_none _), fun _ h => absurd h List.not_mem_nil,
         fun _ h => absurd h List.not_mem_nil⟩
      obtain ⟨row', data, hrows, hgood', htyp, hcode, hall⟩ := ih hgood
      refine ⟨row, row' :: data, ?_, hrow, rfl, rfl, fun d hd => ?_⟩
      · rw [rowsFrom]
        show [row] ++ rowsFrom (some { typ := ty }) calls = _
        rw [hrows]
        rfl
      · rcases List.mem_cons.mp hd with rfl | hd
        · exact ⟨hgood', hcode, fun h => hp.2 (htyp.symm.trans h)⟩
        · exact hall d hd
    | kv | kvOpt | kvi | kvu | kvb => exact hpairs rfl
    | ok | err => cases hc

/-- The rows of an answer: a result, then data records. -/
theorem rows_of_good {calls : List ReplyCall} (h : GoodCalls calls) :
    ∃ res data, callRows calls = res :: data ∧ res.Good ∧ res.IsResult ∧ ∀ d ∈ data, d.Data := by
  obtain ⟨first, rest, rfl, hfirst, hrest⟩ := h.result
  have hp := h.plain first List.mem_cons_self
  have hplain : ∀ c ∈ rest, CallPlain c := fun c hc => h.plain c (List.mem_cons_of_mem _ hc)
  have hmain : ∀ row : Row, callBegins first = some row → row.Good → row.IsResult →
      ∃ res data, callRows (first :: rest) = res :: data ∧ res.Good ∧ res.IsResult
        ∧ ∀ d ∈ data, d.Data := by
    intro row hbegins hgood hresult
    obtain ⟨res, data, hrows, hgood', htyp, hcode, hall⟩ := rowsFrom_data rest hgood hrest hplain
    refine ⟨res, data, ?_, hgood', ?_, hall⟩
    · rw [callRows, rowsFrom, hbegins]
      exact hrows
    · unfold Row.IsResult
      rw [htyp, hcode]
      exact hresult
  cases first with
  | ok code =>
    refine hmain _ rfl ⟨(by decide : IsWord "ok".toList), fun c hc => ?_, fun _ hf =>
      absurd hf List.not_mem_nil, fun _ hf => absurd hf List.not_mem_nil⟩
      ⟨.inl rfl, code, rfl, hp.2⟩
    rw [← Option.some.inj hc]
    exact hp.1
  | err code msg hint =>
    obtain ⟨hcode, hmsg, hhint⟩ := hp
    have hfields : ∀ f ∈ (msg.toList.map fun m => ("msg".toList, m)) ++ hint.toList.map fun h =>
      ("hint".toList, h),
        IsWord f.1 ∧ ∀ x ∈ f.2, Printable x := by
      intro f hf
      rcases List.mem_append.mp hf with hf | hf
      · obtain ⟨v, hv, rfl⟩ := List.mem_map.mp hf
        exact ⟨(by decide : IsWord "msg".toList), (hmsg v (Option.mem_toList.mp hv)).printable⟩
      · obtain ⟨v, hv, rfl⟩ := List.mem_map.mp hf
        exact ⟨(by decide : IsWord "hint".toList), (hhint v (Option.mem_toList.mp hv)).printable⟩
    refine hmain _ rfl ⟨(by decide : IsWord "err".toList), fun c hc => ?_, fun f hf =>
      (hfields f hf).1, fun f hf => (hfields f hf).2⟩ ⟨.inr rfl, code, rfl, hcode.2⟩
    rw [← Option.some.inj hc]
    exact hcode.1
  | record | kv | kvOpt | kvi | kvu | kvb => cases hfirst

/-- The count of records that did not fit is a row like the others. -/
theorem good_moreRow (n : Nat) : (moreRow n).Good where
  typ := (by decide : IsWord "more".toList)
  code _ h := nomatch h
  keys f hf := by
    rw [List.mem_singleton.mp hf]
    exact (by decide : IsWord ['n'])
  values f hf := by
    rw [List.mem_singleton.mp hf]
    exact printable_toDigits n

/-! ### A text that was cut -/

/-- The line ends at the end of a text are those of its encoding. -/
theorem rdropWhile_encode {t : Str} (h : ∀ c ∈ t, Printable c ∨ c = '\n') :
    (encode t).rdropWhile isEol = encode (t.rdropWhile (· == '\n')) := by
  induction t using List.reverseRecOn with
  | nil => rfl
  | append_singleton t c ih =>
    have hone : encode [c] = String.utf8EncodeChar c := List.append_nil _
    rcases h c (List.mem_append_right _ (List.mem_singleton_self _)) with hc | rfl
    · have hne : encode [c] ≠ [] := by
        rw [hone]
        exact Utf8.encode_ne_nil c
      have hnil : encode (t ++ [c]) ≠ [] := by
        rw [encode_append]
        exact List.append_ne_nil_of_right_ne_nil _ hne
      have hnot : ¬(c == '\n') = true := by
        rw [beq_iff_eq]
        rintro rfl
        exact absurd hc (by decide)
      rw [List.rdropWhile_concat_neg (· == '\n') t c hnot, List.rdropWhile_eq_self_iff]
      intro _ heol
      have hget : (encode (t ++ [c])).getLast hnil ∈ encode [c] := by
        have heq : (encode (t ++ [c])).getLast hnil = (encode [c]).getLast hne := by
          simp only [encode_append]
          exact List.getLast_append_of_ne_nil _ hne
        rw [heq]
        exact List.getLast_mem hne
      have hprint : ∀ x ∈ [c], Printable x := fun x hx => List.mem_singleton.mp hx ▸ hc
      rw [isEol_encode hprint _ hget] at heol
      exact Bool.false_ne_true heol
    · rw [List.rdropWhile_concat_pos (· == '\n') t '\n' rfl, encode_append]
      show (encode t ++ [0x0A]).rdropWhile isEol = _
      rw [List.rdropWhile_concat_pos isEol (encode t) 0x0A (by decide)]
      exact ih fun x hx => h x (List.mem_append_left _ hx)

/-- The lines of a text of printable characters are the lines of a first part of it, and clean. -/
theorem textLines_cut {t : Str} (h : ∀ c ∈ t, Printable c ∨ c = '\n') :
    ∃ t', t' <+: t ∧ (textLines (encode t) = []
      ∨ textLines (encode t) = (t'.splitOn '\n').map encode)
      ∧ (textLines (encode t)).map cleanDup = textLines (encode t) := by
  refine ⟨t.rdropWhile (· == '\n'), List.rdropWhile_prefix _ _, ?_⟩
  generalize ht' : t.rdropWhile (· == '\n') = t'
  have hsub : ∀ c ∈ t', Printable c ∨ c = '\n' := fun c hc =>
    h c ((List.rdropWhile_prefix (· == '\n') t).subset (ht' ▸ hc))
  have hpart : ∀ l ∈ t'.splitOn '\n', ∀ c ∈ l, Printable c := by
    intro l hl c hc
    obtain ⟨hsublist, hfree⟩ := mem_splitOn hl
    rcases hsub c (hsublist.subset hc) with hp | rfl
    · exact hp
    · exact absurd hc hfree
  have hsplit : (encode t').splitOn 0x0A = (t'.splitOn '\n').map encode := by
    have hjoin : t' = ['\n'].intercalate (t'.splitOn '\n') := (List.intercalate_splitOn '\n').symm
    have hbytes := splitOn_encode (a := '\n') (by decide) (List.splitOn_ne_nil '\n' t')
      fun l hl => (mem_splitOn hl).2
    rw [← hjoin] at hbytes
    exact hbytes
  have hcr : ∀ l ∈ t'.splitOn '\n', ¬(encode l).getLast? = some 0x0D := fun l hl hlast =>
    absurd (isEol_encode (hpart l hl) _ (List.mem_of_getLast? hlast)) (by decide)
  have hlines : textLines (encode t) = []
    ∨ textLines (encode t) = (t'.splitOn '\n').map encode := by
    unfold textLines
    simp only [rdropWhile_encode h, ht']
    split
    · exact .inl rfl
    · right
      rw [hsplit, List.map_map]
      exact List.map_congr_left fun l hl => if_neg (hcr l hl)
  refine ⟨hlines, ?_⟩
  rcases hlines with hnil | hsome
  · rw [hnil]
    rfl
  · rw [hsome, List.map_map]
    exact List.map_congr_left fun l hl => clean_of_printable (hpart l hl)

/-- The lines of an answer. -/
def replyLines (rep : Creply) : List Bytes := rep.res.line :: rep.r.map Crec.line

/-- An answer with a result holds the lines of its text, so two texts that are read alike have the
same lines. -/
theorem replyLines_parse {text : Bytes}
    (h : (creplyParse text).ok = true ∨ (creplyParse text).err = true) :
    replyLines (creplyParse text) = (textLines text).map cleanDup := by
  have hline : ∀ first, (parseResult first).res.line = cleanDup first := by
    intro first
    unfold parseResult
    simp only []
    split <;> rfl
  unfold creplyParse at h ⊢
  cases hlines : textLines text with
  | nil =>
    rw [hlines] at h
    rcases h with h | h <;> cases h
  | cons first rest =>
    rw [hlines] at h
    simp only [] at h ⊢
    split
    · show (parseResult first).res.line :: (rest.map _).map Crec.line = cleanDup first
        :: rest.map cleanDup
      rw [hline, List.map_map]
      rfl
    · next hno =>
      rw [if_neg hno] at h
      rcases h with h | h <;> cases h

/-! ### Whole or not -/

/-- The console has the result line, the first `k` records, and the count of the others where
there are any. -/
def ArrivesWhole (calls : List ReplyCall) : Prop :=
  ∃ res data k, callRows calls = res :: data ∧ k ≤ data.length
    ∧ creplyParse (encode (sendResponse (replyText calls)))
      = arrived res (data.take k ++ if k < data.length then [moreRow (data.length - k)] else [])

/-- The result line fits the builder, and the lines that do, with the line of the count where
others do not, fit the sender. -/
def FitsAnswer (calls : List ReplyCall) : Prop :=
  ∃ k, 0 < k ∧ LinesKept ((callRows calls).map Row.line) k
    ∧ utf8Len (wire ((keptRows (callRows calls) k).map Row.line)) ≤ maxAdminResponse

/-- Lines behind others. -/
theorem wire_append {ls ms : List Str} (hls : ls ≠ []) (hms : ms ≠ []) :
    wire (ls ++ ms) = wire ls ++ '\n' :: wire ms := by
  induction ms using List.reverseRecOn with
  | nil => exact absurd rfl hms
  | append_singleton ms m ih =>
    unfold wire at ih ⊢
    cases ms with
    | nil => rw [List.nil_append, intercalate_concat _ _ hls, List.intercalate_singleton]
    | cons a ms =>
      rw [← List.append_assoc,
        intercalate_concat '\n' m (List.append_ne_nil_of_left_ne_nil hls _),
        ih (List.cons_ne_nil _ _), intercalate_concat '\n' m (List.cons_ne_nil _ _),
          List.append_assoc, List.cons_append]

/-- A first part of some lines is a first part of their text. -/
theorem wire_prefix {ls ms : List Str} (h : ls <+: ms) : wire ls <+: wire ms := by
  obtain ⟨rest, rfl⟩ := h
  by_cases hls : ls = []
  · rw [hls]
    exact List.nil_prefix
  by_cases hrest : rest = []
  · exact ⟨[], by rw [hrest, List.append_nil, List.append_nil]⟩
  · rw [wire_append hls hrest]
    exact List.prefix_append _ _

/-- A start takes no more room. -/
theorem utf8Len_of_start {s t : Str} (h : s <+: t) : utf8Len s ≤ utf8Len t := by
  obtain ⟨u, rfl⟩ := h
  rw [String.utf8Len_append]
  exact Nat.le_add_right _ _

/-- One count fits. -/
theorem LinesKept.unique {lines : List Str} {j k : Nat} (hj : LinesKept lines j)
    (hk : LinesKept lines k) : j = k := by
  have hlt : ∀ {a b : Nat}, LinesKept lines a → LinesKept lines b → ¬a < b := by
    intro a b ha hb hab
    have hprefix : wire (lines.take (a + 1)) <+: wire (lines.take b) :=
      wire_prefix (List.take_prefix_take_left hab)
    have hfull := ha.full (Nat.lt_of_lt_of_le hab hb.le)
    exact absurd (Nat.le_trans (utf8Len_of_start hprefix) hb.fits) (Nat.not_le.mpr hfull)
  exact Nat.le_antisymm (Nat.not_lt.mp (hlt hk hj)) (Nat.not_lt.mp (hlt hj hk))

/-- A count of records is not the start of a data record: the type of the record goes on, or is
another word. -/
theorem Row.Data.not_more {d : Row} (h : d.Data) (n : Nat) (rest : Str)
    (hrest : rest = [] ∨ ∃ s, rest = '\n' :: s) :
    ¬(moreRow n).line <+: d.line ++ rest := by
  rintro ⟨tail, htail⟩
  have hmore : (moreRow n).line = "more".toList ++ '|'
    :: ("n=".toList ++ Reply.escapeValue (Nat.toDigits 10 n)) := by
    unfold Row.line moreRow Row.parts
    show ['|'].intercalate ["more".toList, _] = _
    rw [List.intercalate_cons_cons, List.intercalate_singleton, List.append_assoc]
    rfl
  -- what follows the type of a row starts with no character of a word
  obtain ⟨rest', hline, hrest'⟩ : ∃ rest', d.line ++ rest = d.typ ++ rest'
      ∧ (rest' = [] ∨ (∃ s, rest' = '\n' :: s) ∨ ∃ s, rest' = '|' :: s) := by
    unfold Row.line Row.parts
    rw [h.code]
    cases d.fields with
    | nil =>
      refine ⟨rest, ?_, hrest.imp_right .inl⟩
      show ['|'].intercalate [d.typ] ++ rest = _
      rw [List.intercalate_singleton]
    | cons f fs =>
      refine ⟨'|' :: (['|'].intercalate
        ((f :: fs).map fun f => f.1 ++ '=' :: Reply.escapeValue f.2) ++ rest), ?_,
        .inr (.inr ⟨_, rfl⟩)⟩
      show ['|'].intercalate (d.typ :: (f.1 ++ '=' :: Reply.escapeValue f.2) :: _) ++ rest = _
      rw [List.intercalate_cons_cons, List.append_assoc, List.append_assoc]
      rfl
  have hchar := h.good.typ.char
  rw [hmore, hline, List.append_assoc, List.cons_append] at htail
  -- the one type would be a start of the other
  rcases List.append_eq_append_iff.mp htail with ⟨c, htyp, hc⟩ | ⟨c, hword, hc⟩
  -- the type is as long as `more`, or longer
  · cases c with
    | nil =>
      rw [List.append_nil] at htyp
      exact h.typ htyp
    | cons x c =>
      have hx : x = '|' := (List.cons.inj hc).1.symm
      exact (hchar x (htyp ▸ List.mem_append_right _ List.mem_cons_self)).2.1 hx
  -- it is shorter: then `more` goes on with what ends a type
  · cases c with
    | nil =>
      rw [List.append_nil] at hword
      exact h.typ hword.symm
    | cons x c =>
      have hx : x ∈ "more".toList := hword ▸ List.mem_append_right _ List.mem_cons_self
      rcases hrest' with hnil | ⟨s, hs⟩ | ⟨s, hs⟩
      · rw [hnil] at hc
        cases hc
      · rw [hs] at hc
        rw [← (List.cons.inj hc).1] at hx
        exact absurd hx (by decide)
      · rw [hs] at hc
        rw [← (List.cons.inj hc).1] at hx
        exact absurd hx (by decide)

/-- The row at a place that is kept comes after those before it. -/
theorem keptRows_split (rows : List Row) {i k : Nat} (hi : i < k) (hrow : i < rows.length) :
    ∃ rest, keptRows rows k = rows.take i ++ rows[i] :: rest := by
  have hlen : i < (rows.take k).length := by
    rw [List.length_take]
    omega
  have hsplit := (List.take_append_drop i (rows.take k)).symm
  rw [List.take_take, Nat.min_eq_left (Nat.le_of_lt hi), List.drop_eq_getElem_cons hlen,
    List.getElem_take] at hsplit
  unfold keptRows
  rw [hsplit, List.append_assoc, List.cons_append]
  exact ⟨_, rfl⟩

/-- The first line of some and what follows it. -/
theorem wire_cons (l : Str) (ls : List Str) : ∃ rest, wire (l :: ls) = l ++ rest
    ∧ (rest = [] ∨ ∃ s, rest = '\n' :: s) := by
  cases ls with
  | nil =>
    refine ⟨[], ?_, .inl rfl⟩
    rw [wire, List.intercalate_singleton, List.append_nil]
  | cons a ls =>
    refine ⟨'\n' :: wire (a :: ls), ?_, .inr ⟨_, rfl⟩⟩
    rw [wire, List.intercalate_cons_cons, List.append_assoc]
    rfl

section Answers

variable {calls : List ReplyCall} (h : GoodCalls calls)
include h

/-- The text of an answer. -/
theorem text_of_good : ∃ k, LinesKept ((callRows calls).map Row.line) k
    ∧ replyText calls = wire ((keptRows (callRows calls) k).map Row.line) := by
  obtain ⟨res, data, hrows, hres, -, hdata⟩ := rows_of_good h
  refine replyText_eq fun row hrow => ?_
  rw [hrows] at hrow
  rcases List.mem_cons.mp hrow with rfl | hrow
  · exact hres.line_ne_nil
  · exact (hdata row hrow).good.line_ne_nil

/-- An answer that the sender does not cut is read whole. -/
theorem arrives_of_fits (hfits : FitsAnswer calls) : ArrivesWhole calls := by
  obtain ⟨k, hpos, hkept, hlen⟩ := hfits
  obtain ⟨k', hkept', htext⟩ := text_of_good h
  obtain rfl := hkept.unique hkept'
  obtain ⟨res, data, hrows, hres, hresult, hdata⟩ := rows_of_good h
  obtain ⟨j, rfl⟩ : ∃ j, k = j + 1 := ⟨k - 1, by omega⟩
  have hle : j + 1 ≤ data.length + 1 := by
    have := hkept.le
    rwa [List.length_map, hrows, List.length_cons] at this
  have hsent : sendResponse (replyText calls) = replyText calls := by
    unfold sendResponse trunc
    rw [htext]
    exact takeBytes_of_le hlen
  have hkeptRows : keptRows (callRows calls) (j + 1)
      = res :: (data.take j ++ if j < data.length then [moreRow (data.length - j)] else []) := by
    unfold keptRows
    rw [hrows, List.take_succ_cons, List.length_cons, Nat.add_sub_add_right, List.cons_append]
    simp only [Nat.add_lt_add_iff_right]
  refine ⟨res, data, j, hrows, by omega, ?_⟩
  rw [hsent, htext, hkeptRows]
  refine creplyParse_wire hres hresult fun d hd => ?_
  rcases List.mem_append.mp hd with hd | hd
  · exact (hdata d (List.mem_of_mem_take hd)).good
  · split at hd
    · rw [List.mem_singleton.mp hd]
      exact good_moreRow _
    · exact absurd hd List.not_mem_nil

/-- An answer that is read whole was not cut by the sender. The lines it was read from are
compared with those of the text, the last of which the cut would have shortened or taken. -/
theorem fits_of_arrives (harrives : ArrivesWhole calls) : FitsAnswer calls := by
  obtain ⟨res, data, j, hrows, hj, hparse⟩ := harrives
  obtain ⟨k, hkept, htext⟩ := text_of_good h
  obtain ⟨res', data', hrows', hres, hresult, hdata⟩ := rows_of_good h
  obtain ⟨rfl, rfl⟩ : res = res' ∧ data = data' := List.cons.inj (hrows.symm.trans hrows')
  rw [hrows] at hkept htext
  -- the lines that the console has are those of a first part of what was sent
  let got : List Row := keptRows (res :: data) (j + 1)
  have hgot : got = res :: (data.take j ++ if j < data.length then [moreRow (data.length - j)]
    else []) := by
    show keptRows (res :: data) (j + 1) = _
    unfold keptRows
    rw [List.take_succ_cons, List.length_cons, Nat.add_sub_add_right, List.cons_append]
    simp only [Nat.add_lt_add_iff_right]
  -- every line that can be kept is a plain line
  have hgood : ∀ (i : Nat), ∀ r ∈ keptRows (res :: data) i, r.Good := by
    intro i r hr
    rcases List.mem_append.mp hr with hr | hr
    · rcases List.mem_cons.mp (List.mem_of_mem_take hr) with rfl | hr
      · exact hres
      · exact (hdata r hr).good
    · split at hr
      · rw [List.mem_singleton.mp hr]
        exact good_moreRow _
      · exact absurd hr List.not_mem_nil
  -- what the console read is a first part of the text, and not more than the sender allows
  have hwire : wire (got.map Row.line) <+: replyText calls
    ∧ utf8Len (wire (got.map Row.line)) ≤ maxAdminResponse := by
    have hsent : sendResponse (replyText calls) <+: replyText calls := trunc_isPrefix _ _
    have hlen : utf8Len (sendResponse (replyText calls)) ≤ maxAdminResponse :=
      utf8Len_takeBytes_le _ _
    have hchars : ∀ c ∈ sendResponse (replyText calls), Printable c ∨ c = '\n' := by
      intro c hc
      have hc := hsent.subset hc
      rw [htext] at hc
      rcases mem_intercalate hc with rfl | ⟨l, hl, hc⟩
      · exact .inr rfl
      · obtain ⟨r, hr, rfl⟩ := List.mem_map.mp hl
        exact .inl ((hgood _ r hr).line c hc)
    obtain ⟨t', ht', hlines, hclean⟩ := textLines_cut hchars
    -- the first line says whether the command went well, so what was read is a reply
    have hresulted : (creplyParse (encode (sendResponse (replyText calls)))).ok = true
        ∨ (creplyParse (encode (sendResponse (replyText calls)))).err = true := by
      rw [hparse]
      unfold arrived
      cases res.typ == "ok".toList
      · exact .inr rfl
      · exact .inl rfl
    have hread := replyLines_parse hresulted
    have hrec : replyLines (creplyParse (encode (sendResponse (replyText calls))))
      = (got.map Row.line).map encode := by
      rw [hparse, hgot]
      unfold replyLines arrived
      simp only [List.map_map, List.map_cons]
      rfl
    rw [hrec, hclean] at hread
    rcases hlines with hnil | hsome
    · rw [hnil, hgot] at hread
      cases hread
    · rw [hsome] at hread
      have hsplit : got.map Row.line = t'.splitOn '\n' :=
        List.map_injective_iff.mpr (fun _ _ => encode_inj) hread
      have hjoin : wire (got.map Row.line) = t' := by
        rw [wire, hsplit]
        exact List.intercalate_splitOn '\n'
      rw [hjoin]
      exact ⟨ht'.trans hsent, Nat.le_trans (utf8Len_of_start ht') hlen⟩
  obtain ⟨hstarts, hlen⟩ := hwire
  have hmax : maxAdminResponse < consoleReplyMax - replyMoreReserve := by decide
  have hlength : ((res :: data).map Row.line).length = data.length + 1 := by
    rw [List.length_map, List.length_cons]
  -- the lines of the console end where those of the builder do
  -- the builder kept `k` lines and the console has `j + 1` of them
  rcases Nat.lt_trichotomy k (j + 1) with hlt | heq | hlt
  · have hfull := hkept.full (by omega)
    have hmore : wire (((res :: data).map Row.line).take (k + 1)) <+: wire
      (got.map Row.line) := by
      refine wire_prefix ?_
      show _ <+: (keptRows (res :: data) (j + 1)).map Row.line
      unfold keptRows
      rw [List.map_append, List.map_take]
      exact (List.take_prefix_take_left hlt).trans (List.prefix_append _ _)
    have := utf8Len_of_start hmore
    omega
  -- as many: nothing was cut, so the text fits
  · subst heq
    refine ⟨j + 1, Nat.succ_pos j, by rw [hrows]; exact hkept, ?_⟩
    rw [hrows]
    exact hlen
  · exfalso
    have hkle : k ≤ data.length + 1 := hlength ▸ hkept.le
    have hjlt : j < data.length := by omega
    -- both texts start with the same lines; then one has the count and the other a record
    have hstart : ((res :: data).take (j + 1)).map Row.line ≠ [] := by
      rw [List.take_succ_cons, List.map_cons]
      exact List.cons_ne_nil _ _
    have hjlt' : j + 1 < (res :: data).length := by
      rw [List.length_cons]
      omega
    obtain ⟨rest, hrest⟩ := keptRows_split (res :: data) hlt hjlt'
    have hmore : got = (res :: data).take (j + 1)
      ++ [moreRow ((res :: data).length - (j + 1))] := by
      show keptRows (res :: data) (j + 1) = _
      rw [keptRows, if_pos hjlt']
    obtain ⟨tail, htail, hend⟩ := wire_cons data[j].line (rest.map Row.line)
    rw [htext, hrest, hmore, List.map_append, List.map_append, List.map_singleton, List.map_cons,
      wire_append hstart (List.cons_ne_nil _ _), wire_append hstart (List.cons_ne_nil _ _),
        List.prefix_append_right_inj,
      List.cons_prefix_cons, List.getElem_cons_succ, htail] at hstarts
    have hstarts := hstarts.2
    rw [wire, List.intercalate_singleton] at hstarts
    exact (hdata _ (List.getElem_mem hjlt)).not_more _ tail hend hstarts

/-- An answer arrives whole exactly when the sender does not cut it. -/
theorem arrivesWhole_iff : ArrivesWhole calls ↔ FitsAnswer calls :=
  ⟨fits_of_arrives h, arrives_of_fits h⟩

end Answers

/-! ### A short answer and a long one -/

/-- The calls for one ban of a listing. -/
def banCalls : List ReplyCall :=
  [.record "ban".toList, .kv "chan".toList "#lobby".toList,
  .kv "mask".toList "*!*@203.0.113.77".toList,
    .kvi "expires".toList 0, .kvb "sticky".toList false, .kv "setter".toList "carol".toList,
    .kv "reason".toList "spam in the channel, see the log".toList, .kvi "ts".toList 1700000000,
      .kvi "used".toList 0]

/-- A listing of so many bans, as the hub builds one. -/
def banListing (n : Nat) : List ReplyCall :=
  [.ok "ban.list".toList, .kv "chan".toList [], .kvi "count".toList n,
  .kvb "truncated".toList (600 ≤ n)]
    ++ (List.replicate n banCalls).flatten

/-- The calls of a ban listing are good ones. -/
theorem good_banListing (n : Nat) : GoodCalls (banListing n) where
  result := by
    refine ⟨_, _, rfl, rfl, fun c hc => ?_⟩
    rcases List.mem_append.mp hc with hc | hc
    · rcases List.mem_cons.mp hc with rfl | hc
      · rfl
      rcases List.mem_cons.mp hc with rfl | hc
      · rfl
      · rw [List.mem_singleton.mp hc]
        rfl
    · obtain ⟨l, hl, hc⟩ := List.mem_flatten.mp hc
      rw [(List.mem_replicate.mp hl).2] at hc
      have hdata : ∀ c ∈ banCalls, callIsResult c = false := by decide
      exact hdata c hc
  plain := by
    have hban : ∀ c ∈ banCalls, CallPlain c := by
      simp only [banCalls, List.forall_mem_cons, List.not_mem_nil, IsEmpty.forall_iff,
        implies_true, and_true, CallPlain]
      decide
    intro c hc
    rcases List.mem_append.mp hc with hc | hc
    · rcases List.mem_cons.mp hc with rfl | hc
      · exact (by decide : IsWord "ban.list".toList ∧ "ban.list".toList ≠ "network.tree".toList)
      rcases List.mem_cons.mp hc with rfl | hc
      · exact (by decide : IsWord "chan".toList ∧ Shown [])
      rcases List.mem_cons.mp hc with rfl | hc
      · exact (by decide : IsWord "count".toList)
      · rw [List.mem_singleton.mp hc]
        exact (by decide : IsWord "truncated".toList)
    · obtain ⟨l, hl, hc⟩ := List.mem_flatten.mp hc
      rw [(List.mem_replicate.mp hl).2] at hc
      exact hban c hc

set_option maxRecDepth 20000 in
/-- A listing of two bans arrives whole. -/
theorem arrivesWhole_iff_short : ArrivesWhole (banListing 2) := by
  refine (arrivesWhole_iff (good_banListing 2)).mpr
    ⟨3, by decide, ⟨by decide, by decide, ?_⟩, by decide⟩
  exact fun h => absurd h (by decide)

/-- The row of one of these bans. -/
def banRow : Row :=
  { typ := "ban".toList
    fields := [("chan".toList, "#lobby".toList), ("mask".toList, "*!*@203.0.113.77".toList),
      ("expires".toList, ofInt 0), ("sticky".toList, ['0']), ("setter".toList, "carol".toList),
      ("reason".toList, "spam in the channel, see the log".toList),
      ("ts".toList, ofInt 1700000000), ("used".toList, ofInt 0)] }

/-- The row of the result. -/
def banListRow (n : Nat) : Row :=
  { typ := "ok".toList, code := some "ban.list".toList
    fields := [("chan".toList, []), ("count".toList, ofInt n),
      ("truncated".toList, if 600 ≤ n then ['1'] else ['0'])] }

/-- The rows of a listing: its head, then one for each ban. -/
theorem callRows_banListing (n : Nat) :
    callRows (banListing n) = banListRow n :: List.replicate n banRow := by
  have hrows : ∀ (m : Nat) (row : Row),
      rowsFrom (some row) (List.replicate m banCalls).flatten
        = row :: List.replicate m banRow := by
    intro m
    induction m with
    | zero => exact fun _ => rfl
    | succ m ih =>
      intro row
      rw [List.replicate_succ, List.replicate_succ, List.flatten_cons]
      show [row] ++ rowsFrom (some banRow) (List.replicate m banCalls).flatten = _
      rw [ih]
      rfl
  have hfirst : callRows (banListing n) = rowsFrom (some { banListRow n with
      fields := [("chan".toList, []), ("count".toList, ofInt n),
        ("truncated".toList, if decide (600 ≤ n) then ['1'] else ['0'])] })
        (List.replicate n banCalls).flatten := rfl
  rw [hfirst, hrows]
  by_cases hmany : 600 ≤ n
  · simp only [banListRow, hmany, decide_true, if_true]
  · simp only [banListRow, hmany, decide_false, Bool.false_eq_true, if_false]

/-- The room of a listing. -/
theorem utf8Len_wire_replicate (l m : Str) (n : Nat) :
    utf8Len (wire (l :: List.replicate n m)) = utf8Len l + n * (utf8Len m + 1) := by
  induction n with
  | zero => rw [List.replicate_zero, wire, List.intercalate_singleton, Nat.zero_mul, Nat.add_zero]
  | succ n ih =>
    have hlast : l :: List.replicate (n + 1) m = (l :: List.replicate n m) ++ [m] := by
      rw [List.replicate_succ', List.cons_append]
    rw [hlast, wire, intercalate_concat _ _ (List.cons_ne_nil _ _), String.utf8Len_append,
      String.utf8Len_cons]
    show utf8Len (wire (l :: List.replicate n m)) + (utf8Len m + 1) = _
    rw [ih, Nat.succ_mul, Nat.add_assoc]

set_option maxRecDepth 20000 in
/-- Six hundred bans fit the builder and not the sender: some are lost without a count. -/
theorem listing_cut : ¬ArrivesWhole (banListing 600) := by
  intro h
  obtain ⟨k, hpos, hkept, hlen⟩ := fits_of_arrives (good_banListing 600) h
  have hlines : (callRows (banListing 600)).map Row.line = (banListRow 600).line
    :: List.replicate 600 banRow.line := by
    rw [callRows_banListing, List.map_cons, List.map_replicate]
  have hsize : utf8Len (banListRow 600).line = 39 ∧ utf8Len banRow.line = 130 := by decide
  have hk : k = 601 := by
    have hle := hkept.le
    have hfull := hkept.full
    rw [hlines] at hle hfull
    rw [List.length_cons, List.length_replicate] at hle hfull
    by_contra hne
    have hlt := hfull (by omega)
    rw [List.take_succ_cons, List.take_replicate, utf8Len_wire_replicate, hsize.1, hsize.2] at hlt
    have hmax : consoleReplyMax - replyMoreReserve = 262112 := by decide
    omega
  subst hk
  have hall : keptRows (callRows (banListing 600)) 601 = callRows (banListing 600) := by
    rw [keptRows, callRows_banListing, List.length_cons, List.length_replicate,
      if_neg (by decide), List.append_nil]
    exact List.take_of_length_le (by rw [List.length_cons, List.length_replicate])
  rw [hall, hlines, utf8Len_wire_replicate, hsize.1, hsize.2] at hlen
  exact absurd hlen (by decide)

end IrcHub.Proofs
