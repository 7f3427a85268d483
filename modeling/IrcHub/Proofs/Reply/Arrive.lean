import IrcHub.Proofs.Reply.Build
import IrcHub.Proofs.Ui.Cuts
import IrcHub.Proofs.Ui.Sanitize
import Mathlib.Data.List.DropRight

/-!
# `IrcHub.Proofs.Reply.Arrive`: what a console makes of an answer

The console splits an answer into lines, a line into fields and a field into key and value, and
takes the escapes of a value back. On the lines of rows that gives the rows (`creplyParse_wire`).

* `unescape_escapeValue`: the escapes of a value are taken back
* `parseRec_line`: one row is read from its line
* `textLines_wire`: lines without line ends in them are read as they are

The builder writes characters and the console reads bytes, so the lemmas speak of encodings: an
ASCII sign is in a text exactly where its byte is in the encoding (`mem_encode_iff`). Which
answers arrive whole, when the sender cuts them, is the subject of `IrcHub.Proofs.Reply.Whole`.
-/

set_option autoImplicit false

namespace IrcHub.Proofs

open IrcHub.Hub IrcHub.Console Str Terminal
open String (utf8EncodeChar)

/-! ### Bytes of characters -/

/-- An ASCII character is in a text where its byte is in the encoding: no other character has a
byte below 128 in its own. -/
theorem mem_encode_iff {s : Str} {a : Char} (ha : a.toNat < 0x80) : UInt8.ofNat a.toNat ∈ encode s
    ↔ a ∈ s := by
  have hval : (UInt8.ofNat a.toNat).toNat = a.toNat := by
    rw [UInt8.toNat_ofNat']
    show a.toNat % 256 = a.toNat
    omega
  constructor
  · intro h
    obtain ⟨c, hc, hmem⟩ := List.mem_flatMap.mp h
    obtain ⟨x, l, heq, -, hlow, hcont⟩ := Utf8.encode_lead c
    by_cases hascii : c.toNat < 0x80
    · rw [Utf8.encode_ascii hascii, List.mem_singleton] at hmem
      have hnum := congrArg UInt8.toNat hmem
      rw [hval, UInt8.toNat_ofNat'] at hnum
      have hnum : a.toNat = c.toNat := by
        rw [hnum]
        show c.toNat % 256 = c.toNat
        omega
      rwa [Char.toNat_inj.mp hnum]
    · -- no byte of a longer encoding is ASCII
      rw [heq] at hmem
      have hx : ¬x.toNat < 0x80 := fun hx => hascii (hlow.mpr hx)
      rcases List.mem_cons.mp hmem with hfirst | hl
      · rw [← hfirst, hval] at hx
        exact absurd ha hx
      · have hbyte := (hcont _ hl).1
        rw [hval] at hbyte
        omega
  · intro h
    refine List.mem_flatMap.mpr ⟨a, h, ?_⟩
    rw [Utf8.encode_ascii ha]
    exact List.mem_singleton_self _

/-- Parts joined by an ASCII sign are encoded part by part. -/
theorem encode_intercalate {a : Char} (ha : a.toNat < 0x80) (ls : List Str) :
    encode ([a].intercalate ls) = [UInt8.ofNat a.toNat].intercalate (ls.map encode) := by
  induction ls with
  | nil => rfl
  | cons l ls ih =>
    cases ls with
    | nil => rw [List.map_singleton, List.intercalate_singleton, List.intercalate_singleton]
    | cons l' ls =>
      rw [List.map_cons, List.map_cons, List.intercalate_cons_cons, List.intercalate_cons_cons,
        encode_append, encode_append, ih, List.map_cons, encode_cons, Utf8.encode_ascii ha]
      rfl

/-- The encoding of joined texts splits into those of the texts. -/
theorem splitOn_encode {a : Char} (ha : a.toNat < 0x80) {ls : List Str} (hne : ls ≠ [])
    (hfree : ∀ l ∈ ls, a ∉ l) :
    (encode ([a].intercalate ls)).splitOn (UInt8.ofNat a.toNat) = ls.map encode := by
  rw [encode_intercalate ha]
  refine List.splitOn_intercalate _ (fun x hx => ?_) fun h => hne (List.map_eq_nil_iff.mp h)
  obtain ⟨l, hl, rfl⟩ := List.mem_map.mp hx
  exact fun hmem => hfree l hl ((mem_encode_iff ha).mp hmem)

/-! ### Escapes -/

/-- A byte that is not the escape sign stands for itself. -/
theorem unescape_cons {c : UInt8} (h : c ≠ 0x25) (s : Bytes) :
    unescape (c :: s) = c :: unescape s := by
  rw [unescape.eq_def]
  simp only []
  split
  · exact absurd rfl h
  · rfl

/-- So do all bytes before the first escape sign. -/
theorem unescape_append {l : Bytes} (h : 0x25 ∉ l) (s : Bytes) :
    unescape (l ++ s) = l ++ unescape s := by
  induction l with
  | nil => rfl
  | cons c l ih =>
    rw [List.cons_append, unescape_cons (fun hc => h (hc ▸ List.mem_cons_self)),
      ih fun hl => h (List.mem_cons_of_mem _ hl), List.cons_append]

/-- The escapes of a value are taken back. Values are printable, as the builder makes them. -/
theorem unescape_escapeValue {v : Str} (hv : ∀ c ∈ v, Printable c) :
    unescape (encode (Reply.escapeValue v)) = encode v := by
  induction v with
  | nil => rfl
  | cons c v ih =>
    have hc := hv c List.mem_cons_self
    have ih := ih fun d hd => hv d (List.mem_cons_of_mem _ hd)
    have hlow : ∀ d : Char, d.toNat < 0x20 → c ≠ d := by
      rintro d hd rfl
      exact absurd hc.1 (Nat.not_le.mpr hd)
    rw [Reply.escapeValue, encode_cons]
    by_cases hpercent : c = '%'
    · subst hpercent
      rw [if_pos rfl, encode_append]
      show 0x25 :: unescape (encode (Reply.escapeValue v)) = _
      rw [ih]
      rfl
    rw [if_neg hpercent]
    by_cases hbar : c = '|'
    · subst hbar
      rw [if_pos rfl, encode_append]
      show 0x7C :: unescape (encode (Reply.escapeValue v)) = _
      rw [ih]
      rfl
    rw [if_neg hbar, if_neg (hlow _ (by decide)), if_neg (hlow _ (by decide)),
      if_neg (hlow _ (by decide)), encode_cons,
      unescape_append, ih]
    have hno : '%' ∉ [c] := fun h => hpercent (List.mem_singleton.mp h).symm
    have hbyte := (mem_encode_iff (s := [c]) (a := '%') (by decide)).not.mpr hno
    have hone : encode [c] = utf8EncodeChar c := List.append_nil _
    rwa [hone] at hbyte

/-- What an escaped value is made of: printable characters, and no bar. -/
theorem mem_escapeValue {v : Str} (hv : ∀ c ∈ v, Printable c) :
    ∀ c ∈ Reply.escapeValue v, Printable c ∧ c ≠ '|' := by
  induction v with
  | nil => exact fun _ h => absurd h List.not_mem_nil
  | cons d v ih =>
    have hd := hv d List.mem_cons_self
    have ih := ih fun x hx => hv x (List.mem_cons_of_mem _ hx)
    have hlow : ∀ e : Char, e.toNat < 0x20 → d ≠ e := by
      rintro e he rfl
      exact absurd hd.1 (Nat.not_le.mpr he)
    have hprefix : ∀ p : Str, (∀ c ∈ p, Printable c ∧ c ≠ '|') →
      ∀ c ∈ p ++ Reply.escapeValue v, Printable c ∧ c ≠ '|' :=
      fun p hp c hc => (List.mem_append.mp hc).elim (hp c) (ih c)
    have hescape : ∀ p : Str, (p.all fun c => decide (Printable c ∧ c ≠ '|')) = true →
      ∀ c ∈ p, Printable c ∧ c ≠ '|' :=
      fun p hp c hc => of_decide_eq_true (List.all_eq_true.mp hp c hc)
    rw [Reply.escapeValue]
    split
    · exact hprefix _ (hescape _ (by decide))
    split
    · exact hprefix _ (hescape _ (by decide))
    · next hbar =>
      rw [if_neg (hlow _ (by decide)), if_neg (hlow _ (by decide)), if_neg (hlow _ (by decide))]
      exact hprefix [d] fun c hc => by
        rw [List.mem_singleton.mp hc]
        exact ⟨hd, hbar⟩

/-! ### One row -/

/-- The words the source is written with: types, codes and keys. -/
def IsWord (w : Str) : Prop := w ≠ [] ∧ ∀ c ∈ w, c.isAlphanum = true ∨ c = '.' ∨ c = '_' ∨ c = '-'

instance (w : Str) : Decidable (IsWord w) := @instDecidableAnd _ _ _ (List.decidableBAll _ w)

/-- A word is printable and has neither sign of a row. -/
theorem IsWord.char {w : Str} (h : IsWord w) : ∀ c ∈ w, Printable c ∧ c ≠ '|' ∧ c ≠ '=' := by
  intro c hc
  have hrange : ∀ x : Char, x.isAlphanum = true → (0x30 ≤ x.toNat ∧ x.toNat ≤ 0x39)
    ∨ (0x41 ≤ x.toNat ∧ x.toNat ≤ 0x5A)
      ∨ (0x61 ≤ x.toNat ∧ x.toNat ≤ 0x7A) := by
    intro x hx
    have hx : ((decide (x.val ≥ 'A'.val ∧ x.val ≤ 'Z'.val)
      || (decide (x.val ≥ 'a'.val) && decide (x.val ≤ 'z'.val)))
        || (decide (x.val ≥ '0'.val) && decide (x.val ≤ '9'.val))) = true := hx
    simp only [Bool.or_eq_true, Bool.and_eq_true, decide_eq_true_eq, ge_iff_le,
      UInt32.le_iff_toNat_le] at hx
    change ((65 ≤ x.toNat ∧ x.toNat ≤ 90) ∨ 97 ≤ x.toNat ∧ x.toNat ≤ 122) ∨ 48 ≤ x.toNat
      ∧ x.toNat ≤ 57 at hx
    omega
  rcases h.2 c hc with halpha | rfl | rfl | rfl
  · have hr := hrange c halpha
    refine ⟨⟨by omega, by omega⟩, ?_, ?_⟩
    · rintro rfl
      exact absurd halpha (by decide)
    · rintro rfl
      exact absurd halpha (by decide)
  all_goals decide

/-- A row of words whose values are clean, so that its line can be split without ambiguity. -/
structure Row.Good (r : Row) : Prop where
  typ : IsWord r.typ
  code : ∀ c ∈ r.code, IsWord c
  keys : ∀ f ∈ r.fields, IsWord f.1
  values : ∀ f ∈ r.fields, ∀ c ∈ f.2, Printable c

/-- The parts of a good row are printable and have no bar. -/
theorem Row.Good.part {r : Row} (h : r.Good) : ∀ p ∈ r.parts, ∀ c ∈ p, Printable c ∧ c ≠ '|' := by
  intro p hp c hc
  rcases List.mem_cons.mp hp with rfl | hp
  · exact ⟨(h.typ.char c hc).1, (h.typ.char c hc).2.1⟩
  rcases List.mem_append.mp hp with hcode | hfield
  · have hword := h.code p (Option.mem_toList.mp hcode)
    exact ⟨(hword.char c hc).1, (hword.char c hc).2.1⟩
  · obtain ⟨f, hf, rfl⟩ := List.mem_map.mp hfield
    rcases List.mem_append.mp hc with hkey | hvalue
    · have hword := h.keys f hf
      exact ⟨(hword.char c hkey).1, (hword.char c hkey).2.1⟩
    · rcases List.mem_cons.mp hvalue with rfl | hvalue
      · decide
      · exact mem_escapeValue (h.values f hf) c hvalue

/-- What is in the joined text is the sign or in a part. -/
theorem mem_intercalate {a c : Char} {ls : List Str} (h : c ∈ [a].intercalate ls) : c = a
    ∨ ∃ l ∈ ls, c ∈ l := by
  induction ls with
  | nil => exact absurd h List.not_mem_nil
  | cons l ls ih =>
    cases ls with
    | nil =>
      rw [List.intercalate_singleton] at h
      exact .inr ⟨l, List.mem_singleton_self _, h⟩
    | cons l' ls =>
      rw [List.intercalate_cons_cons, List.append_assoc] at h
      rcases List.mem_append.mp h with hl | h
      · exact .inr ⟨l, List.mem_cons_self, hl⟩
      · rcases List.mem_append.mp h with ha | h
        · exact .inl (List.mem_singleton.mp ha)
        · exact (ih h).imp_right fun ⟨x, hx, hc⟩ => ⟨x, List.mem_cons_of_mem _ hx, hc⟩

/-- The line of a row has no controls, and so no line end. -/
theorem Row.Good.line {r : Row} (h : r.Good) : ∀ c ∈ r.line, Printable c := by
  intro c hc
  rcases mem_intercalate hc with rfl | ⟨p, hp, hc⟩
  · decide
  · exact (h.part p hp c hc).1

/-- A good row has a line. -/
theorem Row.Good.line_ne_nil {r : Row} (h : r.Good) : r.line ≠ [] := by
  unfold Row.line Row.parts
  intro hnil
  cases hrest : (r.code.toList ++ r.fields.map fun f => f.1 ++ '=' :: Reply.escapeValue f.2) with
  | nil =>
    rw [hrest, List.intercalate_singleton] at hnil
    exact h.typ.1 hnil
  | cons p ps =>
    rw [hrest, List.intercalate_cons_cons, List.append_assoc] at hnil
    exact h.typ.1 (List.append_eq_nil_iff.mp hnil).1

/-- Printable text is clean. -/
theorem clean_of_printable {s : Str} (h : ∀ c ∈ s, Printable c) :
    cleanDup (encode s) = encode s :=
  cleanDup_iff.mpr (clean_encode_iff.mpr h)

/-- So is a word. -/
theorem IsWord.clean {w : Str} (h : IsWord w) : cleanDup (encode w) = encode w :=
  clean_of_printable fun c hc => (h.char c hc).1

/-- A word is a key without a value. -/
theorem parseField_word {w : Str} (h : IsWord w) : parseField (encode w) = (encode w, []) := by
  have hno : ¬(encode w).contains 0x3D = true := by
    rw [List.contains_iff_mem]
    exact (mem_encode_iff (s := w) (a := '=') (by decide)).not.mpr fun hc => (h.char _ hc).2.2 rfl
  unfold parseField
  rw [if_neg hno, h.clean]

/-- A key and a value are read from `key=value`. The value may have an equals sign itself. -/
theorem parseField_pair {key val : Str} (hkey : IsWord key) (hval : ∀ c ∈ val, Printable c) :
    parseField (encode (key ++ '=' :: Reply.escapeValue val)) = (encode key, encode val) := by
  have hbytes : encode (key ++ '=' :: Reply.escapeValue val) = encode key ++ 0x3D :: encode
    (Reply.escapeValue val) := by
    rw [encode_append, encode_cons]
    rfl
  have hfree : ∀ x ∈ encode key, (x != 0x3D) = true := by
    intro x hx
    rw [bne_iff_ne]
    rintro rfl
    exact (hkey.char _ ((mem_encode_iff (s := key) (a := '=') (by decide)).mp hx)).2.2 rfl
  have hhas : (encode key ++ 0x3D :: encode (Reply.escapeValue val)).contains 0x3D = true := by
    rw [List.contains_iff_mem]
    exact List.mem_append_right _ List.mem_cons_self
  unfold parseField
  rw [hbytes, if_pos hhas, List.takeWhile_append_of_pos hfree, List.dropWhile_append_of_pos hfree,
    List.takeWhile_cons_of_neg (by decide), List.dropWhile_cons_of_neg (by decide),
      List.append_nil, hkey.clean]
  show (encode key, unescapeClean (encode (Reply.escapeValue val))) = _
  unfold unescapeClean
  rw [unescape_escapeValue hval]
  exact congrArg (Prod.mk _) (clean_of_printable hval)

/-- A row as the console keeps it. -/
def Row.crec (r : Row) : Crec where
  typ := encode r.typ
  fields := (r.code.toList.map fun c => (encode c, [])) ++ r.fields.map fun f =>
    (encode f.1, encode f.2)
  line := encode r.line

/-- The line of a good row is read as the row. -/
theorem parseRec_line {r : Row} (h : r.Good) : parseRec (encode r.line) true = r.crec := by
  have hsplit : (encode r.line).splitOn 0x7C = r.parts.map encode :=
    splitOn_encode (a := '|') (by decide) (List.cons_ne_nil _ _) fun p hp hbar =>
      (h.part p hp _ hbar).2 rfl
  unfold parseRec
  simp only [hsplit, if_true]
  have htyp : cleanDup ((r.parts.map encode).headD []) = encode r.typ := h.typ.clean
  have hfields : (r.parts.map encode).tail.map parseField = r.crec.fields := by
    show ((r.code.toList ++ r.fields.map fun f => f.1 ++ '=' :: Reply.escapeValue f.2).map
      encode).map parseField = _
    rw [List.map_append, List.map_append, List.map_map, List.map_map, List.map_map]
    unfold Row.crec
    congr 1
    · exact List.map_congr_left fun c hc => parseField_word (h.code c (Option.mem_toList.mp hc))
    · exact List.map_congr_left fun f hf => parseField_pair (h.keys f hf) (h.values f hf)
  rw [htyp, hfields, clean_of_printable h.line]
  rfl

/-! ### A whole answer -/

/-- An answer as the console keeps it: the result line apart, then the records. -/
def arrived (res : Row) (data : List Row) : Creply where
  ok := res.typ == "ok".toList
  err := !(res.typ == "ok".toList)
  code := encode (res.code.getD [])
  res := { res.crec with fields := ([], []) :: res.fields.map fun f => (encode f.1, encode f.2) }
  r := data.map Row.crec

/-- A result line: `ok` or `err`, and a code. -/
def Row.IsResult (r : Row) : Prop := (r.typ = "ok".toList ∨ r.typ = "err".toList)
    ∧ ∃ c, r.code = some c ∧ c ≠ "network.tree".toList

/-- It has no line end in it. -/
theorem isEol_encode {s : Str} (h : ∀ c ∈ s, Printable c) : ∀ x ∈ encode s, isEol x = false := by
  intro x hx
  unfold isEol
  rw [Bool.or_eq_false_iff, beq_eq_false_iff_ne, beq_eq_false_iff_ne]
  constructor
  · rintro rfl
    exact absurd (h _ ((mem_encode_iff (s := s) (a := '\n') (by decide)).mp hx)) (by decide)
  · rintro rfl
    exact absurd (h _ ((mem_encode_iff (s := s) (a := '\r') (by decide)).mp hx)) (by decide)

/-- Lines without line ends in them are read as they are. -/
theorem textLines_wire {lines : List Str} (hne : lines ≠ [])
    (hline : ∀ l ∈ lines, l ≠ [] ∧ ∀ c ∈ l, Printable c) :
    textLines (encode (wire lines)) = lines.map encode := by
  have hsplit : (encode (wire lines)).splitOn 0x0A = lines.map encode :=
    splitOn_encode (a := '\n') (by decide) hne fun l hl hmem =>
      absurd ((hline l hl).2 _ hmem) (by decide)
  obtain ⟨init, last, rfl⟩ : ∃ init last, lines = init ++ [last] :=
    ⟨_, _, (List.dropLast_append_getLast hne).symm⟩
  obtain ⟨hlast, hprint⟩ := hline last (List.mem_append_right _ (List.mem_singleton_self _))
  -- the text ends as its last line does
  have hend : ∃ pre : Bytes, encode (wire (init ++ [last])) = pre ++ encode last := by
    refine ⟨encode (if (wire init).isEmpty then wire init else wire init ++ ['\n']), ?_⟩
    rw [wire_concat fun l hl => (hline l (List.mem_append_left _ hl)).1, encode_append]
  obtain ⟨pre, hpre⟩ := hend
  have hbytes : encode last ≠ [] := by
    intro hnil
    cases last with
    | nil => exact hlast rfl
    | cons c last =>
      rw [encode_cons] at hnil
      exact Utf8.encode_ne_nil c (List.append_eq_nil_iff.mp hnil).1
  have hdrop : (encode (wire (init ++ [last]))).rdropWhile isEol = encode
    (wire (init ++ [last])) := by
    rw [List.rdropWhile_eq_self_iff]
    intro hnil
    have hget : (encode (wire (init ++ [last]))).getLast hnil ∈ encode last := by
      have heq : (encode (wire (init ++ [last]))).getLast hnil
        = (encode last).getLast hbytes := by
        simp only [hpre]
        exact List.getLast_append_of_ne_nil _ hbytes
      rw [heq]
      exact List.getLast_mem hbytes
    rw [isEol_encode hprint _ hget]
    exact Bool.false_ne_true
  have hnonempty : (encode (wire (init ++ [last]))).isEmpty = false := by
    rw [List.isEmpty_eq_false_iff, hpre]
    exact fun h => hbytes (List.append_eq_nil_iff.mp h).2
  unfold textLines
  simp only [hdrop, hnonempty, Bool.false_eq_true, if_false, hsplit]
  refine (List.map_congr_left fun l hl => ?_).trans (List.map_id _)
  obtain ⟨s, hs, rfl⟩ := List.mem_map.mp hl
  have hcr : ¬(encode s).getLast? = some 0x0D := by
    intro h
    have hmem := List.mem_of_getLast? h
    exact absurd (isEol_encode (hline s hs).2 _ hmem) (by decide)
  rw [if_neg hcr]
  rfl

/-- The lines of rows are read as the rows: the first as the result, the others as data. -/
theorem creplyParse_wire {res : Row} {data : List Row} (hres : res.Good) (hresult : res.IsResult)
    (hdata : ∀ d ∈ data, d.Good) :
    creplyParse (encode (wire ((res :: data).map Row.line))) = arrived res data := by
  obtain ⟨htyp, code, hcode, htree⟩ := hresult
  -- the lines of the text are those of the rows
  have hlines : textLines (encode (wire ((res :: data).map Row.line))) = encode res.line
    :: data.map fun d => encode d.line := by
    rw [textLines_wire (by rw [List.map_cons]; exact List.cons_ne_nil _ _), List.map_cons,
      List.map_cons, List.map_map]
    · rfl
    · intro l hl
      obtain ⟨r, hr, rfl⟩ := List.mem_map.mp hl
      have hgood : r.Good := (List.mem_cons.mp hr).elim (fun h => h ▸ hres) (hdata r)
      exact ⟨hgood.line_ne_nil, hgood.line⟩
  -- the first one is a result line
  have hfirst : ((b "ok|").isPrefixOf (encode res.line) || (b "err|").isPrefixOf
    (encode res.line)) = true := by
    have hline : ∃ rest, res.line = res.typ ++ '|' :: rest := by
      unfold Row.line Row.parts
      rw [hcode]
      refine ⟨['|'].intercalate
        (code :: res.fields.map fun f => f.1 ++ '=' :: Reply.escapeValue f.2), ?_⟩
      show ['|'].intercalate (res.typ :: code :: _) = _
      rw [List.intercalate_cons_cons, List.append_assoc]
      rfl
    obtain ⟨rest, hrest⟩ := hline
    rw [Bool.or_eq_true, List.isPrefixOf_iff_prefix, List.isPrefixOf_iff_prefix, hrest,
      encode_append, encode_cons]
    rcases htyp with htyp | htyp
    · exact .inl ⟨encode rest, by rw [htyp]; rfl⟩
    · exact .inr ⟨encode rest, by rw [htyp]; rfl⟩
  -- its type says whether the command went well
  have hok : (encode res.typ).head? = some 0x6F ↔ res.typ = "ok".toList := by
    rcases htyp with htyp | htyp
    · rw [htyp]
      decide
    · rw [htyp]
      decide
  have hcrec : res.crec.fields = (encode code, []) :: res.fields.map fun f =>
    (encode f.1, encode f.2) := by
    unfold Row.crec
    rw [hcode]
    rfl
  -- it is read as the row it was written from
  have hparse : parseResult (encode res.line) = { arrived res data with r := [] } := by
    have htypeq : decide (res.crec.typ.head? = some 0x6F) = (res.typ == "ok".toList) := by
      rw [Bool.eq_iff_iff, decide_eq_true_eq, beq_iff_eq]
      exact hok
    unfold parseResult
    rw [parseRec_line hres]
    simp only [hcrec, htypeq]
    unfold arrived
    rw [hcode]
    rfl
  have hkv : ((arrived res data).code != b "network.tree") = true := by
    have hcodeq : (arrived res data).code = encode code := by
      show encode (res.code.getD []) = _
      rw [hcode]
      rfl
    rw [bne_iff_ne, hcodeq]
    exact fun heq => htree (encode_inj heq)
  -- and so are the lines behind it
  have hrest : ((data.map fun d => encode d.line).map fun l => parseRec l true)
    = (arrived res data).r := by
    rw [List.map_map]
    exact List.map_congr_left fun d hd => parseRec_line (hdata d hd)
  unfold creplyParse
  rw [hlines]
  simp only [hfirst, if_true, hparse, hkv, hrest]

end IrcHub.Proofs
