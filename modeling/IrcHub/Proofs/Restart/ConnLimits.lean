import IrcHub.Hub.ConnLimits
import IrcHub.Lib.Fit
import IrcHub.Proofs.Decimal

/-!
# `IrcHub.Proofs.Restart.ConnLimits`: the connection limits across a restart

Every value that can be set is written as it is read. But the lines are loaded one after the other
and each is checked against what is there: a `preauthip` above `preauth` is set aside, and the
built-in stays. Setting `preauth` alone does not look at `preauthip`, so a hub may hold such a
pair.

* `InRange`: every part within its range, kept by every set command
* `parseValue_fmtValue`: the text of a value is read back as the value
* `connConfigLine_connLine`: what one saved line does when it is loaded
* `connReload_connLines`: what a restart makes of the limits
* `limits_survive_iff`: it gives them back exactly if `preauthip` is not above `preauth`
* `limits_of_any_file`: whatever the file says, the limits a hub starts with are in range and
  survive the next restart

The settings are a table, and `SetOk` is what every row of it has. A proof about a setting uses
that and never the row, so a row can be added without a new proof. Only the pair that is checked
against each other, the first two rows, is treated by itself (`loading_first`).
-/

set_option autoImplicit false

namespace IrcHub.Proofs

open IrcHub.Hub Str
open String (utf8Len)

/-! ### The table -/

/-- What every setting of the table has: it is found under its name, its built-ins are in range,
and its name can stand in a line. -/
structure SetOk (s : CSet) : Prop where
  found : findSet s.group s.name = some s
  parts : 0 < s.slots.length ∧ s.slots.length ≤ 3
  lens : s.defs.length = s.slots.length ∧ s.lo.length = s.slots.length
    ∧ s.hi.length = s.slots.length
  nodup : s.slots.Nodup
  defaults : s.values connDefaults = s.defs
  defsIn : ∀ p ∈ s.defs.zip (s.lo.zip s.hi), p.2.1 ≤ p.1 ∧ p.1 ≤ p.2.2
  bounds : ∀ p ∈ s.lo.zip s.hi, 0 ≤ p.1 ∧ p.2 ≤ 1000000
  nameBar : '|' ∉ s.name
  nameEnd : '\n' ∉ s.name
  nameLen : utf8Len s.name ≤ 9

/-- Each of the limits is well formed. -/
theorem setOk_of_mem {s : CSet} (h : s ∈ connSets) : SetOk s := by
  have hall : ∀ s ∈ connSets, findSet s.group s.name = some s
    ∧ (0 < s.slots.length ∧ s.slots.length ≤ 3)
      ∧ (s.defs.length = s.slots.length ∧ s.lo.length = s.slots.length
      ∧ s.hi.length = s.slots.length)
      ∧ s.slots.Nodup ∧ s.values connDefaults = s.defs
      ∧ (∀ p ∈ s.defs.zip (s.lo.zip s.hi), p.2.1 ≤ p.1 ∧ p.1 ≤ p.2.2)
      ∧ (∀ p ∈ s.lo.zip s.hi, 0 ≤ p.1 ∧ p.2 ≤ 1000000)
      ∧ '|' ∉ s.name ∧ '\n' ∉ s.name ∧ utf8Len s.name ≤ 9 := by decide +kernel
  obtain ⟨h1, h2, h3, h4, h5, h6, h7, h8, h9, h10⟩ := hall s h
  exact ⟨h1, h2, h3, h4, h5, h6, h7, h8, h9, h10⟩

/-- Every field is the slot of a setting. -/
theorem mem_slots (f : ConnField) : ∃ s ∈ connSets, f ∈ s.slots := by
  cases f <;> decide +kernel

/-- Two settings share no slot. -/
theorem slot_unique : ∀ s ∈ connSets, ∀ t ∈ connSets, ∀ f ∈ s.slots, f ∈ t.slots → s = t := by
  decide +kernel

/-! ### Values -/

/-- A field that is not written keeps its value. -/
theorem assign_of_notMem {f : ConnField} (slots : List ConnField) (v : List Int) (c : ConnCfg)
    (h : f ∉ slots) : assign c slots v f = c f := by
  unfold assign
  induction slots generalizing c v with
  | nil => rfl
  | cons g slots ih =>
    rw [List.mem_cons, not_or] at h
    cases v with
    | nil => rfl
    | cons x v =>
      rw [List.zip_cons_cons, List.foldl_cons, ih v _ h.2, if_neg h.1]

/-- The slots hold what was written. -/
theorem map_assign (slots : List ConnField) (v : List Int) (c : ConnCfg) (hnodup : slots.Nodup)
    (hlen : v.length = slots.length) : slots.map (assign c slots v) = v := by
  induction slots generalizing c v with
  | nil => exact (List.length_eq_zero_iff.mp hlen).symm
  | cons g slots ih =>
    cases v with
    | nil => cases hlen
    | cons x v =>
      rw [List.nodup_cons] at hnodup
      have hstep : assign c (g :: slots) (x :: v) = assign (fun f => if f = g then x else c f)
        slots v := rfl
      rw [hstep, List.map_cons, ih v _ hnodup.2 (Nat.succ.inj hlen),
        assign_of_notMem _ _ _ hnodup.1]
      simp

/-- Parts of a setting within their ranges. -/
def PartsIn (s : CSet) (v : List Int) : Prop :=
  v.length = s.slots.length ∧ ∀ p ∈ v.zip (s.lo.zip s.hi), p.2.1 ≤ p.1 ∧ p.1 ≤ p.2.2

/-- Every part of every setting within its range. -/
def InRange (c : ConnCfg) : Prop := ∀ s ∈ connSets, PartsIn s (s.values c)

/-- A value that is read has each of its parts in range. A part may be left out, and then the one
that is held stays. -/
theorem partsIn_of_parseValue {s : CSet} {input : Str} {cur v : List Int}
    (h : s.parseValue input cur = some v) : PartsIn s v := by
  unfold CSet.parseValue at h
  split at h
  · cases h
  split at h
  · cases h
  split at h
  · cases h
  extract_lets out at h
  split at h
  · cases h
  rename_i hlen
  split at h
  · rename_i hall
    rw [← Option.some.inj h]
    refine ⟨not_not.mp hlen, fun p hp => ?_⟩
    have := List.all_eq_true.mp hall p hp
    rwa [Bool.and_eq_true, decide_eq_true_eq, decide_eq_true_eq] at this
  · cases h

/-- Parts in range keep the limits in range. -/
theorem InRange.assign {c : ConnCfg} (h : InRange c) {s : CSet} (hs : s ∈ connSets) {v : List Int}
    (hv : PartsIn s v) : InRange (assign c s.slots v) := by
  intro t ht
  by_cases hst : s = t
  · subst hst
    rw [CSet.values, map_assign _ _ _ (setOk_of_mem hs).nodup hv.1]
    exact hv
  · have hsame : t.values (Hub.assign c s.slots v) = t.values c := by
      refine List.map_congr_left fun f hf => assign_of_notMem _ _ _ fun hf' => hst ?_
      exact slot_unique s hs t ht f hf' hf
    rw [hsame]
    exact h t ht

/-- The defaults are in range. -/
theorem inRange_defaults : InRange connDefaults := by
  intro s hs
  have hok := setOk_of_mem hs
  rw [hok.defaults]
  exact ⟨hok.lens.1, hok.defsIn⟩

/-- A limit that is set leaves all in range, whether it was taken or not. -/
theorem InRange.connSet {c : ConnCfg} (h : InRange c) (group : ConnGroup) (name : Str)
    (value : Option Str) : InRange (connSet c group name value).1 := by
  unfold Hub.connSet
  split
  · exact h
  rename_i s hfind
  have hs : s ∈ connSets := List.mem_of_find?_eq_some hfind
  have hok := setOk_of_mem hs
  have hdefs : InRange (Hub.assign c s.slots s.defs) := h.assign hs ⟨hok.lens.1, hok.defsIn⟩
  split
  · exact hdefs
  split
  · exact hdefs
  split
  · exact h
  rename_i nv hparse
  split
  · exact h
  · exact h.assign hs (partsIn_of_parseValue hparse)

/-- The limits after some set commands are within their ranges. -/
theorem inRange_connAfter (ops : List (ConnGroup × Str × Option Str)) :
    InRange (connAfter ops) := by
  unfold connAfter
  refine List.foldlRecOn (motive := InRange) ops _ inRange_defaults ?_
  exact fun c hc op _ => hc.connSet op.1 op.2.1 op.2.2

/-! ### The text of a value -/

/-- A part within its range is a number of at most seven digits. -/
theorem PartsIn.bounds {s : CSet} (hs : s ∈ connSets) {v : List Int} (h : PartsIn s v) {x : Int}
    (hx : x ∈ v) : 0 ≤ x ∧ x ≤ 1000000 := by
  have hok := setOk_of_mem hs
  have hlen : v.length ≤ (s.lo.zip s.hi).length := by
    rw [List.length_zip, hok.lens.2.1, hok.lens.2.2, min_self, h.1]
  rw [← List.map_fst_zip hlen] at hx
  obtain ⟨p, hp, rfl⟩ := List.mem_map.mp hx
  have hin := h.2 p hp
  have hbound := hok.bounds p.2 (List.of_mem_zip hp).2
  exact ⟨hbound.1.trans hin.1, hin.2.trans hbound.2⟩

/-- A part is read back from its text. No part is above a million. -/
theorem parseUint_ofInt {x : Int} (hlo : 0 ≤ x) (hhi : x ≤ 1000000) :
    parseUint (ofInt x) 1000000 = some x := by
  obtain ⟨n, rfl⟩ := Int.eq_ofNat_of_zero_le hlo
  show parseUint (Nat.toDigits 10 n) 1000000 = some (n : Int)
  rw [parseUint_toDigits, if_pos ⟨by omega, hhi⟩]

/-- A digit or a colon. -/
def partChar (c : Char) : Prop := c.isDigit = true ∨ c = ':'

/-- It takes seven bytes at most. -/
theorem fit_ofInt_part {x : Int} (hlo : 0 ≤ x) (hhi : x ≤ 1000000) :
    Fit partChar 7 (ofInt x) := by
  obtain ⟨n, rfl⟩ := Int.eq_ofNat_of_zero_le hlo
  show Fit partChar 7 (Nat.toDigits 10 n)
  refine ⟨?_, fun c hc => Or.inl (isDigit_of_mem_toDigits hc)⟩
  rw [utf8Len_toDigits]
  exact (Nat.length_toDigits_le_iff (by decide) (by decide)).mpr (by omega)

/-- Parts are written with a colon between. -/
theorem fmtValue_cons_cons (x y : Int) (v : List Int) :
    fmtValue (x :: y :: v) = ofInt x ++ [':'] ++ fmtValue (y :: v) := List.intercalate_cons_cons

/-- The text of a value: at most eight bytes for each part. -/
theorem fit_fmtValue {v : List Int} (hv : ∀ x ∈ v, 0 ≤ x ∧ x ≤ 1000000) :
    Fit partChar (v.length * 8) (fmtValue v) := by
  induction v with
  | nil => exact Fit.nil
  | cons x v ih =>
    have hx := hv x List.mem_cons_self
    have hfirst : Fit partChar 7 (ofInt x) := fit_ofInt_part hx.1 hx.2
    have hrest := ih fun y hy => hv y (List.mem_cons_of_mem _ hy)
    cases v with
    | nil =>
      have hone : fmtValue [x] = ofInt x := List.intercalate_singleton
      rw [hone]
      exact hfirst.mono (show 7 ≤ 1 * 8 by decide)
    | cons y v =>
      have hcolon : Fit partChar 1 [':'] :=
        ⟨by decide, fun c hc => Or.inr (List.mem_singleton.mp hc)⟩
      rw [fmtValue_cons_cons]
      refine ((hfirst.append hcolon).append hrest).mono ?_
      simp only [List.length_cons]
      omega

/-- Some part makes some text. -/
theorem fmtValue_ne_nil {v : List Int} (hne : v ≠ []) (hv : ∀ x ∈ v, 0 ≤ x) :
    fmtValue v ≠ [] := by
  cases v with
  | nil => exact absurd rfl hne
  | cons x v =>
    obtain ⟨n, hn⟩ := Int.eq_ofNat_of_zero_le (hv x List.mem_cons_self)
    have hx : ofInt x ≠ [] := by
      rw [hn]
      exact toDigits_ne_nil n
    cases v with
    | nil =>
      have hone : fmtValue [x] = ofInt x := List.intercalate_singleton
      rwa [hone]
    | cons y v =>
      rw [fmtValue_cons_cons]
      exact fun h => hx (List.append_eq_nil_iff.mp (List.append_eq_nil_iff.mp h).1).1

/-- Numbers are read back from their texts. -/
theorem mapM_parseUint {v : List Int} (hv : ∀ x ∈ v, 0 ≤ x ∧ x ≤ 1000000) :
    (v.map ofInt).mapM (fun p => parseUint p 1000000) = some v := by
  induction v with
  | nil => rfl
  | cons x v ih =>
    have hx := hv x List.mem_cons_self
    rw [List.map_cons, List.mapM_cons, parseUint_ofInt hx.1 hx.2,
      ih fun y hy => hv y (List.mem_cons_of_mem _ hy)]
    rfl

/-- A value within its ranges is read back from its text, whatever the setting holds. -/
theorem parseValue_fmtValue {s : CSet} (hs : s ∈ connSets) {v : List Int} (h : PartsIn s v)
    (cur : List Int) : s.parseValue (fmtValue v) cur = some v := by
  have hok := setOk_of_mem hs
  have hv : ∀ x ∈ v, 0 ≤ x ∧ x ≤ 1000000 := fun x hx => h.bounds hs hx
  have hlen : 0 < v.length ∧ v.length ≤ 3 := by rw [h.1]; exact hok.parts
  have hne : v ≠ [] := List.length_pos_iff.mp hlen.1
  have hsplit : (fmtValue v).splitOn ':' = v.map ofInt := by
    refine List.splitOn_intercalate ':' ?_ ?_
    · intro t ht
      obtain ⟨x, hx, rfl⟩ := List.mem_map.mp ht
      obtain ⟨n, hn⟩ := Int.eq_ofNat_of_zero_le (hv x hx).1
      rw [hn]
      exact fun hmem => absurd (isDigit_of_mem_toDigits hmem) (by decide)
    · rwa [ne_eq, List.map_eq_nil_iff]
  have hempty : (fmtValue v).isEmpty = false := by
    rw [List.isEmpty_eq_false_iff]
    exact fmtValue_ne_nil hne fun x hx => (hv x hx).1
  have hbytes : ¬ utf8Len (fmtValue v) > 40 := by
    have := (fit_fmtValue hv).len
    omega
  have hall : (v.zip (s.lo.zip s.hi)).all
      (fun p => decide (p.2.1 ≤ p.1) && decide (p.1 ≤ p.2.2)) = true := by
    refine List.all_eq_true.mpr fun p hp => ?_
    rw [Bool.and_eq_true, decide_eq_true_eq, decide_eq_true_eq]
    exact h.2 p hp
  have hwhole : ¬ s.slots.length + 1 = s.slots.length := by omega
  unfold CSet.parseValue
  rw [hempty, decide_eq_false hbytes, Bool.false_or, if_neg Bool.false_ne_true, hsplit,
    List.length_map, if_neg (Nat.not_lt.mpr hlen.2), mapM_parseUint hv]
  -- all parts are there, so none is taken from what the setting holds
  simp only [decide_eq_false hwhole, Bool.false_and, Bool.false_eq_true, if_false, h.1, ne_eq,
    not_true_eq_false, hall, if_true]

/-! ### One saved line -/

/-- The line of a setting without its end. -/
private theorem connLine_eq (s : CSet) (v : List Int) :
    connLine s v = s.group.name ++ '|' :: (s.name ++ '|' :: fmtValue v) ++ ['\n'] := by
  simp [connLine]

/-- The name of a group has no sign of a line in it. -/
private theorem group_bar (g : ConnGroup) : '|' ∉ g.name ∧ '\n' ∉ g.name ∧ g.name ≠ [] := by
  cases g <;> decide

/-- The line of a limit is one line. -/
theorem isLine_connLine {s : CSet} (hs : s ∈ connSets) {v : List Int} (h : PartsIn s v) :
    IsLine '\n' (connLine s v) := by
  have hfit := fit_fmtValue fun x hx => h.bounds hs hx
  refine ⟨_, connLine_eq s v, ?_, ?_⟩
  · rw [List.mem_append, List.mem_cons, List.mem_append, List.mem_cons]
    rintro (hmem | hmem | hmem | hmem | hmem)
    · exact (group_bar s.group).2.1 hmem
    · exact absurd hmem (by decide)
    · exact (setOk_of_mem hs).nameEnd hmem
    · exact absurd hmem (by decide)
    · exact absurd (hfit.chars _ hmem) (by unfold partChar; decide)
  · exact fun hnil => (group_bar s.group).2.2 (List.append_eq_nil_iff.mp hnil).1

/-- The text of a value is not the word for the built-in. -/
theorem PartsIn.text_ne_default {s : CSet} (hs : s ∈ connSets) {v : List Int} (h : PartsIn s v) :
    fmtValue v ≠ "default".toList := by
  intro heq
  have hd := (fit_fmtValue fun x hx => h.bounds hs hx).chars 'd' (by rw [heq]; decide)
  exact absurd hd (by unfold partChar; decide)

/-- Loading the text of a value sets it, but for a `preauthip` above the `preauth` that is
there. -/
theorem connSet_fmtValue {s : CSet} (hs : s ∈ connSets) {v : List Int} (h : PartsIn s v)
    (d : ConnCfg) :
    (connSet d s.group s.name (some (fmtValue v))).1
      = if s.group = .ssh && s.name = "preauthip".toList && decide (v.headD 0 > d .preauth) then d
        else assign d s.slots v := by
  simp only [connSet, (setOk_of_mem hs).found, if_neg (h.text_ne_default hs),
    parseValue_fmtValue hs h]
  split <;> rfl

/-- What a saved line does when it is loaded: the setting has the value of the line, unless it is
a `preauthip` above what `preauth` is then. -/
theorem connConfigLine_connLine {s : CSet} (hs : s ∈ connSets) {v : List Int} (h : PartsIn s v)
    (d : ConnCfg) :
    connConfigLine d (connLine s v).dropLast
      = connFix (if s.group = .ssh && s.name = "preauthip".toList
        && decide (v.headD 0 > d .preauth) then d
          else assign d s.slots v) := by
  have hok := setOk_of_mem hs
  have hfit := fit_fmtValue fun x hx => h.bounds hs hx
  obtain ⟨hbar, -, hgroup⟩ := group_bar s.group
  have hbody : (connLine s v).dropLast = s.group.name ++ '|'
    :: (s.name ++ '|' :: fmtValue v) := by
    rw [connLine_eq, List.dropLast_concat]
  have hempty : (connLine s v).dropLast.isEmpty = false := by
    rw [hbody, List.isEmpty_eq_false_iff]
    exact fun hnil => hgroup (List.append_eq_nil_iff.mp hnil).1
  have hkey : splitOnce '|' (connLine s v).dropLast = some
    (s.group.name, s.name ++ '|' :: fmtValue v) :=
    splitOnce_eq_some_iff.mpr ⟨hbody, hbar⟩
  have hname : splitOnce '|' (s.name ++ '|' :: fmtValue v) = some (s.name, fmtValue v) :=
    splitOnce_eq_some_iff.mpr ⟨rfl, hok.nameBar⟩
  have hbytes : ¬ utf8Len (s.name ++ '|' :: fmtValue v) ≥ 96 := by
    have hlen := hfit.len
    have hparts := hok.parts
    have hnameLen := hok.nameLen
    have hone : utf8Len ('|' :: fmtValue v) = utf8Len (fmtValue v) + 1 := rfl
    rw [String.utf8Len_append, hone]
    rw [h.1] at hlen
    omega
  have hload : ∀ g, s.group = g → (connLoad d g (s.name ++ '|' :: fmtValue v)).1
      = (connSet d s.group s.name (some (fmtValue v))).1 := by
    rintro g rfl
    simp only [connLoad, if_neg hbytes, hname, if_neg (h.text_ne_default hs)]
  rw [← connSet_fmtValue hs h]
  unfold connConfigLine
  simp only [hempty, hkey, Bool.false_eq_true, if_false, Option.some_or]
  cases hg : s.group with
  | ssh => rw [if_pos rfl, hload _ hg, hg]
  | conn => rw [if_neg (by decide), if_pos rfl, hload _ hg, hg]

/-! ### A restart -/

/-- The lines are those of the settings that differ from their built-ins, in the order of the
table. -/
theorem connLines_eq (c : ConnCfg) :
    connLines c
      = ((connSets.filter fun s => s.values c ≠ s.defs).map fun s =>
        connLine s (s.values c)).flatten := by
  have horder : connSets
      = (connSets.filter fun s => s.group = .ssh) ++ connSets.filter fun s =>
        s.group = .conn := by
    decide +kernel
  have hgroup : ∀ g : ConnGroup, (connSets.filter fun s => s.group = g && s.values c ≠ s.defs)
      = (connSets.filter fun s => s.group = g).filter fun s => s.values c ≠ s.defs := by
    intro g
    rw [List.filter_filter]
    exact List.filter_congr fun s _ => Bool.and_comm _ _
  have hsplit : (connSets.filter fun s => s.values c ≠ s.defs)
      = (connSets.filter fun s => s.group = .ssh && s.values c ≠ s.defs)
        ++ connSets.filter fun s => s.group = .conn && s.values c ≠ s.defs := by
    rw [hgroup, hgroup, ← List.filter_append, ← horder]
  rw [hsplit, List.map_append, List.flatten_append]
  simp only [connLines, List.flatMap, List.map_cons, List.map_nil, List.flatten_cons,
    List.flatten_nil, List.append_nil]

/-- One setting at a restart: its line is loaded if it has one. -/
def reloadStep (c d : ConnCfg) (s : CSet) : ConnCfg :=
  if s.values c ≠ s.defs then connConfigLine d (connLine s (s.values c)).dropLast else d

/-- A restart goes through the table once. -/
theorem connReload_eq_foldl {c : ConnCfg} (hc : InRange c) :
    connReload (connLines c) = connSets.foldl (reloadStep c) connDefaults := by
  have hlines : ∀ l ∈ (connSets.filter fun s => s.values c ≠ s.defs).map
      (fun s => connLine s (s.values c)), IsLine '\n' l := by
    intro l hl
    obtain ⟨s, hs, rfl⟩ := List.mem_map.mp hl
    have hmem := (List.mem_filter.mp hs).1
    exact isLine_connLine hmem (hc s hmem)
  have hlast : ∀ d, connConfigLine d [] = d := fun d => rfl
  unfold connReload
  rw [connLines_eq, splitOn_flatten_lines hlines, List.foldl_append, List.foldl_cons,
    List.foldl_nil, hlast, List.foldl_map, List.foldl_map, List.foldl_filter]
  simp only [decide_eq_true_eq]
  rfl

/-- What a restart makes of the limits: a `preauthip` above `preauth` is lost, and what is left is
the built-in or `preauth`, whichever is less. -/
def reloaded (c : ConnCfg) : ConnCfg := fun f =>
  if f = .preauthip then (if c .preauthip ≤ c .preauth then c .preauthip else min 2 (c .preauth))
    else c f

/-- The settings after the first two do not depend on each other: each field is as it ends up, or
still has its built-in and a line to come. -/
structure Loading (c : ConnCfg) (l : List CSet) (d : ConnCfg) : Prop where
  fields : ∀ f, d f = reloaded c f ∨ (d f = connDefaults f ∧ ∃ s ∈ l, f ∈ s.slots)
  preauth : d .preauth = c .preauth
  preauthip : d .preauthip = reloaded c .preauthip

/-- What is reloaded has the share of an address within the whole. -/
theorem reloaded_preauthip_le (c : ConnCfg) : reloaded c .preauthip ≤ c .preauth := by
  rw [reloaded, if_pos rfl]
  split
  · assumption
  · exact min_le_right _ _

/-- A coherent combination is left as it is. -/
theorem connFix_of_le {d : ConnCfg} (h : d .preauthip ≤ d .preauth) : connFix d = d := by
  funext f
  unfold connFix
  split
  · rename_i hf
    rw [hf, min_eq_left h]
  · rfl

/-- A limit that is assigned from a configuration has its values. -/
theorem assign_values_of_mem {s : CSet} (hs : s ∈ connSets) {f : ConnField} (hf : f ∈ s.slots)
    (c d : ConnCfg) : assign d s.slots (s.values c) f = c f := by
  have hlen : (s.values c).length = s.slots.length := List.length_map _
  have hmap := map_assign s.slots (s.values c) d (setOk_of_mem hs).nodup hlen
  rw [CSet.values, List.map_inj_left] at hmap
  exact hmap f hf

/-- The check of `preauthip` concerns no other setting. -/
theorem other_of_notMem {s : CSet} (hs : s ∈ connSets) (hip : .preauthip ∉ s.slots) (x y : Int) :
    (s.group = .ssh && s.name = "preauthip".toList && decide (x > y)) = false := by
  have hname : ∀ t ∈ connSets, (t.group = .ssh && t.name = "preauthip".toList) = true →
      .preauthip ∈ t.slots := by decide +kernel
  rw [Bool.and_eq_false_iff]
  exact Or.inl (Bool.eq_false_iff.mpr fun h => hip (hname s hs h))

/-- One line of the file is read. The two limits that are checked against each other are left to
the end. -/
theorem Loading.step {c d : ConnCfg} (hc : InRange c) {s : CSet} {l : List CSet}
    (h : Loading c (s :: l) d) (hs : s ∈ connSets) (hp : .preauth ∉ s.slots)
    (hip : .preauthip ∉ s.slots) :
    Loading c l (reloadStep c d s) := by
  have hok := setOk_of_mem hs
  have hother := other_of_notMem hs hip ((s.values c).headD 0) (d .preauth)
  have hsame : ∀ f ∈ s.slots, reloaded c f = c f := by
    intro f hf
    have hne : f ≠ .preauthip := fun heq => hip (heq ▸ hf)
    rw [reloaded, if_neg hne]
  have hnew : ∀ f, reloadStep c d s f = if f ∈ s.slots then c f else d f := by
    intro f
    unfold reloadStep
    by_cases hdef : s.values c = s.defs
    · -- not saved: the field has its built-in, which is what the limits held
      rw [if_neg (not_not.mpr hdef)]
      split
      · rename_i hf
        rw [← hok.defaults, CSet.values, CSet.values, List.map_inj_left] at hdef
        rcases h.fields f with hd | ⟨hd, -⟩
        · rw [hd, hsame f hf]
        · rw [hd, hdef f hf]
      · rfl
    · have hle : assign d s.slots (s.values c) .preauthip ≤ assign d s.slots
        (s.values c) .preauth := by
        rw [assign_of_notMem _ _ _ hip, assign_of_notMem _ _ _ hp, h.preauthip, h.preauth]
        exact reloaded_preauthip_le c
      rw [if_pos hdef, connConfigLine_connLine hs (hc s hs), hother, if_neg Bool.false_ne_true,
        connFix_of_le hle]
      split
      · rename_i hf
        exact assign_values_of_mem hs hf c d
      · rename_i hf
        exact assign_of_notMem _ _ _ hf
  refine ⟨?_, ?_, ?_⟩
  · intro f
    rw [hnew]
    split
    · rename_i hf
      exact Or.inl (hsame f hf).symm
    · rename_i hf
      refine (h.fields f).imp id fun hd => ⟨hd.1, ?_⟩
      obtain ⟨t, ht, hft⟩ := hd.2
      rcases List.mem_cons.mp ht with rfl | ht
      · exact absurd hft hf
      · exact ⟨t, ht, hft⟩
  · rw [hnew, if_neg hp]
    exact h.preauth
  · rw [hnew, if_neg hip]
    exact h.preauthip

/-- The rest of the table. -/
theorem Loading.run {c : ConnCfg} (hc : InRange c) {l : List CSet} {d : ConnCfg}
    (h : Loading c l d) (hl : ∀ s ∈ l, s ∈ connSets ∧ .preauth ∉ s.slots ∧ .preauthip ∉ s.slots) :
    l.foldl (reloadStep c) d = reloaded c := by
  induction l generalizing d with
  | nil =>
    funext f
    rcases h.fields f with hd | ⟨-, s, hs, -⟩
    · exact hd
    · exact absurd hs List.not_mem_nil
  | cons s l ih =>
    obtain ⟨hs, hp, hip⟩ := hl s List.mem_cons_self
    rw [List.foldl_cons]
    exact ih (h.step hc hs hp hip) fun t ht => hl t (List.mem_cons_of_mem _ ht)

/-- The line of `preauth` may take the built-in `preauthip` down with it. -/
theorem reloadStep_preauth {c : ConnCfg} (hc : InRange c) {s : CSet} (hs : s ∈ connSets)
    (hslots : s.slots = [.preauth]) (f : ConnField) :
    reloadStep c connDefaults s f =
      if f = .preauth then c .preauth else if f = .preauthip then min 2 (c .preauth)
        else connDefaults f := by
  have hvalues : s.values c = [c .preauth] := by rw [CSet.values, hslots]; rfl
  have hdefs : s.defs = [8] := by rw [← (setOk_of_mem hs).defaults, CSet.values, hslots]; rfl
  have hip : .preauthip ∉ s.slots := by rw [hslots]; decide
  unfold reloadStep
  by_cases hdef : c .preauth = 8
  · rw [hvalues, hdefs, hdef, if_neg (not_not.mpr rfl)]
    cases f <;> rfl
  · have hne : s.values c ≠ s.defs := by
      rw [hvalues, hdefs]
      exact fun h => hdef (List.cons.inj h).1
    rw [if_pos hne, connConfigLine_connLine hs (hc s hs), other_of_notMem hs hip,
      if_neg Bool.false_ne_true, hvalues, hslots]
    cases f <;> rfl

/-- The line of `preauthip` is loaded unless it is above the `preauth` that is there. -/
theorem reloadStep_preauthip {c d : ConnCfg} (hc : InRange c) {s : CSet} (hs : s ∈ connSets)
    (hslots : s.slots = [.preauthip]) (hname : s.group = .ssh ∧ s.name = "preauthip".toList)
    (hp : d .preauth = c .preauth) (hip : d .preauthip = min 2 (c .preauth)) (f : ConnField) :
    reloadStep c d s f = if f = .preauthip then reloaded c .preauthip else d f := by
  have hvalues : s.values c = [c .preauthip] := by rw [CSet.values, hslots]; rfl
  have hdefs : s.defs = [2] := by rw [← (setOk_of_mem hs).defaults, CSet.values, hslots]; rfl
  have hr : reloaded c .preauthip
      = if c .preauthip ≤ c .preauth then c .preauthip else min 2 (c .preauth) := if_pos rfl
  have hfix : ∀ e : ConnCfg, connFix e f = if f = .preauthip
    then min (e .preauthip) (e .preauth) else e f :=
    fun _ => rfl
  have hassign : ∀ g, assign d [.preauthip] [c .preauthip] g = if g = .preauthip
    then c .preauthip else d g :=
    fun _ => rfl
  have hcheck : (s.group = .ssh && s.name = "preauthip".toList
    && decide (c .preauthip > c .preauth))
      = decide (c .preauthip > c .preauth) := by
    rw [hname.1, hname.2]
    simp
  unfold reloadStep
  by_cases hdef : c .preauthip = 2
  · rw [hvalues, hdefs, hdef, if_neg (not_not.mpr rfl), hr, hdef]
    split
    · rename_i hf
      rw [hf, hip]
      split <;> omega
    · rfl
  · have hne : s.values c ≠ s.defs := by
      rw [hvalues, hdefs]
      exact fun h => hdef (List.cons.inj h).1
    rw [if_pos hne, connConfigLine_connLine hs (hc s hs), hvalues, List.headD_cons, hp,
      hcheck, hslots, hr]
    by_cases hgt : c .preauthip > c .preauth
    · rw [if_pos (decide_eq_true hgt), hfix, hip, hp, if_neg (Int.not_le.mpr hgt),
        min_assoc, min_self]
    · have hle : c .preauthip ≤ c .preauth := Int.not_lt.mp hgt
      have hother : ConnField.preauth ≠ .preauthip := by decide
      rw [decide_eq_false hgt, if_neg Bool.false_ne_true, hfix, hassign, hassign,
        hassign, if_pos rfl, if_neg hother, hp, if_pos hle, min_eq_left hle]
      split <;> rfl

/-- The limits after the lines of `preauth` and `preauthip`, which are the first of the table. -/
theorem loading_first {c : ConnCfg} (hc : InRange c) {sp sip : CSet} {rest : List CSet}
    (htable : connSets = sp :: sip :: rest) (hsp : sp.slots = [.preauth])
    (hsip : sip.slots = [.preauthip]) (hname : sip.group = .ssh ∧ sip.name = "preauthip".toList) :
    Loading c rest (reloadStep c (reloadStep c connDefaults sp) sip) := by
  have hmem : sp ∈ connSets ∧ sip ∈ connSets := by rw [htable]; simp
  have hold := reloadStep_preauth hc hmem.1 hsp
  have hpre : reloadStep c connDefaults sp .preauth = c .preauth := hold .preauth
  have hnew := reloadStep_preauthip hc hmem.2 hsip hname hpre (hold .preauthip)
  refine ⟨?_, ?_, ?_⟩
  · intro f
    rw [hnew]
    by_cases hf : f = .preauthip
    · rw [if_pos hf, hf]
      exact Or.inl rfl
    rw [if_neg hf, hold]
    by_cases hf' : f = .preauth
    · rw [hf']
      exact Or.inl rfl
    · rw [if_neg hf', if_neg hf]
      obtain ⟨s, hs, hfs⟩ := mem_slots f
      rw [htable, List.mem_cons, List.mem_cons] at hs
      rcases hs with rfl | rfl | hs
      · exact absurd (List.mem_singleton.mp (hsp ▸ hfs)) hf'
      · exact absurd (List.mem_singleton.mp (hsip ▸ hfs)) hf
      · exact Or.inr ⟨rfl, s, hs, hfs⟩
  · rw [hnew, if_neg (by decide), hpre]
  · rw [hnew, if_pos rfl]

/-- The table starts with `preauth` and `preauthip`. -/
theorem connSets_head : ∃ sp sip rest, connSets = sp :: sip :: rest ∧ sp.slots = [.preauth]
    ∧ sip.slots = [.preauthip] ∧ sip.group = .ssh ∧ sip.name = "preauthip".toList
    ∧ ∀ s ∈ rest, s ∈ connSets ∧ .preauth ∉ s.slots ∧ .preauthip ∉ s.slots :=
  ⟨_, _, _, rfl, rfl, rfl, rfl, rfl, by decide +kernel⟩

/-- What a restart makes of the limits. -/
theorem connReload_connLines {c : ConnCfg} (hc : InRange c) :
    connReload (connLines c) = reloaded c := by
  obtain ⟨sp, sip, rest, htable, hsp, hsip, hgroup, hname, hrest⟩ := connSets_head
  rw [connReload_eq_foldl hc, htable, List.foldl_cons, List.foldl_cons]
  exact (loading_first hc htable hsp hsip ⟨hgroup, hname⟩).run hc hrest

/-- Limits come back as they were exactly when the share of an address is within the whole. -/
theorem reloaded_eq_iff (c : ConnCfg) : reloaded c = c ↔ c .preauthip ≤ c .preauth := by
  refine ⟨fun h => ?_, fun h => ?_⟩
  · rw [← congrFun h .preauthip]
    exact reloaded_preauthip_le c
  · funext f
    unfold reloaded
    rw [if_pos h]
    split
    · rename_i hf
      rw [hf]
    · rfl

/-- The clamped limits come back also where the built-in comes down to the clamped value. -/
theorem reloaded_eq_connFix_iff (c : ConnCfg) :
    reloaded c = connFix c ↔ c .preauthip ≤ c .preauth ∨ c .preauth ≤ 2 := by
  refine ⟨fun h => ?_, fun h => ?_⟩
  · have hip : (if c .preauthip ≤ c .preauth then c .preauthip else min 2 (c .preauth))
        = min (c .preauthip) (c .preauth) := congrFun h .preauthip
    split at hip
    · exact Or.inl ‹_›
    · omega
  · funext f
    unfold reloaded connFix
    split
    · split <;> omega
    · rfl

/-- A restart gives the limits back exactly if `preauthip` is not above `preauth`. It gives them
back clamped if it is not, or if the clamped value is what the built-in comes down to. -/
theorem limits_survive_iff (ops : List (ConnGroup × Str × Option Str)) :
    let c := connAfter ops
    (connReload (connLines c) = c ↔ c .preauthip ≤ c .preauth)
      ∧ (connReload (connLines c) = connFix c ↔ c .preauthip ≤ c .preauth ∨ c .preauth ≤ 2) := by
  intro c
  rw [connReload_connLines (inRange_connAfter ops)]
  exact ⟨reloaded_eq_iff c, reloaded_eq_connFix_iff c⟩

/-- Five logins for each address, then three for all together: both are taken, and the restart
goes back to two for each address. -/
theorem limits_preauth_lowered :
    let c := connAfter [(.ssh, "preauthip".toList, some "5".toList),
      (.ssh, "preauth".toList, some "3".toList)]
    (connSet connDefaults .ssh "preauthip".toList (some "5".toList)).2 = .ok
      ∧ (connSet (connAfter [(.ssh, "preauthip".toList, some "5".toList)]) .ssh "preauth".toList
        (some "3".toList)).2 = .ok
      ∧ c .preauth = 3 ∧ c .preauthip = 5 ∧ connFix c .preauthip = 3
      ∧ connReload (connLines c) .preauthip = 2
      ∧ connReload (connLines c) ≠ c ∧ connReload (connLines c) ≠ connFix c := by
  intro c
  have hok : (connSet connDefaults .ssh "preauthip".toList (some "5".toList)).2 = .ok := by
    decide +kernel
  have hok' : (connSet (connAfter [(.ssh, "preauthip".toList, some "5".toList)]) .ssh
    "preauth".toList
      (some "3".toList)).2 = .ok := by decide +kernel
  have hc : c .preauth = 3 ∧ c .preauthip = 5 ∧ connFix c .preauthip = 3 := by decide +kernel
  have hreload : connReload (connLines c) .preauthip = 2 := by decide +kernel
  refine ⟨hok, hok', hc.1, hc.2.1, hc.2.2, hreload, fun h => ?_, fun h => ?_⟩
  · rw [h, hc.2.1] at hreload
    exact absurd hreload (by decide)
  · rw [h, hc.2.2] at hreload
    exact absurd hreload (by decide)

/-! ### Limits from any file -/

/-- The two limits of the logins in progress are settings of one part with one range. -/
theorem preauth_sets :
    (∃ s ∈ connSets, s.slots = [.preauth] ∧ s.lo = [1] ∧ s.hi = [64])
      ∧ ∀ s ∈ connSets, .preauthip ∉ s.slots
        ∨ (s.slots = [.preauthip] ∧ s.lo = [1] ∧ s.hi = [64]) := by
  decide

/-- The correction leaves limits in range, since the two ranges begin at the same value. -/
theorem InRange.connFix {c : ConnCfg} (h : InRange c) : InRange (connFix c) := by
  obtain ⟨⟨sp, hsp, hslots, hlo, hhi⟩, hall⟩ := preauth_sets
  have hpre : 1 ≤ c .preauth ∧ c .preauth ≤ 64 := by
    have hin := (h sp hsp).2
    simp only [CSet.values, hslots, hlo, hhi, List.map_cons, List.map_nil, List.zip_cons_cons,
      List.zip_nil_right, List.mem_singleton, forall_eq] at hin
    exact hin
  intro s hs
  rcases hall s hs with hno | ⟨hslots, hlo, hhi⟩
  · have hsame : s.values (Hub.connFix c) = s.values c :=
      List.map_congr_left fun f hf => if_neg fun heq : f = .preauthip => hno (heq ▸ hf)
    rw [hsame]
    exact h s hs
  · have hin := (h s hs).2
    refine ⟨by rw [CSet.values, List.length_map], ?_⟩
    -- the smaller of two limits with one range
    simp only [CSet.values, hslots, hlo, hhi, List.map_cons, List.map_nil, List.zip_cons_cons,
      List.zip_nil_right, List.mem_singleton, forall_eq, Hub.connFix, if_true] at hin ⊢
    omega

/-- So does a line of the file. -/
theorem InRange.connLoad {c : ConnCfg} (h : InRange c) (group : ConnGroup) (body : Str) :
    InRange (connLoad c group body).1 := by
  unfold Hub.connLoad
  split
  · exact h
  split
  · exact h
  split
  · exact h
  · exact h.connSet group _ _

/-- And any line at all. -/
theorem InRange.configLine {c : ConnCfg} (h : InRange c) (line : Str) :
    InRange (connConfigLine c line) := by
  unfold connConfigLine
  split
  · exact h
  split
  · exact h
  split
  · exact (h.connLoad _ _).connFix
  split
  · exact (h.connLoad _ _).connFix
  · exact h

/-- One address may not have more logins in progress than all together. -/
def Coherent (c : ConnCfg) : Prop := c .preauthip ≤ c .preauth

/-- The correction makes limits coherent. -/
theorem coherent_connFix (c : ConnCfg) : Coherent (connFix c) := min_le_right _ _

/-- Each line leaves them so. -/
theorem Coherent.configLine {c : ConnCfg} (h : Coherent c) (line : Str) :
    Coherent (connConfigLine c line) := by
  unfold connConfigLine
  split
  · exact h
  split
  · exact h
  split
  · exact coherent_connFix _
  split
  · exact coherent_connFix _
  · exact h

/-- Whatever is in the config file, a hub starts with every limit within its range and no more
logins for one address than for all, a save and a restart keep these limits, and no set command
takes one out of its range. -/
theorem limits_of_any_file (text : Str) (ops : List (ConnGroup × Str × Option Str)) :
    InRange (connReload text) ∧ Coherent (connReload text)
      ∧ connReload (connLines (connReload text)) = connReload text
      ∧ InRange (ops.foldl (fun c op => (connSet c op.1 op.2.1 op.2.2).1) (connReload text)) := by
  have hstart : InRange (connReload text) ∧ Coherent (connReload text) := by
    unfold connReload
    refine List.foldlRecOn (motive := fun c : ConnCfg => InRange c ∧ Coherent c) _ _ ?_ ?_
    · exact ⟨inRange_defaults, show (2 : Int) ≤ 8 by decide⟩
    · exact fun c hc line _ => ⟨hc.1.configLine line, hc.2.configLine line⟩
  refine ⟨hstart.1, hstart.2, ?_, ?_⟩
  · rw [connReload_connLines hstart.1]
    exact (reloaded_eq_iff _).mpr hstart.2
  · refine List.foldlRecOn (motive := InRange) ops _ hstart.1 ?_
    exact fun c hc op _ => hc.connSet op.1 op.2.1 op.2.2

end IrcHub.Proofs
