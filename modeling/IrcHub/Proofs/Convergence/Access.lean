import IrcHub.Lib.Lww
import IrcHub.Proofs.Global.Cascade

/-!
# `IrcHub.Proofs.Convergence.Access`: flag records and bindings are a join

Flag records and bindings are a join. Both tables keep one register per key and join what they are
offered. A flag record ranks by its stamp; on a tie the set without `a` wins, then the shorter
one, then the smaller text. A binding ranks by its stamp and on a tie as a delete.

- `uflagsAccepts_iff`: the tie rule is a strict total order of flag sets
- `uflagPut_records`, `bindingView_put`: one put, on the records
- `accessView_put`: storing a record joins its rank into its register
- `Nested`, `raceNeverGrants_iff`: what two records of one stamp leave, and when it is a right of
  both
- `accessConverges`: every list of fair records ends in one view
- `access_converges_iff`: the tables converge; and a race between two flag records of one stamp
  never grants exactly if one set contains the other

The tie rule goes by `a`, by length and then by text. For two sets one of which contains the
other, the first two of these choose the smaller one. Two sets of which neither contains the other
tie as well, and then the winner holds a right that the other record does not give
(`access_race_grants`).

`Fair` is what a put needs to count: no clock, purge floor or table ceiling stands against it.
-/

set_option autoImplicit false

namespace IrcHub.Proofs

open IrcHub.Hub Str
open String (utf8Len)

/-! ### Ranks and registers -/

/-- Stamp, then the fewer rights. -/
abbrev FlagRank := Int ×ₗ (Bool ×ₗ (Nat ×ₗ Str))ᵒᵈ

/-- The rank of a flag record. -/
def flagRank (ts : Int) (flags : Str) : FlagRank :=
  toLex (ts, OrderDual.toDual (toLex (flags.contains 'a', toLex (utf8Len flags, flags))))

/-- The acceptance rule is the strict order of ranks. `h` leaves out stamps ahead of the clock,
which are refused whatever is held. -/
theorem uflagsAccepts_iff {clk : Clock} {ts cur : Int} {input flags : Str}
    (h : tsAhead clk ts = false) :
    uflagsAccepts clk ts input cur flags = true ↔ flagRank cur flags < flagRank ts input := by
  rw [flagRank, flagRank, Prod.Lex.toLex_lt_toLex]
  simp only [OrderDual.toDual_lt_toDual, Prod.Lex.toLex_lt_toLex]
  simp only [uflagsAccepts, h, Bool.false_eq_true, if_false, gt_iff_lt]
  rcases lt_trichotomy cur ts with hlt | rfl | hgt
  · simp [hlt, ne_of_gt hlt]
  · simp only [ne_eq, not_true_eq_false, if_false, lt_self_iff_false, false_or, true_and]
    -- the rest compares the two sets: `a`, then the length, then the text
    generalize input.contains 'a' = ia
    generalize flags.contains 'a' = ca
    rcases lt_trichotomy (utf8Len input) (utf8Len flags) with hl | hl | hl
    · cases ia <;> cases ca <;> simp [hl, ne_of_lt hl]
    · cases ia <;> cases ca <;> simp [hl]
    · cases ia <;> cases ca <;> simp [not_lt_of_gt hl, ne_of_gt hl]
  · simp [ne_of_lt hgt, ne_of_gt hgt, not_lt_of_gt hgt]

/-- Records of one rank have one stamp and one text: the text is compared as it is where the
lengths are equal. -/
theorem flagRank_injective {ts ts' : Int} {flags flags' : Str}
    (h : flagRank ts flags = flagRank ts' flags') : ts = ts' ∧ flags = flags' := by
  have hpair := toLex.injective h
  rw [Prod.mk.injEq] at hpair
  have hset := toLex.injective (OrderDual.toDual.injective hpair.2)
  rw [Prod.mk.injEq] at hset
  have htext := toLex.injective hset.2
  rw [Prod.mk.injEq] at htext
  exact ⟨hpair.1, htext.2⟩

/-- The flag registers of a hub, one per user. -/
def flagView (s : HubState) : Str → WithBot FlagRank :=
  Lww.rowView UflagRecord.uuid (fun r => flagRank r.timestamp r.flags) s.uflagRecords

/-- User and folded channel: the name of a binding. -/
def bindingKey (r : UchanRecord) : Str × Str := (r.uuid, lower r.chan)

/-- The bindings of a hub. -/
def bindingView (s : HubState) : Str × Str → WithBot (Int ×ₗ Bool) :=
  Lww.rowView bindingKey (fun r => lwwRank r.timestamp r.isActive) s.uchanRecords

/-- Flags and stamp a hub holds for a user. -/
def flagOf (s : HubState) (uuid : Str) : Option (Str × Int) :=
  (s.uflagRecords.find? fun r => decide (r.uuid = uuid)).map fun r => (r.flags, r.timestamp)

/-- State and stamp a hub holds for a user and a folded channel. -/
def bindingOf (s : HubState) (p : Str × Str) : Option (Bool × Int) :=
  (s.uchanRecords.find? fun r => decide (bindingKey r = p)).map fun r => (r.isActive, r.timestamp)

/-- Equal views give equal flags. -/
theorem flagOf_congr {s t : HubState} (h : flagView s = flagView t) (uuid : Str) :
    flagOf s uuid = flagOf t uuid := by
  refine Lww.find_map_congr (fun r r' hr => ?_) h uuid
  obtain ⟨hts, hflags⟩ := flagRank_injective hr
  rw [hts, hflags]

/-- Equal views give equal bindings. -/
theorem bindingOf_congr {s t : HubState} (h : bindingView s = bindingView t) (p : Str × Str) :
    bindingOf s p = bindingOf t p := by
  refine Lww.find_map_congr (fun r r' hr => ?_) h p
  have hpair := toLex.injective hr
  rw [Prod.mk.injEq] at hpair
  have hact : r.isActive = r'.isActive := by simpa using hpair.2
  rw [hact, hpair.1]

/-! ### Offers -/

/-- A `uf` or a `uc` record. -/
inductive AccessRecord
  | uf (uuid flags : Str) (ts : Int)
  | uc (uuid chan : Str) (active : Bool) (ts : Int)
  deriving DecidableEq

/-- The hub takes the record under some clock, or leaves it. -/
def AccessRecord.put (s : HubState) (p : Clock × AccessRecord) : HubState :=
  match p.2 with
  | .uf uuid flags ts => (uflagPut p.1 s uuid flags ts).1
  | .uc uuid chan active ts => (uchanPut p.1 s uuid chan active ts).1

/-- A record that no clock, purge floor or table ceiling stands against. -/
def AccessRecord.Fair (s : HubState) (p : Clock × AccessRecord) : Prop :=
  match p.2 with
  | .uf uuid _ ts => tsAhead p.1 ts = false
      ∧ ((uflagFind s uuid).isSome = true ∨ s.uflagRecords.length < maxHubUserFlags)
  | .uc uuid chan _ ts => tsAhead p.1 ts = false ∧ purgeFloorBlocks p.1 s ts = false
      ∧ ((uchanFind s uuid chan).isSome = true ∨ s.uchanRecords.length < maxHubChanBinds)

/-- The registers of both tables. -/
def accessView (s : HubState) : (Str → WithBot FlagRank) × (Str × Str → WithBot (Int ×ₗ Bool)) :=
  (flagView s, bindingView s)

/-- What a record joins into the registers. A malformed one joins nothing. -/
def AccessRecord.joins :
    AccessRecord → (Str → WithBot FlagRank) × (Str × Str → WithBot (Int ×ₗ Bool))
  | .uf uuid flags ts =>
    match uflagsCanon flags with
    | some canon =>
      if uuidShape uuid && decide (0 < ts) then (Lww.single uuid (flagRank ts canon), ⊥) else ⊥
    | none => ⊥
  | .uc uuid chan active ts =>
    if uuidShape uuid && uchanNameOk chan && decide (0 < ts) then
      (⊥, Lww.single (uuid, lower chan) (lwwRank ts active))
    else ⊥

/-- The lookup of flags is by uuid. -/
theorem uflagFind_eq (s : HubState) (uuid : Str) :
    uflagFind s uuid = s.uflagRecords.findIdx? fun r => decide (r.uuid = uuid) := by
  simp [uflagFind, beq_eq_decide]

/-- The lookup of bindings is by uuid and channel in lower case. -/
theorem uchanFind_eq (s : HubState) (uuid chan : Str) :
    uchanFind s uuid chan
      = s.uchanRecords.findIdx? fun r => decide (bindingKey r = (uuid, lower chan)) := by
  simp [uchanFind, bindingKey, eqIc, beq_eq_decide]

/-! ### One record -/

section Step

variable {clk : Clock} {s : HubState}

/-- The flag records after a well-formed record of a user: a new one at the end, or a row
rewritten if the record wins. -/
theorem uflagPut_records {uuid flags canon : Str} {ts : Int}
    (hcanon : uflagsCanon flags = some canon) (hshape : uuidShape uuid = true) (hpos : 0 < ts)
    (hahead : tsAhead clk ts = false)
    (hroom : (uflagFind s uuid).isSome = true ∨ s.uflagRecords.length < maxHubUserFlags) :
    (uflagFind s uuid = none ∧ (uflagPut clk s uuid flags ts).1.uflagRecords
        = s.uflagRecords ++ [{ uuid := uuid, flags := canon, timestamp := ts }])
      ∨ ∃ i r, uflagFind s uuid = some i ∧ s.uflagRecords[i]? = some r
        ∧ (uflagPut clk s uuid flags ts).1.uflagRecords
          = if flagRank r.timestamp r.flags < flagRank ts canon then
              s.uflagRecords.set i { r with flags := canon, timestamp := ts }
            else s.uflagRecords := by
  have hset : ∀ (t : HubState) (i : Nat), (uflagSet t i uuid canon ts).uflagRecords
      = t.uflagRecords.modify i fun r => { r with flags := canon, timestamp := ts } := by
    intro t i
    unfold uflagSet
    simp only []
    split
    · rfl
    · rfl
  unfold uflagPut
  rw [hcanon]
  simp only []
  rw [if_neg (by simp [hshape, hahead, hpos])]
  cases hfind : uflagFind s uuid with
  | none =>
    have hlen : ¬ s.uflagRecords.length ≥ maxHubUserFlags := by
      rcases hroom with h | h
      · rw [hfind] at h
        cases h
      · exact Nat.not_le.mpr h
    refine .inl ⟨rfl, ?_⟩
    simp only [if_neg hlen]
    rw [hset, List.modify_eq_set_getElem?]
    simp
  | some i =>
    obtain ⟨hlt, -, -⟩ := List.findIdx?_eq_some_iff_getElem.mp hfind
    refine .inr ⟨i, s.uflagRecords[i], rfl, List.getElem?_eq_getElem hlt, ?_⟩
    simp only [List.getElem?_eq_getElem hlt]
    by_cases hacc : flagRank s.uflagRecords[i].timestamp s.uflagRecords[i].flags
      < flagRank ts canon
    · rw [if_neg (by rw [(uflagsAccepts_iff hahead).mpr hacc]; decide), if_pos hacc, hset,
        List.modify_eq_set_getElem?, List.getElem?_eq_getElem hlt]
      rfl
    · have hno := mt (uflagsAccepts_iff hahead).mp hacc
      rw [if_pos (by simpa using hno), if_neg hacc]

/-- A flag record is joined into its register. -/
theorem flagView_put {uuid flags canon : Str} {ts : Int} (hcanon : uflagsCanon flags = some canon)
    (hshape : uuidShape uuid = true) (hpos : 0 < ts) (hahead : tsAhead clk ts = false)
    (hroom : (uflagFind s uuid).isSome = true ∨ s.uflagRecords.length < maxHubUserFlags) :
    flagView (uflagPut clk s uuid flags ts).1
      = flagView s ⊔ Lww.single uuid (flagRank ts canon) := by
  rcases uflagPut_records hcanon hshape hpos hahead hroom
    with ⟨hfind, heq⟩ | ⟨i, r, hfind, hget, heq⟩
  · rw [uflagFind_eq] at hfind
    rw [flagView, heq]
    exact Lww.rowView_append rfl hfind
  · rw [uflagFind_eq] at hfind
    rw [flagView, heq]
    split
    · rename_i hlt
      have hu : r.uuid = uuid := by
        have hp := List.find?_some (Table.find?_of_findIdx? hfind hget)
        exact of_decide_eq_true hp
      exact Lww.rowView_set hu hfind hget (sup_eq_right.mpr hlt.le).symm
    · rename_i hlt
      exact Lww.rowView_sup_of_le
        hfind hget (not_lt.mp hlt)

/-- A put of flags touches no binding. -/
theorem uflagPut_uchanRecords (uuid flags : Str) (ts : Int) :
    (uflagPut clk s uuid flags ts).1.uchanRecords = s.uchanRecords := by
  have hset : ∀ (t : HubState) (i : Nat) (canon : Str),
      (uflagSet t i uuid canon ts).uchanRecords = t.uchanRecords := by
    intro t i canon
    unfold uflagSet
    simp only []
    split
    · rfl
    · rfl
  unfold uflagPut
  split
  · rfl
  split
  · rfl
  split
  · split
    · split
      · rfl
      · exact hset _ _ _
    · rfl
  · split
    · rfl
    · exact hset _ _ _

/-- A binding is joined into its register. Besides what flags need, no purge floor may stop a
delete. -/
theorem bindingView_put {uuid chan : Str} {active : Bool} {ts : Int}
    (hshape : uuidShape uuid = true) (hname : uchanNameOk chan = true) (hpos : 0 < ts)
    (hahead : tsAhead clk ts = false) (hfloor : purgeFloorBlocks clk s ts = false)
    (hroom : (uchanFind s uuid chan).isSome = true ∨ s.uchanRecords.length < maxHubChanBinds) :
    bindingView (uchanPut clk s uuid chan active ts).1
      = bindingView s ⊔ Lww.single (uuid, lower chan) (lwwRank ts active) := by
  unfold uchanPut
  rw [if_neg (by simp [hshape, hname, hahead, hpos])]
  cases hfind : uchanFind s uuid chan with
  | none =>
    have hlen : ¬ s.uchanRecords.length ≥ maxHubChanBinds := by
      rcases hroom with h | h
      · rw [hfind] at h
        cases h
      · exact Nat.not_le.mpr h
    simp only [hfloor, Bool.and_false, Bool.false_eq_true, if_false, if_neg hlen]
    have hnew : (uchanSet
      { s with uchanRecords := s.uchanRecords ++ [{ uuid := uuid, chan := chan }] }
        s.uchanRecords.length active ts).uchanRecords
        = s.uchanRecords ++
          [{ uuid := uuid, chan := chan, isActive := active, timestamp := ts }] := by
      simp [uchanSet, List.modify_eq_set_getElem?]
    rw [uchanFind_eq] at hfind
    rw [bindingView, hnew]
    exact Lww.rowView_append rfl hfind
  | some i =>
    obtain ⟨hlt, -, -⟩ := List.findIdx?_eq_some_iff_getElem.mp hfind
    have hget := List.getElem?_eq_getElem hlt
    rw [uchanFind_eq] at hfind
    simp only [hget]
    by_cases hacc : lwwRank s.uchanRecords[i].timestamp s.uchanRecords[i].isActive
      < lwwRank ts active
    · rw [if_neg (by rw [(lwwAccepts_iff hahead).mpr hacc]; decide)]
      have hu : bindingKey s.uchanRecords[i] = (uuid, lower chan) := by
        have hp := List.find?_some (Table.find?_of_findIdx? hfind hget)
        exact of_decide_eq_true hp
      have hset : (uchanSet s i active ts).uchanRecords
          = s.uchanRecords.set i
            { s.uchanRecords[i] with isActive := active, timestamp := ts } := by
        rw [uchanSet, List.modify_eq_set_getElem?, hget]
        rfl
      rw [bindingView, hset]
      exact Lww.rowView_set hu hfind hget
        (sup_eq_right.mpr hacc.le).symm
    · have hno := mt (lwwAccepts_iff hahead).mp hacc
      rw [if_pos (by simpa using hno), bindingView]
      exact Lww.rowView_sup_of_le
        hfind hget (not_lt.mp hacc)

/-- Storing a record joins its rank into its register, in the one table, and leaves the other. -/
theorem accessView_put {p : Clock × AccessRecord} (h : AccessRecord.Fair s p) :
    accessView (AccessRecord.put s p) = accessView s ⊔ p.2.joins := by
  obtain ⟨clk, r⟩ := p
  cases r with
  -- a record of flags leaves the bindings
  | uf uuid flags ts =>
    obtain ⟨hahead, hroom⟩ := h
    have hother : bindingView (uflagPut clk s uuid flags ts).1 = bindingView s := by
      rw [bindingView, uflagPut_uchanRecords, bindingView]
    show (flagView (uflagPut clk s uuid flags ts).1, bindingView (uflagPut clk s uuid flags ts).1)
      = (flagView s, bindingView s) ⊔ (AccessRecord.uf uuid flags ts).joins
    rw [hother]
    -- flags that are not in order are not taken
    cases hcanon : uflagsCanon flags with
    | none =>
      have hsame : (uflagPut clk s uuid flags ts).1 = s := by rw [uflagPut, hcanon]
      simp only [hsame, AccessRecord.joins, hcanon]
      exact (sup_bot_eq (accessView s)).symm
    | some canon =>
      simp only [AccessRecord.joins, hcanon]
      -- a record with no user or no stamp is not taken
      by_cases hok : (uuidShape uuid && decide (0 < ts)) = true
      · rw [if_pos hok]
        rw [Bool.and_eq_true, decide_eq_true_eq] at hok
        rw [flagView_put hcanon hok.1 hok.2 hahead hroom]
        exact Prod.ext rfl (sup_bot_eq (bindingView s)).symm
      · have hsame : (uflagPut clk s uuid flags ts).1 = s := by
          rw [uflagPut, hcanon]
          simp only []
          rw [if_pos]
          rw [Bool.and_eq_true, decide_eq_true_eq, not_and_or, not_lt] at hok
          rcases hok with hok | hok
          · simp [hok]
          · simp [hok]
        rw [hsame, if_neg hok]
        exact (sup_bot_eq (accessView s)).symm
  -- a binding leaves the flags
  | uc uuid chan active ts =>
    obtain ⟨hahead, hfloor, hroom⟩ := h
    have hother : flagView (uchanPut clk s uuid chan active ts).1 = flagView s := by
      rw [flagView, uchanPut_uflagRecords, flagView]
    show (flagView (uchanPut clk s uuid chan active ts).1,
        bindingView (uchanPut clk s uuid chan active ts).1)
      = (flagView s, bindingView s) ⊔ (AccessRecord.uc uuid chan active ts).joins
    rw [hother]
    simp only [AccessRecord.joins]
    -- a binding of no user, no channel or no stamp is not taken
    by_cases hok : (uuidShape uuid && uchanNameOk chan && decide (0 < ts)) = true
    · rw [if_pos hok]
      rw [Bool.and_eq_true, Bool.and_eq_true, decide_eq_true_eq] at hok
      rw [bindingView_put hok.1.1 hok.1.2 hok.2 hahead hfloor hroom]
      exact Prod.ext (sup_bot_eq (flagView s)).symm rfl
    · have hsame : (uchanPut clk s uuid chan active ts).1 = s := by
        unfold uchanPut
        rw [if_pos]
        rw [Bool.and_eq_true, Bool.and_eq_true, decide_eq_true_eq, not_and_or, not_and_or, not_lt]
          at hok
        rcases hok with (hok | hok) | hok
        · simp [hok]
        · simp [hok]
        · simp [hok]
      rw [hsame, if_neg hok]
      exact (sup_bot_eq (accessView s)).symm

end Step

/-! ### Races -/

/-- Whether a text of flags gives a right. -/
def flagsGrant (flags : Str) (flag : Char) : Bool :=
  flags.contains 'a' || (flag != '\x00' && flags.contains flag)

/-- Every right of the first set is one of the second. -/
def Nested (flags flags' : Str) : Prop :=
  ∀ f, flagsGrant flags f = true → flagsGrant flags' f = true

/-- The canonical text has the same flags. -/
theorem contains_uflagsCanon {flags canon : Str} (h : uflagsCanon flags = some canon) (f : Char) :
    canon.contains f = flags.contains f := by
  unfold uflagsCanon at h
  split at h
  · rename_i hall
    cases h
    rw [List.all_eq_true] at hall
    rw [Bool.eq_iff_iff]
    simp only [List.contains_iff_mem, List.mem_filter]
    constructor
    · exact fun h => h.2
    · intro hf
      have hletter := hall f hf
      rw [List.contains_iff_mem] at hletter
      exact ⟨hletter, hf⟩
  · cases h

/-- So it grants the same. -/
theorem flagsGrant_canon {flags canon : Str} (h : uflagsCanon flags = some canon) :
    flagsGrant canon = flagsGrant flags := by
  funext f
  rw [flagsGrant, flagsGrant, contains_uflagsCanon h, contains_uflagsCanon h]

/-- A flag is an ASCII letter. -/
private theorem flagLetter_ascii {f : Char} (h : f ∈ userFlagLetters) :
    (f != '\x00') = true ∧ f.toNat < 128 := by
  have hall : userFlagLetters.all (fun f => (f != '\x00') && decide (f.toNat < 128)) = true := by
    decide
  have := List.all_eq_true.mp hall f h
  rwa [Bool.and_eq_true, decide_eq_true_eq] at this

/-- So a canonical text counts as many bytes as letters. -/
private theorem utf8Len_canon {flags canon : Str} (h : uflagsCanon flags = some canon) :
    utf8Len canon = canon.length := by
  refine utf8Len_eq_length fun f hf => ?_
  unfold uflagsCanon at h
  split at h
  · cases h
    exact (flagLetter_ascii (List.mem_filter.mp hf).1).2
  · cases h

/-- Among canonical sets without `a` a nested one is a sublist, so it is the shorter one unless
the two are equal. -/
private theorem sublist_of_nested {flags flags' canon canon' : Str}
    (h : uflagsCanon flags = some canon) (h' : uflagsCanon flags' = some canon')
    (hno : canon'.contains 'a' = false) (hnest : Nested canon canon') : canon.Sublist canon' := by
  have hsub : ∀ f, flags.contains f = true → f ∈ userFlagLetters → flags'.contains f = true := by
    intro f hf hletter
    have hzero := (flagLetter_ascii hletter).1
    have hgrant : flagsGrant canon f = true := by
      rw [flagsGrant, contains_uflagsCanon h f, hf, hzero]
      simp
    have := hnest f hgrant
    rw [flagsGrant, hno, hzero, contains_uflagsCanon h' f] at this
    simpa using this
  unfold uflagsCanon at h h'
  split at h
  · split at h'
    · cases h
      cases h'
      rw [show userFlagLetters.filter (flags.contains ·)
          = (userFlagLetters.filter (flags'.contains ·)).filter (flags.contains ·) from ?_]
      · exact List.filter_sublist
      · rw [List.filter_filter]
        refine List.filter_congr fun f hf => ?_
        cases hc : flags.contains f with
        | false => rfl
        | true => rw [hsub f hc hf, Bool.true_and]
    · cases h'
  · cases h

/-- If a nested set does not win, the other one gives no more. The two then have the same length
or `a` is in both. -/
theorem nested_of_not_lt {flags flags' canon canon' : Str} {ts : Int}
    (h : uflagsCanon flags = some canon) (h' : uflagsCanon flags' = some canon')
    (hnest : Nested canon canon') (hle : flagRank ts canon ≤ flagRank ts canon') :
    Nested canon' canon := by
  cases ha : canon.contains 'a' with
  | true =>
    intro f _
    rw [flagsGrant, ha, Bool.true_or]
  | false =>
    rw [flagRank, flagRank, Prod.Lex.toLex_le_toLex] at hle
    rcases hle with hlt | ⟨-, hle⟩
    · exact absurd hlt (lt_irrefl _)
    rw [OrderDual.toDual_le_toDual, Prod.Lex.toLex_le_toLex, ha] at hle
    rcases hle with hlt | ⟨ha', hle⟩
    · cases hc : canon'.contains 'a' with
      | false =>
        rw [hc] at hlt
        exact absurd hlt (lt_irrefl _)
      | true =>
        rw [hc] at hlt
        cases hlt
    -- neither set has `a`: the nested one is a sublist and not the shorter one
    have hsub := sublist_of_nested h h' ha' hnest
    rw [Prod.Lex.toLex_le_toLex] at hle
    have hlen : canon'.length ≤ canon.length := by
      rw [← utf8Len_canon h, ← utf8Len_canon h']
      rcases hle with hlt | ⟨heq, -⟩
      · exact hlt.le
      · exact heq.le
    rw [hsub.eq_of_length_le hlen]
    exact fun f hf => hf

/-- What a user may do is what its flags grant. -/
theorem userHasFlag_eq (s : HubState) (uuid : Str) (f : Char) :
    userHasFlag s uuid f = flagsGrant (userFlags s uuid) f := rfl

/-- A user has the flags of the record in the view. -/
theorem userFlags_of_view {s : HubState} {uuid flags : Str} {ts : Int}
    (h : flagView s uuid = flagRank ts flags) : userFlags s uuid = flags := by
  unfold flagView Lww.rowView at h
  unfold userFlags
  rw [uflagFind_eq]
  cases hfind : s.uflagRecords.findIdx? (fun r => decide (r.uuid = uuid)) with
  | none =>
    have hnone : s.uflagRecords.find? (fun r => decide (r.uuid = uuid)) = none := by
      simpa using hfind
    rw [hnone] at h
    cases h
  | some i =>
    obtain ⟨hlt, -, -⟩ := List.findIdx?_eq_some_iff_getElem.mp hfind
    have hget := List.getElem?_eq_getElem hlt
    rw [Table.find?_of_findIdx? hfind hget] at h
    simp only [hget, Option.map_some, Option.getD_some]
    exact (flagRank_injective (WithBot.coe_inj.mp h)).2

/-- A record in the view is found. -/
theorem uflagFind_of_view {s : HubState} {uuid : Str} {r : FlagRank} (h : flagView s uuid = r) :
    (uflagFind s uuid).isSome = true := by
  rw [uflagFind_eq]
  cases hfind : s.uflagRecords.findIdx? (fun r => decide (r.uuid = uuid)) with
  | some i => rfl
  | none =>
    have hnone : s.uflagRecords.find? (fun r => decide (r.uuid = uuid)) = none := by
      simpa using hfind
    rw [flagView, Lww.rowView_of_find_none hnone] at h
    cases h

/-- A hub may store a flag record of the stamp, and holds nothing as new. -/
structure RaceStart (t : HubState) (clk : Clock) (uuid : Str) (ts : Int) : Prop where
  notAhead : tsAhead clk ts = false
  room : (uflagFind t uuid).isSome = true ∨ t.uflagRecords.length < maxHubUserFlags
  older : ∀ p, flagOf t uuid = some p → p.2 < ts

/-- Two flag records of one user and one stamp: what the hub grants after both of them, each of
the two grants on its own. -/
def RaceNeverGrants (uuid flags flags' : Str) (ts : Int) : Prop :=
  ∀ (t : HubState) (clk clk' : Clock), RaceStart t clk uuid ts → RaceStart t clk' uuid ts →
    ∀ f, userHasFlag (uflagPut clk' (uflagPut clk t uuid flags ts).1 uuid flags' ts).1 uuid f
      = true → userHasFlag (uflagPut clk t uuid flags ts).1 uuid f = true
        ∧ userHasFlag (uflagPut clk' t uuid flags' ts).1 uuid f = true

section Race

variable {t : HubState} {clk clk' : Clock} {uuid flags flags' canon canon' : Str} {ts : Int}

/-- The first record of a race is stored: nothing stands in its way. -/
theorem RaceStart.view_put (h : RaceStart t clk uuid ts) (hcanon : uflagsCanon flags = some canon)
    (hshape : uuidShape uuid = true) (hpos : 0 < ts) :
    flagView (uflagPut clk t uuid flags ts).1 uuid = flagRank ts canon := by
  rw [flagView_put hcanon hshape hpos h.notAhead h.room, Pi.sup_apply, Lww.single, if_pos rfl]
  have hold := h.older
  unfold flagOf at hold
  cases hfind : t.uflagRecords.find? (fun r => decide (r.uuid = uuid)) with
  | none => rw [flagView, Lww.rowView_of_find_none hfind, bot_sup_eq]
  | some r =>
    rw [hfind] at hold
    have hlt := hold _ rfl
    rw [flagView, Lww.rowView_of_find hfind, ← WithBot.coe_sup, sup_eq_right.mpr]
    exact (Prod.Lex.toLex_lt_toLex.mpr (.inl hlt)).le

/-- The second record of a race is joined with the first. -/
theorem RaceStart.view_race (h : RaceStart t clk uuid ts) (hahead : tsAhead clk' ts = false)
    (hcanon : uflagsCanon flags = some canon) (hcanon' : uflagsCanon flags' = some canon')
    (hshape : uuidShape uuid = true) (hpos : 0 < ts) :
    flagView (uflagPut clk' (uflagPut clk t uuid flags ts).1 uuid flags' ts).1 uuid
      = (flagRank ts canon ⊔ flagRank ts canon' : FlagRank) := by
  have hfirst := h.view_put hcanon hshape hpos
  rw [flagView_put hcanon' hshape hpos hahead (.inl (uflagFind_of_view hfirst)),
    Pi.sup_apply, hfirst, Lww.single, if_pos rfl, WithBot.coe_sup]

/-- A race never grants exactly if one of the two sets contains the other. `RaceNeverGrants` is
about every hub that holds nothing as new, so for two sets that are not nested one hub is enough
to show that it fails. -/
theorem raceNeverGrants_iff (hcanon : uflagsCanon flags = some canon)
    (hcanon' : uflagsCanon flags' = some canon') (hshape : uuidShape uuid = true)
    (hpos : 0 < ts) :
    RaceNeverGrants uuid flags flags' ts ↔ Nested flags flags' ∨ Nested flags' flags := by
  have hnest : ∀ {a a' c c' : Str}, uflagsCanon a = some c → uflagsCanon a' = some c' →
      (Nested a a' ↔ Nested c c') := by
    intro a a' c c' h h'
    rw [Nested, Nested, flagsGrant_canon h, flagsGrant_canon h']
  -- after both records the user has the flags of the greater rank
  have hwin : ∀ (t : HubState) (clk clk' : Clock), RaceStart t clk uuid ts →
      RaceStart t clk' uuid ts →
      ∀ w, flagRank ts canon ⊔ flagRank ts canon' = flagRank ts w → ∀ f,
        (userHasFlag (uflagPut clk' (uflagPut clk t uuid flags ts).1 uuid flags' ts).1 uuid f
        = true →
          userHasFlag (uflagPut clk t uuid flags ts).1 uuid f = true
            ∧ userHasFlag (uflagPut clk' t uuid flags' ts).1 uuid f = true)
        ↔ (flagsGrant w f = true → flagsGrant canon f = true ∧ flagsGrant canon' f = true) := by
    intro t clk clk' h h' w hw f
    have hboth := h.view_race h'.notAhead hcanon hcanon' hshape hpos
    rw [hw] at hboth
    rw [userHasFlag_eq, userHasFlag_eq, userHasFlag_eq, userFlags_of_view hboth,
      userFlags_of_view (h.view_put hcanon hshape hpos),
      userFlags_of_view (h'.view_put hcanon' hshape hpos)]
  rw [hnest hcanon hcanon', hnest hcanon' hcanon]
  constructor
  · intro hnever
    -- the empty hub under the clock of the stamp can take both records
    have hstart : RaceStart {} { now := ts } uuid ts := by
      refine ⟨?_, .inr (by decide), fun p hp => by cases hp⟩
      simp only [tsAhead, Bool.not_false, Bool.true_and, decide_eq_false_iff_not,
        gt_iff_lt, not_lt]
      show ts ≤ ts + 3600
      omega
    -- the one that ranks higher wins, so it grants no more than the other
    rcases le_total (flagRank ts canon) (flagRank ts canon') with hle | hle
    · refine .inr fun f hf => ?_
      exact ((hwin _ _ _ hstart hstart canon' (sup_eq_right.mpr hle) f).mp
        (hnever _ _ _ hstart hstart f) hf).1
    · refine .inl fun f hf => ?_
      exact ((hwin _ _ _ hstart hstart canon (sup_eq_left.mpr hle) f).mp
        (hnever _ _ _ hstart hstart f) hf).2
  -- if one set contains the other the lesser set wins
  · intro hor t clk clk' h h' f
    rcases le_total (flagRank ts canon) (flagRank ts canon') with hle | hle
    · rw [hwin t clk clk' h h' canon' (sup_eq_right.mpr hle) f]
      intro hf
      refine ⟨?_, hf⟩
      rcases hor with hn | hn
      · exact nested_of_not_lt hcanon hcanon' hn hle f hf
      · exact hn f hf
    · rw [hwin t clk clk' h h' canon (sup_eq_left.mpr hle) f]
      intro hf
      refine ⟨hf, ?_⟩
      rcases hor with hn | hn
      · exact hn f hf
      · exact nested_of_not_lt hcanon' hcanon hn hle f hf

end Race

/-! ### Convergence -/

/-- Every hub that starts like `s` and is offered the records of `l`, in any order and as often as
it likes, ends with the same flags and bindings. -/
def AccessConverges (s : HubState) (l : List (Clock × AccessRecord)) : Prop :=
  ∀ l', Lww.Along AccessRecord.Fair AccessRecord.put s l' →
    (∀ r, r ∈ l.map Prod.snd ↔ r ∈ l'.map Prod.snd) →
    (∀ uuid, flagOf (l.foldl AccessRecord.put s) uuid = flagOf (l'.foldl AccessRecord.put s) uuid)
      ∧ ∀ p, bindingOf (l.foldl AccessRecord.put s) p = bindingOf (l'.foldl AccessRecord.put s) p

/-- A property of every two well-formed flag records of one user and one stamp. -/
def EveryTie (P : Str → Str → Str → Int → Prop) (l : List (Clock × AccessRecord)) : Prop :=
  ∀ uuid flags flags' ts, .uf uuid flags ts ∈ l.map Prod.snd →
    .uf uuid flags' ts ∈ l.map Prod.snd → (uflagsCanon flags).isSome = true →
    (uflagsCanon flags').isSome = true → uuidShape uuid = true → 0 < ts → P uuid flags flags' ts

/-- Every list of fair records ends in one view, whatever its order and repetition. The view is
the join of the records with what was there. -/
theorem accessConverges {s : HubState} {l : List (Clock × AccessRecord)}
    (hl : Lww.Along AccessRecord.Fair AccessRecord.put s l) : AccessConverges s l := by
  intro l' hl' hsame
  have hview : accessView (l.foldl AccessRecord.put s) = accessView
    (l'.foldl AccessRecord.put s) := by
    have hkeep : ∀ (t : HubState) (p : Clock × AccessRecord), True →
      AccessRecord.Fair t p → True :=
      fun _ _ _ _ => trivial
    refine Lww.view_run_congr (f := fun p : Clock × AccessRecord => p.2.joins) hkeep
      (fun t p _ hp => accessView_put hp) trivial hl hl' ?_
    intro y
    constructor
    · rintro ⟨p, hp, rfl⟩
      obtain ⟨p', hp', heq⟩ := List.mem_map.mp ((hsame p.2).mp (List.mem_map_of_mem hp))
      exact ⟨p', hp', by simp only [heq]⟩
    · rintro ⟨p, hp, rfl⟩
      obtain ⟨p', hp', heq⟩ := List.mem_map.mp ((hsame p.2).mpr (List.mem_map_of_mem hp))
      exact ⟨p', hp', by simp only [heq]⟩
  exact ⟨flagOf_congr (congrArg Prod.fst hview), bindingOf_congr (congrArg Prod.snd hview)⟩

/-- Flags and bindings converge whatever is offered. That no race grants besides is the case
exactly if of every two flag records that tie one set contains the other. `hl` says that the
records count where they arrive. -/
theorem access_converges_iff {s : HubState} {l : List (Clock × AccessRecord)}
    (hl : Lww.Along AccessRecord.Fair AccessRecord.put s l) :
    (AccessConverges s l ∧ EveryTie RaceNeverGrants l) ↔
      EveryTie (fun _ flags flags' _ => Nested flags flags' ∨ Nested flags' flags) l := by
  have htie : EveryTie RaceNeverGrants l ↔
      EveryTie (fun _ flags flags' _ => Nested flags flags' ∨ Nested flags' flags) l := by
    refine forall₄_congr fun uuid flags flags' ts => ?_
    refine imp_congr_right fun _ => imp_congr_right fun _ => imp_congr_right fun hc => ?_
    refine imp_congr_right fun hc' => imp_congr_right fun hshape => imp_congr_right fun hpos => ?_
    obtain ⟨canon, hcanon⟩ := Option.isSome_iff_exists.mp hc
    obtain ⟨canon', hcanon'⟩ := Option.isSome_iff_exists.mp hc'
    exact raceNeverGrants_iff hcanon hcanon' hshape hpos
  rw [← htie]
  exact and_iff_right (accessConverges hl)

/-- The uuid of an admin whose flags are raced. -/
def racerUuid : Str := "01234567-89ab-cdef-0123-456789abcdef".toList

/-- Two flag records of one admin in the same second. -/
def flagRace (flags flags' : Str) : List (Clock × AccessRecord) :=
  [({ now := 1000 }, .uf racerUuid flags 900), ({ now := 1010 }, .uf racerUuid flags' 900)]

/-- The theorem at a set and a part of it. -/
theorem access_converges_nested :
    AccessConverges {} (flagRace "bc".toList ['b'])
      ∧ EveryTie RaceNeverGrants (flagRace "bc".toList ['b']) := by
  have hl : Lww.Along AccessRecord.Fair AccessRecord.put {} (flagRace "bc".toList ['b']) :=
    ⟨⟨by decide, by decide⟩, ⟨by decide, .inl (by decide +kernel)⟩, trivial⟩
  have hself : ∀ flags : Str, Nested flags flags := fun flags f hf => hf
  have hpart : Nested ['b'] "bc".toList := by
    intro f hf
    have hb : f = 'b' := by
      simp only [flagsGrant, List.contains_cons, List.contains_nil, Bool.or_false,
        Bool.or_eq_true, Bool.and_eq_true, beq_iff_eq] at hf
      rcases hf with hf | hf
      · cases hf
      · exact hf.2
    rw [hb]
    decide
  refine (access_converges_iff hl).mpr ?_
  intro uuid flags flags' ts h h' _ _ _ _
  simp only [flagRace, List.map_cons, List.map_nil, List.mem_cons, List.not_mem_nil, or_false,
    AccessRecord.uf.injEq] at h h'
  rcases h with ⟨-, rfl, -⟩ | ⟨-, rfl, -⟩
  · rcases h' with ⟨-, rfl, -⟩ | ⟨-, rfl, -⟩
    · exact .inl (hself _)
    · exact .inr hpart
  · rcases h' with ⟨-, rfl, -⟩ | ⟨-, rfl, -⟩
    · exact .inl hpart
    · exact .inl (hself _)

/-- Neither of `b` and `c` contains the other: the hub grants `b`, which the second record does
not. -/
theorem access_race_grants :
    userHasFlag ((flagRace ['b'] ['c']).foldl AccessRecord.put {}) racerUuid 'b' = true
      ∧ userHasFlag ([({ now := 1010 }, .uf racerUuid ['c'] 900)].foldl AccessRecord.put {})
        racerUuid 'b' = false
      ∧ ¬ EveryTie RaceNeverGrants (flagRace ['b'] ['c']) := by
  have hboth : userHasFlag
    (uflagPut { now := 1010 } (uflagPut { now := 1000 } {} racerUuid ['b'] 900).1
      racerUuid ['c'] 900).1 racerUuid 'b' = true := by decide +kernel
  have hone : userHasFlag (uflagPut { now := 1010 } {} racerUuid ['c'] 900).1 racerUuid 'b'
    = false := by
    decide +kernel
  refine ⟨hboth, hone, fun h => ?_⟩
  have hrace := h racerUuid ['b'] ['c'] 900 (.head _) (.tail _ (.head _)) (by decide) (by decide)
    (by decide +kernel) (by decide)
  have hstart : ∀ clk : Clock, tsAhead clk 900 = false → RaceStart {} clk racerUuid 900 :=
    fun clk hclk => ⟨hclk, .inr (by decide), fun p hp => by cases hp⟩
  have hgrant := (hrace {} { now := 1000 } { now := 1010 } (hstart _ (by decide))
    (hstart _ (by decide))
    'b' hboth).2
  rw [hone] at hgrant
  cases hgrant

end IrcHub.Proofs
