import IrcHub.Proofs.Delete.Runs
import IrcHub.Proofs.Global.Frame
import IrcHub.Proofs.Writes.Runs

/-!
# `IrcHub.Proofs.Purge.Rights`: one flag record per user, one binding per user and channel

`UflagResult` lists the outcomes of `uflagPut`. No write makes a second record of a key
(`RightsKeyed.write`), so none is there after any run, and the dropping of second records in
`accessPrune` drops nothing (`keepFirst_eq_filter`).

* `RightsKeyed.uflagPut`, `RightsKeyed.uchanPut`: a record is written over the one of its key, or
  added when there is none
* `RightsKeyed.remapFlag`, `RightsKeyed.remapChan`: records move to another uuid when two users
  become one
* `rightsKeyed_runHub`: the tables of rights are keyed after every run
-/

set_option autoImplicit false

namespace IrcHub.Proofs

open IrcHub.Hub Str
open String (utf8Len)

/-! ### Flag records -/

/-- The outcomes of `uflagPut`, with what has been checked by then. -/
inductive UflagResult (clk : Clock) (s : HubState) (uuid flags : Str) (ts : Int) :
    HubState × Bool → Prop
  | refused : UflagResult clk s uuid flags ts (s, false)
  | rewrote (canon : Str) (i : Nat) (r : UflagRecord) (hcanon : uflagsCanon flags = some canon)
      (hshape : uuidShape uuid = true) (hpos : 0 < ts) (hahead : tsAhead clk ts = false)
      (hfind : uflagFind s uuid = some i) (hget : s.uflagRecords[i]? = some r)
      (hacc : uflagsAccepts clk ts canon r.timestamp r.flags = true) :
      UflagResult clk s uuid flags ts (uflagSet s i uuid canon ts, true)
  | new (canon : Str) (hcanon : uflagsCanon flags = some canon) (hshape : uuidShape uuid = true)
      (hpos : 0 < ts) (hahead : tsAhead clk ts = false) (hfind : uflagFind s uuid = none)
      (hroom : s.uflagRecords.length < maxHubUserFlags) :
      UflagResult clk s uuid flags ts
        (uflagSet { s with uflagRecords := s.uflagRecords ++ [{ uuid := uuid }] }
          s.uflagRecords.length uuid canon ts, true)

/-- A put of flags refuses, writes over the row of the user, or adds one. -/
theorem uflagPut_result (clk : Clock) (s : HubState) (uuid flags : Str) (ts : Int) :
    UflagResult clk s uuid flags ts (uflagPut clk s uuid flags ts) := by
  unfold uflagPut
  split
  · exact .refused
  rename_i canon hcanon
  split
  · exact .refused
  rename_i hguard
  simp only [Bool.or_eq_true, Bool.not_eq_true', decide_eq_true_eq, not_or, not_le,
    Bool.not_eq_true, Bool.not_eq_false] at hguard
  obtain ⟨⟨hshape, hpos⟩, hahead⟩ := hguard
  split
  · rename_i i hfind
    split
    · rename_i r hget
      split
      · exact .refused
      · rename_i hacc
        exact .rewrote canon i r hcanon hshape hpos hahead hfind hget (by simpa using hacc)
    · exact .refused
  · rename_i hfind
    split
    · exact .refused
    · rename_i hroom
      exact .new canon hcanon hshape hpos hahead hfind (Nat.lt_of_not_le hroom)

/-- The row that is written over, in the table. -/
theorem uflagSet_records (s : HubState) (i : Nat) (uuid canon : Str) (ts : Int) :
    (uflagSet s i uuid canon ts).uflagRecords
      = s.uflagRecords.modify i fun r => { r with flags := canon, timestamp := ts } := by
  unfold uflagSet
  simp only []
  split
  · rfl
  · rfl

/-- The same by position, when the row is there. -/
theorem uflagSet_eq {s : HubState} {i : Nat} {r : UflagRecord}
    (hget : s.uflagRecords[i]? = some r) (uuid canon : Str) (ts : Int) :
    (uflagSet s i uuid canon ts).uflagRecords
      = s.uflagRecords.set i { r with flags := canon, timestamp := ts } := by
  rw [uflagSet_records, List.modify_eq_set_getElem?, hget]
  rfl

/-- A new flag record is the last one. -/
theorem uflagSet_new (s : HubState) (uuid canon : Str) (ts : Int) :
    (uflagSet { s with uflagRecords := s.uflagRecords ++ [{ uuid := uuid }] }
      s.uflagRecords.length uuid canon ts).uflagRecords
      = s.uflagRecords ++ [{ uuid := uuid, flags := canon, timestamp := ts }] := by
  have hget : (s.uflagRecords ++ [({ uuid := uuid } : UflagRecord)])[s.uflagRecords.length]?
      = some { uuid := uuid } := by simp
  rw [uflagSet_eq (s := { s with uflagRecords := s.uflagRecords ++ [{ uuid := uuid }] }) hget]
  simp

/-- No binding changes with the flags. -/
theorem uflagSet_uchanRecords (s : HubState) (i : Nat) (uuid canon : Str) (ts : Int) :
    (uflagSet s i uuid canon ts).uchanRecords = s.uchanRecords := by
  unfold uflagSet
  simp only []
  split
  · rfl
  · rfl

/-- No user does. -/
theorem uflagSet_userRecords (s : HubState) (i : Nat) (uuid canon : Str) (ts : Int) :
    (uflagSet s i uuid canon ts).userRecords = s.userRecords := by
  unfold uflagSet
  simp only []
  split
  · rfl
  · rfl

/-- No mask does. -/
theorem uflagSet_maskRecords (s : HubState) (i : Nat) (uuid canon : Str) (ts : Int) :
    (uflagSet s i uuid canon ts).maskRecords = s.maskRecords := by
  unfold uflagSet
  simp only []
  split
  · rfl
  · rfl

/-- The row that is found is the user's. -/
theorem uflagFind_some {s : HubState} {uuid : Str} {i : Nat} {r : UflagRecord}
    (hfind : uflagFind s uuid = some i) (hget : s.uflagRecords[i]? = some r) : r.uuid = uuid := by
  obtain ⟨hi, heq, -⟩ := List.findIdx?_eq_some_iff_getElem.mp hfind
  rw [List.getElem?_eq_getElem hi] at hget
  cases hget
  exact beq_iff_eq.mp heq

/-- When none is found no row is. -/
theorem uflagFind_none {s : HubState} {uuid : Str} (hfind : uflagFind s uuid = none) :
    ∀ r ∈ s.uflagRecords, r.uuid ≠ uuid :=
  fun r hr => beq_eq_false_iff_ne.mp (List.findIdx?_eq_none_iff.mp hfind r hr)

/-! ### Keys -/

/-- One record per key in the tables of rights, and usable channel names. -/
structure RightsKeyed (s : HubState) : Prop where
  flags : s.uflagRecords.Pairwise fun a b => a.uuid ≠ b.uuid
  binds : s.uchanRecords.Pairwise fun a b => ¬ (a.uuid = b.uuid ∧ eqIc a.chan b.chan = true)
  names : ∀ r ∈ s.uchanRecords, uchanNameOk r.chan = true

/-- The state a hub starts in. -/
theorem rightsKeyed_empty : RightsKeyed {} := ⟨.nil, .nil, fun _ h => (List.not_mem_nil h).elim⟩

section Writes

variable {s t : HubState}

/-- Rows taken out leave rights keyed. -/
theorem RightsKeyed.of_sublist (h : RightsKeyed s)
    (hflags : t.uflagRecords.Sublist s.uflagRecords)
    (hbinds : t.uchanRecords.Sublist s.uchanRecords) : RightsKeyed t :=
  ⟨h.flags.sublist hflags, h.binds.sublist hbinds, fun r hr => h.names r (hbinds.subset hr)⟩

/-- The property reads the tables of rights only. -/
theorem RightsKeyed.of_eq (h : RightsKeyed s) (hflags : t.uflagRecords = s.uflagRecords)
    (hbinds : t.uchanRecords = s.uchanRecords) : RightsKeyed t :=
  h.of_sublist (hflags ▸ List.Sublist.refl _) (hbinds ▸ List.Sublist.refl _)

/-- Flags are written over the one row of the user, or added when there is none. -/
theorem RightsKeyed.uflagPut (h : RightsKeyed s) (clk : Clock) (uuid flags : Str) (ts : Int) :
    RightsKeyed (uflagPut clk s uuid flags ts).1 := by
  have hres := uflagPut_result clk s uuid flags ts
  generalize Hub.uflagPut clk s uuid flags ts = q at hres ⊢
  cases hres with
  | refused => exact h
  | rewrote canon i r hcanon hshape hpos hahead hfind hget hacc =>
    refine ⟨?_, ?_, ?_⟩
    · rw [uflagSet_eq hget]
      exact Table.pairwise_set h.flags hget (fun _ _ hx => hx) fun _ _ hx => hx
    · rw [uflagSet_uchanRecords]
      exact h.binds
    · rw [uflagSet_uchanRecords]
      exact h.names
  | new canon hcanon hshape hpos hahead hfind hroom =>
    refine ⟨?_, ?_, ?_⟩
    · rw [uflagSet_new]
      refine List.pairwise_append.mpr ⟨h.flags, List.pairwise_singleton _ _, fun a ha b hb => ?_⟩
      rw [List.mem_singleton.mp hb]
      exact uflagFind_none hfind a ha
    · rw [uflagSet_uchanRecords]
      exact h.binds
    · rw [uflagSet_uchanRecords]
      exact h.names

/-- When no binding is found none is of the pair, in any case. -/
theorem uchanFind_none {uuid chan : Str} (hfind : uchanFind s uuid chan = none) :
    ∀ r ∈ s.uchanRecords, ¬ (r.uuid = uuid ∧ eqIc r.chan chan = true) := by
  intro r hr hsame
  have hno := List.findIdx?_eq_none_iff.mp hfind r hr
  rw [hsame.1, hsame.2, beq_self_eq_true] at hno
  cases hno

/-- A binding is written over the one row of the pair, or added when there is none. -/
theorem RightsKeyed.uchanPut (h : RightsKeyed s) (clk : Clock) (uuid chan : Str) (active : Bool)
    (ts : Int) : RightsKeyed (uchanPut clk s uuid chan active ts).1 := by
  have hflags := uchanPut_uflagRecords clk s uuid chan active ts
  have hres := uchanPut_result clk s uuid chan active ts
  generalize Hub.uchanPut clk s uuid chan active ts = q at hres hflags ⊢
  refine ⟨hflags ▸ h.flags, ?_, ?_⟩
  · cases hres with
    | refused => exact h.binds
    | rewrote i r hshape hname hpos hahead hfind hget hacc =>
      rw [uchanSet_eq hget]
      exact Table.pairwise_set h.binds hget (fun _ _ hx => hx) fun _ _ hx => hx
    | new hshape hname hpos hahead hfind hroom =>
      refine List.pairwise_append.mpr ⟨h.binds, List.pairwise_singleton _ _, fun a ha b hb => ?_⟩
      rw [List.mem_singleton.mp hb]
      exact uchanFind_none hfind a ha
  · cases hres with
    | refused => exact h.names
    | rewrote i r hshape hname hpos hahead hfind hget hacc =>
      rw [uchanSet_eq hget]
      intro a ha
      rcases List.mem_or_eq_of_mem_set ha with ha | rfl
      · exact h.names a ha
      · exact h.names r (List.mem_of_getElem? hget)
    | new hshape hname hpos hahead hfind hroom =>
      intro a ha
      rcases List.mem_append.mp ha with ha | ha
      · exact h.names a ha
      · rw [List.mem_singleton.mp ha]
        exact hname

/-- Flags move to another uuid in their row, or over the row the other has. Either way nobody has
two. -/
theorem RightsKeyed.remapFlag (h : RightsKeyed s) (clk : Clock) (old new : Str) (i : Nat) :
    RightsKeyed (remapFlag clk old new s i) := by
  unfold Hub.remapFlag
  split
  · exact h
  rename_i r hget
  split
  · exact h
  split
  · rename_i hfind
    refine ⟨?_, h.binds, h.names⟩
    show (s.uflagRecords.modify i fun r => { r with uuid := new }).Pairwise _
    rw [List.modify_eq_set_getElem?, hget]
    exact Table.pairwise_set h.flags hget (fun x hx _ => uflagFind_none hfind x hx)
      fun x hx _ => (uflagFind_none hfind x hx).symm
  split
  · exact h
  rename_i d _ _ dst hdst
  split
  · refine ⟨?_, h.binds, h.names⟩
    show (s.uflagRecords.modify d fun x =>
      { x with flags := r.flags, timestamp := r.timestamp }).Pairwise _
    rw [List.modify_eq_set_getElem?, hdst]
    exact Table.pairwise_set h.flags hdst (fun _ _ hx => hx) fun _ _ hx => hx
  · exact h

/-- A binding does the same, for one channel at a time. -/
theorem RightsKeyed.remapChan (h : RightsKeyed s) (clk : Clock) (old new : Str) (i : Nat) :
    RightsKeyed (remapChan clk old new s i) := by
  unfold Hub.remapChan
  split
  · exact h
  rename_i r hget
  split
  · exact h
  split
  · rename_i hfind
    have hset : (s.uchanRecords.modify i fun r => { r with uuid := new })
        = s.uchanRecords.set i { r with uuid := new } := by
      rw [List.modify_eq_set_getElem?, hget]
      rfl
    refine ⟨h.flags, ?_, ?_⟩
    · show (s.uchanRecords.modify i fun r => { r with uuid := new }).Pairwise _
      rw [hset]
      refine Table.pairwise_set h.binds hget (fun x hx _ => uchanFind_none hfind x hx)
        fun x hx _ hsame => ?_
      exact uchanFind_none hfind x hx ⟨hsame.1.symm, eqIc_symm hsame.2⟩
    · show ∀ a ∈ s.uchanRecords.modify i fun r => { r with uuid := new }, uchanNameOk a.chan
        = true
      rw [hset]
      intro a ha
      rcases List.mem_or_eq_of_mem_set ha with ha | rfl
      · exact h.names a ha
      · exact h.names r (List.mem_of_getElem? hget)
  split
  · exact h
  rename_i d _ _ dst hdst
  split
  · have hset : (s.uchanRecords.modify d fun x =>
      { x with isActive := r.isActive, timestamp := r.timestamp })
        = s.uchanRecords.set d { dst with isActive := r.isActive, timestamp := r.timestamp } := by
      rw [List.modify_eq_set_getElem?, hdst]
      rfl
    refine ⟨h.flags, ?_, ?_⟩
    · show (s.uchanRecords.modify d fun x =>
        { x with isActive := r.isActive, timestamp := r.timestamp }).Pairwise _
      rw [hset]
      exact Table.pairwise_set h.binds hdst (fun _ _ hx => hx) fun _ _ hx => hx
    · show ∀ a ∈ s.uchanRecords.modify d fun x =>
        { x with isActive := r.isActive, timestamp := r.timestamp }, uchanNameOk a.chan = true
      rw [hset]
      intro a ha
      rcases List.mem_or_eq_of_mem_set ha with ha | rfl
      · exact h.names a ha
      · exact h.names dst (List.mem_of_getElem? hdst)
  · exact h

/-- A put of a record touches no flags. -/
theorem putRecord_uflagRecords (clk : Clock) (s : HubState) (k : GlobalKey) (v : Str) (ts : Int) :
    (putRecord clk s k v ts).1.uflagRecords = s.uflagRecords := by
  have hoff := congrArg HubState.uflagRecords (offStore_putRecord clk s k v ts)
  exact hoff

/-- Nor does the sweep of orphaned records. -/
theorem purgeChanOrphans_uflagRecords (s : HubState) :
    (purgeChanOrphans s).uflagRecords = s.uflagRecords := by
  have hoff := congrArg HubState.uflagRecords (offStore_purgeChanOrphans s)
  exact hoff

/-- A purge only drops flag records. -/
theorem executePurge_flags_sublist (clk : Clock) (s : HubState) (cutoff : Int) :
    (executePurge clk s cutoff).uflagRecords.Sublist s.uflagRecords := by
  have hglobals : (purgeGlobals cutoff (purgeFloorSet clk s cutoff)).uflagRecords
    = s.uflagRecords := by
    unfold purgeGlobals
    rw [globalReindex_eq]
    rfl
  have hkept := (purgeChanOrphans_uflagRecords
    (purgeGlobals cutoff (purgeFloorSet clk s cutoff))).trans hglobals
  rw [← hkept]
  unfold executePurge
  simp only []
  generalize purgeChanOrphans (purgeGlobals cutoff (purgeFloorSet clk s cutoff)) = t
  exact keepFirst_sublist _ _ _

/-- A cascade drops bindings by puts. -/
theorem RightsKeyed.chanCascadeDel (h : RightsKeyed s) (clk : Clock) (chan : Str) (ts : Int)
    (announce : Bool) : RightsKeyed (chanCascadeDel clk s chan ts announce).1 := by
  refine chanCascadeDel_induction (P := RightsKeyed) ?_ ?_ ?_ ?_ h
  · intro t ht
    refine ht.of_eq ?_ (learnedDrop_tables t chan).2
    unfold learnedDrop
    split
    · rfl
    · rfl
  · intro t e ht _ _ _ _
    exact ht.of_eq (putRecord_uflagRecords clk t e.key _ ts)
      (putRecord_uchanRecords clk t e.key _ ts)
  · exact fun t u c ht _ _ => ht.uchanPut clk u c false ts
  · exact fun t p ht => ht.of_eq rfl rfl

/-- Writing over an entry touches no right. -/
theorem RightsKeyed.replaceOld (h : RightsKeyed s) (clk : Clock) (i : Nat)
    (e : GlobalEntry) (w : Str) (ts : Int) (chan : Str) :
    RightsKeyed (replaceOld clk s i e w ts chan) := by
  unfold Hub.replaceOld
  simp only []
  have hset : RightsKeyed { s with
      globalEntries := s.globalEntries.set i { e with value := w, timestamp := ts } } :=
        h.of_eq rfl rfl
  split
  · exact hset.chanCascadeDel clk chan ts false
  · exact hset

/-- Nor does adding one. -/
theorem RightsKeyed.push (h : RightsKeyed s) (e : GlobalEntry) :
    RightsKeyed (globalPush s e) := by
  rw [globalPush_eq]
  exact h.of_eq rfl rfl

/-- A local change, with the cascade of a channel that is deleted. -/
theorem RightsKeyed.updateGlobalEntry (h : RightsKeyed s) (clk : Clock) (k : GlobalKey)
    (value extra op : Str) (ts : Int) :
    RightsKeyed (updateGlobalEntry clk s k value extra op ts).1 := by
  have hres := updateGlobalEntry_result clk s k value extra op ts
  generalize Hub.updateGlobalEntry clk s k value extra op ts = r at hres ⊢
  cases hres with
  | refused => exact h
  | rewrote i e hk hfind hget hacc => exact h.replaceOld clk i e _ ts _
  | new hk hfind hahead hroom => exact h.push _

/-- An entry of a peer. -/
theorem RightsKeyed.storeGlobalEntryRaw (h : RightsKeyed s) (clk : Clock) (k : GlobalKey)
    (value : Str) (ts : Int) : RightsKeyed (storeGlobalEntryRaw clk s k value ts).1 := by
  cases hk : keyIsModes k with
  | true =>
    rw [storeGlobalEntryRaw_modes hk]
    exact h.of_eq (putRecord_uflagRecords clk s k value ts)
      (putRecord_uchanRecords clk s k value ts)
  | false =>
    have hres := storeGlobalEntryRaw_result hk clk s value ts
    generalize Hub.storeGlobalEntryRaw clk s k value ts = r at hres ⊢
    cases hres with
    | refused => exact h
    | rewrote i e hfind hget hacc => exact h.replaceOld clk i e _ ts _
    | new hfind hahead hroom => exact h.push _

/-- Rights of nobody are taken out. -/
theorem RightsKeyed.accessPrune (h : RightsKeyed s) : RightsKeyed (accessPrune s) :=
  h.of_sublist (keepFirst_sublist _ _ _) (keepFirst_sublist _ _ _)

/-- A purge takes rows out. -/
theorem RightsKeyed.executePurge (h : RightsKeyed s) (clk : Clock) (cutoff : Int) :
    RightsKeyed (executePurge clk s cutoff) :=
  h.of_sublist (executePurge_flags_sublist clk s cutoff) (executePurge_sublist clk s cutoff)

/-- No write makes a second record of a key. The cases are the writes a hub can make. -/
theorem RightsKeyed.write {clk : Clock} (h : RightsKeyed s) (hw : Write clk s t) :
    RightsKeyed t := by
  cases hw with
  | put k v ts =>
      exact h.of_eq (putRecord_uflagRecords clk s k v ts) (putRecord_uchanRecords clk s k v ts)
  | update k value extra op ts => exact h.updateGlobalEntry clk k value extra op ts
  | raw k value ts => exact h.storeGlobalEntryRaw clk k value ts
  | cascade chan ts announce => exact h.chanCascadeDel clk chan ts announce
  | learned chan key modes ts =>
    unfold learnedPut
    repeat' split
    all_goals exact h.of_eq rfl rfl
  | flag uuid flags ts => exact h.uflagPut clk uuid flags ts
  | bind uuid chan active ts => exact h.uchanPut clk uuid chan active ts
  | moveFlag old new i => exact h.remapFlag clk old new i
  | moveBind old new i => exact h.remapChan clk old new i
  | prune => exact h.accessPrune
  | purge cutoff => exact h.executePurge clk cutoff
  | used i ts =>
    unfold raise
    split
    · exact h
    · exact h.of_eq rfl rfl
  | people us ms hstamp => exact h.of_eq rfl rfl
  | elsewhere t hsame => exact h.of_eq hsame.flags hsame.binds

end Writes

/-- Where no two records are of one kind, every record of a user that exists stays. -/
theorem keepFirst_eq_filter {α : Type} {known : α → Bool} {same : α → α → Bool} {xs : List α}
    (h : xs.Pairwise fun a b => same a b = false) :
    keepFirst known same xs = xs.filter known := by
  -- nothing kept so far is of the kind of something still to come
  have key : ∀ ys kept : List α, (∀ k ∈ kept, ∀ y ∈ ys, same k y = false) →
      (ys.Pairwise fun a b => same a b = false) →
      ys.foldl (fun kept r => if known r && !kept.any (same · r) then kept ++ [r] else kept) kept
        = kept ++ ys.filter known := by
    intro ys
    induction ys with
    | nil => simp
    | cons y ys ih =>
      intro kept hkept hys
      have hy := List.pairwise_cons.mp hys
      have hno : kept.any (same · y) = false :=
        List.any_eq_false.mpr fun k hk => by simp [hkept k hk y List.mem_cons_self]
      rw [List.foldl_cons, hno]
      have hrest : ∀ k ∈ kept, ∀ z ∈ ys, same k z = false :=
        fun k hk z hz => hkept k hk z (List.mem_cons_of_mem y hz)
      cases hknown : known y with
      | true =>
        rw [List.filter_cons_of_pos hknown]
        show List.foldl _ (kept ++ [y]) ys = _
        rw [ih _ ?_ hy.2, List.append_assoc]
        · rfl
        · intro k hk z hz
          rcases List.mem_append.mp hk with hk | hk
          · exact hrest k hk z hz
          · rw [List.mem_singleton.mp hk]
            exact hy.1 z hz
      | false =>
        rw [List.filter_cons_of_neg (by simp [hknown])]
        exact ih kept hrest hy.2
  simpa [keepFirst] using key xs [] (by simp) h

/-- One record per key in the tables of rights, after every run. -/
theorem rightsKeyed_runHub {es : List HubEvent} {s : HubState} (hrun : runHub es = some s) :
    RightsKeyed s :=
  keeps_runHub rightsKeyed_empty (fun _ _ _ ht hw => ht.write hw) hrun

end IrcHub.Proofs
