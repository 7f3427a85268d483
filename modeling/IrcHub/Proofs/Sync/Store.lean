import IrcHub.Proofs.Sync.Fits

/-!
# `IrcHub.Proofs.Sync.Store`: the writers of the shared tables keep the caps

Each function that writes the global table, the learned keys, the flags or the bindings keeps
`Fits`, and so do the sweep and the purge. A function that composes these goes through their
lemmas by name.

* `Fits.uflagPut`, `Fits.uchanPut`, `Fits.accessIngest`: rights
* `Fits.learnedPut`: what was learned of a channel
* `Fits.putRecord`, `Fits.updateGlobalEntry`, `Fits.storeGlobalEntryRaw`: the three paths into the
  global table
* `Fits.bansSweep`, `Fits.executePurge`, `Fits.raise`: what else changes it

A composed record is the one place where text comes in unchecked, so `Fits.updateGlobalEntry_of`
asks about its characters where the record is new.
-/

set_option autoImplicit false

namespace IrcHub.Proofs

open IrcHub.Hub Str Table
open String (utf8Len)

variable {ok : Char → Prop} {s : HubState} {clk : Clock}

/-! ### Bindings and flags -/

/-- A binding is stored: its uuid and channel passed their checks, its stamp is the caller's. -/
theorem Fits.uchanPut (h : Fits ok s) (hok : WireOk ok) (uuid chan : Str)
    (active : Bool) {ts : Int} (hts : InI64 ts) :
    Fits ok (uchanPut clk s uuid chan active ts).1 := by
  have hres := uchanPut_result clk s uuid chan active ts
  generalize Hub.uchanPut clk s uuid chan active ts = q at hres ⊢
  cases hres with
  | refused => exact h
  | rewrote i r =>
    exact { h with binds := h.binds.modify i fun r hr => ⟨hr.uuid, hr.chan, hts⟩ }
  | new hshape hname hpos hahead hfind hroom =>
    exact { h with
      binds := h.binds.append hroom ⟨fit_uuidShape hok hshape, fit_uchanNameOk hok hname, hts⟩ }

/-- Writing flags into a record remembers a lost `a` and leaves the rest. -/
theorem Fits.uflagSet (h : Fits ok s) (i : Nat) (uuid : Str) {canon : Str} {ts : Int}
    (hcanon : Fit ok 6 canon) (hts : InI64 ts) : Fits ok (uflagSet s i uuid canon ts) := by
  have hflags := h.flags.modify i (f := fun r => { r with flags := canon, timestamp := ts })
    fun r hr => ⟨hr.uuid, hcanon, hts⟩
  unfold Hub.uflagSet
  simp only []
  split
  · exact { h with flags := hflags }
  · exact { h with flags := hflags }

/-- Flags are stored, in their canonical order. -/
theorem Fits.uflagPut (h : Fits ok s) (hok : WireOk ok) (uuid flags : Str) {ts : Int}
    (hts : InI64 ts) : Fits ok (uflagPut clk s uuid flags ts).1 := by
  unfold Hub.uflagPut
  split
  · exact h
  rename_i canon hcanon
  have hfit := fit_uflagsCanon hok hcanon
  split
  · exact h
  rename_i hguard
  split
  · split
    · split
      · exact h
      · exact h.uflagSet _ _ hfit hts
    · exact h
  · split
    · exact h
    rename_i hroom
    simp only [Bool.or_eq_true, Bool.not_eq_true', not_or, Bool.not_eq_false] at hguard
    have hblank : FlagFits ok { uuid := uuid } :=
      ⟨fit_uuidShape hok hguard.1.1, .nil, inI64_zero⟩
    have hnew : Fits ok { s with uflagRecords := s.uflagRecords ++ [{ uuid := uuid }] } :=
      { h with flags := h.flags.append (Nat.lt_of_not_le hroom) hblank }
    exact hnew.uflagSet _ _ hfit hts

/-- Rights of nobody are taken out. -/
theorem Fits.accessPrune (h : Fits ok s) : Fits ok (accessPrune s) :=
  { h with
    flags := h.flags.sublist (keepFirst_sublist _ _ _)
    binds := h.binds.sublist (keepFirst_sublist _ _ _) }

/-- A line of flags or of a binding. Its stamp is read as a 64-bit number. -/
theorem Fits.accessIngest (h : Fits ok s) (hok : WireOk ok) (kind : Char) (body : Str)
    (needUser : Bool) : Fits ok (accessIngest clk s kind body needUser).1 := by
  unfold Hub.accessIngest
  split
  · exact h
  simp only []
  split
  · exact h
  split
  · split
    · exact h.uflagPut hok _ _ (inI64_atoll _)
    · exact h
  · split
    · split
      · exact h
      · exact h.uchanPut hok _ _ _ (inI64_atoll _)
    · exact h

/-- A user of the older kind is given the rights that go with its type. -/
private theorem Fits.migrateUser {p : HubState × Nat} (h : Fits ok p.1) (hok : WireOk ok)
    (u : Str × Char) : Fits ok (migrateUser clk p u).1 := by
  have hone : InI64 userAccessMigrateTs := ⟨by decide, by decide⟩
  unfold Hub.migrateUser
  simp only []
  split
  · exact h.uflagPut hok _ _ hone
  split
  · exact h.uchanPut hok _ _ _ hone
  · exact h

/-- All users are, by induction over the table. -/
theorem Fits.accessMigrate (h : Fits ok s) (hok : WireOk ok) :
    Fits ok (accessMigrate clk s).1 := by
  have key : ∀ (us : List (Str × Char)) (p : HubState × Nat), Fits ok p.1 →
      Fits ok (us.foldl (Hub.migrateUser clk) p).1 := by
    intro us
    induction us with
    | nil => exact fun p hp => hp
    | cons u us ih => exact fun p hp => ih _ (hp.migrateUser hok u)
  exact key _ (s, 0) h

/-! ### The learned keys -/

/-- What was learned of a channel is forgotten. -/
theorem Fits.learnedDrop (h : Fits ok s) (chan : Str) : Fits ok (learnedDrop s chan) := by
  unfold Hub.learnedDrop
  split
  · exact { h with learned := h.learned.swapRemove _ }
  · exact h

/-- The stored name of a live channel. -/
theorem Fits.fit_chanLive (h : Fits ok s) {chan name : Str}
    (hlive : chanLive s chan = some name) :
    Fit ok 64 name := by
  unfold chanLive at hlive
  split at hlive
  · cases hlive
  rename_i i hfind
  split at hlive
  · cases hlive
  rename_i e hget
  split at hlive
  · cases hlive
    have hold : keyIsModes e.key = false := by
      rw [h.store.key_of_find hfind hget]
      rfl
    refine fit_trunc ?_ maxChan
    intro c hc
    refine (h.entries e (List.mem_of_getElem? hget)).chars hold c ?_
    rw [← cut_append '|' 0 e.value]
    exact List.mem_append_left _ hc
  · cases hlive

/-- A channel key that passes its check fits its field. -/
theorem fit_learnedKeyOk (hok : WireOk ok) {k : Str} (h : learnedKeyOk k = true) :
    Fit ok 30 k := by
  simp only [learnedKeyOk, Bool.and_eq_true, decide_eq_true_eq, List.all_eq_true] at h
  exact ⟨Nat.le_of_lt_succ h.1, fun c hc => hok.print (Nat.le_of_lt (h.2 c hc).1.1.1)⟩

/-- What was learned of a channel is stored. -/
theorem Fits.learnedPut (h : Fits ok s) (hok : WireOk ok) (chan key : Str)
    (modes : Int) {ts : Int} (hts : InI64 ts) :
    Fits ok (learnedPut clk s chan key modes ts).1 := by
  unfold Hub.learnedPut
  split
  · exact h
  rename_i hguard
  simp only [Bool.or_eq_true, Bool.not_eq_true', decide_eq_true_eq, not_or, Bool.not_eq_false,
    bne_iff_ne, ne_eq, not_not, not_lt] at hguard
  obtain ⟨⟨⟨-, hkey⟩, hpos⟩, hmask⟩ := hguard
  have hfitKey := fit_learnedKeyOk hok hkey
  have hmodes : 0 ≤ modes ∧ modes < 1000 := by
    have hle : modes.toNat ≤ kModesMask := by
      rw [← hmask]
      exact Nat.left_le_or
    have : kModesMask = 192 := rfl
    omega
  split
  · exact h
  rename_i name hlive
  split
  · split
    · exact h
    rename_i i _ _ l hget
    split
    · exact h
    · exact { h with learned := h.learned.set i ⟨(h.learned.get hget).chan, hfitKey,
                     hmodes, hts⟩ }
  · split
    · exact h
    · rename_i hroom
      exact { h with
        learned := h.learned.append (Nat.lt_of_not_le hroom)
          ⟨h.fit_chanLive hlive, hfitKey, hmodes, hts⟩ }

/-! ### The global table -/

/-- Rewriting an entry. -/
private theorem entries_set (h : Fits ok s) (i : Nat) {e : GlobalEntry} (he : EntryFits ok e) :
    ∀ a ∈ s.globalEntries.set i e, EntryFits ok a := by
  intro a ha
  rcases List.mem_or_eq_of_mem_set ha with ha | rfl
  · exact h.entries a ha
  · exact he

/-- One more entry. -/
private theorem entries_append (h : Fits ok s) {e : GlobalEntry} (he : EntryFits ok e) :
    ∀ a ∈ s.globalEntries ++ [e], EntryFits ok a := by
  intro a ha
  rcases List.mem_append.mp ha with ha | ha
  · exact h.entries a ha
  · rw [List.mem_singleton.mp ha]
    exact he

/-- An old tombstone makes room. -/
theorem Fits.evict {s' : HubState} {k : GlobalKey} (h : Fits ok s)
    (hevict : evictOldestTombstone clk s k = some s') : Fits ok s' := by
  have hstore := h.store.evict hevict
  obtain ⟨b, e, -, -, -, rfl⟩ := evictOldestTombstone_eq hevict
  exact { h with store := hstore, entries := fun a ha => h.entries a (mem_of_mem_swapRemove ha) }

/-- One more entry in a store that stays in order. -/
theorem Fits.push {e : GlobalEntry} (h : Fits ok s) (he : EntryFits ok e)
    (hstore : StoreInv (globalPush s e)) : Fits ok (globalPush s e) := by
  rw [globalPush_eq] at hstore ⊢
  exact { h with store := hstore, entries := entries_append h he }

/-- A setting, a default or a ban. -/
private theorem entryFits_modes {k : GlobalKey} (hk : keyIsModes k = true) {v : Str} {ts : Int}
    (hts : InI64 ts) (used : Int) :
    EntryFits ok { key := k, value := v, timestamp := ts, lastUsed := used } := by
  refine ⟨fun hold => ?_, hts⟩
  rw [show keyIsModes k = false from hold] at hk
  cases hk

/-- A record of the newer kinds is stored. Its text was checked, so only the stamp is asked
for. -/
theorem Fits.putRecord (h : Fits ok s) (k : GlobalKey) (v : Str) {ts : Int} (hts : InI64 ts) :
    Fits ok (putRecord clk s k v ts).1 := by
  have hstore := h.store.putRecord clk k v ts
  have hres := putRecord_result clk s k v ts
  generalize Hub.putRecord clk s k v ts = q at hres hstore ⊢
  cases hres with
  | refused => exact h
  | rewrote i e hok hfind hget hacc hban =>
    refine { h with store := hstore, entries := entries_set h i ?_ }
    refine entryFits_modes ?_ hts e.lastUsed
    rw [h.store.key_of_find hfind hget]
    exact hok.modes
  | new hok hfind hban hroom => exact h.push (entryFits_modes hok.modes hts 0) hstore
  | evicted s' hok hfind hban hfull hevict hroom =>
    exact (h.evict hevict).push (entryFits_modes hok.modes hts 0) hstore
  | onlyEvicted s' hfull hevict hroom => exact h.evict hevict

/-- A channel's records are deleted with it, all at one stamp. -/
theorem Fits.chanCascadeDel (h : Fits ok s) (hok : WireOk ok) (chan : Str) {ts : Int}
    (hts : InI64 ts) (announce : Bool) : Fits ok (chanCascadeDel clk s chan ts announce).1 := by
  refine chanCascadeDel_induction (P := Fits ok) ?_ ?_ ?_ ?_ h
  · exact fun t ht => ht.learnedDrop chan
  · exact fun t e ht _ _ _ _ => ht.putRecord e.key _ hts
  · exact fun t u c ht _ _ => ht.uchanPut hok u c false hts
  · exact fun t p ht => ht.broadcast p

/-- An entry takes a new value and stamp in a store that stays in order. -/
theorem Fits.setEntry (h : Fits ok s) (i : Nat) {e : GlobalEntry} (he : EntryFits ok e)
    (hstore : StoreInv { s with globalEntries := s.globalEntries.set i e }) :
    Fits ok { s with globalEntries := s.globalEntries.set i e } :=
  { h with store := hstore, entries := entries_set h i he }

/-- An entry of the older kinds is written over by an allowed text. -/
theorem Fits.replaceOld (h : Fits ok s) (hok : WireOk ok) {i : Nat} {e : GlobalEntry}
    (hget : s.globalEntries[i]? = some e) (hold : keyIsModes e.key = false) {w : Str}
    (hshort : utf8Len w < 1024) (hname : ∀ v, globalFind s .c v = some i → NameHeld w v)
    (hchars : ∀ c ∈ w, ok c) {ts : Int} (hts : InI64 ts) (chan : Str) :
    Fits ok (replaceOld clk s i e w ts chan) := by
  have hset := h.setEntry i (e := { e with value := w, timestamp := ts }) ⟨fun _ => hchars, hts⟩
    (h.store.setOld hget hold rfl hshort hname)
  unfold Hub.replaceOld
  simp only []
  split
  · exact hset.chanCascadeDel hok chan hts false
  · exact hset

/-- The characters of a composed value are those of its parts. -/
theorem chars_combinedValue (hok : WireOk ok) {k : GlobalKey} {value extra op : Str}
    (hvalue : ∀ c ∈ value, ok c) (hextra : ∀ c ∈ extra, ok c) (hop : ∀ c ∈ op, ok c) :
    ∀ c ∈ combinedValue k value extra op, ok c := by
  intro c hc
  have hbar : ok '|' := hok.print (by decide)
  have hmem := mem_of_mem_trunc hc
  cases k with
  | c =>
    simp only [] at hmem
    split at hmem
    · simp only [List.append_assoc, List.cons_append, List.mem_append, List.mem_cons] at hmem
      rcases hmem with hm | rfl | hm | rfl | hm
      exacts [hvalue c hm, hbar, hextra c hm, hbar, hop c hm]
    · simp only [List.mem_append] at hmem
      rcases hmem with (hm | hm) | hm
      · exact hvalue c hm
      · rw [List.eq_of_mem_replicate (n := 2) (a := '|') hm]
        exact hbar
      · exact hop c hm
  | m =>
    simp only [List.mem_append, List.mem_cons] at hmem
    rcases hmem with hm | rfl | hm
    exacts [hvalue c hm, hbar, hop c hm]
  | o =>
    simp only [List.mem_append] at hmem
    rcases hmem with (hm | hm) | hm
    · exact hvalue c hm
    · rw [List.eq_of_mem_replicate (n := 2) (a := '|') hm]
      exact hbar
    · exact hop c hm
  | _ => exact hvalue c hmem

/-- An operation that is not one is replaced by `add`. -/
theorem chars_safeOp (hok : WireOk ok) {op : Str} (hop : ∀ c ∈ op, ok c) :
    ∀ c ∈ safeOp op, ok c := by
  intro c hc
  unfold safeOp at hc
  simp only [] at hc
  split at hc
  · exact chars_text hok (by decide) c hc
  · have h₁ := (List.dropWhile_sublist _).subset (List.mem_reverse.mp hc)
    have h₂ := (List.dropWhile_sublist _).subset (List.mem_reverse.mp h₁)
    exact hop c (mem_of_mem_trunc h₂)

/-- The characters of a value that keeps the stored spelling of its channel. -/
theorem Fits.chars_updateChan (h : Fits ok s) {k : GlobalKey} {e : GlobalEntry}
    (he : e ∈ s.globalEntries) (hold : keyIsModes e.key = false) {value : Str}
    (hvalue : ∀ c ∈ value, ok c) : ∀ c ∈ updateChan k e.value value, ok c := by
  intro c hc
  unfold updateChan at hc
  split at hc
  · refine (h.entries e he).chars hold c ?_
    rw [← cut_append '|' 0 e.value]
    exact List.mem_append_left _ (mem_of_mem_trunc hc)
  · exact hvalue c hc

/-- Storing a composed record, unless it is new and has a character that is not allowed. -/
theorem Fits.updateGlobalEntry_of (h : Fits ok s) (hok : WireOk ok) {k : GlobalKey}
    {value extra op : Str} {ts : Int} (hextra : ∀ c ∈ extra, ok c) (hop : ∀ c ∈ op, ok c)
    (hts : InI64 ts) (hvalue : k = .c ∨ ∀ c ∈ value, ok c)
    (hnew : globalFind s k value = none → (updateGlobalEntry clk s k value extra op ts).2 = true →
      ∀ c ∈ combinedValue k value extra (safeOp op), ok c) :
    Fits ok (updateGlobalEntry clk s k value extra op ts).1 := by
  have hstore := h.store.updateGlobalEntry clk k value extra op ts
  have hres := updateGlobalEntry_result clk s k value extra op ts
  generalize Hub.updateGlobalEntry clk s k value extra op ts = q at hres hstore hnew ⊢
  cases hres with
  | refused => exact h
  | rewrote i e hk hfind hget hacc =>
    have hkey := h.store.key_of_find hfind hget
    have hold : keyIsModes e.key = false := by
      rw [hkey]
      exact hk
    have hmem := List.mem_of_getElem? hget
    refine h.replaceOld hok hget hold (utf8Len_combinedValue_lt _ _ _ _)
      (h.store.nameHeld_updateNorm hfind hget extra op) ?_ hts _
    refine chars_combinedValue hok ?_ hextra (chars_safeOp hok hop)
    rcases hvalue with rfl | hvalue
    · intro c hc
      unfold updateChan at hc
      rw [if_pos rfl] at hc
      refine (h.entries e hmem).chars hold c ?_
      rw [← cut_append '|' 0 e.value]
      exact List.mem_append_left _ (mem_of_mem_trunc hc)
    · exact h.chars_updateChan hmem hold hvalue
  | new hk hfind hahead hroom => exact h.push ⟨fun _ => hnew hfind rfl, hts⟩ hstore

/-- A local change of an entry. The parts of the new value must be allowed characters. -/
theorem Fits.updateGlobalEntry (h : Fits ok s) (hok : WireOk ok) (k : GlobalKey)
    {value extra op : Str} {ts : Int} (hvalue : ∀ c ∈ value, ok c) (hextra : ∀ c ∈ extra, ok c)
    (hop : ∀ c ∈ op, ok c) (hts : InI64 ts) :
    Fits ok (updateGlobalEntry clk s k value extra op ts).1 :=
  h.updateGlobalEntry_of hok hextra hop hts (.inr hvalue) fun _ _ =>
    chars_combinedValue hok hvalue hextra (chars_safeOp hok hop)

/-- An entry as a peer or a bot has it. -/
theorem Fits.storeGlobalEntryRaw (h : Fits ok s) (hok : WireOk ok) (k : GlobalKey) {value : Str}
    {ts : Int} (hvalue : ∀ c ∈ value, ok c) (hts : InI64 ts) :
    Fits ok (storeGlobalEntryRaw clk s k value ts).1 := by
  cases hk : keyIsModes k with
  | true =>
    rw [storeGlobalEntryRaw_modes hk]
    exact h.putRecord k value hts
  | false =>
    have hstore := h.store.storeGlobalEntryRaw clk k value ts
    have hres := storeGlobalEntryRaw_result hk clk s value ts
    generalize Hub.storeGlobalEntryRaw clk s k value ts = q at hres hstore ⊢
    cases hres with
    | refused => exact h
    | rewrote i e hfind hget hacc =>
      have hold : keyIsModes e.key = false := by
        rw [h.store.key_of_find hfind hget]
        exact hk
      refine h.replaceOld hok hget hold (utf8Len_trunc_lt _ (by decide))
        (h.store.nameHeld_rawNorm hfind hget) ?_ hts _
      intro c hc
      have hmem := mem_of_mem_trunc hc
      unfold rawNorm at hmem
      split at hmem
      · simp only [] at hmem
        split at hmem
        · rcases List.mem_append.mp hmem with hm | hm
          · refine (h.entries e (List.mem_of_getElem? hget)).chars hold c ?_
            rw [← cut_append '|' 0 e.value]
            exact List.mem_append_left _ hm
          · refine hvalue c ?_
            rw [← cut_append '|' 0 value]
            exact List.mem_append_right _ hm
        · exact hvalue c hmem
      · exact hvalue c hmem
    | new hfind hahead hroom =>
      exact h.push ⟨fun _ c hc => hvalue c (mem_of_mem_trunc hc), hts⟩ hstore

/-! ### Sweep, purge and activity -/

/-- Expired bans become tombstones one second above their stamp. -/
theorem Fits.bansSweep (h : Fits ok s) : Fits ok (bansSweep clk s) := by
  refine bansSweep_induction (P := Fits ok) ?_ ?_ ?_ h
  · exact fun t ht => { ht with store := ht.store }
  · exact fun t e ht he => ht.putRecord .B _ (inI64_satSucc (ht.entries e he).stamp)
  · exact fun t p ht => ht.broadcast p

/-- What was learned of channels that are gone is forgotten. -/
theorem Fits.learnedSweep (h : Fits ok s) (fuel i : Nat) : Fits ok (learnedSweep fuel i s) := by
  induction fuel generalizing i s with
  | zero => exact h
  | succ fuel ih =>
    unfold Hub.learnedSweep
    split
    · exact h
    split
    · exact ih h _
    · exact ih (h.learnedDrop _) _

/-- Dropping entries of the global table and indexing it again. -/
theorem Fits.filterEntries (h : Fits ok s) (p : GlobalEntry → Bool) :
    Fits ok (globalReindex { s with globalEntries := s.globalEntries.filter p }) := by
  rw [globalReindex_eq]
  exact { h with
    store := GlobalInv.filter h.store p
    entries := fun e he => h.entries e (List.mem_filter.mp he).1 }

/-- Records of channels that are gone are taken out. -/
theorem Fits.purgeChanOrphans (h : Fits ok s) : Fits ok (purgeChanOrphans s) := by
  unfold Hub.purgeChanOrphans
  simp only []
  split
  · exact (h.filterEntries _).learnedSweep _ _
  · exact h.learnedSweep _ _

/-- A purge takes rows out of every table and changes none. -/
theorem Fits.executePurge (h : Fits ok s) (cutoff : Int) :
    Fits ok (executePurge clk s cutoff) := by
  have hfloor : Fits ok (purgeFloorSet clk s cutoff) := { h with store := h.store }
  have horphans := Fits.purgeChanOrphans (hfloor.filterEntries fun e =>
    !(isTombstone e && belowCutoff cutoff e.timestamp))
  -- the other tables lose rows
  have hrest : ∀ t : HubState, Fits ok t →
      Fits ok (purgeBots cutoff
        (accessPurge (purgeMasks cutoff (purgeUsers cutoff t)) cutoff)) := by
    intro t ht
    exact { ht with
      users := ht.users.sublist ((List.take_sublist _ _).trans List.filter_sublist)
      masks := ht.masks.sublist ((List.take_sublist _ _).trans List.filter_sublist)
      bots := ht.bots.sublist ((List.take_sublist _ _).trans List.filter_sublist)
      flags := ht.flags.sublist (keepFirst_sublist _ _ _)
      binds := ht.binds.sublist ((keepFirst_sublist _ _ _).trans List.filter_sublist) }
  exact hrest _ horphans

/-- The stamp of a record that a sync has restored is raised. -/
theorem Fits.raise (h : Fits ok s) (slot : Slot) {ts : Int} (hts : InI64 ts) :
    Fits ok (raise clk s slot ts) := by
  cases slot with
  | user i =>
    unfold Hub.raise
    split
    · exact h
    · exact { h with
        users := h.users.modify i fun u hu =>
          ⟨hu.uuid, hu.name, hu.key, hu.typ, inI64_max hu.seen hts, hu.stamp⟩ }
  | mask i =>
    unfold Hub.raise
    split
    · exact h
    · exact { h with
        masks := h.masks.modify i fun m hm =>
          ⟨hm.uuid, hm.mask, inI64_max hm.used hts, hm.stamp⟩ }
  | ban i =>
    have hstore := h.store.raiseBan clk i ts
    rcases raise_ban_cases clk s i ts with heq | ⟨e, lu, hget, heq⟩
    · rw [heq]
      exact h
    · rw [heq] at hstore ⊢
      have he := h.entries e (List.mem_of_getElem? hget)
      exact h.setEntry i ⟨he.chars, he.stamp⟩ hstore

end IrcHub.Proofs
