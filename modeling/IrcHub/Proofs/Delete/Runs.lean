import IrcHub.Lib.Lww
import IrcHub.Proofs.Convergence.Channels
import IrcHub.Proofs.Delete.Reach

/-!
# `IrcHub.Proofs.Delete.Runs`: a channel stays deleted

A channel stays deleted. A hub deletes what belongs to a channel when the delete of the channel
replaces a record it holds. It does not when the delete is the first it hears of the channel, and
it takes a late setting, ban or binding of the channel whatever its stamp. `DeleteReaches` and
`StaysDeleted` name the deletes and the later operations that are not of this kind, and
`noLive_of_delete` says that after such a delete, along every run of such operations, nothing live
of the channel has a stamp up to the delete's.

- `ChanStep`, `runChan`: what a hub does to its global table and its bindings
- `ChanInv.run`: both tables stay in order
- `NoLive.put`, `NoLive.bind`, `NoLive.cascade`, `NoLive.run`: a later step brings nothing back
- `NameFits`: the name a cascade runs over is the name of the channel
- `replaced_delete`, `store_delete`: what a delete leaves
- `delete_misses_modes`: the orders that fail, and two names under which a delete takes what is
  not its own

The cascade runs over the name as its buffer has it. A name past the buffer is cut to that of
another channel, and the star is every channel's, so a delete of such a name takes what is not of
its channel. The condition on the name is asked of the deletes that run the cascade (`Beats`); one
that changes nothing may have any name.
-/

set_option autoImplicit false

namespace IrcHub.Proofs

open IrcHub.Hub Str
open String (utf8Len)

/-! ### Runs -/

/-- What a hub does to its global table and its bindings. -/
inductive ChanStep
  /-- An operation on the global table. -/
  | store (op : StoreOp)
  /-- An oper's binding is offered. -/
  | bind (uuid chan : Str) (active : Bool) (ts : Int)

/-- One step. What happens elsewhere leaves both tables alone. -/
def ChanStep.run (clk : Clock) (s : HubState) : ChanStep → HubState
  | .store (.elsewhere t) =>
    { t with
      globalEntries := s.globalEntries
      globalIdx := s.globalIdx
      uchanRecords := s.uchanRecords }
  | .store op => op.run clk s
  | .bind uuid chan active ts => (uchanPut clk s uuid chan active ts).1

/-- A run: steps in order, each under its clock. -/
def runChan (s : HubState) (steps : List (Clock × ChanStep)) : HubState :=
  steps.foldl (fun s p => p.2.run p.1 s) s

/-- Both tables are in order. -/
structure ChanInv (s : HubState) : Prop where
  store : StoreInv s
  bindings : BindingsOk s.uchanRecords

/-! ### The bindings under the operations of the store -/

/-- A purge of the rights takes bindings out. -/
theorem accessPurge_sublist (s : HubState) (cutoff : Int) :
    (accessPurge s cutoff).uchanRecords.Sublist s.uchanRecords :=
  (keepFirst_sublist _ _ _).trans List.filter_sublist

/-- The sweep over what was learned touches none. -/
theorem learnedSweep_uchanRecords (fuel i : Nat) (s : HubState) :
    (learnedSweep fuel i s).uchanRecords = s.uchanRecords := by
  induction fuel generalizing i s with
  | zero => rfl
  | succ fuel ih =>
    unfold learnedSweep
    split
    · rfl
    split
    · exact ih _ _
    · rw [ih, (learnedDrop_tables s _).2]

/-- Nor does the sweep of orphaned records. -/
theorem purgeChanOrphans_uchanRecords (s : HubState) :
    (purgeChanOrphans s).uchanRecords = s.uchanRecords := by
  unfold purgeChanOrphans
  simp only []
  rw [learnedSweep_uchanRecords]
  split
  · rw [globalReindex_eq]
  · rfl

/-- The purge of the other tables only drops bindings. -/
theorem purgeRest_sublist (cutoff : Int) (s : HubState) :
    (purgeBots cutoff (accessPurge (purgeMasks cutoff (purgeUsers cutoff s))
    cutoff)).uchanRecords.Sublist
      s.uchanRecords :=
  accessPurge_sublist (purgeMasks cutoff (purgeUsers cutoff s)) cutoff

/-- A purge takes bindings out. -/
theorem executePurge_sublist (clk : Clock) (s : HubState) (cutoff : Int) :
    (executePurge clk s cutoff).uchanRecords.Sublist s.uchanRecords := by
  have hglobals : (purgeGlobals cutoff (purgeFloorSet clk s cutoff)).uchanRecords
      = s.uchanRecords := by
    unfold purgeGlobals
    rw [globalReindex_eq]
    rfl
  have hrest := purgeRest_sublist cutoff
    (purgeChanOrphans (purgeGlobals cutoff (purgeFloorSet clk s cutoff)))
  rw [purgeChanOrphans_uchanRecords, hglobals] at hrest
  unfold executePurge
  exact hrest

/-- The sweep of orphaned records brings no entry in. -/
theorem purgeChanOrphans_entries_subset (s : HubState) :
    ∀ e ∈ (purgeChanOrphans s).globalEntries, e ∈ s.globalEntries := by
  intro e he
  unfold purgeChanOrphans at he
  simp only [] at he
  rw [(sameTable_learnedSweep _ _ _).1] at he
  split at he
  · rw [globalReindex_eq] at he
    exact (List.mem_filter.mp he).1
  · exact he

/-- Nor does a purge. -/
theorem executePurge_entries_subset (clk : Clock) (s : HubState) (cutoff : Int) :
    ∀ e ∈ (executePurge clk s cutoff).globalEntries, e ∈ s.globalEntries := by
  intro e he
  have hrest := sameTable_purgeRest cutoff
    (purgeChanOrphans (purgeGlobals cutoff (purgeFloorSet clk s cutoff)))
  unfold executePurge at he
  rw [show _ = _ from hrest.1] at he
  have hmem := purgeChanOrphans_entries_subset _ e he
  unfold purgeGlobals at hmem
  rw [globalReindex_eq] at hmem
  exact (List.mem_filter.mp hmem).1

/-- A sweep of the bans touches no binding. -/
theorem bansSweep_uchanRecords (clk : Clock) (s : HubState) :
    (bansSweep clk s).uchanRecords = s.uchanRecords :=
  bansSweep_induction (P := fun t => t.uchanRecords = s.uchanRecords) (fun _ ht => ht)
    (fun t _ ht _ => (putRecord_uchanRecords clk t .B _ _).trans ht) (fun _ _ ht => ht) rfl

/-- Nor does a stamp that is raised. -/
theorem raiseBan_uchanRecords (clk : Clock) (s : HubState) (i : Nat) (ts : Int) :
    (raise clk s (.ban i) ts).uchanRecords = s.uchanRecords := by
  unfold raise
  split <;> rfl

/-- A channel that is deleted takes its bindings with it; any other entry leaves them. -/
theorem BindingsOk.replaceOld {s : HubState} (h : BindingsOk s.uchanRecords)
    (clk : Clock) (i : Nat) (e : GlobalEntry) (w : Str) (ts : Int) (chan : Str) :
    BindingsOk (replaceOld clk s i e w ts chan).uchanRecords := by
  have hset : BindingsOk ({ s with
      globalEntries := s.globalEntries.set i { e with value := w, timestamp := ts } } :
        HubState).uchanRecords := h
  unfold Hub.replaceOld
  simp only []
  split
  · exact hset.chanCascadeDel clk chan ts false
  · exact hset

/-- One step keeps the invariant. The cases are the operations of the store and the binding. -/
theorem ChanInv.run {s : HubState} (h : ChanInv s) (clk : Clock) (step : ChanStep) :
    ChanInv (step.run clk s) := by
  cases step with
  | bind uuid chan active ts =>
    exact ⟨h.store.of_sameTable (sameTable_uchanPut clk s uuid chan active ts),
      h.bindings.uchanPut clk uuid chan active ts⟩
  -- the operations on the global table; each is followed on the bindings
  | store op =>
    cases op with
    | elsewhere t => exact ⟨h.store, h.bindings⟩
    -- one of the changes of a channel record
    | update key value extra op ts =>
      refine ⟨h.store.run clk (.update key value extra op ts), ?_⟩
      show BindingsOk (updateGlobalEntry clk s key value extra op ts).1.uchanRecords
      have hres := updateGlobalEntry_result clk s key value extra op ts
      generalize updateGlobalEntry clk s key value extra op ts = q at hres ⊢
      cases hres with
      | refused => exact h.bindings
      | rewrote i e hk hfind hget hacc => exact h.bindings.replaceOld clk i e _ ts _
      | new hk hfind hahead hroom =>
        rw [globalPush_eq]
        exact h.bindings
    | put key value ts =>
      refine ⟨h.store.run clk (.put key value ts), ?_⟩
      show BindingsOk (putRecord clk s key value ts).1.uchanRecords
      rw [putRecord_uchanRecords]
      exact h.bindings
    -- a record that is stored as it comes
    | raw key value ts =>
      refine ⟨h.store.run clk (.raw key value ts), ?_⟩
      show BindingsOk (storeGlobalEntryRaw clk s key value ts).1.uchanRecords
      cases hk : keyIsModes key with
      | true =>
        rw [storeGlobalEntryRaw_modes hk, putRecord_uchanRecords]
        exact h.bindings
      | false =>
        have hres := storeGlobalEntryRaw_result hk clk s value ts
        generalize storeGlobalEntryRaw clk s key value ts = q at hres ⊢
        cases hres with
        | refused => exact h.bindings
        | rewrote i e hfind hget hacc => exact h.bindings.replaceOld clk i e _ ts _
        | new hfind hahead hroom =>
          rw [globalPush_eq]
          exact h.bindings
    -- the cascade of a channel that goes
    | cascade chan ts announce =>
      exact ⟨h.store.run clk (.cascade chan ts announce),
        h.bindings.chanCascadeDel clk chan ts announce⟩
    | sweep =>
      refine ⟨h.store.run clk .sweep, ?_⟩
      show BindingsOk (bansSweep clk s).uchanRecords
      rw [bansSweep_uchanRecords]
      exact h.bindings
    | purge cutoff =>
      exact ⟨h.store.run clk (.purge cutoff),
        h.bindings.sublist (executePurge_sublist clk s cutoff)⟩
    | orphans =>
      refine ⟨h.store.run clk .orphans, ?_⟩
      show BindingsOk (purgeChanOrphans s).uchanRecords
      rw [purgeChanOrphans_uchanRecords]
      exact h.bindings
    | banUsed i ts =>
      refine ⟨h.store.run clk (.banUsed i ts), ?_⟩
      show BindingsOk (raise clk s (.ban i) ts).uchanRecords
      rw [raiseBan_uchanRecords]
      exact h.bindings

/-- So does every run from the empty hub, by induction on its steps. -/
theorem chanInv_runChan (steps : List (Clock × ChanStep)) : ChanInv (runChan {} steps) := by
  have key : ∀ (steps : List (Clock × ChanStep)) (s : HubState), ChanInv s →
      ChanInv (runChan s steps) := by
    intro steps
    induction steps with
    | nil => intro s hs; exact hs
    | cons p steps ih => intro s hs; exact ih _ (hs.run p.1 p.2)
  exact key steps {} ⟨storeInv_empty, bindingsOk_nil⟩

/-! ### What keeps a channel deleted -/

/-- A live setting or ban of the channel with a stamp up to `t` is only offered where the hub
holds a record of its identity that it does not beat. Such a put is refused. Nothing is asked of
other records. -/
def PutCovered (clk : Clock) (chan : Str) (t : Int) (s : HubState) (k : GlobalKey) (v : Str)
    (ts : Int) : Prop :=
  (k = .C ∨ k = .B) → recActive k v = true → eqIc (firstField v) chan = true → ts ≤ t →
    ∃ i e, globalFind s k v = some i ∧ s.globalEntries[i]? = some e
      ∧ recAccepts clk ts (recNorm k e.value v) (recActive k v) e.timestamp e.value
        (entryActive e) = false

/-- The same for a live binding. -/
def BindCovered (clk : Clock) (chan : Str) (t : Int) (s : HubState) (uuid c : Str) (active : Bool)
    (ts : Int) : Prop :=
  active = true → eqIc c chan = true → ts ≤ t →
    ∃ i r, uchanFind s uuid c = some i ∧ s.uchanRecords[i]? = some r
      ∧ lwwAccepts clk ts active r.timestamp r.isActive = false

/-- The steps that bring nothing of a channel back that was deleted at `t`. -/
def StaysDeleted (chan : Str) (t : Int) (clk : Clock) (s : HubState) : ChanStep → Prop
  | .store (.put k v ts) => PutCovered clk chan t s k v ts
  | .store (.raw k v ts) => PutCovered clk chan t s k v ts
  | .bind uuid c active ts => BindCovered clk chan t s uuid c active ts
  | _ => True

section Keep

variable {chan : Str} {t : Int} {s : HubState}

/-- What is gone stays gone while nothing is brought in. -/
theorem NoLive.of_subset {s' : HubState} (h : NoLive chan t s)
    (hent : ∀ e ∈ s'.globalEntries, e ∈ s.globalEntries)
    (hbind : ∀ r ∈ s'.uchanRecords, r ∈ s.uchanRecords) : NoLive chan t s' :=
  ⟨fun e he => h.entries e (hent e he), fun r hr => h.bindings r (hbind r hr)⟩

/-- An entry is written over by one that is not live for the channel. -/
theorem NoLive.set (h : NoLive chan t s) {i : Nat} {e : GlobalEntry} (he : Cleared chan t e) :
    NoLive chan t { s with globalEntries := s.globalEntries.set i e } := by
  refine ⟨fun a ha => ?_, h.bindings⟩
  rcases List.mem_or_eq_of_mem_set ha with ha | rfl
  · exact h.entries a ha
  · exact he

/-- Such an entry is added. -/
theorem NoLive.push (h : NoLive chan t s) {e : GlobalEntry} (he : Cleared chan t e) :
    NoLive chan t (globalPush s e) := by
  rw [globalPush_eq]
  refine ⟨fun a ha => ?_, h.bindings⟩
  rcases List.mem_append.mp ha with ha | ha
  · exact h.entries a ha
  · rw [List.mem_singleton] at ha
    subst ha
    exact he

/-- An old tombstone makes room. -/
theorem NoLive.evict {clk : Clock} {k : GlobalKey} {s' : HubState} (h : NoLive chan t s)
    (hevict : evictOldestTombstone clk s k = some s') : NoLive chan t s' := by
  obtain ⟨b, e, hb, -, -, rfl⟩ := evictOldestTombstone_eq hevict
  have hperm := Table.swapRemove_perm s.globalEntries (List.getElem?_eq_some_iff.mp hb).1
  exact h.of_subset (fun a ha => (List.eraseIdx_sublist _ b).subset (hperm.mem_iff.mp ha))
    fun r hr => hr

/-- Entries of the older kinds are none of those that a delete clears. -/
theorem cleared_of_old {e : GlobalEntry} (hk : keyIsModes e.key = false) : Cleared chan t e := by
  intro hCB
  rcases hCB with hC | hB
  · rw [hC] at hk
    cases hk
  · rw [hB] at hk
    cases hk

/-- A put that is covered by the delete: it is of another channel, is not live, is above the
stamp, or is refused. -/
theorem NoLive.put (h : NoLive chan t s) (hs : StoreInv s) {clk : Clock} {k : GlobalKey} {v : Str}
    {ts : Int} (hcov : PutCovered clk chan t s k v ts) :
    NoLive chan t (putRecord clk s k v ts).1 := by
  -- the record is not live, not of the channel, or newer, unless it was not stored
  have hnew : ∀ w, (recActive k w = recActive k v) → lower (firstField w) = lower (firstField v) →
      (¬ ∃ i e, globalFind s k v = some i ∧ s.globalEntries[i]? = some e
        ∧ recAccepts clk ts (recNorm k e.value v) (recActive k v) e.timestamp e.value
          (entryActive e) = false) →
      ∀ lu, Cleared chan t { key := k, value := w, timestamp := ts, lastUsed := lu } := by
    intro w hact hchan hno lu hk hlive heq
    by_contra hle
    have hlive' : recActive k v = true := hact ▸ hlive
    have heq' : eqIc (firstField v) chan = true := by
      rw [eqIc_iff, ← hchan]
      exact eqIc_iff.mp heq
    exact hno (hcov hk hlive' heq' (not_lt.mp hle))
  have hres := putRecord_result clk s k v ts
  generalize Hub.putRecord clk s k v ts = q at hres ⊢
  -- the store takes the record, or refuses it, or makes room for it
  cases hres with
  | refused => exact h
  -- a rewrite: the text is of the same channel and as live as the one offered
  | rewrote i e hok hfind hget hacc hban =>
    obtain ⟨e', he', hkey, hid⟩ := hs.find_some hok.modes hfind
    rw [hget] at he'
    cases he'
    subst hkey
    have hev := ((hs.entryOk e (List.mem_of_getElem? hget)).modes hok.modes).1
    have hr := respelled hev hok.valid hid
    let e' : GlobalEntry := { e with value := recNorm e.key e.value v, timestamp := ts }
    have hset : NoLive chan t { s with globalEntries := s.globalEntries.set i e' } := by
      refine h.set ?_
      intro hk
      have hfold : keyIsSingleton e.key = false ∧ keyFoldsCase e.key = true := by
        rcases hk with hk | hk <;> rw [show e.key = _ from hk] <;> exact ⟨rfl, rfl⟩
      have hact : recActive e.key (recNorm e.key e.value v) = recActive e.key v := by
        rcases hr.active with hD | hact
        · rcases hk with hk | hk <;> cases (show e.key = _ from hk).symm.trans hD
        · rw [recActive, recActive, hact]
      have hchan := lower_firstField_of_foldIdent_eq hfold.1 hfold.2 (hr.ident.trans hid)
      exact hnew _ hact hchan (by
        rintro ⟨j, a, hj, ha, hrej⟩
        rw [hfind] at hj
        cases hj
        rw [hget] at ha
        cases ha
        rw [hacc] at hrej
        cases hrej) e.lastUsed hk
    exact ⟨hset.entries, hset.bindings⟩
  -- a new record
  | new hok hfind hban hroom =>
    refine h.push (hnew v rfl rfl ?_ 0)
    rintro ⟨j, a, hj, -⟩
    rw [hfind] at hj
    cases hj
  -- a new one after a tombstone was dropped
  | evicted s' hok hfind hban hfull hevict hroom =>
    refine (h.evict hevict).push (hnew v rfl rfl ?_ 0)
    rintro ⟨j, a, hj, -⟩
    rw [hfind] at hj
    cases hj
  | onlyEvicted s' hfull hevict hroom => exact h.evict hevict

/-- A delete brings nothing back. -/
theorem putCovered_of_dead {clk : Clock} {k : GlobalKey} {v : Str} {ts : Int}
    (hdead : recActive k v = false) : PutCovered clk chan t s k v ts := by
  intro _ hact
  rw [hdead] at hact
  cases hact

/-- The same for a binding. -/
theorem NoLive.bind (h : NoLive chan t s) {clk : Clock} {uuid c : Str} {active : Bool} {ts : Int}
    (hcov : BindCovered clk chan t s uuid c active ts) :
    NoLive chan t (uchanPut clk s uuid c active ts).1 := by
  have hres := uchanPut_result clk s uuid c active ts
  generalize Hub.uchanPut clk s uuid c active ts = q at hres ⊢
  cases hres with
  | refused => exact h
  | rewrote i r _ _ _ _ hfind hget hacc =>
    refine ⟨h.entries, fun a ha => ?_⟩
    rw [uchanSet_eq hget] at ha
    rcases List.mem_or_eq_of_mem_set ha with ha | rfl
    · exact h.bindings a ha
    · intro hact hchan
      by_contra hle
      have hc := eqIc_trans (eqIc_symm (uchanFind_some hfind hget).2) hchan
      obtain ⟨j, b, hj, hb, hrej⟩ := hcov hact hc (not_lt.mp hle)
      rw [hfind] at hj
      cases hj
      rw [hget] at hb
      cases hb
      rw [hacc] at hrej
      cases hrej
  | new _ _ _ _ hfind hroom =>
    refine ⟨h.entries, fun a ha => ?_⟩
    rcases List.mem_append.mp ha with ha | ha
    · exact h.bindings a ha
    · rw [List.mem_singleton] at ha
      subst ha
      intro hact hchan
      by_contra hle
      obtain ⟨j, b, hj, -⟩ := hcov hact hchan (not_lt.mp hle)
      rw [hfind] at hj
      cases hj

/-- The delete of any channel brings nothing live in: a cascade writes tombstones. -/
theorem NoLive.cascade (h : NoLive chan t s) (hs : StoreInv s) (clk : Clock) (c : Str) (ts : Int)
    (announce : Bool) : NoLive chan t (chanCascadeDel clk s c ts announce).1 := by
  have hrun : StoreInv (chanCascadeDel clk s c ts announce).1
      ∧ NoLive chan t (chanCascadeDel clk s c ts announce).1 := by
    refine chanCascadeDel_induction (P := fun u => StoreInv u ∧ NoLive chan t u) ?_ ?_
      ?_ ?_ ⟨hs, h⟩
    · intro u hu
      obtain ⟨hent, hbind⟩ := learnedDrop_tables u c
      exact ⟨hu.1.of_sameTable (sameTable_learnedDrop u c),
        hu.2.of_subset (fun e he => hent ▸ he) fun r hr => hbind ▸ hr⟩
    · intro u e hu he hk _ _
      exact ⟨hu.1.putRecord clk e.key _ ts,
        hu.2.put hu.1 (putCovered_of_dead (hu.1.tombstoneOf_spec he hk).dead)⟩
    · intro u a b hu _ _
      exact ⟨hu.1.of_sameTable (sameTable_uchanPut clk u a b false ts),
        hu.2.bind fun hact => by cases hact⟩
    · exact fun u p hu => ⟨hu.1.of_sameTable (sameTable_broadcast u p),
        hu.2.of_subset (fun _ he => he) fun _ hr => hr⟩
  exact hrun.2

/-- An entry of the older kinds is written over, with the cascade that may follow. -/
theorem NoLive.replaceOld (h : NoLive chan t s) (hs : StoreInv s) {i : Nat} {e : GlobalEntry}
    (hget : s.globalEntries[i]? = some e) (hold : keyIsModes e.key = false) {w : Str}
    (hshort : utf8Len w < 1024) (hname : ∀ v, globalFind s .c v = some i → NameHeld w v)
    (clk : Clock) (ts : Int) (c : Str) : NoLive chan t (replaceOld clk s i e w ts c) := by
  have hset : NoLive chan t { s with
      globalEntries := s.globalEntries.set i { e with value := w, timestamp := ts } } :=
    h.set (cleared_of_old hold)
  unfold Hub.replaceOld
  simp only []
  split
  · exact hset.cascade (hs.setOld hget hold rfl hshort hname) clk c ts false
  · exact hset

/-- What a sweep writes over a ban is not live. -/
theorem recActive_sweepTombstone (v : Str) : recActive .B (sweepTombstone v) = false := by
  have hdel : '|' ∉ "del".toList := by decide
  have h := globalValueActive_of_op
    (u := field v 0 maxChan ++ '|' :: field v 1 (banMaskMax + 1) ++ "|0|||".toList) hdel
  have hv : sweepTombstone v = field v 0 maxChan ++ '|' :: field v 1 (banMaskMax + 1)
      ++ "|0|||".toList ++ '|' :: "del".toList := by
    rw [sweepTombstone, List.append_assoc _ "|0|||".toList]
    rfl
  rw [recActive, hv, h]
  rfl

/-- One step that is covered by the delete, whatever it is. `hs` is the invariant of both
tables. -/
theorem NoLive.run (h : NoLive chan t s) (hs : ChanInv s) {clk : Clock} {step : ChanStep}
    (hstay : StaysDeleted chan t clk s step) : NoLive chan t (step.run clk s) := by
  cases step with
  | bind uuid c active ts => exact h.bind hstay
  | store op =>
    cases op with
    -- a change of another table
    | elsewhere u => exact ⟨h.entries, h.bindings⟩
    -- a ban, a lock or a list
    | put key value ts => exact h.put hs.store hstay
    -- one of the older classes
    | update key value extra op ts =>
      show NoLive chan t (updateGlobalEntry clk s key value extra op ts).1
      have hres := updateGlobalEntry_result clk s key value extra op ts
      generalize updateGlobalEntry clk s key value extra op ts = q at hres ⊢
      cases hres with
      | refused => exact h
      | rewrote i e hk hfind hget hacc =>
        exact h.replaceOld hs.store hget (hs.store.key_of_find hfind hget ▸ hk)
          (utf8Len_combinedValue_lt ..)
          (hs.store.nameHeld_updateNorm hfind hget extra op) clk ts _
      | new hk hfind hahead hroom => exact h.push (cleared_of_old hk)
    -- one that is stored as it comes, which is of either kind
    | raw key value ts =>
      show NoLive chan t (storeGlobalEntryRaw clk s key value ts).1
      cases hk : keyIsModes key with
      | true =>
        rw [storeGlobalEntryRaw_modes hk]
        exact h.put hs.store hstay
      | false =>
        have hres := storeGlobalEntryRaw_result hk clk s value ts
        generalize storeGlobalEntryRaw clk s key value ts = q at hres ⊢
        cases hres with
        | refused => exact h
        | rewrote i e hfind hget hacc =>
          exact h.replaceOld hs.store hget (hs.store.key_of_find hfind hget ▸ hk)
            (utf8Len_trunc_lt _ (by decide)) (hs.store.nameHeld_rawNorm hfind hget) clk ts _
        | new hfind hahead hroom => exact h.push (cleared_of_old hk)
    -- the cascade of another channel
    | cascade c ts announce => exact h.cascade hs.store clk c ts announce
    -- a sweep of the bans
    | sweep =>
      have hrun : StoreInv (bansSweep clk s) ∧ NoLive chan t (bansSweep clk s) :=
        bansSweep_induction (P := fun u => StoreInv u ∧ NoLive chan t u)
          (fun _ hu => ⟨hu.1, hu.2.of_subset (fun _ he => he) fun _ hr => hr⟩)
          (fun u e hu _ => ⟨hu.1.putRecord clk .B _ _,
            hu.2.put hu.1 (putCovered_of_dead (recActive_sweepTombstone e.value))⟩)
          (fun _ _ hu => ⟨hu.1, hu.2.of_subset (fun _ he => he) fun _ hr => hr⟩) ⟨hs.store, h⟩
      exact hrun.2
    | purge cutoff =>
      exact h.of_subset (executePurge_entries_subset clk s cutoff)
        (executePurge_sublist clk s cutoff).subset
    | orphans =>
      refine h.of_subset (purgeChanOrphans_entries_subset s) fun r hr => ?_
      have hr' : r ∈ (purgeChanOrphans s).uchanRecords := hr
      rwa [purgeChanOrphans_uchanRecords] at hr'
    | banUsed i ts =>
      show NoLive chan t (raise clk s (.ban i) ts)
      rcases raise_ban_cases clk s i ts with heq | ⟨e, lu, hget, heq⟩
      · rw [heq]
        exact h
      · rw [heq]
        exact h.set (h.entries e (List.mem_of_getElem? hget))

end Keep

/-! ### The delete -/

section Delete

variable {s : HubState} {r : ChanRecord} {v : Visit}

/-- The hub holds a record of the channel that the delete beats. This is where the code runs the
cascade. -/
def Beats (s : HubState) (r : ChanRecord) : Prop :=
  ∃ i e, globalFind s .c r.chan = some i ∧ s.globalEntries[i]? = some e
    ∧ lwwRank e.timestamp (globalValueActive e.value) < r.rank

/-- The delete finds a record of the channel that it beats, or there is nothing of the channel
to delete. -/
def DeleteReaches (s : HubState) (r : ChanRecord) : Prop := Beats s r ∨ NoLive r.chan r.ts s

/-- The name a cascade runs over is the name of the channel: it fits the channel buffer, and it is
not the star. A longer name is cut to another channel's, and the star is that of the bans of every
channel. -/
def NameFits (r : ChanRecord) : Prop := utf8Len r.chan < maxChan ∧ r.chan ≠ ['*']

/-- Of two spellings of a channel one is as gone as the other. -/
theorem NoLive.respell {a b : Str} {t : Int} (h : NoLive a t s) (hab : lower a = lower b) :
    NoLive b t s := by
  refine ⟨fun e he hk hact hchan => h.entries e he hk hact ?_,
    fun u hu hact hchan => h.bindings u hu hact ?_⟩
  · exact eqIc_iff.mpr ((eqIc_iff.mp hchan).trans hab.symm)
  · exact eqIc_iff.mpr ((eqIc_iff.mp hchan).trans hab.symm)

/-- Both spellings match the same names. -/
theorem eqIc_respell {a b : Str} (hab : lower a = lower b) (x : Str) : eqIc x a = eqIc x b := by
  rw [eqIc, eqIc, hab]

/-- Both have the same elsewhere. -/
theorem SameElsewhere.respell {a b : Str} {s' : HubState} (h : SameElsewhere a s s')
    (hab : lower a = lower b) : SameElsewhere b s s' := by
  refine ⟨fun i e he => h.entry i e ?_, fun i u hu => h.binding i u ?_,
    fun l hl => h.learned l ?_⟩
  · rw [ofChan, entryChanEq, eqIc_respell hab]
    exact he
  · rw [eqIc_respell hab]
    exact hu
  · rw [eqIc_respell hab]
    exact hl

/-- What the two paths store over a held channel: the record under a spelling of the channel, and
for a delete the cascade over that channel. `hchan` makes the name the cascade runs over that of
the channel. -/
theorem replaced_delete (hs : ChanInv s) {i : Nat} {e : GlobalEntry}
    (hfind : globalFind s .c r.chan = some i) (hget : s.globalEntries[i]? = some e)
    (hchan : NameFits r) (hdel : r.active = false)
    (hahead : tsAhead v.clk r.ts = false) {s' : HubState} (h : Replaced r v s i e s') :
    NoLive r.chan r.ts s' ∧ SameElsewhere r.chan s s' := by
  obtain ⟨u, c, hu, hname, hc, rfl⟩ := h
  obtain ⟨hlen, hne⟩ := hchan
  have hstar : eqIc ['*'] r.chan = false :=
    Bool.eq_false_iff.mpr fun heq => hne (eqIc_star (eqIc_symm heq))
  have hfirst : firstField r.chan = r.chan := firstField_of_bar_notMem r.chanBar
  have hfit : utf8Len (firstField r.chan) < maxChan + 8 := by
    rw [hfirst]
    omega
  -- the two spellings are one channel
  have hlow : lower u = lower r.chan := by
    have h := hname.short hfit
    rwa [firstField_append_bar hu, hfirst] at h
  -- the cascade runs over the whole name
  obtain rfl : c = u := by
    rcases hc with rfl | rfl
    · rfl
    · exact trunc_of_lt (by rw [utf8Len_eq_of_lower_eq hlow]; exact hlen)
  have hkey := hs.store.key_of_find hfind hget
  have hold : keyIsModes e.key = false := by rw [hkey]; rfl
  let w := c ++ '|' :: (r.extra ++ '|' :: r.op)
  let e' : GlobalEntry := { e with value := w, timestamp := r.ts }
  let t : HubState := { s with globalEntries := s.globalEntries.set i e' }
  have hshort : utf8Len w < 1024 := by
    have h := r.fits
    have hsame := utf8Len_eq_of_lower_eq hlow
    show utf8Len (c ++ '|' :: (r.extra ++ '|' :: r.op)) < 1024
    simp only [String.utf8Len_append] at h ⊢
    omega
  -- the rewritten record keeps the store
  have ht : StoreInv t := hs.store.setOld hget hold rfl hshort fun x hx =>
    hname.congr rfl (gkey_c_eq_iff.mp (hs.store.sound.inj .c r.chan .c x i hfind hx))
  -- and it is a delete, so the source goes on with the cascade
  have hdead : globalValueActive w = false := by
    rw [show w = c ++ '|' :: (r.extra ++ '|' :: r.op) from rfl, globalValueActive_append_bar,
      ← globalValueActive_append_bar r.chan, ← hdel]
    exact r.globalValueActive_text
  have hstore : replaceOld v.clk s i e w r.ts c = (chanCascadeDel v.clk t c r.ts false).1 := by
    unfold replaceOld
    simp only [hkey, hdead, decide_true, Bool.not_false, Bool.and_true, if_true]
    rw [← hkey]
  have hstar' : eqIc ['*'] c = false := by
    rw [eqIc_respell hlow]
    exact hstar
  -- the rewritten entry was of this channel, and still is
  have hset : SameElsewhere c s t := by
    have hmarked : ∀ a : GlobalEntry, a.key = .c → lower (firstField a.value) = lower c →
        ofChan c a = true := by
      intro a ha hl
      have : entryChanEq a c = true := eqIc_iff.mpr hl
      rw [ofChan, ha, this]
      rfl
    have he := (hs.store.nameHeld_of_find hfind hget).short hfit
    rw [hfirst, ← hlow] at he
    have he' : lower (firstField w) = lower c := by rw [firstField_append_bar hu]
    exact ⟨fun j a ha => getElem?_set_iff_of_marked hget (hmarked e hkey he)
      (hmarked e' hkey he') ha j, fun _ _ _ => Iff.rfl, fun _ _ => Iff.rfl⟩
  show NoLive r.chan r.ts (replaceOld v.clk s i e w r.ts c)
    ∧ SameElsewhere r.chan s (replaceOld v.clk s i e w r.ts c)
  rw [hstore]
  exact ⟨(noLive_chanCascadeDel ht hs.bindings hahead hstar' false).respell hlow,
    (hset.trans (sameElsewhere_chanCascadeDel ht v.clk c r.ts false)).respell hlow⟩

/-- A delete that reaches the channel clears it, and leaves the rest alone where the name it runs
over is that of the channel. -/
theorem store_delete (hs : ChanInv s) (hchan : Beats s r → NameFits r)
    (hdel : r.active = false) (hahead : tsAhead v.clk r.ts = false) :
    (DeleteReaches s r → NoLive r.chan r.ts (r.store v s))
    ∧ SameElsewhere r.chan s (r.store v s) := by
  cases hfind : globalFind s .c r.chan with
  | none =>
    -- first sight of the channel: nothing is deleted
    have hreach : DeleteReaches s r → NoLive r.chan r.ts s := by
      rintro (⟨i, e, hi, -⟩ | hno)
      · rw [hfind] at hi
        cases hi
      · exact hno
    rw [store_of_new hahead hfind]
    split
    · refine ⟨fun h => (hreach h).push (cleared_of_old rfl), ?_⟩
      have hmarked : ofChan r.chan (newEntry .c r.text r.ts) = true := by
        have : entryChanEq (newEntry .c r.text r.ts) r.chan = true := by
          rw [entryChanEq, show (newEntry .c r.text r.ts).value = r.text from rfl,
            r.firstField_text]
          exact eqIc_iff.mpr rfl
        rw [ofChan, this]
        rfl
      rw [globalPush_eq]
      exact ⟨fun j a ha => getElem?_append_iff_of_marked hmarked ha j, fun _ _ _ => Iff.rfl,
        fun _ _ => Iff.rfl⟩
    · exact ⟨hreach, .refl r.chan s⟩
  | some i =>
    obtain ⟨e, hget, -⟩ := hs.store.sound.held .c r.chan i hfind
    have hstep := store_of_held hs.store hahead hfind hget
    by_cases hlt : lwwRank e.timestamp (globalValueActive e.value) < r.rank
    · rw [if_pos hlt] at hstep
      obtain ⟨hno, hsame⟩ :=
        replaced_delete hs hfind hget (hchan ⟨i, e, hfind, hget, hlt⟩) hdel hahead hstep
      exact ⟨fun _ => hno, hsame⟩
    · rw [if_neg hlt] at hstep
      rw [hstep]
      refine ⟨?_, .refl r.chan s⟩
      rintro (⟨j, a, hj, ha, hlt'⟩ | hno)
      · rw [hfind] at hj
        cases hj
        rw [hget] at ha
        cases ha
        exact absurd hlt' hlt
      · exact hno

/-- A delete keeps the invariant, on either path. -/
theorem ChanInv.delete (hs : ChanInv s) : ChanInv (r.store v s) := by
  cases hp : v.path with
  | update =>
    have h := hs.run v.clk (.store (.update .c r.chan r.extra r.op r.ts))
    simp only [ChanRecord.store, hp]
    exact h
  | raw =>
    have h := hs.run v.clk (.store (.raw .c r.text r.ts))
    simp only [ChanRecord.store, hp]
    exact h

end Delete

/-- After every run, a delete of a channel that reaches it leaves everything of another channel
and the network-wide bans as they are, and from then on, along every run of steps that bring
nothing of the channel back, no live setting, ban or binding of the channel has a stamp up to the
delete's.

`hname` is about the deletes that run the cascade: their name has to be that of the channel.
`hreach` is about the state at the delete, `hafter` about the state before each later step. -/
theorem noLive_of_delete (before : List (Clock × ChanStep)) (r : ChanRecord) (v : Visit)
    (after : List (Clock × ChanStep)) (hname : Beats (runChan {} before) r → NameFits r)
    (hdel : r.active = false) (hahead : tsAhead v.clk r.ts = false)
    (hreach : DeleteReaches (runChan {} before) r)
    (hafter : Lww.Along (fun s p => StaysDeleted r.chan r.ts p.1 s p.2) (fun s p => p.2.run p.1 s)
      (r.store v (runChan {} before)) after) :
    SameElsewhere r.chan (runChan {} before) (r.store v (runChan {} before))
      ∧ ∀ n, NoLive r.chan r.ts (runChan (r.store v (runChan {} before)) (after.take n)) := by
  have hs := chanInv_runChan before
  obtain ⟨hno, hsame⟩ := store_delete (v := v) hs hname hdel hahead
  refine ⟨hsame, fun n => ?_⟩
  have hstep : ∀ (s : HubState) (p : Clock × ChanStep), (ChanInv s ∧ NoLive r.chan r.ts s) →
      StaysDeleted r.chan r.ts p.1 s p.2 →
      ChanInv (p.2.run p.1 s) ∧ NoLive r.chan r.ts (p.2.run p.1 s) :=
    fun s p h hstay => ⟨h.1.run p.1 p.2, h.2.run h.1 hstay⟩
  exact (Lww.inv_run hstep ⟨hs.delete, hno hreach⟩ (hafter.take n)).2

/-- The delete of the example is a well-formed one. -/
private theorem chanDel_ok : '|' ∉ "del".toList ∧ ("del".toList ≠ [] ∧ utf8Len "del".toList < 16)
    ∧ utf8Len ("#chan".toList ++ '|' :: ([] ++ '|' :: "del".toList)) < 1024 := by
  decide

/-- The delete of `#chan` at 900. -/
def chanDel : ChanRecord where
  chan := "#chan".toList
  extra := []
  op := "del".toList
  ts := 900
  chanBar := barless_chan
  opBar := chanDel_ok.1
  opOk := chanDel_ok.2.1
  fits := chanDel_ok.2.2

/-- `#chan` is added at 400. -/
def chanAdded : Clock × ChanStep :=
  ({ now := 1000 }, .store (.update .c "#chan".toList [] "add".toList 400))

/-- The modes of `#chan` are set at 500. -/
def modesSet : Clock × ChanStep :=
  ({ now := 1000 }, .store (.put .C "#chan|+nt||add".toList 500))

/-- The channel and its modes are known, then the channel is deleted, then the modes arrive
again. -/
theorem noLive_of_delete_modes :
    SameElsewhere "#chan".toList (runChan {} [chanAdded, modesSet])
        (chanDel.store (plainVisit .update) (runChan {} [chanAdded, modesSet]))
      ∧ ∀ n, NoLive "#chan".toList 900 (runChan
        (chanDel.store (plainVisit .update) (runChan {} [chanAdded, modesSet]))
        ([modesSet].take n)) := by
  have hchan : ∃ i e, globalFind (runChan {} [chanAdded, modesSet]) .c chanDel.chan = some i
      ∧ (runChan {} [chanAdded, modesSet]).globalEntries[i]? = some e
      ∧ lwwRank e.timestamp (globalValueActive e.value) < chanDel.rank :=
    ⟨0, { key := .c, value := "#chan||add".toList, timestamp := 400, lastUsed := 0 },
      by decide +kernel, by decide +kernel, by decide +kernel⟩
  have hheld : PutCovered { now := 1000 } "#chan".toList 900
      (chanDel.store (plainVisit .update) (runChan {} [chanAdded, modesSet])) .C
      "#chan|+nt||add".toList 500 :=
    fun _ _ _ _ => ⟨1,
      { key := .C, value := "#chan|||del".toList, timestamp := 900, lastUsed := 0 },
      by decide +kernel, by decide +kernel, by decide +kernel⟩
  have hname : NameFits chanDel := ⟨by decide, by decide⟩
  exact noLive_of_delete [chanAdded, modesSet] chanDel (plainVisit .update) [modesSet]
    (fun _ => hname) (by decide) (by decide) (.inl hchan) ⟨hheld, trivial⟩

/-- Live modes or bans of a channel with a stamp up to 900. -/
def liveOf (key : GlobalKey) (chan : Str) (s : HubState) : Bool :=
  s.globalEntries.any fun e => e.key = key && entryActive e && entryChanEq e chan
    && decide (e.timestamp ≤ 900)

/-- A channel whose name just fits. -/
def fullName : Str := '#' :: List.replicate 63 'a'

/-- So is the one with a long name. -/
private theorem longDel_ok : '|' ∉ '#' :: List.replicate 64 'a'
    ∧ utf8Len (('#' :: List.replicate 64 'a') ++ '|' :: ([] ++ '|' :: "del".toList)) < 1024 := by
  decide +kernel

/-- The delete of a channel whose name is one letter longer. -/
def longDel : ChanRecord where
  chan := '#' :: List.replicate 64 'a'
  extra := []
  op := "del".toList
  ts := 900
  chanBar := longDel_ok.1
  opBar := chanDel_ok.1
  opOk := chanDel_ok.2.1
  fits := longDel_ok.2

/-- And the one of the network's own name. -/
private theorem starDel_ok : '|' ∉ ['*']
    ∧ utf8Len (['*'] ++ '|' :: ([] ++ '|' :: "del".toList)) < 1024 := by
  decide

/-- A delete of the star as if it were a channel. -/
def starDel : ChanRecord where
  chan := ['*']
  extra := []
  op := "del".toList
  ts := 900
  chanBar := starDel_ok.1
  opBar := chanDel_ok.1
  opOk := chanDel_ok.2.1
  fits := starDel_ok.2

/-- The modes of the channel whose name just fits, and an older record of the longer name. -/
def longKnown : List (Clock × ChanStep) :=
  [({ now := 1000 }, .store (.put .C (fullName ++ "|+nt||add".toList) 500)),
    ({ now := 1000 }, .store (.raw .c (longDel.chan ++ "||add".toList) 400))]

/-- A ban of every channel, and an older record of the star. -/
def starKnown : List (Clock × ChanStep) :=
  [({ now := 1000 }, .store (.put .B "*|*!*@x|0||adm||add".toList 500)),
    ({ now := 1000 }, .store (.raw .c "*||add".toList 400))]

/-- Two orders in which the modes outlive the channel: the delete is the first the hub hears of
the channel, or the modes arrive after it. In the order of the known channel they do not. Two
names under which a delete takes what is not of its channel: a name past the buffer takes the
modes of the channel it is cut to, and the star takes the bans of every channel. -/
theorem delete_misses_modes :
    liveOf .C "#chan".toList (chanDel.store (plainVisit .update) (runChan {} [modesSet])) = true
      ∧ liveOf .C "#chan".toList
          (runChan (chanDel.store (plainVisit .update) (runChan {} [chanAdded])) [modesSet])
          = true
      ∧ liveOf .C "#chan".toList
          (chanDel.store (plainVisit .update) (runChan {} [chanAdded, modesSet])) = false
      ∧ (liveOf .C fullName (runChan {} longKnown) = true
        ∧ liveOf .C fullName (longDel.store (plainVisit .raw) (runChan {} longKnown)) = false)
      ∧ liveOf .B ['*'] (runChan {} starKnown) = true
      ∧ liveOf .B ['*'] (starDel.store (plainVisit .raw) (runChan {} starKnown)) = false := by
  refine ⟨by decide +kernel, by decide +kernel, by decide +kernel,
    ⟨by decide +kernel, by decide +kernel⟩, by decide +kernel, by decide +kernel⟩

end IrcHub.Proofs
