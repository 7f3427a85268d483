import IrcHub.Proofs.Global.Store

/-!
# `IrcHub.Proofs.Global.Frame`: what a write to the global table leaves alone

A write to the global table may change the table, its index, the bindings and learned keys of a
deleted channel, and what is sent to the peers. `offStore` is the state without these, and no
function of the store changes it.

* `offStore_putRecord`, `offStore_updateGlobalEntry`, `offStore_chanCascadeDel`: one equation for
  each function of the store
* `executePurge_bots`: a purge filters the bots as its last step does, and keeps the revoke list

The proofs about bots, users and rights use these equations to step over the global table without
opening a definition of it.
-/

set_option autoImplicit false

namespace IrcHub.Proofs

open IrcHub.Hub Str

/-- The state without what a write to the global table may change. Two states with equal
`offStore` have the same bots, users, flags, hubs and revoke list. -/
def offStore (s : HubState) : HubState :=
  { s with
    globalEntries := []
    globalIdx := {}
    chanLearned := []
    uchanRecords := []
    peerOut := []
    bansSweptAt := 0 }

/-- A put changes the store and nothing else. The cases are those of `PutResult`. -/
theorem offStore_putRecord (clk : Clock) (s : HubState) (k : GlobalKey) (v : Str) (ts : Int) :
    offStore (putRecord clk s k v ts).1 = offStore s := by
  have hres := putRecord_result clk s k v ts
  generalize putRecord clk s k v ts = q at hres ⊢
  cases hres with
  | refused => rfl
  | rewrote i e hok hfind hget hacc hban => rfl
  | new hok hfind hban hroom =>
    rw [globalPush_eq]
    rfl
  | evicted s' hok hfind hban hfull hevict hroom =>
    obtain ⟨b, e, -, -, -, rfl⟩ := evictOldestTombstone_eq hevict
    rw [globalPush_eq]
    rfl
  | onlyEvicted s' hfull hevict hroom =>
    obtain ⟨b, e, -, -, -, rfl⟩ := evictOldestTombstone_eq hevict
    rfl

/-- A put of a binding changes the bindings and nothing else. -/
theorem offStore_uchanPut (clk : Clock) (s : HubState) (uuid chan : Str) (active : Bool)
    (ts : Int) :
    offStore (uchanPut clk s uuid chan active ts).1 = offStore s := by
  have hres := uchanPut_result clk s uuid chan active ts
  generalize uchanPut clk s uuid chan active ts = q at hres ⊢
  cases hres <;> rfl

/-- Forgetting what was learned of a channel changes the memory of it and nothing else. -/
theorem offStore_learnedDrop (s : HubState) (chan : Str) :
    offStore (learnedDrop s chan) = offStore s := by
  unfold learnedDrop
  split <;> rfl

/-- So does a cascade, which is made of the three. -/
theorem offStore_chanCascadeDel (clk : Clock) (s : HubState) (chan : Str) (ts : Int)
    (announce : Bool) : offStore (chanCascadeDel clk s chan ts announce).1 = offStore s := by
  refine chanCascadeDel_induction (P := fun t => offStore t = offStore s) ?_ ?_ ?_ ?_ rfl
  · intro t ht
    rw [offStore_learnedDrop, ht]
  · intro t e ht _ _ _ _
    rw [offStore_putRecord, ht]
  · intro t u c ht _ _
    rw [offStore_uchanPut, ht]
  · intro t p ht
    exact ht

/-- Writing over an entry of the older kinds changes the store and nothing else. -/
theorem offStore_replaceOld (clk : Clock) (s : HubState) (i : Nat) (e : GlobalEntry) (value : Str)
    (ts : Int) (chan : Str) : offStore (replaceOld clk s i e value ts chan) = offStore s := by
  unfold replaceOld
  simp only []
  split
  · rw [offStore_chanCascadeDel]
    rfl
  · rfl

/-- So does a local change. -/
theorem offStore_updateGlobalEntry (clk : Clock) (s : HubState) (k : GlobalKey)
    (value extra op : Str) (ts : Int) :
    offStore (updateGlobalEntry clk s k value extra op ts).1 = offStore s := by
  have hres := updateGlobalEntry_result clk s k value extra op ts
  generalize updateGlobalEntry clk s k value extra op ts = q at hres ⊢
  cases hres with
  | refused => rfl
  | rewrote i e hk hfind hget hacc => exact offStore_replaceOld _ _ _ _ _ _ _
  | new hk hfind hahead hroom =>
    rw [globalPush_eq]
    rfl

/-- The sweep over what was learned, by induction on the steps left. -/
theorem offStore_learnedSweep (fuel i : Nat) (s : HubState) :
    offStore (learnedSweep fuel i s) = offStore s := by
  induction fuel generalizing i s with
  | zero => rfl
  | succ fuel ih =>
    unfold learnedSweep
    split
    · rfl
    split
    · exact ih _ _
    · rw [ih, offStore_learnedDrop]

/-- Taking orphans out changes the store and nothing else. -/
theorem offStore_purgeChanOrphans (s : HubState) :
    offStore (purgeChanOrphans s) = offStore s := by
  unfold purgeChanOrphans
  simp only []
  rw [offStore_learnedSweep]
  split
  · rw [globalReindex_eq]
    rfl
  · rfl

/-! ### The bots in a purge -/

/-- What a purge leaves of the bots and the revoke list is what its last step leaves. The steps
before it change the store only. -/
theorem executePurge_bots (clk : Clock) (s : HubState) (cutoff : Int) :
    (executePurge clk s cutoff).bots = (s.bots.filter fun b => !purgeBot cutoff b).take maxBots ∧
      (executePurge clk s cutoff).revoked = s.revoked := by
  -- the steps before the last one change neither
  have hrest : ∀ t : HubState, (accessPurge (purgeMasks cutoff (purgeUsers cutoff t)) cutoff).bots
    = t.bots
      ∧ (accessPurge (purgeMasks cutoff (purgeUsers cutoff t)) cutoff).revoked = t.revoked :=
    fun t => ⟨rfl, rfl⟩
  have horphans := offStore_purgeChanOrphans (purgeGlobals cutoff (purgeFloorSet clk s cutoff))
  have hglobals : offStore (purgeGlobals cutoff (purgeFloorSet clk s cutoff))
      = offStore (purgeFloorSet clk s cutoff) := by
    unfold purgeGlobals
    rw [globalReindex_eq]
    rfl
  rw [hglobals] at horphans
  generalize ht : purgeChanOrphans (purgeGlobals cutoff (purgeFloorSet clk s cutoff))
    = t at horphans
  have hbots : (offStore t).bots = (offStore (purgeFloorSet clk s cutoff)).bots := by
    rw [horphans]
  have hrevoked : (offStore t).revoked = (offStore (purgeFloorSet clk s cutoff)).revoked := by
    rw [horphans]
  obtain ⟨hb, hr⟩ := hrest t
  unfold executePurge
  simp only [ht]
  exact ⟨congrArg (fun bs => (bs.filter fun b => !purgeBot cutoff b).take maxBots)
    (hb.trans hbots), hr.trans hrevoked⟩

end IrcHub.Proofs
