import IrcHub.Lib.Lww
import IrcHub.Proofs.Global.Store

/-!
# `IrcHub.Proofs.Global.Exact`: when the index is exact for every class

For the classes `C`, `D` and `B` the index is exact after every operation. For the others it is
exact as long as no stored text is cut inside its identity: `updateGlobalEntry` copies the stored
channel through a buffer of `maxChan + 8` bytes when it rewrites a record in place, and both store
paths cut a new value to 1023 bytes before they note it.

* `IndexExact`: every lookup finds what a scan finds, no record is stored twice, the counts are
  recounts
* `ExactInv`: the same in terms of hash keys, which is what the operations keep
* `KeepsIdentity`: the operations that cut no identity
* `indexExact_of_keepsIdentity`: a run of such operations keeps the index exact in every state it
  reaches
* `index_stale_after_update`: a run of two operations that leaves a stale index

`KeepsIdentity` is a condition on the operation and on the state before it. It asks nothing of the
operations of the newer classes and nothing of sweeps, purges and restores.
-/

set_option autoImplicit false

namespace IrcHub.Proofs

open IrcHub.Hub Str
open String (utf8Len)

/-! ### The representation invariant -/

/-- The first entry that `value` under `key` addresses, by looking at every entry. -/
def scanFind (s : HubState) (key : GlobalKey) (value : Str) : Option Nat :=
  s.globalEntries.findIdx? (fun e => e.key = key && globalIdentityEq key e.value value)

/-- The index answers every lookup like a scan, no record is stored twice, and the counts are
recounts. This is stated with the identity test of the source, and without hash keys. -/
structure IndexExact (s : HubState) : Prop where
  find : ∀ key value, globalFind s key value = scanFind s key value
  unique : s.globalEntries.Pairwise fun a b =>
    ¬ (a.key = b.key ∧ globalIdentityEq a.key a.value b.value = true)
  counted : Counted s.globalEntries s.globalIdx

/-- The same, in terms of hash keys, with the invariant of the store beside it. Operations are
shown to keep this one, and `ExactInv.indexExact` reads the other off. -/
structure ExactInv (s : HubState) : Prop where
  store : StoreInv s
  indexed : IndexedFor (fun _ => true) s.globalEntries s.globalIdx
  distinct : DistinctFor (fun _ => true) s.globalEntries

/-- An entry hashes to the key of a value when it has its kind and its identity, which is what the
scan asks. -/
theorem hashOf_beq_gkey (e : GlobalEntry) (k : GlobalKey) (v : Str) :
    (hashOf e == gkey k v) = (decide (e.key = k) && globalIdentityEq k e.value v) := by
  rw [Bool.eq_iff_iff, beq_iff_eq, hashOf, gkey_eq_iff, Bool.and_eq_true, decide_eq_true_eq]
  constructor
  · rintro ⟨rfl, h⟩
    exact ⟨rfl, h⟩
  · rintro ⟨rfl, h⟩
    exact ⟨rfl, h⟩

/-- The invariant gives the claim about lookups: the index finds what a scan of the table finds,
and no two entries share kind and identity. -/
theorem ExactInv.indexExact {s : HubState} (h : ExactInv s) : IndexExact s where
  find key value := by
    rw [globalFind, h.indexed key value rfl, scanFind]
    simp only [hashOf_beq_gkey]
  unique := h.distinct.imp fun hne heq => hne rfl (gkey_eq_iff.mpr heq)
  counted := h.store.counted

/-! ### What keeps it -/

/-- What leaves the table alone leaves the index exact. -/
theorem ExactInv.of_sameTable {s s' : HubState} (h : ExactInv s) (hf : SameTable s s') :
    ExactInv s' :=
  ⟨h.store.of_sameTable hf, by rw [hf.1, hf.2]; exact h.indexed, by rw [hf.1]; exact h.distinct⟩

/-- An entry with a new identity is added. With an old one the index would name the first of two.
-/
theorem ExactInv.push {s : HubState} (h : ExactInv s) {e : GlobalEntry}
    (hs' : StoreInv (globalPush s e)) (hnew : ∀ a ∈ s.globalEntries, hashOf a ≠ hashOf e) :
    ExactInv (globalPush s e) := by
  refine ⟨hs', ?_, ?_⟩
  · rw [globalPush_eq]
    exact h.indexed.note e
  · rw [globalPush_eq]
    exact h.distinct.append fun _ => hnew

/-- A table whose index was built anew is exact, as long as its identities are apart. -/
theorem exactInv_reindexed {s : HubState} {es : List GlobalEntry}
    (hs' : StoreInv { s with globalEntries := es, globalIdx := reindexed es })
    (hd : DistinctFor (fun _ => true) es) :
    ExactInv { s with globalEntries := es, globalIdx := reindexed es } :=
  ⟨hs', indexedFor_reindexed _ es, hd⟩

/-- The eviction of a tombstone takes an entry out, brings none in and builds the index anew. -/
theorem ExactInv.evict {clk : Clock} {s s' : HubState} {k : GlobalKey} (h : ExactInv s)
    (hev : evictOldestTombstone clk s k = some s') :
    ExactInv s' ∧ ∀ a ∈ s'.globalEntries, a ∈ s.globalEntries := by
  have hs' := h.store.evict hev
  obtain ⟨b, e, hb, -, -, rfl⟩ := evictOldestTombstone_eq hev
  have hperm := Table.swapRemove_perm s.globalEntries (List.getElem?_eq_some_iff.mp hb).1
  have hsub : (s.globalEntries.eraseIdx b).Sublist s.globalEntries := List.eraseIdx_sublist _ b
  exact ⟨exactInv_reindexed hs' ((h.distinct.sublist hsub).perm hperm.symm),
    fun a ha => hsub.subset (hperm.mem_iff.mp ha)⟩

/-- A put keeps the index exact without a condition: it respells what it stores by the identity
that is there. -/
theorem ExactInv.putRecord {s : HubState} (h : ExactInv s) (clk : Clock) (k : GlobalKey) (v : Str)
    (ts : Int) : ExactInv (putRecord clk s k v ts).1 := by
  have hs' := h.store.putRecord clk k v ts
  have hres := putRecord_result clk s k v ts
  generalize Hub.putRecord clk s k v ts = r at hres hs' ⊢
  cases hres with
  | refused => exact h
  | rewrote i e hok hfind hget hacc hban =>
    obtain ⟨e', he', hkey, hid⟩ := h.store.find_some hok.modes hfind
    rw [hget] at he'
    cases he'
    have hmodes : keyIsModes e.key = true := hkey ▸ hok.modes
    have hev := ((h.store.entryOk e (List.mem_of_getElem? hget)).modes hmodes).1
    have hr := respelled (hkey ▸ hev) hok.valid hid
    have hhash : hashOf { e with value := recNorm k e.value v, timestamp := ts } = hashOf e :=
      gkey_eq_gkey_iff.mpr ⟨rfl, by rw [hkey]; exact hr.ident⟩
    have hkey' : ({ e with value := recNorm k e.value v, timestamp := ts } : GlobalEntry).key
        = e.key := rfl
    refine ⟨hs', ?_, h.distinct.set hget hkey' fun _ => hhash⟩
    intro k' v' hk'
    rw [overwrite_map]
    exact h.indexed.set hget hkey' (fun _ => hhash) k' v' hk'
  | new hok hfind hban hroom =>
    exact h.push hs' (h.store.find_none hok.modes hfind)
  | evicted s' hok hfind hban hfull hevict hroom =>
    obtain ⟨hex, hmem⟩ := h.evict hevict
    exact hex.push hs' fun a ha => h.store.find_none hok.modes hfind a (hmem a ha)
  | onlyEvicted s' hfull hevict hroom => exact (h.evict hevict).1

/-- So does a cascade, which only puts. -/
theorem ExactInv.chanCascadeDel {s : HubState} (h : ExactInv s) (clk : Clock) (chan : Str)
    (ts : Int) (announce : Bool) : ExactInv (chanCascadeDel clk s chan ts announce).1 :=
  chanCascadeDel_induction (fun s hs => hs.of_sameTable (sameTable_learnedDrop s chan))
    (fun _ e hs _ _ _ _ => hs.putRecord clk e.key _ ts)
    (fun s u c hs _ _ => hs.of_sameTable (sameTable_uchanPut clk s u c false ts))
    (fun s p hs => hs.of_sameTable (sameTable_broadcast s p)) h

/-- So does a sweep of the bans. -/
theorem ExactInv.bansSweep {s : HubState} (h : ExactInv s) (clk : Clock) :
    ExactInv (bansSweep clk s) :=
  bansSweep_induction (fun _ hs => hs.of_sameTable ⟨rfl, rfl⟩)
    (fun _ _ hs _ => hs.putRecord clk .B _ _)
    (fun s p hs => hs.of_sameTable (sameTable_broadcast s p)) h

/-- Taking orphans out leaves a table in which identities are apart, and the index is built anew.
-/
theorem ExactInv.purgeChanOrphans {s : HubState} (h : ExactInv s) :
    ExactInv (purgeChanOrphans s) := by
  have hs' := h.store.purgeChanOrphans
  unfold Hub.purgeChanOrphans at hs' ⊢
  simp only [] at hs' ⊢
  refine ExactInv.of_sameTable ?_ (sameTable_learnedSweep _ _ _)
  split
  · rw [globalReindex_eq]
    exact exactInv_reindexed (h.store.filter _) (h.distinct.sublist List.filter_sublist)
  · exact h

/-- So does a purge. -/
theorem ExactInv.executePurge {s : HubState} (h : ExactInv s) (clk : Clock) (cutoff : Int) :
    ExactInv (executePurge clk s cutoff) := by
  have hglobals : ExactInv (purgeGlobals cutoff (purgeFloorSet clk s cutoff)) := by
    unfold purgeGlobals
    rw [globalReindex_eq]
    exact exactInv_reindexed (GlobalInv.filter h.store _) (h.distinct.sublist List.filter_sublist)
  exact hglobals.purgeChanOrphans.of_sameTable (sameTable_purgeRest cutoff _)

/-- Raising the stamp of a ban for a restore changes no identity. -/
theorem ExactInv.raiseBan {s : HubState} (h : ExactInv s) (clk : Clock) (i : Nat) (ts : Int) :
    ExactInv (raise clk s (.ban i) ts) := by
  have hs' := h.store.raiseBan clk i ts
  rcases raise_ban_cases clk s i ts with heq | ⟨e, lu, hget, heq⟩
  · rw [heq]
    exact h
  · rw [heq] at hs' ⊢
    exact ⟨hs', h.indexed.set hget rfl fun _ => rfl, h.distinct.set hget rfl fun _ => rfl⟩

/-! ### Identities of composed and cut values -/

/-- Every kind but the ban is known by its first field. -/
theorem ident_eq_firstField {k : GlobalKey} (hk : k ≠ .B) (v : Str) :
    ident k v = firstField v := by
  cases k <;> first | rfl | exact absurd rfl hk

/-- Two values of such a kind with the same first field have the same key. -/
theorem gkey_congr_firstField {k : GlobalKey} (hk : k ≠ .B) {v w : Str}
    (h : firstField v = firstField w) : gkey k v = gkey k w := by
  simp only [gkey, ident_eq_firstField hk, h]

/-- The first field of a stored value is as short as the value. -/
theorem firstField_short {s : HubState} (h : StoreInv s) {i : Nat} {e : GlobalEntry}
    (hget : s.globalEntries[i]? = some e) : utf8Len (firstField e.value) < 1024 := by
  have hpre : firstField e.value <+: e.value := ⟨_, cut_append '|' 0 e.value⟩
  exact Nat.lt_of_le_of_lt (String.utf8Len_le_of_prefix hpre)
    (h.entryOk e (List.mem_of_getElem? hget)).short

/-- With an exact index, an entry found under a value has its hash key. -/
theorem ExactInv.hash_of_find {s : HubState} (h : ExactInv s) {k : GlobalKey} {v : Str} {i : Nat}
    {e : GlobalEntry} (hfind : globalFind s k v = some i) (hget : s.globalEntries[i]? = some e) :
    hashOf e = gkey k v := by
  obtain ⟨e', he', hhash⟩ := h.indexed.find_some rfl hfind
  rw [hget] at he'
  cases he'
  exact hhash

/-! ### The two store paths -/

/-- Which operations cut no identity: a rewrite of a channel record by `updateGlobalEntry` finds a
stored channel that fits its buffer, and a first field too long for a value is not held in its cut
form. A rewrite that is refused is no concern, hence the premise about the stamps. -/
def KeepsIdentity (clk : Clock) (s : HubState) : StoreOp → Prop
  | .update key value extra op ts =>
    (∀ i e, key = .c → globalFind s key value = some i → s.globalEntries[i]? = some e →
      lwwAccepts clk ts (globalValueActive (updateNorm key e.value value extra op)) e.timestamp
        (globalValueActive e.value) = true → utf8Len (firstField e.value) < maxChan + 8)
    ∧ (1024 ≤ utf8Len (firstField value) →
      globalFind s key (trunc (firstField value) 1024) = none)
  | .raw key value _ =>
    1024 ≤ utf8Len (firstField value) → globalFind s key (trunc (firstField value) 1024) = none
  | _ => True

/-- An entry of the older kinds is written over. The new value has to hash as the old one did
(`hhash`), which is where these kinds can go wrong. -/
theorem ExactInv.replaceOld {s : HubState} (h : ExactInv s) {i : Nat} {e : GlobalEntry}
    (hget : s.globalEntries[i]? = some e) (hold : keyIsModes e.key = false) {w : Str}
    (hshort : utf8Len w < 1024) {ts : Int} (hhash : gkey e.key w = gkey e.key e.value)
    (clk : Clock) (chan : Str) : ExactInv (replaceOld clk s i e w ts chan) := by
  have hname : ∀ v, globalFind s .c v = some i → NameHeld w v := by
    intro v hv
    have hkey := h.store.key_of_find hv hget
    rw [hkey] at hhash
    exact (h.store.nameHeld_of_find hv hget).congr (gkey_c_eq_iff.mp hhash) rfl
  have hkey' : ({ e with value := w, timestamp := ts } : GlobalEntry).key = e.key := rfl
  have hset : ExactInv { s with
      globalEntries := s.globalEntries.set i { e with value := w, timestamp := ts } } :=
    ⟨h.store.setOld hget hold hkey' hshort hname, h.indexed.set hget hkey' fun _ => hhash,
      h.distinct.set hget hkey' fun _ => hhash⟩
  unfold Hub.replaceOld
  simp only []
  split
  · exact hset.chanCascadeDel clk chan ts false
  · exact hset

/-- An entry of the older kinds is added. The lookup has to have missed the value as it will be
stored, so a name that is cut on the way in must be missing in its cut form too (`hlong`). -/
theorem ExactInv.pushOld {s : HubState} (h : ExactInv s) {k : GlobalKey}
    (hk : keyIsModes k = false) {value w : Str} {ts : Int}
    (hs' : StoreInv (globalPush s (newEntry k w ts))) (hfind : globalFind s k value = none)
    (hlong : 1024 ≤ utf8Len (firstField value) →
      globalFind s k (trunc (firstField value) 1024) = none)
    (hfirst : firstField w = trunc (firstField value) 1024) :
    ExactInv (globalPush s (newEntry k w ts)) := by
  have hB : k ≠ .B := by
    rintro rfl
    cases hk
  refine h.push hs' ?_
  by_cases hfit : 1024 ≤ utf8Len (firstField value)
  · have hhash : hashOf (newEntry k w ts) = gkey k (trunc (firstField value) 1024) := by
      refine gkey_congr_firstField hB ?_
      show firstField w = _
      rw [hfirst]
      exact (firstField_of_bar_notMem fun hm =>
        bar_notMem_firstField value (mem_of_mem_trunc hm)).symm
    rw [hhash]
    exact h.indexed.find_none rfl (hlong hfit)
  · have hhash : hashOf (newEntry k w ts) = gkey k value := by
      refine gkey_congr_firstField hB ?_
      show firstField w = _
      rw [hfirst, trunc_of_lt (Nat.lt_of_not_le hfit)]
    rw [hhash]
    exact h.indexed.find_none rfl hfind

/-- A local change keeps the index exact if it keeps the identity of the entry it lands on. The
three cases are those of `UpdateResult`. -/
theorem ExactInv.updateGlobalEntry {s : HubState} (h : ExactInv s) {clk : Clock} {k : GlobalKey}
    {value extra op : Str} {ts : Int}
    (hkeep : KeepsIdentity clk s (.update k value extra op ts)) :
    ExactInv (updateGlobalEntry clk s k value extra op ts).1 := by
  have hs' := h.store.updateGlobalEntry clk k value extra op ts
  have hres := updateGlobalEntry_result clk s k value extra op ts
  generalize Hub.updateGlobalEntry clk s k value extra op ts = r at hres hs' ⊢
  cases hres with
  | refused => exact h
  | rewrote i e hk hfind hget hacc =>
    have hkey := h.store.key_of_find hfind hget
    have hB : k ≠ .B := by
      rintro rfl
      cases hk
    refine h.replaceOld hget (hkey ▸ hk) (utf8Len_combinedValue_lt ..) ?_ clk _
    rw [hkey]
    by_cases hc : k = .c
    · -- the stored channel passes its buffer uncut
      subst hc
      have hfits := hkeep.1 i e rfl hfind hget hacc
      refine gkey_congr_firstField hB ?_
      exact (firstField_updateNorm e.value value extra op).trans (trunc_of_lt hfits)
    · by_cases hsing : keyIsSingleton k = true
      · simp [gkey, hsing]
      · -- masks: the value addressed the entry, so it has the entry's first field
        have hhash := h.hash_of_find hfind hget
        rw [hashOf, hkey] at hhash
        have hfirst : firstField e.value = firstField value := by
          have hid := (gkey_eq_gkey_iff.mp hhash).2
          have hf : keyFoldsCase k = false := by
            cases k <;> first | rfl | exact absurd rfl hc | cases hk
          simpa [foldIdent, hsing, hf, ident_eq_firstField hB] using hid
        refine gkey_congr_firstField hB ?_
        show firstField (combinedValue k (updateChan k e.value value) extra (safeOp op)) = _
        rw [firstField_combinedValue, updateChan, if_neg hc, ← hfirst,
          trunc_of_lt (firstField_short h.store hget)]
  | new hk hfind hahead hroom =>
    exact h.pushOld hk hs' hfind hkeep.2 (firstField_combinedValue k value extra _)

/-- An entry from a peer keeps it under the same condition. The newer classes go to `putRecord`,
which needs none. -/
theorem ExactInv.storeGlobalEntryRaw {s : HubState} (h : ExactInv s) {clk : Clock} {k : GlobalKey}
    {value : Str} {ts : Int} (hkeep : KeepsIdentity clk s (.raw k value ts)) :
    ExactInv (storeGlobalEntryRaw clk s k value ts).1 := by
  have hs' := h.store.storeGlobalEntryRaw clk k value ts
  cases hk : keyIsModes k with
  | true =>
    rw [storeGlobalEntryRaw_modes hk]
    exact h.putRecord clk k value ts
  | false =>
    have hres := storeGlobalEntryRaw_result hk clk s value ts
    generalize Hub.storeGlobalEntryRaw clk s k value ts = r at hres hs' ⊢
    -- an entry of the older classes
    cases hres with
    | refused => exact h
    -- it is written over: the text kept is of the same name
    | rewrote i e hfind hget hacc =>
      have hkey := h.store.key_of_find hfind hget
      have hB : k ≠ .B := by
        rintro rfl
        cases hk
      have hhash := h.hash_of_find hfind hget
      rw [hashOf, hkey] at hhash
      have hshort := firstField_short h.store hget
      -- so the hash it is found under is the right one
      refine h.replaceOld hget (hkey ▸ hk) (utf8Len_trunc_lt _ (by decide)) ?_ clk _
      rw [hkey]
      by_cases hsing : keyIsSingleton k = true
      · simp [gkey, hsing]
      -- the first field of the stored text is the stored or the offered spelling
      have hcases : firstField (rawNorm k e.value value) = firstField e.value
          ∨ rawNorm k e.value value = value := by
        unfold rawNorm
        split
        · simp only []
          split
          · rename_i hfit
            rcases isCut_cut '|' 0 value with ⟨-, r, hr⟩ | ⟨-, hr⟩
            · left
              rw [hr, firstField_append_bar (bar_notMem_firstField e.value)]
            · simp [hr] at hfit
          · exact .inr rfl
        · exact .inr rfl
      rcases hcases with hnorm | hnorm
      · refine gkey_congr_firstField hB ?_
        rw [firstField_trunc, hnorm, trunc_of_lt hshort]
      · have hlen : utf8Len (firstField value) < 1024 := by
          have hid := (gkey_eq_gkey_iff.mp hhash).2
          have hlow : lower (firstField e.value) = lower (firstField value) := by
            cases hf : keyFoldsCase k with
            | true => simpa [foldIdent, hsing, hf, ident_eq_firstField hB] using hid
            | false =>
              have : firstField e.value = firstField value := by
                simpa [foldIdent, hsing, hf, ident_eq_firstField hB] using hid
              rw [this]
          rw [← utf8Len_lower, ← hlow, utf8Len_lower]
          exact hshort
        rw [hhash, hnorm]
        refine gkey_congr_firstField hB ?_
        rw [firstField_trunc, trunc_of_lt hlen]
    -- it is added, under the hash of its own name
    | new hfind hahead hroom =>
      exact h.pushOld hk hs' hfind hkeep (firstField_trunc value 1024)

/-! ### Runs -/

/-- The table of a hub that has just started. -/
theorem exactInv_empty : ExactInv {} :=
  ⟨storeInv_empty, fun _ _ _ => rfl, List.Pairwise.nil⟩

/-- An operation that cuts no identity keeps the index exact. -/
theorem ExactInv.run {s : HubState} (h : ExactInv s) {clk : Clock} {op : StoreOp}
    (hkeep : KeepsIdentity clk s op) : ExactInv (op.run clk s) := by
  cases op with
  | update key value extra op ts => exact h.updateGlobalEntry hkeep
  | put key value ts => exact h.putRecord clk key value ts
  | raw key value ts => exact h.storeGlobalEntryRaw hkeep
  | cascade chan ts announce => exact h.chanCascadeDel clk chan ts announce
  | sweep => exact h.bansSweep clk
  | purge cutoff => exact h.executePurge clk cutoff
  | orphans => exact h.purgeChanOrphans
  | banUsed i ts => exact h.raiseBan clk i ts
  | elsewhere t => exact h.of_sameTable ⟨rfl, rfl⟩

/-- A run from the empty store whose operations cut no identity leaves the index exact, and so
does each of its beginnings. By the step lemmas above and the invariant rule for runs. -/
theorem indexExact_of_keepsIdentity {ops : List (Clock × StoreOp)}
    (hops : Lww.Along (fun s p => KeepsIdentity p.1 s p.2) (fun s p => p.2.run p.1 s) {} ops)
    (n : Nat) : IndexExact (runStore {} (ops.take n)) := by
  have hrun : ExactInv (runStore {} (ops.take n)) :=
    Lww.inv_run (fun _ _ hs hp => hs.run hp) exactInv_empty (hops.take n)
  exact hrun.indexExact

/-- A channel added and then keyed. -/
def shortRun : List (Clock × StoreOp) :=
  [(⟨1000, false⟩, .update .c "#chan".toList [] "add".toList 900),
    (⟨1001, false⟩, .update .c "#Chan".toList "key".toList "add".toList 901)]

/-- The theorem at a run of two updates of one channel, the second of which spells the name in
another case. -/
theorem indexExact_shortRun : IndexExact (runStore {} (shortRun.take 2)) := by
  refine indexExact_of_keepsIdentity ?_ 2
  refine ⟨⟨?_, ?_⟩, ⟨?_, ?_⟩, trivial⟩
  · intro i e _ hfind
    cases hfind
  · exact fun h => absurd h (by decide)
  · intro i e _ hfind hget _
    have h0 : globalFind (StoreOp.run ⟨1000, false⟩ {}
        (.update .c "#chan".toList [] "add".toList 900)) .c "#Chan".toList = some 0 := by
      decide +kernel
    have he : (StoreOp.run ⟨1000, false⟩ {}
        (.update .c "#chan".toList [] "add".toList 900)).globalEntries[0]?
        = some (newEntry .c "#chan||add".toList 900) := by
      decide +kernel
    have hi := h0.symm.trans hfind
    cases hi
    have hent := he.symm.trans hget
    cases hent
    decide +kernel
  · exact fun h => absurd h (by decide)

/-- A channel name of 80 bytes, within what a peer may send. -/
def longChan : Str := '#' :: List.replicate 79 'a'

/-- A peer's record of the channel, and an update of it. -/
def staleRun : List (Clock × StoreOp) :=
  [(⟨1000, false⟩, .raw .c (longChan ++ "||add".toList) 900),
    (⟨1001, false⟩, .update .c longChan [] "add".toList 901)]

/-- After the update the index still names the entry under the long channel, which no entry has
any more: the name that was stored is cut to 72 bytes. -/
theorem index_stale_after_update : ¬ IndexExact (runStore {} staleRun) := by
  intro h
  have hfind : globalFind (runStore {} staleRun) .c longChan = some 0 := by decide +kernel
  have hscan : scanFind (runStore {} staleRun) .c longChan = none := by decide +kernel
  have heq := h.find .c longChan
  rw [hfind, hscan] at heq
  cases heq

end IrcHub.Proofs
