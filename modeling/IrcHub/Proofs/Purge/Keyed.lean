import IrcHub.Proofs.Purge.Managed
import IrcHub.Proofs.Purge.Rights

/-!
# `IrcHub.Proofs.Purge.Keyed`: the channels are in order in every state

`ChansKeyed` survives every write to the records of a hub, so it holds after every run
(`chansKeyed_runHub`). There is one lemma for each write, and `ChansKeyed.write` collects them.

The write to look at is `ChansKeyed.replaceOld`: a channel record that is overwritten by a delete
takes the slot of the channel along. For names that do not fit their buffer the record may be
found under a name that is longer than its own, and `NameKept` says what such a rewrite leaves of
it.
-/

set_option autoImplicit false

namespace IrcHub.Proofs

open IrcHub.Hub Str
open String (utf8Len)

/-! ### Settings, defaults and bans -/

section Channels

variable {s : HubState}

/-- A change to an entry that is no channel record. -/
theorem ShortNames.setOther {es : List GlobalEntry} {ix : GlobalIdx} (h : ShortNames es ix)
    (hs : LookupSound es ix) {i : Nat} {e e' : GlobalEntry} (hget : es[i]? = some e)
    (hkey : e'.key = e.key) (hc : e.key ≠ .c) : ShortNames (es.set i e') ix := by
  refine h.set hget hkey ?_ (fun hfits => absurd hfits.1 hc) ?_
  · constructor
    · intro hfits
      exact absurd (hkey ▸ hfits.1) hc
    · intro hfits
      exact absurd hfits.1 hc
  · intro v hv
    obtain ⟨a, ha, hac, -⟩ := hs.held .c v i hv
    rw [hget] at ha
    cases ha
    exact hac

/-- Only the places of the index are read, not its counts. -/
theorem ShortNames.congr_map {es : List GlobalEntry} {ix jx : GlobalIdx} (h : ShortNames es ix)
    (hmap : jx.map = ix.map) : ShortNames es jx where
  named v i e hi := h.named v i e (hmap ▸ hi)
  found e he hfits := by
    rw [hmap]
    exact h.found e he hfits
  distinct := h.distinct

/-- A channel record is there after the change of an entry that is none. -/
theorem mem_set_of_key_ne {es : List GlobalEntry} {i : Nat} {e e' a : GlobalEntry}
    (hget : es[i]? = some e) (ha : a ∈ es) (hne : a.key ≠ e.key) : a ∈ es.set i e' := by
  obtain ⟨j, hj, rfl⟩ := List.mem_iff_getElem.mp ha
  have hij : i ≠ j := by
    rintro rfl
    rw [List.getElem?_eq_getElem hj] at hget
    cases hget
    exact hne rfl
  exact List.mem_iff_getElem?.mpr
    ⟨j, by rw [List.getElem?_set_ne hij, List.getElem?_eq_getElem hj]⟩

/-- An eviction keeps channels keyed. It is only ever made for the newer kinds, hence `hk`. -/
theorem ChansKeyed.evict {clk : Clock} {t : HubState} {k : GlobalKey} (h : ChansKeyed s)
    (hk : k ≠ .c) (hev : evictOldestTombstone clk s k = some t) : ChansKeyed t := by
  have ht := h.store.evict hev
  obtain ⟨b, e, hb, hkey, -, rfl⟩ := evictOldestTombstone_eq hev
  obtain ⟨hlt, hbe⟩ := List.getElem?_eq_some_iff.mp hb
  have hperm := Table.swapRemove_perm s.globalEntries hlt
  refine h.of_keeps ht (shortNames_reindexed ?_) (keepsManaged_of_subset fun a ha hac => ?_) rfl
  · exact (hperm.pairwise_iff fun hab => fitsChan_symm.symm _ _ hab).mpr
      (h.names.distinct.sublist (List.eraseIdx_sublist s.globalEntries b))
  · -- the entry that went is of another class
    refine hperm.mem_iff.mpr (List.mem_eraseIdx_iff_getElem.mpr ?_)
    obtain ⟨j, hj, rfl⟩ := List.mem_iff_getElem.mp ha
    refine ⟨j, hj, ?_, rfl⟩
    rintro rfl
    rw [hbe, hkey] at hac
    exact hk hac

/-- A new entry; a channel record only if no record of its name is there. -/
theorem ChansKeyed.push {e : GlobalEntry} (h : ChansKeyed s) (ht : StoreInv (globalPush s e))
    (hnew : FitsChan e → s.globalIdx.map (hashOf e) = none) : ChansKeyed (globalPush s e) := by
  refine h.of_keeps ht ?_ ?_ (by rw [globalPush_eq])
  · rw [globalPush_eq]
    exact h.names.note h.store.sound hnew
  · rw [globalPush_eq]
    exact keepsManaged_of_subset fun a ha _ => List.mem_append_left _ ha

/-- A put of a newer kind touches no channel entry. -/
theorem ChansKeyed.putRecord (h : ChansKeyed s) (clk : Clock) (k : GlobalKey) (v : Str)
    (ts : Int) :
    ChansKeyed (putRecord clk s k v ts).1 := by
  by_cases hc : k = .c
  · subst hc
    exact h
  have ht := h.store.putRecord clk k v ts
  have hres := putRecord_result clk s k v ts
  generalize Hub.putRecord clk s k v ts = r at hres ht ⊢
  cases hres with
  | refused => exact h
  | rewrote i e hok hfind hget hacc hban =>
    have hkey := h.store.key_of_find hfind hget
    have hec : e.key ≠ .c := fun heq => hc (hkey.symm.trans heq)
    refine h.of_keeps ht ?_ ?_ rfl
    · refine ShortNames.congr_map ?_ (overwrite_map s i e _ ts _)
      exact h.names.setOther h.store.sound hget rfl hec
    · exact keepsManaged_of_subset fun a ha hac =>
        mem_set_of_key_ne hget ha (by rw [hac]; exact hec.symm)
  | new hok hfind hban hroom =>
    exact h.push ht fun hfits => absurd hfits.1 hc
  | evicted t hok hfind hban hfull hevict hroom =>
    exact (h.evict hc hevict).push ht fun hfits => absurd hfits.1 hc
  | onlyEvicted t hfull hevict hroom => exact h.evict hc hevict

/-- A put of a binding touches no entry; a delete may forget what was learned of the channel. -/
theorem ChansKeyed.uchanPut (h : ChansKeyed s) (clk : Clock) (uuid chan : Str) (active : Bool)
    (ts : Int) :
    ChansKeyed (uchanPut clk s uuid chan active ts).1 := by
  refine h.of_same (sameTable_uchanPut clk s uuid chan active ts) ?_
  have hres := uchanPut_result clk s uuid chan active ts
  generalize Hub.uchanPut clk s uuid chan active ts = r at hres ⊢
  cases hres with
  | refused => rfl
  | rewrote i r hshape hname hpos hahead hfind hget hacc => rfl
  | new hshape hname hpos hahead hfind hroom => rfl

/-- A cascade is made of these. -/
theorem ChansKeyed.chanCascadeDel (h : ChansKeyed s) (clk : Clock) (chan : Str) (ts : Int)
    (announce : Bool) : ChansKeyed (chanCascadeDel clk s chan ts announce).1 :=
  chanCascadeDel_induction (fun _ ht => ht.learnedDrop chan)
    (fun _ e ht _ _ _ _ => ht.putRecord clk e.key _ ts)
    (fun _ u c ht _ _ => ht.uchanPut clk u c false ts)
    (fun t p ht => ht.of_same (sameTable_broadcast t p) rfl) h

/-! ### Channel records -/

/-- Cutting a name behind the buffer channels are copied through makes it fit no more than it
did. -/
theorem fits_trunc_iff (t : Str) {cap : Nat} (hcap : maxChan + 4 ≤ cap) :
    utf8Len (trunc t cap) < maxChan ↔ utf8Len t < maxChan := by
  have hmax : maxChan = 65 := rfl
  by_cases hlen : utf8Len t < cap
  · rw [trunc_of_lt hlen]
  · have hle : cap - 1 ≤ utf8Len (trunc t cap) + 3 := le_utf8Len_takeBytes (by omega)
    omega

/-- What a rewrite of a channel record leaves of its name: a name that fits stays as it is, but
for case, and none comes to fit or stops fitting. -/
structure NameKept (stored w : Str) : Prop where
  fits : utf8Len (firstField w) < maxChan ↔ utf8Len (firstField stored) < maxChan
  same : utf8Len (firstField stored) < maxChan → lower (firstField w) = lower (firstField stored)

/-- A local change keeps the stored name of a channel. -/
theorem nameKept_updateNorm (stored value extra op : Str) :
    NameKept stored (updateNorm .c stored value extra op) where
  fits := by
    rw [firstField_updateNorm]
    exact fits_trunc_iff _ (by decide)
  same hlen := by
    rw [firstField_updateNorm, trunc_of_lt (by omega)]

/-- An entry of a peer keeps it, when both names are short or both are cut. -/
theorem nameKept_rawNorm {stored value : Str} (hheld : NameHeld stored value)
    (hfits : utf8Len (firstField value) < maxChan ↔ utf8Len (firstField stored) < maxChan) :
    NameKept stored (trunc (rawNorm .c stored value) 1024) := by
  have hmax : maxChan = 65 := rfl
  have hnorm : firstField (rawNorm .c stored value) = firstField stored
      ∨ firstField (rawNorm .c stored value) = firstField value := by
    simp only [Hub.rawNorm, if_true]
    split
    · rename_i hfit
      rcases isCut_cut '|' 0 value with ⟨-, r, hr⟩ | ⟨-, hr⟩
      · rw [hr]
        exact .inl (firstField_append_bar (bar_notMem_firstField stored))
      · simp [hr] at hfit
    · exact .inr rfl
  have hlen : utf8Len (firstField (rawNorm .c stored value)) < maxChan
      ↔ utf8Len (firstField stored) < maxChan := by
    rcases hnorm with hnorm | hnorm
    · rw [hnorm]
    · rw [hnorm, hfits]
  refine ⟨?_, fun hshort => ?_⟩
  · rw [firstField_trunc, fits_trunc_iff _ (by decide), hlen]
  · have hfit := hlen.mpr hshort
    rw [firstField_trunc, trunc_of_lt (by omega)]
    rcases hnorm with hnorm | hnorm
    · rw [hnorm]
    · have hvalue := hfits.mpr hshort
      rw [hnorm, hheld.short (by omega)]

/-- A rewrite of a held record. When a channel goes, its slot goes with it; when it stays, its
slot is still of a managed channel. -/
theorem ChansKeyed.replaceOld (h : ChansKeyed s) (clk : Clock) {i : Nat}
    {e : GlobalEntry} {w : Str} {ts : Int} {chan : Str} (hget : s.globalEntries[i]? = some e)
    (hold : keyIsModes e.key = false) (hset : StoreInv { s with
      globalEntries := s.globalEntries.set i { e with value := w, timestamp := ts } })
    (hname : e.key = .c → NameKept e.value w)
    (hchan : e.key = .c → utf8Len (firstField e.value) < maxChan →
      lower chan = lower (firstField e.value)) :
    ChansKeyed (replaceOld clk s i e w ts chan) := by
  have hclass : ∀ v, s.globalIdx.map (gkey .c v) = some i → e.key = .c := fun v hv =>
    h.store.key_of_find hv hget
  -- the rewritten record fits a channel name exactly if the old one did
  have hfits : FitsChan { e with value := w, timestamp := ts } ↔ FitsChan e := by
    constructor
    · rintro ⟨hc, hlen⟩
      exact ⟨hc, (hname hc).fits.mp hlen⟩
    · rintro ⟨hc, hlen⟩
      exact ⟨hc, (hname hc).fits.mpr hlen⟩
  have hhash : FitsChan e → hashOf { e with value := w, timestamp := ts } = hashOf e := by
    rintro ⟨hc, hlen⟩
    show gkey e.key w = gkey e.key e.value
    rw [hc, gkey_c_eq_iff]
    exact (hname hc).same hlen
  -- and its name is the name that was there, so the index still finds it
  have hnames : ShortNames (s.globalEntries.set i { e with value := w, timestamp := ts })
    s.globalIdx :=
    h.names.set hget rfl hfits hhash hclass
  have hmem : { e with value := w, timestamp := ts }
      ∈ s.globalEntries.set i { e with value := w, timestamp := ts } :=
    List.mem_set (List.getElem?_eq_some_iff.mp hget).1 _
  -- another record stays where it is
  have hother : ∀ a ∈ s.globalEntries, a ≠ e →
      a ∈ s.globalEntries.set i { e with value := w, timestamp := ts } := by
    intro a ha hne
    obtain ⟨j, hj, rfl⟩ := List.mem_iff_getElem.mp ha
    have hij : i ≠ j := by
      rintro rfl
      rw [List.getElem?_eq_getElem hj] at hget
      cases hget
      exact hne rfl
    exact List.mem_iff_getElem?.mpr
      ⟨j, by rw [List.getElem?_set_ne hij, List.getElem?_eq_getElem hj]⟩
  unfold Hub.replaceOld
  simp only []
  split
  -- the rewrite ends the channel: the cascade drops its slot
  · rename_i hgone
    simp only [Bool.and_eq_true, decide_eq_true_eq, Bool.not_eq_true'] at hgone
    have hdrop := chanCascadeDel_learnedDrop (s := { s with
      globalEntries := s.globalEntries.set i { e with value := w, timestamp := ts } })
        h.slots clk chan ts
      false
    rw [← hdrop]
    refine ChansKeyed.chanCascadeDel ?_ clk chan ts false
    refine chansKeyed_learnedDrop hset hnames (fun l hl hne => ?_) h.slots
    obtain ⟨hlen, hm⟩ := h.learned l hl
    obtain ⟨a, ha, hac, hact, haname⟩ := chanManaged_iff.mp hm
    refine ⟨hlen, chanManaged_iff.mpr ⟨a, hother a ha ?_, hac, hact, haname⟩⟩
    -- a slot of the channel that went is dropped
    rintro rfl
    have hshort : utf8Len (firstField a.value) < maxChan := by
      rwa [utf8Len_eq_of_lower_eq haname]
    rw [eqIc_iff.mpr (haname.symm.trans (hchan hac hshort).symm)] at hne
    cases hne
  -- the record is live: the slots stay
  · rename_i hlive
    refine h.of_keeps hset hnames ?_ rfl
    intro a ha hafits haact
    by_cases hae : a = e
    · subst hae
      have hact : globalValueActive w = true := by
        simpa [hafits.1] using hlive
      exact ⟨_, hmem, hact, hhash hafits⟩
    · exact ⟨a, hother a ha hae, haact, rfl⟩

/-- An entry of the older kinds is added. A channel must be stored under the name that the lookup
missed, cut to its room. -/
theorem ChansKeyed.pushOld {k : GlobalKey} {w : Str} {ts : Int} {value : Str} (h : ChansKeyed s)
    (ht : StoreInv (globalPush s (newEntry k w ts))) (hfind : globalFind s k value = none)
    (hw : k = .c → firstField w = trunc (firstField value) 1024) :
    ChansKeyed (globalPush s (newEntry k w ts)) := by
  have hmax : maxChan = 65 := rfl
  refine h.push ht ?_
  rintro ⟨hc, hlen⟩
  have hc' : k = .c := hc
  have hlen' : utf8Len (firstField w) < maxChan := hlen
  subst hc'
  rw [hw rfl, fits_trunc_iff _ (by decide)] at hlen'
  have hhash : hashOf (newEntry .c w ts) = gkey .c value := by
    show gkey .c w = gkey .c value
    rw [gkey_c_eq_iff, hw rfl, trunc_of_lt (by omega)]
  rw [hhash]
  exact hfind

/-- A local change of an entry, by the cases of `UpdateResult`. -/
theorem ChansKeyed.updateGlobalEntry (h : ChansKeyed s) (clk : Clock) (k : GlobalKey)
    (value extra op : Str) (ts : Int) :
    ChansKeyed (updateGlobalEntry clk s k value extra op ts).1 := by
  have ht := h.store.updateGlobalEntry clk k value extra op ts
  have hres := updateGlobalEntry_result clk s k value extra op ts
  generalize Hub.updateGlobalEntry clk s k value extra op ts = r at hres ht ⊢
  cases hres with
  | refused => exact h
  | rewrote i e hk hfind hget hacc =>
    have hkey := h.store.key_of_find hfind hget
    refine h.replaceOld clk hget (hkey ▸ hk) ?_ ?_ ?_
    · exact h.store.setOld hget (hkey ▸ hk) rfl (utf8Len_combinedValue_lt ..)
        (h.store.nameHeld_updateNorm hfind hget extra op)
    · intro hc
      obtain rfl : k = .c := hkey.symm.trans hc
      exact nameKept_updateNorm e.value value extra op
    · intro hc hlen
      obtain rfl : k = .c := hkey.symm.trans hc
      have hmax : maxChan = 65 := rfl
      rw [updateChan, if_pos rfl, trunc_of_lt (by omega)]
  | new hk hfind hahead hroom =>
    refine h.pushOld ht hfind ?_
    rintro rfl
    exact firstField_combinedValue .c value extra _

/-- An entry of a peer, by the cases of `RawResult`. -/
theorem ChansKeyed.storeGlobalEntryRaw (h : ChansKeyed s) (clk : Clock) (k : GlobalKey)
    (value : Str) (ts : Int) : ChansKeyed (storeGlobalEntryRaw clk s k value ts).1 := by
  cases hk : keyIsModes k with
  | true =>
    rw [storeGlobalEntryRaw_modes hk]
    exact h.putRecord clk k value ts
  | false =>
    have ht := h.store.storeGlobalEntryRaw clk k value ts
    have hres := storeGlobalEntryRaw_result hk clk s value ts
    generalize Hub.storeGlobalEntryRaw clk s k value ts = r at hres ht ⊢
    cases hres with
    | refused => exact h
    | rewrote i e hfind hget hacc =>
      have hkey := h.store.key_of_find hfind hget
      have hkept : e.key = .c → NameKept e.value (trunc (rawNorm k e.value value) 1024) := by
        intro hc
        obtain rfl : k = .c := hkey.symm.trans hc
        exact nameKept_rawNorm (h.store.nameHeld_of_find hfind hget)
          (h.names.named value i e hfind hget)
      refine h.replaceOld clk hget (hkey ▸ hk) ?_ hkept ?_
      · exact h.store.setOld hget (hkey ▸ hk) rfl (utf8Len_trunc_lt _ (by decide))
          (h.store.nameHeld_rawNorm hfind hget)
      · intro hc hlen
        have hfit := (hkept hc).fits.mpr hlen
        rw [trunc_of_lt hfit]
        exact (hkept hc).same hlen
    | new hfind hahead hroom =>
      refine h.pushOld ht hfind ?_
      rintro rfl
      exact firstField_trunc value 1024

/-! ### Purges and uses -/

/-- What was learned of channels that are gone is forgotten, by induction on the steps left. -/
theorem ChansKeyed.learnedSweep (h : ChansKeyed s) (fuel i : Nat) :
    ChansKeyed (learnedSweep fuel i s) := by
  induction fuel generalizing i s with
  | zero => exact h
  | succ fuel ih =>
    unfold Hub.learnedSweep
    split
    · exact h
    split
    · exact ih h _
    · exact ih (h.learnedDrop _) _

/-- Entries go that are no live channel records. -/
theorem ChansKeyed.filter (h : ChansKeyed s) (p : GlobalEntry → Bool)
    (hp : ∀ e, e.key = .c → globalValueActive e.value = true → p e = true) :
    ChansKeyed (globalReindex { s with globalEntries := s.globalEntries.filter p }) := by
  have ht : StoreInv (globalReindex { s with globalEntries := s.globalEntries.filter p }) := by
    rw [globalReindex_eq]
    exact GlobalInv.filter h.store p
  refine h.of_keeps ht ?_ ?_ (by rw [globalReindex_eq])
  · rw [globalReindex_eq]
    exact shortNames_reindexed (h.names.distinct.sublist List.filter_sublist)
  · rw [globalReindex_eq]
    intro e he hfits hact
    exact ⟨e, List.mem_filter.mpr ⟨he, hp e hfits.1 hact⟩, hact, rfl⟩

/-- Old tombstones go. -/
theorem ChansKeyed.purgeGlobals (h : ChansKeyed s) (cutoff : Int) :
    ChansKeyed (purgeGlobals cutoff s) := by
  refine h.filter _ fun e hc hact => ?_
  simp [isTombstone, hact]

/-- Records of channels that are gone go. -/
theorem ChansKeyed.purgeChanOrphans (h : ChansKeyed s) : ChansKeyed (purgeChanOrphans s) := by
  unfold Hub.purgeChanOrphans
  simp only []
  refine ChansKeyed.learnedSweep ?_ _ _
  split
  · refine h.filter _ fun e hc _ => ?_
    simp [isOrphan, hc]
  · exact h

/-- The other sweeps leave what was learned. -/
theorem chanLearned_purgeRest (cutoff : Int) (s : HubState) :
    (purgeBots cutoff (accessPurge (purgeMasks cutoff (purgeUsers cutoff s)) cutoff)).chanLearned
      = s.chanLearned := rfl

/-- A whole purge. -/
theorem ChansKeyed.executePurge (h : ChansKeyed s) (clk : Clock) (cutoff : Int) :
    ChansKeyed (executePurge clk s cutoff) := by
  have hfloor : ChansKeyed (purgeFloorSet clk s cutoff) := h.of_same ⟨rfl, rfl⟩ rfl
  exact ((hfloor.purgeGlobals cutoff).purgeChanOrphans).of_same (sameTable_purgeRest cutoff _)
    (chanLearned_purgeRest cutoff _)

/-- A ban's stamp is raised for a restore. -/
theorem ChansKeyed.raiseBan (h : ChansKeyed s) (clk : Clock) (i : Nat) (ts : Int) :
    ChansKeyed (raise clk s (.ban i) ts) := by
  have ht := h.store.raiseBan clk i ts
  rcases raise_ban_cases clk s i ts with heq | ⟨e, lu, hget, heq⟩
  · rw [heq]
    exact h
  rw [heq] at ht ⊢
  refine h.of_keeps ht ?_ ?_ rfl
  · exact h.names.set hget rfl Iff.rfl (fun _ => rfl) fun v hv => h.store.key_of_find hv hget
  · intro a ha hfits hact
    obtain ⟨j, hj, rfl⟩ := List.mem_iff_getElem.mp ha
    by_cases hij : i = j
    · subst hij
      rw [List.getElem?_eq_getElem hj] at hget
      cases hget
      exact ⟨_, List.mem_set hj _, hact, rfl⟩
    · exact ⟨_, List.mem_iff_getElem?.mpr
        ⟨j, by rw [List.getElem?_set_ne hij, List.getElem?_eq_getElem hj]⟩, hact, rfl⟩

/-- A flag record is written, and nothing of the channels. -/
theorem sameTable_uflagPut (clk : Clock) (s : HubState) (uuid flags : Str) (ts : Int) :
    SameTable s (uflagPut clk s uuid flags ts).1
      ∧ (uflagPut clk s uuid flags ts).1.chanLearned = s.chanLearned := by
  have hset : ∀ (u : HubState) (i : Nat) (canon : Str),
      SameTable u (uflagSet u i uuid canon ts)
        ∧ (uflagSet u i uuid canon ts).chanLearned = u.chanLearned := by
    intro u i canon
    unfold uflagSet
    simp only []
    split
    · exact ⟨⟨rfl, rfl⟩, rfl⟩
    · exact ⟨⟨rfl, rfl⟩, rfl⟩
  have hres := uflagPut_result clk s uuid flags ts
  generalize uflagPut clk s uuid flags ts = q at hres ⊢
  cases hres with
  | refused => exact ⟨.refl s, rfl⟩
  | rewrote canon i r hcanon hshape hpos hahead hfind hget hacc => exact hset s i canon
  | new canon hcanon hshape hpos hahead hfind hroom =>
    exact hset { s with uflagRecords := s.uflagRecords ++ [{ uuid := uuid }] } _ canon

/-- No write leaves a slot of a channel that is not managed. -/
theorem ChansKeyed.write {clk : Clock} {t : HubState} (h : ChansKeyed s) (hw : Write clk s t) :
    ChansKeyed t := by
  cases hw with
  | put k v ts => exact h.putRecord clk k v ts
  | update k value extra op ts => exact h.updateGlobalEntry clk k value extra op ts
  | raw k value ts => exact h.storeGlobalEntryRaw clk k value ts
  | cascade chan ts announce => exact h.chanCascadeDel clk chan ts announce
  | learned chan key modes ts => exact h.learnedPut clk chan key modes ts
  | flag uuid flags ts =>
    obtain ⟨hsame, hslots⟩ := sameTable_uflagPut clk s uuid flags ts
    exact h.of_same hsame hslots
  | bind uuid chan active ts => exact h.uchanPut clk uuid chan active ts
  | moveFlag old new i =>
    unfold remapFlag
    repeat' split
    all_goals exact h.of_same ⟨rfl, rfl⟩ rfl
  | moveBind old new i =>
    unfold remapChan
    repeat' split
    all_goals exact h.of_same ⟨rfl, rfl⟩ rfl
  | prune => exact h.of_same ⟨rfl, rfl⟩ rfl
  | purge cutoff => exact h.executePurge clk cutoff
  | used i ts => exact h.raiseBan clk i ts
  | people us ms hstamp => exact h.of_same ⟨rfl, rfl⟩ rfl
  | elsewhere t hsame => exact h.of_same ⟨hsame.entries, hsame.idx⟩ hsame.learned

end Channels

/-- The channels and what the bots saw of them are in order after every run. -/
theorem chansKeyed_runHub {es : List HubEvent} {s : HubState} (hrun : runHub es = some s) :
    ChansKeyed s :=
  keeps_runHub chansKeyed_empty (fun _ _ _ ht hw => ht.write hw) hrun

end IrcHub.Proofs
