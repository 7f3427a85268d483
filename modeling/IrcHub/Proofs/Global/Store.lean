import IrcHub.Hub.Store
import IrcHub.Proofs.Global.Cascade

/-!
# `IrcHub.Proofs.Global.Store`: the store stays in order over every run

`UpdateResult` and `RawResult` list the outcomes of the two paths a `c`, `m` or `o` record is
stored by. With them every operation of the store keeps `StoreInv`, and so does every run.

* `StoreInv.updateGlobalEntry`, `StoreInv.storeGlobalEntryRaw`: a local change and an entry from a
  peer
* `bansSweep_induction`, `StoreInv.executePurge`, `StoreInv.raiseBan`: the ban sweep, a purge, and
  the stamp a restore raises
* `StoreInv.run`, `storeInv_of_reachable`: one operation, and every reachable store
* `ceilings_of_run`: after every run each class and each channel is within its ceiling

The ceilings are part of the invariant, so the last result only has to translate them from counts
under folded names to a channel spelled in any case.
-/

set_option autoImplicit false

namespace IrcHub.Proofs

open IrcHub.Hub Str
open String (utf8Len)

/-! ### First fields of cut texts -/

/-- A first part without a bar stays in the first field. -/
theorem firstField_append_of_bar_notMem {u : Str} (h : '|' ∉ u) (r : Str) :
    firstField (u ++ r) = u ++ firstField r := by
  have hno : '|' ∉ u ++ firstField r := by
    rw [List.mem_append, not_or]
    exact ⟨h, bar_notMem_firstField r⟩
  rcases firstField_cases r with hr | ⟨q, hr⟩
  · rw [← hr] at hno ⊢
    exact firstField_of_bar_notMem hno
  · conv_lhs => rw [hr, ← List.append_assoc]
    exact firstField_append_bar hno

/-- Cutting a text cuts its first field. A cut inside the first field loses the rest, a later one
leaves the field whole. -/
theorem firstField_trunc (w : Str) (cap : Nat) :
    firstField (trunc w cap) = trunc (firstField w) cap := by
  have hno : '|' ∉ trunc (firstField w) cap :=
    fun hm => bar_notMem_firstField w (mem_of_mem_trunc hm)
  rcases firstField_cases w with hw | ⟨r, hw⟩
  · rw [← hw] at hno ⊢
    exact firstField_of_bar_notMem hno
  · by_cases hfit : utf8Len (firstField w) ≤ cap - 1
    · have hcut : trunc w cap = firstField w ++ takeBytes (cap - 1 - utf8Len (firstField w))
        ('|' :: r) := by
        conv_lhs => rw [hw]
        exact takeBytes_append_of_le hfit
      rw [hcut, firstField_append_of_bar_notMem (bar_notMem_firstField w), trunc,
        takeBytes_of_le hfit]
      have hnil : firstField (takeBytes (cap - 1 - utf8Len (firstField w)) ('|' :: r)) = [] := by
        unfold takeBytes
        split
        · exact firstField_append_bar (u := []) List.not_mem_nil
        · rfl
      rw [hnil, List.append_nil]
    · have hcut : trunc w cap = trunc (firstField w) cap := by
        conv_lhs => rw [hw]
        exact takeBytes_append_of_lt (Nat.lt_of_not_le hfit)
      rw [hcut, firstField_of_bar_notMem hno]

/-- What follows a bar is not in the first field. -/
theorem firstField_append_bar_any (v r : Str) : firstField (v ++ '|' :: r) = firstField v := by
  rcases firstField_cases v with hv | ⟨q, hv⟩
  · have hno : '|' ∉ v := by
      rw [hv]
      exact bar_notMem_firstField v
    rw [firstField_append_bar hno, ← hv]
  · conv_lhs => rw [hv, List.append_assoc, List.cons_append]
    exact firstField_append_bar (bar_notMem_firstField v)

/-- A composed value has the first field it was given, cut to the buffer. -/
theorem firstField_combinedValue (k : GlobalKey) (value extra op : Str) :
    firstField (combinedValue k value extra op) = trunc (firstField value) 1024 := by
  unfold combinedValue
  rw [firstField_trunc]
  congr 1
  cases k with
  | c =>
    simp only []
    split
    · rw [List.append_assoc, List.cons_append, firstField_append_bar_any]
    · rw [List.append_assoc]
      exact firstField_append_bar_any _ _
  | m => exact firstField_append_bar_any _ _
  | o =>
    show firstField (value ++ "||".toList ++ op) = _
    rw [List.append_assoc]
    exact firstField_append_bar_any _ _
  | _ => rfl

/-! ### The outcomes of the two paths -/

/-- The value `updateGlobalEntry` writes over a held one. -/
def updateNorm (k : GlobalKey) (stored value extra op : Str) : Str :=
  combinedValue k (updateChan k stored value) extra (safeOp op)

/-- The outcomes of `updateGlobalEntry`: refused, written over the entry the lookup finds, or
added. -/
inductive UpdateResult (clk : Clock) (s : HubState) (k : GlobalKey) (value extra op : Str)
    (ts : Int) : HubState × Bool → Prop
  | refused : UpdateResult clk s k value extra op ts (s, false)
  | rewrote (i : Nat) (e : GlobalEntry) (hk : keyIsModes k = false)
      (hfind : globalFind s k value = some i) (hget : s.globalEntries[i]? = some e)
      (hacc : lwwAccepts clk ts (globalValueActive (updateNorm k e.value value extra op))
        e.timestamp (globalValueActive e.value) = true) :
      UpdateResult clk s k value extra op ts
        (replaceOld clk s i e (updateNorm k e.value value extra op) ts
        (updateChan k e.value value),
          true)
  | new (hk : keyIsModes k = false) (hfind : globalFind s k value = none)
      (hahead : tsAhead clk ts = false) (hroom : globalRoom s k = true) :
      UpdateResult clk s k value extra op ts
        (globalPush s (newEntry k (combinedValue k value extra (safeOp op)) ts), true)

/-- What a local change can do, with all it has checked by then. -/
theorem updateGlobalEntry_result (clk : Clock) (s : HubState) (k : GlobalKey)
    (value extra op : Str) (ts : Int) :
    UpdateResult clk s k value extra op ts (updateGlobalEntry clk s k value extra op ts) := by
  unfold updateGlobalEntry
  split
  · exact .refused
  rename_i hk
  rw [Bool.not_eq_true] at hk
  cases hfind : globalFind s k value with
  | some i =>
    simp only []
    cases hget : s.globalEntries[i]? with
    | none => exact .refused
    | some e =>
      simp only []
      split
      · rename_i hacc
        exact .rewrote i e hk hfind hget hacc
      · exact .refused
  | none =>
    simp only []
    split
    · exact .refused
    split
    · exact .refused
    split
    · rename_i hahead _ hroom
      exact .new hk hfind (by simpa using hahead) hroom
    · exact .refused

/-- The outcomes of `storeGlobalEntryRaw` for the classes it does not hand to `putRecord`. -/
inductive RawResult (clk : Clock) (s : HubState) (k : GlobalKey) (value : Str) (ts : Int) :
    HubState × Bool → Prop
  | refused : RawResult clk s k value ts (s, false)
  | rewrote (i : Nat) (e : GlobalEntry) (hfind : globalFind s k value = some i)
      (hget : s.globalEntries[i]? = some e)
      (hacc : lwwAccepts clk ts (globalValueActive (rawNorm k e.value value)) e.timestamp
        (globalValueActive e.value) = true) :
      RawResult clk s k value ts
        (replaceOld clk s i e (trunc (rawNorm k e.value value) 1024) ts
          (trunc (firstField (trunc (rawNorm k e.value value) 1024)) maxChan), true)
  | new (hfind : globalFind s k value = none) (hahead : tsAhead clk ts = false)
      (hroom : globalRoom s k = true) :
      RawResult clk s k value ts (globalPush s (newEntry k (trunc value 1024) ts), true)

/-- For the newer kinds an entry from a peer is a put. -/
theorem storeGlobalEntryRaw_modes {k : GlobalKey} (hk : keyIsModes k = true) (clk : Clock)
    (s : HubState) (value : Str) (ts : Int) :
    storeGlobalEntryRaw clk s k value ts = putRecord clk s k value ts := by
  simp [storeGlobalEntryRaw, hk]

/-- For the older kinds, what an entry from a peer can do. The newer ones are one call of
`putRecord` (`storeGlobalEntryRaw_modes`). -/
theorem storeGlobalEntryRaw_result {k : GlobalKey} (hk : keyIsModes k = false) (clk : Clock)
    (s : HubState) (value : Str) (ts : Int) :
    RawResult clk s k value ts (storeGlobalEntryRaw clk s k value ts) := by
  unfold storeGlobalEntryRaw
  rw [if_neg (by simp [hk])]
  cases hfind : globalFind s k value with
  | some i =>
    simp only []
    cases hget : s.globalEntries[i]? with
    | none => exact .refused
    | some e =>
      simp only []
      split
      · rename_i hacc
        exact .rewrote i e hfind hget hacc
      · exact .refused
  | none =>
    simp only []
    split
    · exact .refused
    split
    · exact .refused
    split
    · rename_i hahead _ hroom
      exact .new hfind (by simpa using hahead) hroom
    · exact .refused

/-! ### Channel, mask and oper records -/

/-- A rewrite of a `c`, `m` or `o` entry that makes no channel name longer. The name may change,
since it is cut on its way, hence the hypothesis `hname` about every lookup that ends at the
entry. -/
theorem StoreInv.setOld {s : HubState} (h : StoreInv s) {i : Nat} {e e' : GlobalEntry}
    (hget : s.globalEntries[i]? = some e) (hold : keyIsModes e.key = false)
    (hkey : e'.key = e.key) (hshort : utf8Len e'.value < 1024)
    (hname : ∀ v, globalFind s .c v = some i → NameHeld e'.value v) :
    StoreInv { s with globalEntries := s.globalEntries.set i e' } := by
  have hno : ∀ c, liveBanIn c e' = liveBanIn c e := by
    intro c
    have hB : e.key ≠ .B := by
      rintro hB
      rw [hB] at hold
      cases hold
    simp [liveBanIn, hkey, hB]
  have hnot : keyIsModes e.key = true → hashOf e' = hashOf e := by
    intro hk
    rw [hold] at hk
    cases hk
  refine ⟨?_, h.distinct.set hget hkey hnot, h.indexed.set hget hkey hnot,
    h.sound.set hget hkey hname, h.counted.set hget hkey hno, h.capped.set hget hkey ?_⟩
  · intro a ha
    rcases List.mem_or_eq_of_mem_set ha with ha | rfl
    · exact h.entryOk a ha
    · refine ⟨hshort, fun hk => ?_⟩
      rw [hkey, hold] at hk
      cases hk
  · intro c
    rw [Table.countP_set_of_eq hget (hno c)]
    exact h.capped.liveBans c

/-- An entry of the older kinds is written over. Its new value must hold every channel name under
which the place is found. -/
theorem StoreInv.replaceOld {s : HubState} (h : StoreInv s) {i : Nat} {e : GlobalEntry}
    (hget : s.globalEntries[i]? = some e) (hold : keyIsModes e.key = false) {w : Str}
    (hshort : utf8Len w < 1024)
    (hname : ∀ v, globalFind s .c v = some i → NameHeld w v)
    (clk : Clock) (ts : Int) (chan : Str) : StoreInv (replaceOld clk s i e w ts chan) := by
  have hset : StoreInv { s with
      globalEntries := s.globalEntries.set i { e with value := w, timestamp := ts } } :=
    h.setOld hget hold rfl hshort hname
  unfold Hub.replaceOld
  simp only []
  split
  · exact hset.chanCascadeDel clk chan ts false
  · exact hset

/-- An entry of the older kinds is added while there is room for them. -/
theorem StoreInv.pushOld {s : HubState} (h : StoreInv s) {k : GlobalKey}
    (hk : keyIsModes k = false) (hroom : globalRoom s k = true) {w : Str}
    (hshort : utf8Len w < 1024) (ts : Int) :
    StoreInv (globalPush s (newEntry k w ts)) := by
  refine h.push ⟨hshort, fun hm => ?_⟩ (fun hm => ?_) (capped_push h hroom ?_)
  · exact absurd hm (by simp [newEntry, hk])
  · exact absurd hm (by simp [newEntry, hk])
  · rintro rfl
    cases hk

/-- An entry found under a class is of that class. -/
theorem StoreInv.key_of_find {s : HubState} (h : StoreInv s) {k : GlobalKey} {v : Str} {i : Nat}
    {e : GlobalEntry} (hfind : globalFind s k v = some i) (hget : s.globalEntries[i]? = some e) :
    e.key = k := by
  obtain ⟨e', he', hkey, -⟩ := h.sound.held k v i hfind
  rw [hget] at he'
  cases he'
  exact hkey

/-- The entry that a lookup of a channel finds holds the channel's name. -/
theorem StoreInv.nameHeld_of_find {s : HubState} (h : StoreInv s) {v : Str} {i : Nat}
    {e : GlobalEntry} (hfind : globalFind s .c v = some i) (hget : s.globalEntries[i]? = some e) :
    NameHeld e.value v := by
  obtain ⟨e', he', -, hname⟩ := h.sound.held .c v i hfind
  rw [hget] at he'
  cases he'
  exact hname rfl

/-- What a local change puts together is cut to the room of a value. -/
theorem utf8Len_combinedValue_lt (k : GlobalKey) (value extra op : Str) :
    utf8Len (combinedValue k value extra op) < 1024 :=
  utf8Len_trunc_lt _ (by decide)

/-- A composed channel value keeps the stored channel, cut to the channel buffer. -/
theorem firstField_updateNorm (stored value extra op : Str) :
    firstField (updateNorm .c stored value extra op) = trunc (firstField stored)
      (maxChan + 8) := by
  have hno : '|' ∉ trunc (firstField stored) (maxChan + 8) :=
    fun hm => bar_notMem_firstField stored (mem_of_mem_trunc hm)
  have hlen : utf8Len (trunc (firstField stored) (maxChan + 8)) < 1024 :=
    Nat.lt_trans (utf8Len_trunc_lt _ (by decide)) (by decide)
  rw [updateNorm, firstField_combinedValue, updateChan, if_pos rfl, firstField_of_bar_notMem hno,
    trunc_of_lt hlen]

/-- Cutting a name keeps it held: it gets no longer, and a short one stays as it is. -/
theorem NameHeld.trunc {stored w v : Str} (h : NameHeld stored v) {cap : Nat}
    (hcap : maxChan + 8 ≤ cap) (hw : firstField w = Str.trunc (firstField stored) cap) :
    NameHeld w v where
  le := by
    rw [hw]
    exact Nat.le_trans (String.utf8Len_le_of_prefix (trunc_isPrefix _ _)) h.le
  short hlt := by
    have hlow := h.short hlt
    have hfit : utf8Len (firstField stored) < cap := by
      rw [utf8Len_eq_of_lower_eq hlow]
      omega
    rw [hw, trunc_of_lt hfit, hlow]

/-- A value that takes a stored name holds whatever the stored one held. -/
theorem NameHeld.rawNorm {stored value : Str} (h : NameHeld stored value) :
    NameHeld (rawNorm .c stored value) value := by
  simp only [Hub.rawNorm, if_true]
  split
  · rename_i hfit
    rcases isCut_cut '|' 0 value with ⟨-, r, hr⟩ | ⟨-, hr⟩
    · rw [hr]
      exact h.congr (by rw [firstField_append_bar (bar_notMem_firstField stored)]) rfl
    · simp [hr] at hfit
  · exact .refl value

section Names

variable {s : HubState} {k : GlobalKey} {value : Str} {i : Nat} {e : GlobalEntry}

/-- The names found at an entry are still held after an update of it. -/
theorem StoreInv.nameHeld_updateNorm (h : StoreInv s) (hfind : globalFind s k value = some i)
    (hget : s.globalEntries[i]? = some e) (extra op : Str) (v : Str)
    (hv : globalFind s .c v = some i) : NameHeld (updateNorm k e.value value extra op) v := by
  obtain rfl : k = .c := (h.key_of_find hfind hget).symm.trans (h.key_of_find hv hget)
  exact (h.nameHeld_of_find hv hget).trunc (Nat.le_refl _) (firstField_updateNorm ..)

/-- The value that a peer's entry is stored as holds every channel name under which its place is
found. -/
theorem StoreInv.nameHeld_rawNorm (h : StoreInv s) (hfind : globalFind s k value = some i)
    (hget : s.globalEntries[i]? = some e) (v : Str) (hv : globalFind s .c v = some i) :
    NameHeld (Str.trunc (rawNorm k e.value value) 1024) v := by
  obtain rfl : k = .c := (h.key_of_find hfind hget).symm.trans (h.key_of_find hv hget)
  -- only the looked-up name is found at this entry
  have hsame := gkey_c_eq_iff.mp (h.sound.inj .c value .c v i hfind hv)
  exact ((h.nameHeld_of_find hfind hget).rawNorm.trunc (by decide)
    (firstField_trunc _ _)).congr rfl hsame

end Names

/-- A local change keeps the invariant. -/
theorem StoreInv.updateGlobalEntry {s : HubState} (h : StoreInv s) (clk : Clock) (k : GlobalKey)
    (value extra op : Str) (ts : Int) :
    StoreInv (updateGlobalEntry clk s k value extra op ts).1 := by
  have hres := updateGlobalEntry_result clk s k value extra op ts
  generalize Hub.updateGlobalEntry clk s k value extra op ts = r at hres ⊢
  cases hres with
  | refused => exact h
  | rewrote i e hk hfind hget hacc =>
    have hkey := h.key_of_find hfind hget
    exact h.replaceOld hget (hkey ▸ hk) (utf8Len_combinedValue_lt ..)
      (h.nameHeld_updateNorm hfind hget extra op) clk ts _
  | new hk hfind hahead hroom => exact h.pushOld hk hroom (utf8Len_combinedValue_lt ..) ts

/-- An entry from a peer keeps the store in order, whatever it holds. -/
theorem StoreInv.storeGlobalEntryRaw {s : HubState} (h : StoreInv s) (clk : Clock) (k : GlobalKey)
    (value : Str) (ts : Int) : StoreInv (storeGlobalEntryRaw clk s k value ts).1 := by
  cases hk : keyIsModes k with
  | true =>
    rw [storeGlobalEntryRaw_modes hk]
    exact h.putRecord clk k value ts
  | false =>
    have hres := storeGlobalEntryRaw_result hk clk s value ts
    generalize Hub.storeGlobalEntryRaw clk s k value ts = r at hres ⊢
    cases hres with
    | refused => exact h
    | rewrote i e hfind hget hacc =>
      have hkey := h.key_of_find hfind hget
      exact h.replaceOld hget (hkey ▸ hk) (utf8Len_trunc_lt _ (by decide))
        (h.nameHeld_rawNorm hfind hget) clk ts _
    | new hfind hahead hroom => exact h.pushOld hk hroom (utf8Len_trunc_lt _ (by decide)) ts

/-! ### Sweep and purge -/

/-- `P` survives the delete of a stored ban past its own stamp. -/
def KeepsBanSweep (clk : Clock) (P : HubState → Prop) : Prop :=
  ∀ (s : HubState) (e : GlobalEntry), P s → e ∈ s.globalEntries →
    P (putRecord clk s .B (sweepTombstone e.value) (satSucc e.timestamp)).1

/-- One entry of a sweep: what the tombstones of expired bans and broadcasts keep, it keeps. -/
theorem sweepEntry_induction {clk : Clock} {P : HubState → Prop}
    (hput : KeepsBanSweep clk P)
    (hout : ∀ s p, P s → P (broadcastSyncToPeers s p)) {c : Cascade} (i : Nat)
    (hc : P c.state) : P (sweepEntry clk c i).state := by
  unfold sweepEntry
  split
  · exact hc
  rename_i e hget
  split
  · exact hc
  have hdel := hput c.state e hc (List.mem_of_getElem? hget)
  simp only []
  split
  · exact hdel
  · unfold Cascade.note announceLine
    rw [if_pos rfl]
    simp only []
    split
    · exact hout _ _ hdel
    · exact hdel

/-- A property that survives storing the delete of a ban, sending a payload and noting the time
survives the sweep. -/
theorem bansSweep_induction {clk : Clock} {P : HubState → Prop}
    (hmark : ∀ s, P s → P { s with bansSweptAt := clk.now })
    (hput : KeepsBanSweep clk P)
    (hout : ∀ s p, P s → P (broadcastSyncToPeers s p)) {s : HubState} (hs : P s) :
    P (bansSweep clk s) := by
  have hwalk : ∀ (is : List Nat) (c : Cascade), P c.state →
      P (is.foldl (sweepEntry clk) c).state := by
    intro is
    induction is with
    | nil => intro c hc; exact hc
    | cons i is ih => intro c hc; exact ih _ (sweepEntry_induction hput hout i hc)
  unfold bansSweep
  split
  · exact hs
  simp only []
  split
  · exact hmark s hs
  split
  · exact hwalk _ _ (hmark s hs)
  · exact hout _ _ (hwalk _ _ (hmark s hs))

/-- A sweep of the bans keeps the invariant. -/
theorem StoreInv.bansSweep {s : HubState} (h : StoreInv s) (clk : Clock) :
    StoreInv (bansSweep clk s) :=
  bansSweep_induction (fun _ hs => hs) (fun _ _ hs _ => hs.putRecord clk .B _ _)
    (fun s p hs => hs.of_sameTable (sameTable_broadcast s p)) h

/-- The sweep over what was learned touches no entry. -/
theorem sameTable_learnedSweep (fuel i : Nat) (s : HubState) :
    SameTable s (learnedSweep fuel i s) := by
  induction fuel generalizing i s with
  | zero => exact .refl s
  | succ fuel ih =>
    unfold learnedSweep
    split
    · exact .refl s
    split
    · exact ih _ _
    · exact (sameTable_learnedDrop s _).trans (ih _ _)

/-- Taking orphans out keeps the invariant. -/
theorem StoreInv.purgeChanOrphans {s : HubState} (h : StoreInv s) :
    StoreInv (purgeChanOrphans s) := by
  unfold Hub.purgeChanOrphans
  simp only []
  refine StoreInv.of_sameTable ?_ (sameTable_learnedSweep _ _ _)
  split
  · rw [globalReindex_eq]
    exact h.filter _
  · exact h

/-- Of every kind of record the first stays, in the order of the table. -/
theorem keepFirst_sublist {α : Type} (known : α → Bool) (same : α → α → Bool) (xs : List α) :
    (keepFirst known same xs).Sublist xs := by
  -- what was kept so far, followed by what is left, is always a part of the list
  have key : ∀ (ys kept : List α), (ys.foldl (fun kept r =>
      if known r && !kept.any (same · r) then kept ++ [r] else kept) kept).Sublist
      (kept ++ ys) := by
    intro ys
    induction ys with
    | nil => intro kept; simp
    | cons y ys ih =>
      intro kept
      rw [List.foldl_cons]
      refine (ih _).trans ?_
      split
      · rw [List.append_assoc]
        exact List.Sublist.refl _
      · exact List.Sublist.append_left (List.sublist_cons_self y ys) kept
  simpa [keepFirst] using key xs []

/-- The purge of the other tables leaves the global one alone. -/
theorem sameTable_purgeRest (cutoff : Int) (s : HubState) :
    SameTable s (purgeBots cutoff
      (accessPurge (purgeMasks cutoff (purgeUsers cutoff s)) cutoff)) :=
  ⟨rfl, rfl⟩

/-- A purge keeps the invariant. -/
theorem StoreInv.executePurge {s : HubState} (h : StoreInv s) (clk : Clock) (cutoff : Int) :
    StoreInv (executePurge clk s cutoff) := by
  have hglobals : StoreInv (purgeGlobals cutoff (purgeFloorSet clk s cutoff)) := by
    unfold purgeGlobals
    rw [globalReindex_eq]
    exact GlobalInv.filter h _
  exact hglobals.purgeChanOrphans.of_sameTable (sameTable_purgeRest cutoff _)

/-- Raising the last use of a ban changes that of one entry, or nothing. -/
theorem raise_ban_cases (clk : Clock) (s : HubState) (i : Nat) (ts : Int) :
    raise clk s (.ban i) ts = s ∨ ∃ e lu, s.globalEntries[i]? = some e
      ∧ raise clk s (.ban i) ts
        = { s with globalEntries := s.globalEntries.set i { e with lastUsed := lu } } := by
  unfold raise
  split
  · exact .inl rfl
  · simp only [List.modify_eq_set_getElem?]
    cases hget : s.globalEntries[i]? with
    | none => exact .inl rfl
    | some e => exact .inr ⟨e, _, rfl, rfl⟩

/-- Raising the stamp of a ban for a restore keeps the invariant: only the stamp changes. -/
theorem StoreInv.raiseBan {s : HubState} (h : StoreInv s) (clk : Clock) (i : Nat) (ts : Int) :
    StoreInv (raise clk s (.ban i) ts) := by
  rcases raise_ban_cases clk s i ts with heq | ⟨e, lu, hget, heq⟩
  · rw [heq]
    exact h
  · rw [heq]
    have hsame : ∀ c, liveBanIn c { e with lastUsed := lu } = liveBanIn c e := fun _ => rfl
    refine ⟨?_, h.distinct.set hget rfl fun _ => rfl, h.indexed.set hget rfl fun _ => rfl,
      h.sound.set hget rfl ?_, h.counted.set hget rfl hsame, h.capped.set hget rfl ?_⟩
    · intro a ha
      rcases List.mem_or_eq_of_mem_set ha with ha | rfl
      · exact h.entryOk a ha
      · have he := h.entryOk e (List.mem_of_getElem? hget)
        exact ⟨he.short, he.modes⟩
    · intro v hv
      have hname : NameHeld e.value v := h.nameHeld_of_find hv hget
      exact hname
    · intro c
      rw [Table.countP_set_of_eq hget (hsame c)]
      exact h.capped.liveBans c

/-! ### Runs -/

/-- The empty store is in order. -/
theorem storeInv_empty : StoreInv {} :=
  ⟨fun _ he => (List.not_mem_nil he).elim, List.Pairwise.nil, fun _ _ _ => rfl,
    ⟨fun _ _ _ hi => (by cases hi), fun _ _ _ _ _ hi => (by cases hi)⟩,
    ⟨rfl, rfl, rfl, rfl, fun _ => rfl⟩,
    ⟨Nat.zero_le _, Nat.zero_le _, Nat.zero_le _, Nat.zero_le _, fun _ => Nat.zero_le _⟩⟩

/-- Every operation keeps the store in order. -/
theorem StoreInv.run {s : HubState} (h : StoreInv s) (clk : Clock) (op : StoreOp) :
    StoreInv (op.run clk s) := by
  cases op with
  | update key value extra op ts => exact h.updateGlobalEntry clk key value extra op ts
  | put key value ts => exact h.putRecord clk key value ts
  | raw key value ts => exact h.storeGlobalEntryRaw clk key value ts
  | cascade chan ts announce => exact h.chanCascadeDel clk chan ts announce
  | sweep => exact h.bansSweep clk
  | purge cutoff => exact h.executePurge clk cutoff
  | orphans => exact h.purgeChanOrphans
  | banUsed i ts => exact h.raiseBan clk i ts
  | elsewhere t => exact h

/-- Whatever the store is asked to do, and in whatever order, the invariant stays. -/
theorem StoreInv.runStore {s : HubState} (h : StoreInv s) (ops : List (Clock × StoreOp)) :
    StoreInv (runStore s ops) := by
  induction ops generalizing s with
  | nil => exact h
  | cons p ops ih => exact ih (h.run p.1 p.2)

/-- Every store a run reaches is in order. -/
theorem storeInv_of_reachable {s : HubState} (h : StoreReachable s) : StoreInv s := by
  obtain ⟨ops, rfl⟩ := h
  exact storeInv_empty.runStore ops

/-! ### Ceilings -/

/-- Live bans of a channel, spelled in any case. -/
def liveBansOf (s : HubState) (chan : Str) : Nat :=
  s.globalEntries.countP fun e =>
    e.key = .B && globalValueActive e.value && eqIc (firstField e.value) chan

/-- Only the network-wide bans have a channel that starts with a star: a valid ban of another
channel starts with one of the channel prefixes. -/
private theorem liveBansOf_star {s : HubState} (h : StoreInv s) {chan : Str}
    (hstar : chan.head? = some '*') (hne : chan ≠ ['*']) : liveBansOf s chan = 0 := by
  refine List.countP_eq_zero.mpr fun e he hlive => ?_
  simp only [Bool.and_eq_true, decide_eq_true_eq, eqIc_iff] at hlive
  obtain ⟨⟨hB, -⟩, hchan⟩ := hlive
  have hv := ((h.entryOk e he).modes (by rw [hB]; rfl)).1
  rw [hB] at hv
  obtain ⟨f, hf⟩ := recordValid_ban_iff.mp hv
  rw [hf, firstField_ban] at hchan
  have hok := f.chanOk
  simp only [recChanOk, Bool.or_eq_true, Bool.and_eq_true, beq_iff_eq, Bool.true_and] at hok
  cases chan with
  | nil => cases hstar
  | cons c rest =>
    simp only [List.head?_cons, Option.some.injEq] at hstar
    subst hstar
    have hstar' : ∀ d : Char, d.toLower = '*' ↔ d = '*' :=
      fun d => toLower_eq_iff (by decide) (by decide)
    cases hfc : f.chan with
    | nil => simp [hfc] at hchan
    | cons d tail =>
      rw [hfc] at hchan hok
      simp only [lower_cons, List.cons.injEq] at hchan
      obtain rfl : d = '*' := (hstar' d).mp hchan.1
      rcases hok with hstarOnly | ⟨⟨-, hhead⟩, -⟩
      · -- the stored channel is the star alone, and so is the one asked for
        cases hstarOnly
        have hrest : rest = [] := by simpa [lower] using hchan.2.symm
        exact hne (by rw [hrest])
      · simp at hhead

/-- After every run from the empty store, each class and each channel is within its ceiling. There
is no condition on the operations: a peer cannot push the store past a ceiling either. -/
theorem ceilings_of_run (ops : List (Clock × StoreOp)) :
    (∀ chan, liveBansOf (runStore {} ops) chan
        ≤ if chan = ['*'] then maxGlobalBans else maxBansPerChan)
      ∧ (runStore {} ops).globalEntries.countP (fun e => e.key = .B) ≤ maxBansTotal
      ∧ (runStore {} ops).globalEntries.countP (fun e => e.key = .C) ≤ maxChannels
      ∧ (runStore {} ops).globalEntries.countP (fun e => e.key = .D) ≤ 1
      ∧ (runStore {} ops).globalEntries.countP (fun e => !keyIsModes e.key) ≤ maxBotEntries := by
  have h := storeInv_empty.runStore ops
  refine ⟨fun chan => ?_, h.capped.bans, h.capped.chansets, h.capped.netsets, h.capped.old⟩
  have hcount : liveBansOf (runStore {} ops) chan
      = (runStore {} ops).globalEntries.countP (liveBanIn (lower chan)) := rfl
  have hcap := h.capped.liveBans (lower chan)
  rw [banCeiling_lower, ← hcount] at hcap
  by_cases hstar : chan = ['*']
  · rw [if_pos hstar]
    simpa [banCeiling, hstar] using hcap
  · rw [if_neg hstar]
    by_cases hhead : chan.head? = some '*'
    · rw [liveBansOf_star h hhead hstar]
      exact Nat.zero_le _
    · simpa [banCeiling, hhead] using hcap

end IrcHub.Proofs
