import IrcHub.Proofs.Global.Index

/-!
# `IrcHub.Proofs.Global.Put`: what storing a record does

`PutResult` lists the outcomes of `putRecord` with the checks each one passed, and
`putRecord_result` says that there are no others. Every invariant of the store is one case
analysis over it.

* `putOver_result`, `putNew_result`: the two ways a record is stored, over a held one or new
* `oldestTombstone_spec`: what the search for room picks
* `StoreInv.overwrite`, `StoreInv.push`, `StoreInv.evict`: the index, the counts, the ceilings and
  the shape of the values survive each of the three writes
* `StoreInv.putRecord`: hence they survive every record that is offered, whoever offers it

Later modules add their own invariants by cases on `PutResult` and never unfold `putRecord`.
-/

set_option autoImplicit false

namespace IrcHub.Proofs

open IrcHub.Hub Str
open String (utf8Len)

/-- A hub whose global table and index are in order. -/
abbrev StoreInv (s : HubState) : Prop := GlobalInv s.globalEntries s.globalIdx

/-- The checks every stored record passed: its class, its stamp and its fields. -/
structure PutOk (clk : Clock) (k : GlobalKey) (v : Str) (ts : Int) : Prop where
  modes : keyIsModes k = true
  pos : 0 < ts
  notAhead : tsAhead clk ts = false
  valid : recordValid k v = true

/-- The entry a new record becomes. -/
def newEntry (k : GlobalKey) (v : Str) (ts : Int) : GlobalEntry :=
  { key := k, value := v, timestamp := ts, lastUsed := 0 }

/-- The outcomes of `putRecord`: refused, written over the record of its identity, added, or added
after a tombstone made room. -/
inductive PutResult (clk : Clock) (s : HubState) (k : GlobalKey) (v : Str) (ts : Int) :
    HubState × Bool → Prop
  | refused : PutResult clk s k v ts (s, false)
  | rewrote (i : Nat) (e : GlobalEntry) (hok : PutOk clk k v ts)
      (hfind : globalFind s k v = some i) (hget : s.globalEntries[i]? = some e)
      (hacc : recAccepts clk ts (recNorm k e.value v) (recActive k v) e.timestamp e.value
        (entryActive e) = true)
      (hban : k = .B → recActive k v = true → entryActive e = false →
        banRefused s (recNorm k e.value v) = false) :
      PutResult clk s k v ts (overwrite s i e (recNorm k e.value v) ts (recActive k v), true)
  | new (hok : PutOk clk k v ts) (hfind : globalFind s k v = none)
      (hban : k = .B → recActive k v = true → banRefused s v = false)
      (hroom : globalRoom s k = true) :
      PutResult clk s k v ts (globalPush s (newEntry k v ts), true)
  | evicted (s' : HubState) (hok : PutOk clk k v ts) (hfind : globalFind s k v = none)
      (hban : k = .B → recActive k v = true → banRefused s v = false)
      (hfull : globalRoom s k = false) (hevict : evictOldestTombstone clk s k = some s')
      (hroom : globalRoom s' k = true) :
      PutResult clk s k v ts (globalPush s' (newEntry k v ts), true)
  | onlyEvicted (s' : HubState) (hfull : globalRoom s k = false)
      (hevict : evictOldestTombstone clk s k = some s') (hroom : globalRoom s' k = false) :
      PutResult clk s k v ts (s', false)

/-- A put on an entry that is there refuses or writes over it. -/
private theorem putOver_result {clk : Clock} {s : HubState} {k : GlobalKey} {v : Str} {ts : Int}
    {i : Nat} {e : GlobalEntry} (hok : PutOk clk k v ts) (hfind : globalFind s k v = some i)
    (hget : s.globalEntries[i]? = some e) :
    PutResult clk s k v ts (putOver clk s k v ts i e) := by
  simp only [putOver]
  split
  · exact .refused
  split
  · exact .refused
  split
  · exact .refused
  · rename_i hlen hacc hban
    refine .rewrote i e hok hfind hget (by simpa using hacc) ?_
    rintro rfl hact hdead
    simpa [hact, hdead] using hban

/-- A put on an identity that is not there refuses, adds an entry, or makes room by an eviction
and adds it. -/
private theorem putNew_result {clk : Clock} {s : HubState} {k : GlobalKey} {v : Str} {ts : Int}
    (hok : PutOk clk k v ts) (hfind : globalFind s k v = none) :
    PutResult clk s k v ts (putNew clk s k v ts) := by
  simp only [putNew]
  split
  · exact .refused
  split
  · exact .refused
  rename_i hfloor hceil
  have hban : k = .B → recActive k v = true → banRefused s v = false := by
    rintro rfl hact
    simpa [hact] using hceil
  split
  · rename_i hroom
    exact .new hok hfind hban hroom
  · rename_i hroom
    rw [Bool.not_eq_true] at hroom
    cases hev : evictOldestTombstone clk s k with
    | none => exact .refused
    | some s' =>
      simp only []
      split
      · rename_i hroom'
        exact .evicted s' hok hfind hban hroom hev hroom'
      · rename_i hroom'
        rw [Bool.not_eq_true] at hroom'
        exact .onlyEvicted s' hroom hev hroom'

/-- What a put can do, with all it has checked by then. Every invariant of the store follows by
cases on this. -/
theorem putRecord_result (clk : Clock) (s : HubState) (k : GlobalKey) (v : Str) (ts : Int) :
    PutResult clk s k v ts (putRecord clk s k v ts) := by
  unfold putRecord
  split
  · exact .refused
  split
  · exact .refused
  rename_i hguard hvalid
  simp only [Bool.or_eq_true, Bool.not_eq_true', decide_eq_true_eq, not_or, not_le,
    Bool.not_eq_true, Bool.not_eq_false] at hguard hvalid
  have hok : PutOk clk k v ts := ⟨hguard.1.1, hguard.1.2, hguard.2, hvalid⟩
  cases hfind : globalFind s k v with
  | none => exact putNew_result hok hfind
  | some i =>
    simp only []
    cases hget : s.globalEntries[i]? with
    | none => exact .refused
    | some e => exact putOver_result hok hfind hget

/-! ### Appending -/

/-- Adding an entry appends it and notes it. -/
theorem globalPush_eq (s : HubState) (e : GlobalEntry) :
    globalPush s e = { s with
      globalEntries := s.globalEntries ++ [e]
      globalIdx := s.globalIdx.note e s.globalEntries.length } := by
  simp [globalPush, globalNoteNew]

/-- A ban that is not refused finds its channel below the ceiling. -/
theorem lt_ceiling_of_not_banRefused {s : HubState} {v : Str} (h : banRefused s v = false) :
    s.globalIdx.banChan (lower (firstField v)) < banCeiling (lower (firstField v)) := by
  rw [banCeiling_lower]
  simp only [banRefused, Bool.or_eq_false_iff, decide_eq_false_iff_not, ge_iff_le, not_le] at h
  exact h.2

/-- A class with room, and for a live ban a channel with room, takes one more entry. -/
theorem capped_push {s : HubState} (h : StoreInv s) {e : GlobalEntry}
    (hroom : globalRoom s e.key = true)
    (hban : e.key = .B → recActive e.key e.value = true → banRefused s e.value = false) :
    Capped (s.globalEntries ++ [e]) := by
  simp only [globalRoom, Bool.and_eq_true, decide_eq_true_eq] at hroom
  have hroom := hroom.1
  refine h.capped.append h.counted ?_ ?_ ?_ ?_ ?_
  · intro hk
    cases hkey : e.key <;> rw [hkey] at hroom hk <;>
      first | exact absurd hk (by decide) | simpa using hroom
  · intro hk
    simpa [hk] using hroom
  · intro hk
    simpa [hk] using hroom
  · intro hk
    simpa [hk] using hroom
  · intro c hc
    simp only [liveBanIn, Bool.and_eq_true, decide_eq_true_eq, beq_iff_eq] at hc
    obtain ⟨⟨hB, hact⟩, rfl⟩ := hc
    exact lt_ceiling_of_not_banRefused (hban hB (by simp [recActive, hact]))

/-- An entry is added under the checks of a put: it is well formed, its identity is new, and the
ceilings hold with it. -/
theorem StoreInv.push {s : HubState} (h : StoreInv s) {e : GlobalEntry} (he : EntryOk e)
    (hnew : keyIsModes e.key = true → ∀ a ∈ s.globalEntries, hashOf a ≠ hashOf e)
    (hcap : Capped (s.globalEntries ++ [e])) : StoreInv (globalPush s e) := by
  rw [globalPush_eq]
  refine ⟨?_, h.distinct.append hnew, h.indexed.note e, h.sound.note e, h.counted.note he, hcap⟩
  intro a ha
  rcases List.mem_append.mp ha with ha | ha
  · exact h.entryOk a ha
  · rw [List.mem_singleton] at ha
    subst ha
    exact he

/-! ### Evicting -/

/-- The search for a tombstone to drop returns one of the class that is old enough. A live entry
is never picked. -/
theorem oldestTombstone_spec {es : List GlobalEntry} {k : GlobalKey} {newestOk : Int} {b : Nat}
    (h : oldestTombstone es k newestOk = some b) :
    ∃ e, es[b]? = some e ∧ e.key = k ∧ entryActive e = false ∧ e.timestamp ≤ newestOk := by
  simp only [oldestTombstone, Option.map_eq_some_iff] at h
  obtain ⟨⟨e, b'⟩, hfold, rfl⟩ := h
  refine ⟨e, ?_⟩
  -- the best so far is always a pair of the table that passes the checks
  revert hfold
  refine List.foldlRecOn (motive := fun best : Option (GlobalEntry × Nat) => best = some (e, b') →
    es[b']? = some e ∧ e.key = k ∧ entryActive e = false ∧ e.timestamp ≤ newestOk) es.zipIdx _
    (fun hnone => nomatch hnone) ?_
  intro best hbest q hq hstep
  split at hstep
  · exact hbest hstep
  rename_i hpass
  simp only [ne_eq, decide_not, Bool.or_eq_true, Bool.not_eq_true', decide_eq_false_iff_not,
    decide_eq_true_eq, not_or, not_not, Bool.not_eq_true, not_lt, gt_iff_lt] at hpass
  have hgood : es[q.2]? = some q.1 ∧ q.1.key = k ∧ entryActive q.1 = false
      ∧ q.1.timestamp ≤ newestOk :=
    ⟨List.mem_zipIdx_iff_getElem?.mp hq, hpass.1.1, hpass.1.2, hpass.2⟩
  split at hstep
  · cases hstep
    exact hgood
  split at hstep
  · cases hstep
    exact hgood
  · exact hbest hstep

/-- An eviction takes out one tombstone of the kind it is for, by putting the last entry in its
place, and builds the index anew. -/
theorem evictOldestTombstone_eq {clk : Clock} {s s' : HubState} {k : GlobalKey}
    (h : evictOldestTombstone clk s k = some s') :
    ∃ b e, s.globalEntries[b]? = some e ∧ e.key = k ∧ entryActive e = false ∧
      s' = { s with
        globalEntries := Table.swapRemove s.globalEntries b
        globalIdx := reindexed (Table.swapRemove s.globalEntries b) } := by
  simp only [evictOldestTombstone, Option.map_eq_some_iff] at h
  obtain ⟨b, hb, rfl⟩ := h
  obtain ⟨e, he, hk, hdead, -⟩ := oldestTombstone_spec hb
  exact ⟨b, e, he, hk, hdead, globalReindex_eq _⟩

/-- An eviction keeps the invariant. -/
theorem StoreInv.evict {clk : Clock} {s s' : HubState} {k : GlobalKey} (h : StoreInv s)
    (hev : evictOldestTombstone clk s k = some s') : StoreInv s' := by
  obtain ⟨b, e, hb, -, -, rfl⟩ := evictOldestTombstone_eq hev
  exact h.swapRemove (List.getElem?_eq_some_iff.mp hb).1

/-! ### Overwriting -/

/-- The entry a lookup of a `C`, `D` or `B` record finds holds that record. -/
theorem StoreInv.find_some {s : HubState} (h : StoreInv s) {k : GlobalKey} {v : Str} {i : Nat}
    (hk : keyIsModes k = true) (hfind : globalFind s k v = some i) :
    ∃ e, s.globalEntries[i]? = some e ∧ e.key = k ∧ foldIdent k e.value = foldIdent k v := by
  obtain ⟨e, he, hhash⟩ := h.indexed.find_some hk hfind
  obtain ⟨hkey, hid⟩ := gkey_eq_gkey_iff.mp hhash
  exact ⟨e, he, hkey, by rw [← hid, hkey]⟩

/-- For the newer kinds a lookup that misses means that the identity is not in the table. -/
theorem StoreInv.find_none {s : HubState} (h : StoreInv s) {k : GlobalKey} {v : Str}
    (hk : keyIsModes k = true) (hfind : globalFind s k v = none) :
    ∀ e ∈ s.globalEntries, hashOf e ≠ gkey k v :=
  h.indexed.find_none hk hfind

/-- Writing over an entry moves none. -/
@[simp] theorem overwrite_map (s : HubState) (i : Nat) (e : GlobalEntry) (norm : Str) (ts : Int)
    (act : Bool) : (overwrite s i e norm ts act).globalIdx.map = s.globalIdx.map := by
  simp only [overwrite]
  split <;> simp

section Overwrite

variable {s : HubState} {k : GlobalKey} {v : Str} {i : Nat} {e : GlobalEntry}

/-- The entry after an overwrite: same class and identity, liveness of the incoming value. -/
private theorem overwritten (hs : StoreInv s) (hget : s.globalEntries[i]? = some e)
    (hkey : e.key = k) (hid : foldIdent k e.value = foldIdent k v) (hv : recordValid k v = true) :
    Respelled k e.value v := by
  have hmodes := keyIsModes_of_recordValid hv
  have he := (hs.entryOk e (List.mem_of_getElem? hget)).modes (hkey ▸ hmodes)
  exact respelled (hkey ▸ he.1) hv hid

/-- A respelled record is live when the one that came is. -/
private theorem recActive_recNorm (h : Respelled k e.value v) :
    recActive k (recNorm k e.value v) = recActive k v := by
  rcases h.active with rfl | h
  · rfl
  · simp [recActive, h]

/-- Whether a ban is live is read off its last field. -/
private theorem recActive_of_ban (hB : k = .B) (w : Str) :
    recActive k w = globalValueActive w := by
  simp [recActive, hB]

/-- Counts and ceilings after a ban changed sides, or nothing a count sees changed. The first case
is the only write in place that a count has to follow. -/
private theorem counted_overwrite (ts : Int) (hs : StoreInv s)
    (hget : s.globalEntries[i]? = some e) (hkey : e.key = k) (hr : Respelled k e.value v)
    (hban : k = .B → recActive k v = true → entryActive e = false →
      banRefused s (recNorm k e.value v) = false) :
    Counted (overwrite s i e (recNorm k e.value v) ts (recActive k v)).globalEntries
        (overwrite s i e (recNorm k e.value v) ts (recActive k v)).globalIdx
      ∧ Capped (overwrite s i e (recNorm k e.value v) ts (recActive k v)).globalEntries := by
  subst hkey
  simp only [overwrite]
  have hcap := hs.capped
  have hkey' : ({ e with value := recNorm e.key e.value v, timestamp := ts } : GlobalEntry).key
      = e.key := rfl
  -- a ban that keeps its side, or an entry of another class, is counted as before
  have hsame : (e.key = .B → globalValueActive (recNorm e.key e.value v)
      = globalValueActive e.value) → ∀ c, liveBanIn c
        { e with value := recNorm e.key e.value v, timestamp := ts } = liveBanIn c e := by
    intro hact c
    by_cases hB : e.key = .B
    · have hchan := lower_firstField_of_foldIdent_eq (by rw [hB]; rfl) (by rw [hB]; rfl) hr.ident
      simp only [liveBanIn, hact hB, hchan]
    · simp [liveBanIn, hB]
  -- a ban that changes sides is counted on the other side
  by_cases hflip : (e.key = .B && (entryActive e != recActive e.key v)) = true
  · rw [if_pos hflip]
    simp only [Bool.and_eq_true, decide_eq_true_eq, bne_iff_ne, ne_eq] at hflip
    obtain ⟨hB, hne⟩ := hflip
    have hchan := lower_firstField_of_foldIdent_eq (by rw [hB]; rfl) (by rw [hB]; rfl) hr.ident
    have hact := recActive_of_ban hB
    have hnew : globalValueActive (recNorm e.key e.value v) = recActive e.key v := by
      rw [← hact, recActive_recNorm hr]
    have hold : globalValueActive e.value = !recActive e.key v := by
      rw [← hact]
      exact Bool.eq_not_of_ne hne
    have hlen : utf8Len (firstField (recNorm e.key e.value v)) < maxChan := by
      have hvalid := hr.valid
      rw [hB] at hvalid ⊢
      obtain ⟨f, hf⟩ := recordValid_ban_iff.mp hvalid
      rw [hf, firstField_ban]
      exact Nat.lt_succ_of_le (utf8Len_le_of_recChanOk f.chanOk)
    refine ⟨hs.counted.setBan hget hB hkey' hchan hlen hold hnew, hcap.set hget hkey' ?_⟩
    intro c
    rw [countP_liveBanIn_set hget hB hkey' hchan hold hnew c]
    split
    · rename_i hc
      split
      · -- the ban comes back: its channel was below the ceiling
        rename_i hup
        have hdead : entryActive e = false := by simpa [hup] using hne
        have hlt := lt_ceiling_of_not_banRefused (hban hB hup hdead)
        subst hc
        rw [← hs.counted.banChan]
        exact hlt
      · exact Nat.le_trans (Nat.sub_le _ _) (hcap.liveBans c)
    · exact hcap.liveBans c
  -- nothing that a count sees has changed
  · rw [if_neg hflip]
    have hact : e.key = .B → globalValueActive (recNorm e.key e.value v)
        = globalValueActive e.value := by
      intro hB
      have hsides : entryActive e = recActive e.key v := by simpa [hB] using hflip
      calc globalValueActive (recNorm e.key e.value v)
          = recActive e.key (recNorm e.key e.value v) := (recActive_of_ban hB _).symm
        _ = recActive e.key v := recActive_recNorm hr
        _ = entryActive e := hsides.symm
        _ = globalValueActive e.value := recActive_of_ban hB _
    refine ⟨hs.counted.set hget rfl (hsame hact), hcap.set hget rfl ?_⟩
    intro c
    rw [Table.countP_set_of_eq hget (hsame hact c)]
    exact hcap.liveBans c

/-- An entry of the newer kinds is written over by a record of its identity. A ban that comes to
life must find room under the ceiling of its channel (`hban`). -/
theorem StoreInv.overwrite {ts : Int} (hs : StoreInv s) (hget : s.globalEntries[i]? = some e)
    (hkey : e.key = k) (hid : foldIdent k e.value = foldIdent k v) (hv : recordValid k v = true)
    (hts : 0 < ts) (hban : k = .B → recActive k v = true → entryActive e = false →
      banRefused s (recNorm k e.value v) = false) :
    StoreInv (overwrite s i e (recNorm k e.value v) ts (recActive k v)) := by
  have hr := overwritten hs hget hkey hid hv
  obtain ⟨hcount, hcap⟩ := counted_overwrite ts hs hget hkey hr hban
  subst hkey
  have hmodes := keyIsModes_of_recordValid hv
  have hkey' : ({ e with value := recNorm e.key e.value v, timestamp := ts } : GlobalEntry).key
      = e.key := rfl
  have hhash : hashOf { e with value := recNorm e.key e.value v, timestamp := ts } = hashOf e :=
    gkey_eq_gkey_iff.mpr ⟨rfl, hr.ident⟩
  refine ⟨?_, hs.distinct.set hget hkey' fun _ => hhash, ?_, ?_, hcount, hcap⟩
  · intro a ha
    rcases List.mem_or_eq_of_mem_set ha with ha | rfl
    · exact hs.entryOk a ha
    · exact ⟨utf8Len_lt_of_recordValid hr.valid, fun _ => ⟨hr.valid, hts⟩⟩
  · intro k' v' hk'
    rw [overwrite_map]
    exact hs.indexed.set hget hkey' (fun _ => hhash) k' v' hk'
  · have hset := hs.sound.set hget hkey' (fun w hw => by
      -- the entry found under a channel name is a channel record, this one is not
      obtain ⟨a, ha, hac, -⟩ := hs.sound.held .c w i hw
      rw [hget] at ha
      cases ha
      rw [hac] at hmodes
      cases hmodes)
    exact ⟨by rw [overwrite_map]; exact hset.held, by rw [overwrite_map]; exact hset.inj⟩

end Overwrite

/-! ### Storing a record -/

/-- What a put has checked makes a well-formed entry. -/
theorem entryOk_newEntry {clk : Clock} {k : GlobalKey} {v : Str} {ts : Int}
    (h : PutOk clk k v ts) : EntryOk (newEntry k v ts) :=
  ⟨utf8Len_lt_of_recordValid h.valid, fun _ => ⟨h.valid, h.pos⟩⟩

/-- The store stays in order whatever record is offered. By cases on `PutResult`. -/
theorem StoreInv.putRecord {s : HubState} (h : StoreInv s) (clk : Clock) (k : GlobalKey) (v : Str)
    (ts : Int) : StoreInv (putRecord clk s k v ts).1 := by
  have hres := putRecord_result clk s k v ts
  generalize Hub.putRecord clk s k v ts = r at hres ⊢
  cases hres with
  | refused => exact h
  | rewrote i e hok hfind hget hacc hban =>
    obtain ⟨e', he', hkey, hid⟩ := h.find_some hok.modes hfind
    rw [hget] at he'
    cases he'
    exact h.overwrite hget hkey hid hok.valid hok.pos hban
  | new hok hfind hban hroom =>
    exact h.push (entryOk_newEntry hok) (fun _ => h.find_none hok.modes hfind)
      (capped_push h hroom hban)
  | evicted s' hok hfind hban hfull hevict hroom =>
    have hs' := h.evict hevict
    obtain ⟨b, e, hb, -, -, rfl⟩ := evictOldestTombstone_eq hevict
    have hlt := (List.getElem?_eq_some_iff.mp hb).1
    have hperm := Table.swapRemove_perm s.globalEntries hlt
    have hsub : (s.globalEntries.eraseIdx b).Sublist s.globalEntries := List.eraseIdx_sublist _ b
    refine hs'.push (entryOk_newEntry hok) ?_ (capped_push hs' hroom ?_)
    · intro _ a ha
      exact h.find_none hok.modes hfind a (hsub.subset (hperm.mem_iff.mp ha))
    · -- dropping an entry leaves no channel with more live bans
      intro hB hact
      have hle : ∀ c, (reindexed (Table.swapRemove s.globalEntries b)).banChan c
          ≤ s.globalIdx.banChan c := by
        intro c
        rw [hs'.counted.banChan, h.counted.banChan, hperm.countP_eq]
        exact hsub.countP_le
      have hno := hban hB hact
      simp only [banRefused, bansLiveIn, Bool.or_eq_false_iff, decide_eq_false_iff_not, ge_iff_le,
        not_le] at hno ⊢
      exact ⟨hno.1, Nat.lt_of_le_of_lt (hle _) hno.2⟩
  | onlyEvicted s' hfull hevict hroom => exact h.evict hevict

end IrcHub.Proofs
