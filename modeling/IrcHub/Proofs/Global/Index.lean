import IrcHub.Proofs.Global.Records
import Mathlib.Data.List.Induction
import Mathlib.Data.List.Pairwise

/-!
# `IrcHub.Proofs.Global.Index`: the index and the counts follow the table

What the store may rely on when it looks a record up or asks for room, as predicates of a table
and an index:

* `IndexedFor K`: lookups of the classes in `K` find the first entry of that identity
* `DistinctFor K`: no two entries of a class in `K` have one identity
* `LookupSound`: a lookup of any class finds an entry of that class
* `Counted`: the counts per class and the live bans per channel are recounts
* `Capped`: the table is within its ceilings
* `GlobalInv`: all of these for the classes `C`, `D` and `B`, whose values are valid

One lemma per way the table changes: `GlobalInv.note` for an append, `globalInv_reindexed` for a
rebuild, and `IndexedFor.set`, `Counted.set`, `Counted.setBan` and `Capped.set` for a rewrite in
place that keeps the class, the identity of a `C`, `D` or `B` entry, and the liveness of a ban or
not.

The older classes `c`, `m` and `o` are left out of `IndexedFor` on purpose: their values are not
checked and can be cut, so only `LookupSound` holds of them in every run.
-/

set_option autoImplicit false

namespace IrcHub.Proofs

open IrcHub.Hub Str
open String (utf8Len)

/-! ### The predicates -/

/-- The hash key of an entry. -/
def hashOf (e : GlobalEntry) : Str := gkey e.key e.value

/-- A live ban of the folded channel `c`. -/
def liveBanIn (c : Str) (e : GlobalEntry) : Bool :=
  e.key = .B && globalValueActive e.value && lower (firstField e.value) == c

/-- Lookups of the classes in `K` find the first entry of that identity. A set of classes is a
parameter because all six are exact only under a condition. -/
def IndexedFor (K : GlobalKey → Bool) (es : List GlobalEntry) (ix : GlobalIdx) : Prop :=
  ∀ k v, K k = true → ix.map (gkey k v) = es.findIdx? (fun e => hashOf e == gkey k v)

/-- No two entries of a class in `K` have one identity. -/
def DistinctFor (K : GlobalKey → Bool) (es : List GlobalEntry) : Prop :=
  es.Pairwise fun a b => K a.key = true → hashOf a ≠ hashOf b

/-- The counts are recounts of the table. -/
structure Counted (es : List GlobalEntry) (ix : GlobalIdx) : Prop where
  nOld : ix.nOld = es.countP (fun e => !keyIsModes e.key)
  nC : ix.nC = es.countP (fun e => e.key = .C)
  nD : ix.nD = es.countP (fun e => e.key = .D)
  nB : ix.nB = es.countP (fun e => e.key = .B)
  banChan : ∀ c, ix.banChan c = es.countP (liveBanIn c)

/-- The table is within its ceilings. -/
structure Capped (es : List GlobalEntry) : Prop where
  old : es.countP (fun e => !keyIsModes e.key) ≤ maxBotEntries
  chansets : es.countP (fun e => e.key = .C) ≤ maxChannels
  netsets : es.countP (fun e => e.key = .D) ≤ 1
  bans : es.countP (fun e => e.key = .B) ≤ maxBansTotal
  liveBans : ∀ c, es.countP (liveBanIn c) ≤ banCeiling c

/-- An entry fits its buffer, and a `C`, `D` or `B` entry holds a valid value and a positive
stamp. -/
structure EntryOk (e : GlobalEntry) : Prop where
  short : utf8Len e.value < 1024
  modes : keyIsModes e.key = true → recordValid e.key e.value = true ∧ 0 < e.timestamp

/-- The entry found under a channel name has no longer name, and a name that fits the buffer
channels are copied through is found at an entry of that name. -/
structure NameHeld (stored v : Str) : Prop where
  le : utf8Len (firstField stored) ≤ utf8Len (firstField v)
  short : utf8Len (firstField v) < maxChan + 8 → lower (firstField stored) = lower (firstField v)

/-- A lookup that finds something finds an entry of its class, and two identities are never found
at one entry. -/
structure LookupSound (es : List GlobalEntry) (ix : GlobalIdx) : Prop where
  held : ∀ k v i, ix.map (gkey k v) = some i → ∃ e, es[i]? = some e ∧ e.key = k
    ∧ (k = .c → NameHeld e.value v)
  inj : ∀ k v k' v' i, ix.map (gkey k v) = some i → ix.map (gkey k' v') = some i →
    gkey k v = gkey k' v'

/-- What holds of the global table and its index after every operation of the store. -/
structure GlobalInv (es : List GlobalEntry) (ix : GlobalIdx) : Prop where
  entryOk : ∀ e ∈ es, EntryOk e
  distinct : DistinctFor keyIsModes es
  indexed : IndexedFor keyIsModes es ix
  sound : LookupSound es ix
  counted : Counted es ix
  capped : Capped es

/-! ### Hash keys and classes -/

/-- Entries of one hash are of one kind. -/
theorem key_eq_of_hashOf_eq {a b : GlobalEntry} (h : hashOf a = hashOf b) : a.key = b.key :=
  (gkey_eq_gkey_iff.mp h).1

/-- The hash key of a value of class `c` is the channel. -/
theorem gkey_c_eq_iff {v w : Str} :
    gkey .c v = gkey .c w ↔ lower (firstField v) = lower (firstField w) := by
  rw [gkey_eq_gkey_iff]
  simp [foldIdent, keyIsSingleton, keyFoldsCase, ident, identBars, firstField]

/-- Two spellings that differ in case only take the same room. -/
theorem utf8Len_eq_of_lower_eq {a b : Str} (h : lower a = lower b) : utf8Len a = utf8Len b := by
  rw [← utf8Len_lower, h, utf8Len_lower]

/-- Names that differ in case only are held alike. -/
theorem NameHeld.congr {a b v w : Str} (h : NameHeld a v)
    (hab : lower (firstField b) = lower (firstField a))
    (hvw : lower (firstField v) = lower (firstField w)) : NameHeld b w where
  le := by
    rw [utf8Len_eq_of_lower_eq hab, ← utf8Len_eq_of_lower_eq hvw]
    exact h.le
  short hlt := by
    rw [← utf8Len_eq_of_lower_eq hvw] at hlt
    rw [hab, h.short hlt, hvw]

/-- A value holds its own name. -/
theorem NameHeld.refl (v : Str) : NameHeld v v := ⟨Nat.le_refl _, fun _ => rfl⟩

/-- The channel of a stored ban has room for its end mark: the record was checked when it came in.
-/
theorem firstField_lt_of_entryOk {e : GlobalEntry} (h : EntryOk e) (hB : e.key = .B) :
    utf8Len (firstField e.value) < maxChan := by
  have hv := (h.modes (by rw [hB]; rfl)).1
  rw [hB] at hv
  obtain ⟨f, hf⟩ := recordValid_ban_iff.mp hv
  rw [hf, firstField_ban]
  exact Nat.lt_succ_of_le (utf8Len_le_of_recChanOk f.chanOk)

instance distinctFor_symm (K : GlobalKey → Bool) :
    Std.Symm fun a b : GlobalEntry => K a.key = true → hashOf a ≠ hashOf b :=
  ⟨fun _ _ hab hK heq => hab (key_eq_of_hashOf_eq heq ▸ hK) heq.symm⟩

/-- Two entries of one identity are one entry. -/
theorem DistinctFor.eq_of_hashOf_eq {K : GlobalKey → Bool} {es : List GlobalEntry}
    (h : DistinctFor K es) {a b : GlobalEntry} (ha : a ∈ es) (hb : b ∈ es) (hK : K a.key = true)
    (heq : hashOf a = hashOf b) : a = b := by
  by_contra hne
  exact h.forall ha hb hne hK heq

/-! ### One step of the index -/

/-- Counting live bans leaves the places alone. -/
@[simp] theorem gbanAdjust_map (ix : GlobalIdx) (v : Str) (up : Bool) :
    (ix.gbanAdjust v up).map = ix.map := by
  by_cases h : utf8Len (firstField v) ≥ maxChan <;> simp [GlobalIdx.gbanAdjust, h]

/-- It leaves the count of the older kinds alone. -/
@[simp] theorem gbanAdjust_nOld (ix : GlobalIdx) (v : Str) (up : Bool) :
    (ix.gbanAdjust v up).nOld = ix.nOld := by
  by_cases h : utf8Len (firstField v) ≥ maxChan <;> simp [GlobalIdx.gbanAdjust, h]

/-- It leaves the count of channel records alone. -/
@[simp] theorem gbanAdjust_nC (ix : GlobalIdx) (v : Str) (up : Bool) :
    (ix.gbanAdjust v up).nC = ix.nC := by
  by_cases h : utf8Len (firstField v) ≥ maxChan <;> simp [GlobalIdx.gbanAdjust, h]

/-- It leaves the count of network settings alone. -/
@[simp] theorem gbanAdjust_nD (ix : GlobalIdx) (v : Str) (up : Bool) :
    (ix.gbanAdjust v up).nD = ix.nD := by
  by_cases h : utf8Len (firstField v) ≥ maxChan <;> simp [GlobalIdx.gbanAdjust, h]

/-- It leaves the count of bans, live or not, alone. -/
@[simp] theorem gbanAdjust_nB (ix : GlobalIdx) (v : Str) (up : Bool) :
    (ix.gbanAdjust v up).nB = ix.nB := by
  by_cases h : utf8Len (firstField v) ≥ maxChan <;> simp [GlobalIdx.gbanAdjust, h]

/-- It moves the count of live bans of one channel by one. The channel is cut to its field's
length first, so the name has to be shorter for the count to be that of the channel itself. -/
theorem gbanAdjust_banChan {ix : GlobalIdx} {v : Str} (up : Bool)
    (h : utf8Len (firstField v) < maxChan) (c : Str) :
    (ix.gbanAdjust v up).banChan c =
      if c = lower (firstField v) then (if up then ix.banChan c + 1 else ix.banChan c - 1)
      else ix.banChan c := by
  have hn : ¬ utf8Len (firstField v) ≥ maxChan := Nat.not_le.mpr h
  by_cases hc : c = lower (firstField v)
  · subst hc
    simp [GlobalIdx.gbanAdjust, hn]
  · simp [GlobalIdx.gbanAdjust, hn, hc]

/-- Counting an entry leaves the places alone. -/
@[simp] theorem bump_map (ix : GlobalIdx) (k : GlobalKey) : (ix.bump k).map = ix.map := by
  cases k <;> rfl

/-- It leaves the counts of live bans alone. -/
@[simp] theorem bump_banChan (ix : GlobalIdx) (k : GlobalKey) :
    (ix.bump k).banChan = ix.banChan := by
  cases k <;> rfl

/-- An entry that is noted is found under its hash, unless one was there before: the first of two
stays. -/
theorem note_map (ix : GlobalIdx) (e : GlobalEntry) (i : Nat) (g : Str) :
    (ix.note e i).map g = if g = hashOf e then some ((ix.map g).getD i) else ix.map g := by
  have hmap : (ix.note e i).map g
      = if g = gkey e.key e.value then some ((ix.map (gkey e.key e.value)).getD i)
        else ix.map g := by
    simp only [GlobalIdx.note]
    split <;> simp
  rw [hmap]
  by_cases hg : g = gkey e.key e.value
  · simp [hashOf, hg]
  · simp [hashOf, hg]

/-- The count of the older kinds. -/
theorem note_nOld (ix : GlobalIdx) (e : GlobalEntry) (i : Nat) :
    (ix.note e i).nOld = ix.nOld + if keyIsModes e.key then 0 else 1 := by
  simp only [GlobalIdx.note]
  split <;> cases e.key <;> simp [GlobalIdx.bump, keyIsModes]

/-- The count of channel records. -/
theorem note_nC (ix : GlobalIdx) (e : GlobalEntry) (i : Nat) :
    (ix.note e i).nC = ix.nC + if e.key = .C then 1 else 0 := by
  simp only [GlobalIdx.note]
  split <;> cases e.key <;> simp [GlobalIdx.bump]

/-- The count of network settings. -/
theorem note_nD (ix : GlobalIdx) (e : GlobalEntry) (i : Nat) :
    (ix.note e i).nD = ix.nD + if e.key = .D then 1 else 0 := by
  simp only [GlobalIdx.note]
  split <;> cases e.key <;> simp [GlobalIdx.bump]

/-- The count of bans, live or not. -/
theorem note_nB (ix : GlobalIdx) (e : GlobalEntry) (i : Nat) :
    (ix.note e i).nB = ix.nB + if e.key = .B then 1 else 0 := by
  simp only [GlobalIdx.note]
  split <;> cases e.key <;> simp [GlobalIdx.bump]

/-- Noting an entry counts it as a live ban of its channel, if it is one. The count is kept under
the folded name. -/
theorem note_banChan {ix : GlobalIdx} {e : GlobalEntry} (he : EntryOk e) (i : Nat) (c : Str) :
    (ix.note e i).banChan c = ix.banChan c + if liveBanIn c e then 1 else 0 := by
  simp only [GlobalIdx.note]
  split
  · rename_i hlive
    obtain ⟨hB, hact⟩ := Bool.and_eq_true_iff.mp hlive
    have hlen := firstField_lt_of_entryOk he (by simpa using hB)
    rw [gbanAdjust_banChan true hlen]
    by_cases hc : c = lower (firstField e.value)
    · simp [liveBanIn, hlive, hc]
    · simp [liveBanIn, hc, Ne.symm hc]
  · rename_i hlive
    have hno : liveBanIn c e = false := by
      rw [Bool.not_eq_true] at hlive
      rw [liveBanIn, hlive, Bool.false_and]
    simp [hno]

/-! ### Appending an entry -/

/-- The index with one more entry is that of the table with one more entry. -/
theorem IndexedFor.note {K : GlobalKey → Bool} {es : List GlobalEntry} {ix : GlobalIdx}
    (h : IndexedFor K es ix) (e : GlobalEntry) :
    IndexedFor K (es ++ [e]) (ix.note e es.length) := by
  intro k v hk
  rw [note_map, h k v hk, List.findIdx?_append]
  by_cases hg : gkey k v = hashOf e
  · rw [if_pos hg, List.findIdx?_singleton, hg]
    cases hf : es.findIdx? (fun e' => hashOf e' == hashOf e) <;> simp
  · have hne : (hashOf e == gkey k v) = false := by simpa using Ne.symm hg
    rw [if_neg hg, List.findIdx?_singleton, hne]
    simp

/-- What a lookup gives is a place in the table. -/
theorem LookupSound.lt_length {es : List GlobalEntry} {ix : GlobalIdx} (h : LookupSound es ix)
    {k : GlobalKey} {v : Str} {i : Nat} (hi : ix.map (gkey k v) = some i) : i < es.length := by
  obtain ⟨e, he, -⟩ := h.held k v i hi
  exact (List.getElem?_eq_some_iff.mp he).1

/-- A new entry leaves what the lookups promise: the entry has its own name. -/
theorem LookupSound.note {es : List GlobalEntry} {ix : GlobalIdx} (h : LookupSound es ix)
    (e : GlobalEntry) : LookupSound (es ++ [e]) (ix.note e es.length) := by
  -- a lookup after the append is an old one, or finds the new entry under its own identity
  have hcases : ∀ k v i, (ix.note e es.length).map (gkey k v) = some i →
      ix.map (gkey k v) = some i ∨ (i = es.length ∧ gkey k v = hashOf e) := by
    intro k v i hi
    rw [note_map] at hi
    split at hi
    · rename_i hg
      cases hm : ix.map (gkey k v) with
      | some j =>
        rw [hm] at hi
        exact .inl hi
      | none =>
        rw [hm] at hi
        cases hi
        exact .inr ⟨rfl, hg⟩
    · exact .inl hi
  constructor
  · intro k v i hi
    rcases hcases k v i hi with hold | ⟨rfl, hg⟩
    · obtain ⟨e', he', hrest⟩ := h.held k v i hold
      refine ⟨e', ?_, hrest⟩
      rw [List.getElem?_append_left (h.lt_length hold), he']
    · have hkey : e.key = k := ((gkey_eq_gkey_iff.mp hg).1).symm
      refine ⟨e, by simp, hkey, ?_⟩
      rintro rfl
      have hlow : gkey .c e.value = gkey .c v := by rw [hg, hashOf, hkey]
      exact (NameHeld.refl e.value).congr rfl (gkey_c_eq_iff.mp hlow)
  · intro k v k' v' i hi hi'
    rcases hcases k v i hi with hold | ⟨rfl, hg⟩ <;>
      rcases hcases k' v' _ hi' with hold' | ⟨heq, hg'⟩
    · exact h.inj k v k' v' i hold hold'
    · exact absurd (h.lt_length hold) (by omega)
    · exact absurd (h.lt_length hold') (by omega)
    · rw [hg, hg']

/-- Counts stay right with one more entry. It has to be well formed, because a ban with too long a
channel would be counted under a shorter one. -/
theorem Counted.note {es : List GlobalEntry} {ix : GlobalIdx} (h : Counted es ix)
    {e : GlobalEntry} (he : EntryOk e) : Counted (es ++ [e]) (ix.note e es.length) where
  nOld := by
    rw [note_nOld, h.nOld, List.countP_append, List.countP_singleton]
    cases keyIsModes e.key <;> rfl
  nC := by simp [note_nC, h.nC, List.countP_append, List.countP_singleton]
  nD := by simp [note_nD, h.nD, List.countP_append, List.countP_singleton]
  nB := by simp [note_nB, h.nB, List.countP_append, List.countP_singleton]
  banChan c := by
    rw [note_banChan he, h.banChan, List.countP_append, List.countP_singleton]

/-- An entry of a new identity keeps identities apart. -/
theorem DistinctFor.append {K : GlobalKey → Bool} {es : List GlobalEntry} {e : GlobalEntry}
    (h : DistinctFor K es) (hnew : K e.key = true → ∀ a ∈ es, hashOf a ≠ hashOf e) :
    DistinctFor K (es ++ [e]) := by
  refine List.pairwise_append.mpr ⟨h, List.pairwise_singleton _ _, ?_⟩
  intro a ha b hb hK heq
  rw [List.mem_singleton] at hb
  subst hb
  exact hnew (key_eq_of_hashOf_eq heq ▸ hK) a ha heq

/-! ### Rebuilding -/

/-- The index a rebuild makes of a table. -/
def reindexed (es : List GlobalEntry) : GlobalIdx :=
  es.zipIdx.foldl (fun ix p => ix.note p.1 p.2) {}

/-- Building an index is noting entry after entry. -/
theorem reindexed_append (es : List GlobalEntry) (e : GlobalEntry) :
    reindexed (es ++ [e]) = (reindexed es).note e es.length := by
  simp [reindexed, List.zipIdx_append]

/-- A rebuild replaces the index and nothing else. It notes the entries in the order of the table,
so `reindexed` can be followed by induction on the table. -/
theorem globalReindex_eq (s : HubState) :
    globalReindex s = { s with globalIdx := reindexed s.globalEntries } := by
  -- after `n` steps the index is the one of the first `n` entries
  have key : ∀ n, n ≤ s.globalEntries.length →
      (List.range n).foldl globalNoteNew { s with globalIdx := {} }
        = { s with globalIdx := reindexed (s.globalEntries.take n) } := by
    intro n
    induction n with
    | zero => intro _; rfl
    | succ n ih =>
      intro hn
      have hlt : n < s.globalEntries.length := by omega
      rw [List.range_succ, List.foldl_append, ih (by omega), List.foldl_cons, List.foldl_nil,
        List.take_succ_eq_append_getElem hlt, reindexed_append]
      simp only [globalNoteNew, List.getElem?_eq_getElem hlt, List.length_take,
        Nat.min_eq_left (Nat.le_of_lt hlt)]
  rw [globalReindex, key _ (Nat.le_refl _), List.take_length]

/-- An index that was built anew is that of its table, by induction from the end of the table. -/
theorem indexedFor_reindexed (K : GlobalKey → Bool) (es : List GlobalEntry) :
    IndexedFor K es (reindexed es) := by
  induction es using List.reverseRecOn with
  | nil => intro k v _; rfl
  | append_singleton es e ih =>
    rw [reindexed_append]
    exact ih.note e

/-- Its lookups are sound. -/
theorem lookupSound_reindexed (es : List GlobalEntry) : LookupSound es (reindexed es) := by
  induction es using List.reverseRecOn with
  | nil => exact ⟨fun k v i hi => (by cases hi), fun k v k' v' i hi => (by cases hi)⟩
  | append_singleton es e ih =>
    rw [reindexed_append]
    exact ih.note e

/-- Its counts are right. -/
theorem counted_reindexed {es : List GlobalEntry} (h : ∀ e ∈ es, EntryOk e) :
    Counted es (reindexed es) := by
  induction es using List.reverseRecOn with
  | nil => exact ⟨rfl, rfl, rfl, rfl, fun _ => rfl⟩
  | append_singleton es e ih =>
    rw [reindexed_append]
    exact (ih fun a ha => h a (List.mem_append_left _ ha)).note (h e (by simp))

/-- A rebuild of a table with good entries gives a good index. -/
theorem globalInv_reindexed {es : List GlobalEntry} (hok : ∀ e ∈ es, EntryOk e)
    (hdist : DistinctFor keyIsModes es) (hcap : Capped es) : GlobalInv es (reindexed es) :=
  ⟨hok, hdist, indexedFor_reindexed _ es, lookupSound_reindexed es, counted_reindexed hok, hcap⟩

/-! ### Dropping entries -/

/-- Entries that are taken out leave identities apart. -/
theorem DistinctFor.sublist {K : GlobalKey → Bool} {es fs : List GlobalEntry}
    (h : DistinctFor K es) (hsub : fs.Sublist es) : DistinctFor K fs :=
  List.Pairwise.sublist hsub h

/-- Their order does not matter. -/
theorem DistinctFor.perm {K : GlobalKey → Bool} {es fs : List GlobalEntry}
    (h : DistinctFor K es) (hp : es.Perm fs) : DistinctFor K fs := by
  exact (hp.pairwise_iff fun hab => (distinctFor_symm K).symm _ _ hab).mp h

/-- A table with fewer of every kind of entry is within the same ceilings. -/
theorem Capped.mono {es fs : List GlobalEntry} (h : Capped es)
    (hle : ∀ p, fs.countP p ≤ es.countP p) : Capped fs :=
  ⟨Nat.le_trans (hle _) h.old, Nat.le_trans (hle _) h.chansets, Nat.le_trans (hle _) h.netsets,
    Nat.le_trans (hle _) h.bans, fun c => Nat.le_trans (hle _) (h.liveBans c)⟩

/-- Entries may be dropped if the index is rebuilt. -/
theorem GlobalInv.filter {es : List GlobalEntry} {ix : GlobalIdx} (h : GlobalInv es ix)
    (p : GlobalEntry → Bool) : GlobalInv (es.filter p) (reindexed (es.filter p)) := by
  have hsub : (es.filter p).Sublist es := List.filter_sublist
  exact globalInv_reindexed (fun e he => h.entryOk e (hsub.subset he)) (h.distinct.sublist hsub)
    (h.capped.mono fun q => hsub.countP_le)

/-- An entry may be replaced by the last one if the index is rebuilt. -/
theorem GlobalInv.swapRemove {es : List GlobalEntry} {ix : GlobalIdx} (h : GlobalInv es ix)
    {i : Nat} (hi : i < es.length) :
    GlobalInv (Table.swapRemove es i) (reindexed (Table.swapRemove es i)) := by
  have hperm := Table.swapRemove_perm es hi
  have hsub : (es.eraseIdx i).Sublist es := List.eraseIdx_sublist es i
  refine globalInv_reindexed ?_ ((h.distinct.sublist hsub).perm hperm.symm) ?_
  · exact fun e he => h.entryOk e (hsub.subset (hperm.mem_iff.mp he))
  · refine h.capped.mono fun q => ?_
    rw [hperm.countP_eq]
    exact hsub.countP_le

/-! ### Rewriting an entry in place -/

/-- An entry written over by one of its kind and hash leaves the index right as it is. -/
theorem IndexedFor.set {K : GlobalKey → Bool} {es : List GlobalEntry} {ix : GlobalIdx}
    (h : IndexedFor K es ix) {i : Nat} {e e' : GlobalEntry} (hi : es[i]? = some e)
    (hkey : e'.key = e.key) (hhash : K e.key = true → hashOf e' = hashOf e) :
    IndexedFor K (es.set i e') ix := by
  intro k v hk
  rw [h k v hk, Table.findIdx?_set_of_eq hi]
  by_cases hK : K e.key = true
  · rw [hhash hK]
  · -- an entry of another class is never looked for
    have hne : ∀ a : GlobalEntry, a.key = e.key → (hashOf a == gkey k v) = false := by
      intro a ha
      rw [beq_eq_false_iff_ne]
      intro heq
      have hak : a.key = k := (gkey_eq_gkey_iff.mp heq).1
      rw [← ha, hak] at hK
      exact hK hk
    rw [hne e' hkey, hne e rfl]

/-- And it leaves identities apart. -/
theorem DistinctFor.set {K : GlobalKey → Bool} {es : List GlobalEntry}
    (h : DistinctFor K es) {i : Nat} {e e' : GlobalEntry} (hi : es[i]? = some e)
    (hkey : e'.key = e.key) (hhash : K e.key = true → hashOf e' = hashOf e) :
    DistinctFor K (es.set i e') := by
  refine Table.pairwise_set h hi ?_ ?_
  · intro x _ hx hK heq
    have hxe : x.key = e.key := (key_eq_of_hashOf_eq heq).trans hkey
    exact hx hK (heq.trans (hhash (hxe ▸ hK)))
  · intro x _ hx hK heq
    rw [hkey] at hK
    exact hx hK ((hhash hK).symm.trans heq)

/-- Lookups stay sound if the new value still holds each name under which the place was found.
This is weaker than the same hash: names that are cut share a place. -/
theorem LookupSound.set {es : List GlobalEntry} {ix : GlobalIdx} (h : LookupSound es ix)
    {i : Nat} {e e' : GlobalEntry} (hi : es[i]? = some e) (hkey : e'.key = e.key)
    (hname : ∀ v, ix.map (gkey .c v) = some i → NameHeld e'.value v) :
    LookupSound (es.set i e') ix := by
  refine ⟨?_, h.inj⟩
  intro k v j hj
  obtain ⟨a, ha, hak, hac⟩ := h.held k v j hj
  by_cases hij : i = j
  · subst hij
    obtain rfl : e = a := by rw [hi] at ha; exact Option.some.inj ha
    refine ⟨e', ?_, hkey.trans hak, ?_⟩
    · rw [List.getElem?_set_self (List.getElem?_eq_some_iff.mp hi).1]
    · rintro rfl
      exact hname v hj
  · exact ⟨a, by rw [List.getElem?_set_ne hij, ha], hak, hac⟩

/-- A rewrite that no count can tell from the old entry. -/
theorem Counted.set {es : List GlobalEntry} {ix : GlobalIdx} (h : Counted es ix)
    {i : Nat} {e e' : GlobalEntry} (hi : es[i]? = some e) (hkey : e'.key = e.key)
    (hlive : ∀ c, liveBanIn c e' = liveBanIn c e) : Counted (es.set i e') ix where
  nOld := by rw [Table.countP_set_of_eq hi (by rw [hkey]), h.nOld]
  nC := by rw [Table.countP_set_of_eq hi (by rw [hkey]), h.nC]
  nD := by rw [Table.countP_set_of_eq hi (by rw [hkey]), h.nD]
  nB := by rw [Table.countP_set_of_eq hi (by rw [hkey]), h.nB]
  banChan c := by rw [Table.countP_set_of_eq hi (hlive c), h.banChan]

/-- A ban that goes live or is deleted changes the count of its channel by one. `up` says which of
the two. -/
theorem countP_liveBanIn_set {es : List GlobalEntry} {i : Nat} {e e' : GlobalEntry}
    (hi : es[i]? = some e) (hB : e.key = .B) (hkey : e'.key = e.key)
    (hchan : lower (firstField e'.value) = lower (firstField e.value))
    {up : Bool} (hold : globalValueActive e.value = !up) (hnew : globalValueActive e'.value = up)
    (c : Str) :
    (es.set i e').countP (liveBanIn c) =
      if c = lower (firstField e'.value) then
        (if up then es.countP (liveBanIn c) + 1 else es.countP (liveBanIn c) - 1)
      else es.countP (liveBanIn c) := by
  have hset := Table.countP_set_add (liveBanIn c) e' hi
  have he : liveBanIn c e = (!up && lower (firstField e'.value) == c) := by
    simp [liveBanIn, hB, hold, hchan]
  have he' : liveBanIn c e' = (up && lower (firstField e'.value) == c) := by
    simp [liveBanIn, hkey, hB, hnew]
  rw [he, he'] at hset
  by_cases hc : c = lower (firstField e'.value)
  · subst hc
    cases up <;> simp at hset ⊢ <;> omega
  · have hne : (lower (firstField e'.value) == c) = false := by simpa using Ne.symm hc
    rw [if_neg hc]
    simpa [hne] using hset

/-- Counts stay right when a ban comes to life or dies and the live bans of its channel are
counted by one up or down. -/
theorem Counted.setBan {es : List GlobalEntry} {ix : GlobalIdx} (h : Counted es ix)
    {i : Nat} {e e' : GlobalEntry} (hi : es[i]? = some e) (hB : e.key = .B)
    (hkey : e'.key = e.key) (hchan : lower (firstField e'.value) = lower (firstField e.value))
    (hlen : utf8Len (firstField e'.value) < maxChan)
    {up : Bool} (hold : globalValueActive e.value = !up)
    (hnew : globalValueActive e'.value = up) :
    Counted (es.set i e') (ix.gbanAdjust e'.value up) where
  nOld := by rw [gbanAdjust_nOld, Table.countP_set_of_eq hi (by rw [hkey]), h.nOld]
  nC := by rw [gbanAdjust_nC, Table.countP_set_of_eq hi (by rw [hkey]), h.nC]
  nD := by rw [gbanAdjust_nD, Table.countP_set_of_eq hi (by rw [hkey]), h.nD]
  nB := by rw [gbanAdjust_nB, Table.countP_set_of_eq hi (by rw [hkey]), h.nB]
  banChan c := by
    rw [gbanAdjust_banChan up hlen, countP_liveBanIn_set hi hB hkey hchan hold hnew c, h.banChan]

/-- A rewrite within a class stays within the ceilings when no channel gets too many live
bans. -/
theorem Capped.set {es : List GlobalEntry} (h : Capped es) {i : Nat} {e e' : GlobalEntry}
    (hi : es[i]? = some e) (hkey : e'.key = e.key)
    (hlive : ∀ c, (es.set i e').countP (liveBanIn c) ≤ banCeiling c) : Capped (es.set i e') where
  old := by rw [Table.countP_set_of_eq hi (by rw [hkey])]; exact h.old
  chansets := by rw [Table.countP_set_of_eq hi (by rw [hkey])]; exact h.chansets
  netsets := by rw [Table.countP_set_of_eq hi (by rw [hkey])]; exact h.netsets
  bans := by rw [Table.countP_set_of_eq hi (by rw [hkey])]; exact h.bans
  liveBans := hlive

/-! ### Lookups and room -/

/-- A place that the index gives holds an entry of that hash. -/
theorem IndexedFor.find_some {K : GlobalKey → Bool} {es : List GlobalEntry} {ix : GlobalIdx}
    (h : IndexedFor K es ix) {k : GlobalKey} {v : Str} {i : Nat} (hk : K k = true)
    (hi : ix.map (gkey k v) = some i) : ∃ e, es[i]? = some e ∧ hashOf e = gkey k v := by
  rw [h k v hk, List.findIdx?_eq_some_iff_getElem] at hi
  obtain ⟨hlt, heq, -⟩ := hi
  exact ⟨es[i], List.getElem?_eq_getElem hlt, beq_iff_eq.mp heq⟩

/-- What the index misses is not in the table. -/
theorem IndexedFor.find_none {K : GlobalKey → Bool} {es : List GlobalEntry} {ix : GlobalIdx}
    (h : IndexedFor K es ix) {k : GlobalKey} {v : Str} (hk : K k = true)
    (hi : ix.map (gkey k v) = none) : ∀ e ∈ es, hashOf e ≠ gkey k v := by
  rw [h k v hk, List.findIdx?_eq_none_iff] at hi
  intro e he heq
  have := hi e he
  rw [heq, beq_self_eq_true] at this
  cases this

/-- The ceiling of a channel does not depend on its spelling. -/
theorem banCeiling_lower (chan : Str) : banCeiling (lower chan) = banCeiling chan := by
  cases chan with
  | nil => rfl
  | cons c s =>
    have hstar : c.toLower = '*' ↔ c = '*' := toLower_eq_iff (by decide) (by decide)
    simp [banCeiling, hstar]

/-- An append within a class that has room, to a channel that has room for a live ban. The
hypotheses speak of the counts of the index, because these are what the source asks. -/
theorem Capped.append {es : List GlobalEntry} {ix : GlobalIdx} (h : Capped es)
    (hc : Counted es ix) {e : GlobalEntry}
    (hold : keyIsModes e.key = false → ix.nOld < maxBotEntries)
    (hC : e.key = .C → ix.nC < maxChannels) (hD : e.key = .D → ix.nD < 1)
    (hB : e.key = .B → ix.nB < maxBansTotal)
    (hlive : ∀ c, liveBanIn c e = true → ix.banChan c < banCeiling c) : Capped (es ++ [e]) where
  old := by
    rw [List.countP_append, List.countP_singleton, ← hc.nOld]
    split
    · rename_i hk
      exact hold (by simpa using hk)
    · rw [hc.nOld]; exact h.old
  chansets := by
    rw [List.countP_append, List.countP_singleton, ← hc.nC]
    split
    · rename_i hk
      exact hC (by simpa using hk)
    · rw [hc.nC]; exact h.chansets
  netsets := by
    rw [List.countP_append, List.countP_singleton, ← hc.nD]
    split
    · rename_i hk
      exact hD (by simpa using hk)
    · rw [hc.nD]; exact h.netsets
  bans := by
    rw [List.countP_append, List.countP_singleton, ← hc.nB]
    split
    · rename_i hk
      exact hB (by simpa using hk)
    · rw [hc.nB]; exact h.bans
  liveBans c := by
    rw [List.countP_append, List.countP_singleton, ← hc.banChan]
    split
    · rename_i hk
      exact hlive c hk
    · rw [hc.banChan]; exact h.liveBans c

end IrcHub.Proofs
