import IrcHub.Hub.Channels
import IrcHub.Proofs.Global.Put
import Mathlib.Data.Prod.Lex

/-!
# `IrcHub.Proofs.Global.Cascade`: what a channel delete takes along

A channel delete takes the settings, the bans, the bindings and the learned key of the channel
along. The cascade is a walk over the table and one over the bindings.

* `chanCascadeDel_induction`: a property of hub states survives the cascade when it survives
  storing a tombstone at the stamp of the delete, deleting a binding, dropping a learned key and
  sending a payload. Every invariant of the store goes through the cascade by this rule.
* `tombstoneOf_spec`, `putRecord_tombstoneOf`: the tombstone the cascade stores is a valid record
  of the same identity, and is written in place unless what is held is newer
* `uchanPut_result`: the outcomes of storing a binding
* `SameTable`: the frame condition of everything that leaves the global table alone
* `sameOld_chanCascadeDel`, `globalRoom_chanCascadeDel`: what the cascade leaves of the older
  kinds, and that it neither takes nor frees room for a channel

The tombstones go through `putRecord` like a record of a peer, so a tombstone can be refused where
the held record is newer. That is why the results about a delete speak of stamps.
-/

set_option autoImplicit false

namespace IrcHub.Proofs

open IrcHub.Hub Str
open String (utf8Len)

/-! ### Last-writer-wins -/

/-- Stamp, then delete over add: what an add/del record is ordered by. -/
def lwwRank (ts : Int) (active : Bool) : Int ×ₗ Bool := toLex (ts, !active)

/-- The acceptance rule is the strict order of ranks. -/
theorem lwwAccepts_iff {clk : Clock} {ts cur : Int} {act curAct : Bool}
    (h : tsAhead clk ts = false) :
    lwwAccepts clk ts act cur curAct = true ↔ lwwRank cur curAct < lwwRank ts act := by
  simp only [lwwAccepts, h, Bool.false_eq_true, if_false, lwwRank, Prod.Lex.toLex_lt_toLex,
    Bool.or_eq_true, Bool.and_eq_true, decide_eq_true_eq, Bool.not_eq_true', gt_iff_lt]
  rw [eq_comm (a := ts), and_assoc]
  cases act <;> cases curAct <;> simp

/-! ### The frame of the global table -/

/-- The global table and its index are untouched. -/
def SameTable (s s' : HubState) : Prop :=
  s'.globalEntries = s.globalEntries ∧ s'.globalIdx = s.globalIdx

/-- A state has its own table. -/
theorem SameTable.refl (s : HubState) : SameTable s s := ⟨rfl, rfl⟩

/-- Steps that leave the table alone compose. -/
theorem SameTable.trans {s t u : HubState} (h : SameTable s t) (h' : SameTable t u) :
    SameTable s u :=
  ⟨h'.1.trans h.1, h'.2.trans h.2⟩

/-- The invariant reads the table and its index only, so a step that leaves both alone keeps it.
-/
theorem StoreInv.of_sameTable {s s' : HubState} (h : StoreInv s) (hf : SameTable s s') :
    StoreInv s' := by
  rw [StoreInv, hf.1, hf.2]
  exact h

/-- Forgetting what was learned of a channel touches no entry. -/
theorem sameTable_learnedDrop (s : HubState) (chan : Str) : SameTable s (learnedDrop s chan) := by
  unfold learnedDrop
  split <;> exact ⟨rfl, rfl⟩

/-- A broadcast touches no entry: it only writes to the links. -/
theorem sameTable_broadcast (s : HubState) (p : Str) : SameTable s (broadcastSyncToPeers s p) :=
  ⟨rfl, rfl⟩

/-! ### Bindings -/

/-- The outcomes of `uchanPut`, with what has been checked by then. -/
inductive UchanResult (clk : Clock) (s : HubState) (uuid chan : Str) (active : Bool) (ts : Int) :
    HubState × Bool → Prop
  | refused : UchanResult clk s uuid chan active ts (s, false)
  | rewrote (i : Nat) (r : UchanRecord) (hshape : uuidShape uuid = true)
      (hname : uchanNameOk chan = true) (hpos : 0 < ts) (hahead : tsAhead clk ts = false)
      (hfind : uchanFind s uuid chan = some i) (hget : s.uchanRecords[i]? = some r)
      (hacc : lwwAccepts clk ts active r.timestamp r.isActive = true) :
      UchanResult clk s uuid chan active ts (uchanSet s i active ts, true)
  | new (hshape : uuidShape uuid = true) (hname : uchanNameOk chan = true) (hpos : 0 < ts)
      (hahead : tsAhead clk ts = false) (hfind : uchanFind s uuid chan = none)
      (hroom : s.uchanRecords.length < maxHubChanBinds) :
      UchanResult clk s uuid chan active ts
        ({ s with uchanRecords := s.uchanRecords ++
          [{ uuid := uuid, chan := chan, isActive := active, timestamp := ts }] }, true)

/-- A put of a binding does one of the three: it refuses, it writes over the row of the pair, it
adds one. -/
theorem uchanPut_result (clk : Clock) (s : HubState) (uuid chan : Str) (active : Bool)
    (ts : Int) :
    UchanResult clk s uuid chan active ts (uchanPut clk s uuid chan active ts) := by
  unfold uchanPut
  split
  · exact .refused
  rename_i hguard
  simp only [Bool.or_eq_true, Bool.not_eq_true', decide_eq_true_eq, not_or, not_le,
    Bool.not_eq_true, Bool.not_eq_false] at hguard
  obtain ⟨⟨⟨hshape, hname⟩, hpos⟩, hahead⟩ := hguard
  cases hfind : uchanFind s uuid chan with
  | some i =>
    simp only []
    cases hget : s.uchanRecords[i]? with
    | none => exact .refused
    | some r =>
      simp only []
      split
      · exact .refused
      · rename_i hacc
        exact .rewrote i r hshape hname hpos hahead hfind hget (by simpa using hacc)
  | none =>
    simp only []
    split
    · exact .refused
    split
    · exact .refused
    · rename_i hroom
      have hnew : uchanSet
        { s with uchanRecords := s.uchanRecords ++ [{ uuid := uuid, chan := chan }] }
          s.uchanRecords.length active ts = { s with uchanRecords := s.uchanRecords ++
            [{ uuid := uuid, chan := chan, isActive := active, timestamp := ts }] } := by
        simp [uchanSet, List.modify_eq_set_getElem?]
      rw [hnew]
      exact .new hshape hname hpos hahead hfind (Nat.lt_of_not_le hroom)

/-- A binding touches no flag record. -/
theorem uchanPut_uflagRecords (clk : Clock) (s : HubState) (uuid chan : Str) (active : Bool)
    (ts : Int) :
    (uchanPut clk s uuid chan active ts).1.uflagRecords = s.uflagRecords := by
  have hres := uchanPut_result clk s uuid chan active ts
  generalize Hub.uchanPut clk s uuid chan active ts = q at hres ⊢
  cases hres with
  | refused => rfl
  | rewrote i r hshape hname hpos hahead hfind hget hacc => rfl
  | new hshape hname hpos hahead hfind hroom => rfl

/-- A put of a binding touches the bindings and not the entries, whatever it answers. -/
theorem sameTable_uchanPut (clk : Clock) (s : HubState) (uuid chan : Str) (active : Bool)
    (ts : Int) : SameTable s (uchanPut clk s uuid chan active ts).1 := by
  have hres := uchanPut_result clk s uuid chan active ts
  generalize uchanPut clk s uuid chan active ts = r at hres ⊢
  cases hres <;> exact ⟨rfl, rfl⟩

/-! ### The tombstone of a held record -/

/-- `w` is what a delete of the record `v` stores: a valid record of its identity, spelled as `v`
spells it, that stands for a deletion. -/
structure IsTombstoneOf (k : GlobalKey) (v w : Str) : Prop where
  valid : recordValid k w = true
  ident : ident k w = ident k v
  norm : recNorm k v w = w
  dead : recActive k w = false

/-- The tombstone of a channel or ban record is a valid record of the same identity that stands
for a deletion. Only these two kinds have a tombstone of their own, hence `hk`. -/
theorem tombstoneOf_spec {k : GlobalKey} {v : Str} (hk : k = .C ∨ k = .B)
    (hv : recordValid k v = true) : IsTombstoneOf k v (tombstoneOf k v) := by
  rcases hk with rfl | rfl
  · obtain ⟨f, rfl⟩ := recordValid_chanset_iff.mp hv
    have ht : ∃ g : ChansetFields, tombstoneOf .C f.text = g.text ∧ g.chan = f.chan
        ∧ g.op = "del".toList :=
      ⟨⟨f.chan, [], [], "del".toList, f.chanOk, by decide, by decide, by decide⟩, by
        rw [tombstoneOf, if_pos rfl, ident_chanset]; rfl, rfl, rfl⟩
    obtain ⟨g, hg, hchan, hop⟩ := ht
    rw [hg]
    refine ⟨recordValid_chanset_iff.mpr ⟨g, rfl⟩, by rw [ident_chanset, ident_chanset, hchan], ?_,
      ?_⟩
    · rw [recNorm, if_neg (by decide), ident_chanset, ← hchan, ← ident_chanset,
        ident_append_identTail]
    · have hact := globalValueActive_of_op (u := g.chan ++ '|' :: (g.modes ++ '|' :: g.settings))
        (bar_notMem_of_recOpOk g.opOk)
      simp only [ChansetFields.text, recActive]
      simpa [hop] using hact
  · obtain ⟨f, rfl⟩ := recordValid_ban_iff.mp hv
    have ht : ∃ g : BanFields, tombstoneOf .B f.text = g.text ∧ g.chan = f.chan ∧ g.mask = f.mask
        ∧ g.op = "del".toList :=
      ⟨⟨f.chan, f.mask, ['0'], [], [], [], "del".toList, f.chanOk, f.maskOk, by decide, by decide,
        by decide, by decide, by decide⟩, by
        rw [tombstoneOf, if_neg (by decide), ident_ban]
        simp [BanFields.text, BanFields.headText], rfl, rfl, rfl⟩
    obtain ⟨g, hg, hchan, hmask, hop⟩ := ht
    rw [hg]
    refine ⟨recordValid_ban_iff.mpr ⟨g, rfl⟩, by rw [ident_ban, ident_ban, hchan, hmask], ?_, ?_⟩
    · rw [recNorm, if_neg (by decide), ident_ban, ← hchan, ← hmask, ← ident_ban,
        ident_append_identTail]
    · have hact := globalValueActive_of_op (u := g.headText ++ '|' :: g.reason)
        (bar_notMem_of_recOpOk g.opOk)
      simp only [BanFields.text, recActive]
      simpa [hop] using hact

section HeldTombstone

variable {s : HubState} {e : GlobalEntry} {i : Nat}

/-- The same for an entry of the table, which the invariant says to be valid. -/
theorem StoreInv.tombstoneOf_spec (hs : StoreInv s) (he : e ∈ s.globalEntries)
    (hk : e.key = .C ∨ e.key = .B) : IsTombstoneOf e.key e.value (tombstoneOf e.key e.value) := by
  have hmodes : keyIsModes e.key = true := by rcases hk with hk | hk <;> rw [hk] <;> rfl
  exact Proofs.tombstoneOf_spec hk ((hs.entryOk e he).modes hmodes).1

/-- An entry of a class without duplicates is where the index finds its identity. -/
theorem StoreInv.find_of_ident_eq (hs : StoreInv s) (hget : s.globalEntries[i]? = some e)
    (hk : keyIsModes e.key = true) {w : Str} (hid : foldIdent e.key w = foldIdent e.key e.value) :
    globalFind s e.key w = some i := by
  have hhash : gkey e.key w = hashOf e := gkey_eq_gkey_iff.mpr ⟨rfl, hid⟩
  obtain ⟨hi, hget'⟩ := List.getElem?_eq_some_iff.mp hget
  rw [globalFind, hs.indexed e.key w hk, List.findIdx?_eq_some_iff_getElem]
  refine ⟨hi, by rw [hget', hhash]; exact beq_self_eq_true _, ?_⟩
  intro j hj heq
  have hpair := List.pairwise_iff_getElem.mp hs.distinct j i (by omega) hi hj
  rw [beq_iff_eq, hhash] at heq
  have hkey := key_eq_of_hashOf_eq heq
  exact hpair (hkey ▸ hk) (by rw [heq, hget'])

/-- Deleting a held live setting or ban writes its tombstone in place, unless it is newer. At the
same stamp the delete wins, as the order of the records has it. -/
theorem putRecord_tombstoneOf (hs : StoreInv s) (hget : s.globalEntries[i]? = some e)
    (hk : e.key = .C ∨ e.key = .B) (hact : entryActive e = true) (clk : Clock) (ts : Int) :
    putRecord clk s e.key (tombstoneOf e.key e.value) ts =
      if 0 < ts ∧ tsAhead clk ts = false ∧ e.timestamp ≤ ts then
        (overwrite s i e (tombstoneOf e.key e.value) ts false, true)
      else (s, false) := by
  have hmodes : keyIsModes e.key = true := by rcases hk with hk | hk <;> rw [hk] <;> rfl
  have hmem := List.mem_of_getElem? hget
  have ht := hs.tombstoneOf_spec hmem hk
  have hfind : globalFind s e.key (tombstoneOf e.key e.value) = some i :=
    hs.find_of_ident_eq hget hmodes (by rw [foldIdent, foldIdent, ht.ident])
  have hlen : ¬ utf8Len (tombstoneOf e.key e.value) ≥ 1024 :=
    Nat.not_le.mpr (utf8Len_lt_of_recordValid ht.valid)
  by_cases hguard : 0 < ts ∧ tsAhead clk ts = false
  · obtain ⟨hpos, hahead⟩ := hguard
    unfold putRecord
    rw [if_neg (by simp [hmodes, hpos, hahead]), if_neg (by simp [ht.valid]), hfind]
    simp only [hget, putOver, ht.norm, ht.dead, hact]
    rw [if_neg (by simp [hlen])]
    -- the delete of a live record wins from its own stamp on
    have hacc : recAccepts clk ts (tombstoneOf e.key e.value) false e.timestamp e.value true
        = decide (e.timestamp ≤ ts) := by
      simp only [recAccepts, hahead, Bool.false_eq_true, if_false]
      rcases lt_trichotomy e.timestamp ts with hlt | heq | hgt
      · simp [ne_of_gt hlt, hlt, hlt.le]
      · simp [heq]
      · simp [ne_of_lt hgt, not_le.mpr hgt, not_lt.mpr hgt.le]
    by_cases hle : e.timestamp ≤ ts
    · simp [hacc, hle, hpos, hahead]
    · simp [hacc, hle]
  · have hno : ¬ (0 < ts ∧ tsAhead clk ts = false ∧ e.timestamp ≤ ts) :=
      fun h => hguard ⟨h.1, h.2.1⟩
    rw [if_neg hno]
    unfold putRecord
    rw [if_pos]
    by_cases hpos : 0 < ts
    · have hahead : tsAhead clk ts = true := by simpa [hpos] using hguard
      simp [hahead]
    · simp [not_lt.mp hpos]

end HeldTombstone

/-! ### The walk -/

section Rule

variable {clk : Clock} {chan : Str} {ts : Int} {P : HubState → Prop}

/-- What a cascade notes is a broadcast at most. It keeps what broadcasts keep. -/
private theorem note_state {c : Cascade} {s : HubState} {announce : Bool} {line : Str}
    (hout : ∀ s p, P s → P (broadcastSyncToPeers s p)) (hs : P s) :
    P (c.note s announce line).state := by
  unfold Cascade.note announceLine
  split
  · simp only []
    split
    · exact hout _ _ hs
    · exact hs
  · exact hs

/-- `P` survives the delete of a live setting or ban of the channel. What the cascade knows of the
entry it deletes is given to `P`, for the properties that need it. -/
def KeepsEntryDel (clk : Clock) (chan : Str) (ts : Int) (P : HubState → Prop) : Prop :=
  ∀ (s : HubState) (e : GlobalEntry), P s → e ∈ s.globalEntries → (e.key = .C ∨ e.key = .B) →
    entryActive e = true → entryChanEq e chan = true →
    P (putRecord clk s e.key (tombstoneOf e.key e.value) ts).1

/-- `P` survives the delete of a binding to the channel. The cascade never deletes a `*`
binding. -/
def KeepsBindingDel (clk : Clock) (chan : Str) (ts : Int) (P : HubState → Prop) : Prop :=
  ∀ (s : HubState) (u c : Str), P s → c ≠ ['*'] → eqIc c chan = true →
    P (uchanPut clk s u c false ts).1

/-- One entry of a cascade: what tombstones of the channel's entries and broadcasts keep, it
keeps. -/
theorem cascadeEntry_induction (announce : Bool) (hput : KeepsEntryDel clk chan ts P)
    (hout : ∀ s p, P s → P (broadcastSyncToPeers s p)) {c : Cascade} (i : Nat)
    (hc : P c.state) : P (cascadeEntry clk chan ts announce c i).state := by
  unfold cascadeEntry
  split
  · exact hc
  rename_i e hget
  split
  · exact hc
  rename_i hcond
  simp only [Bool.or_eq_true, Bool.not_eq_true', decide_eq_false_iff_not, not_or,
    Bool.not_eq_false, Bool.or_eq_false_iff] at hcond
  have hkind : e.key = .C ∨ e.key = .B := by
    by_contra hno
    rw [not_or] at hno
    exact hcond.1.1 hno
  have hdel := hput c.state e hc (List.mem_of_getElem? hget) hkind hcond.1.2 hcond.2
  simp only []
  split
  · exact hc
  split
  · exact hdel
  · exact note_state hout hdel

/-- The walk over the entries, by induction on the steps left. -/
theorem cascadeEntries_induction (announce : Bool) (hput : KeepsEntryDel clk chan ts P)
    (hout : ∀ s p, P s → P (broadcastSyncToPeers s p)) (fuel i : Nat)
    (c : Cascade) (hc : P c.state) : P (cascadeEntries clk chan ts announce fuel i c).state := by
  induction fuel generalizing i c with
  | zero => exact hc
  | succ fuel ih =>
    unfold cascadeEntries
    split
    · exact ih _ _ (cascadeEntry_induction announce hput hout i hc)
    · exact hc

/-- One binding of a cascade. Here the put is given for this very binding; the walk below has it
for all that the channel hits. -/
theorem cascadeBinding_induction (announce : Bool)
    (hout : ∀ s p, P s → P (broadcastSyncToPeers s p)) {c : Cascade} {hit : Str × Str}
    (hput : P (uchanPut clk c.state hit.1 hit.2 false ts).1) :
    P (cascadeBinding clk ts announce c hit).state := by
  unfold cascadeBinding
  simp only []
  split
  · exact hput
  split
  · exact hput
  split
  · exact hput
  split
  · exact hput
  · exact note_state hout hput

/-- A cascade only hits bindings to its channel, and never the binding to every channel. -/
theorem cascadeHits_chan {s : HubState} {hit : Str × Str} (h : hit ∈ cascadeHits s chan) :
    hit.2 ≠ ['*'] ∧ eqIc hit.2 chan = true := by
  simp only [cascadeHits, List.mem_map, List.mem_filter, Bool.and_eq_true, bne_iff_ne] at h
  obtain ⟨r, ⟨-, ⟨-, hstar⟩, hchan⟩, rfl⟩ := h
  exact ⟨hstar, hchan⟩

/-- The walk over the bindings that were hit. -/
theorem cascadeBindings_induction (announce : Bool) (huchan : KeepsBindingDel clk chan ts P)
    (hout : ∀ s p, P s → P (broadcastSyncToPeers s p)) (hits : List (Str × Str))
    (hhits : ∀ hit ∈ hits, hit.2 ≠ ['*'] ∧ eqIc hit.2 chan = true) (c : Cascade)
    (hc : P c.state) : P (hits.foldl (cascadeBinding clk ts announce) c).state := by
  induction hits generalizing c with
  | nil => exact hc
  | cons hit hits ih =>
    obtain ⟨hstar, hchan⟩ := hhits hit List.mem_cons_self
    refine ih (fun h hh => hhits h (List.mem_cons_of_mem _ hh)) _ ?_
    exact cascadeBinding_induction announce hout (huchan c.state hit.1 hit.2 hc hstar hchan)

/-- A property that survives every write of the cascade survives the cascade. The hypotheses are
in the order of the source: the learned key, the entries, the bindings, and the payload that may
go out after each. -/
theorem chanCascadeDel_induction (hdrop : ∀ s, P s → P (learnedDrop s chan))
    (hput : KeepsEntryDel clk chan ts P) (huchan : KeepsBindingDel clk chan ts P)
    (hout : ∀ s p, P s → P (broadcastSyncToPeers s p)) {announce : Bool} {s : HubState}
    (hs : P s) : P (chanCascadeDel clk s chan ts announce).1 := by
  have hentries := cascadeEntries_induction announce hput hout
    (learnedDrop s chan).globalEntries.length 0 { state := learnedDrop s chan } (hdrop s hs)
  have hbindings := cascadeBindings_induction announce huchan hout
    (cascadeHits (cascadeEntries clk chan ts announce (learnedDrop s chan).globalEntries.length 0
      { state := learnedDrop s chan }).state chan)
    (fun hit hh => cascadeHits_chan hh) _ hentries
  unfold chanCascadeDel
  simp only []
  split
  · exact hbindings
  · exact hout _ _ hbindings

end Rule

/-! ### What the cascade leaves alone -/

/-- Lookups, the entries that are no settings, defaults or bans, and the purge floor are those of
`s`. -/
structure SameOld (s s' : HubState) : Prop where
  map : s'.globalIdx.map = s.globalIdx.map
  entry : ∀ (i : Nat) (e : GlobalEntry), keyIsModes e.key = false →
    (s'.globalEntries[i]? = some e ↔ s.globalEntries[i]? = some e)
  floor : s'.purgeFloor = s.purgeFloor ∧ s'.purgeFloorUntil = s.purgeFloorUntil

/-- A state has its own entries of the older kinds. -/
theorem SameOld.refl (s : HubState) : SameOld s s := ⟨rfl, fun _ _ _ => Iff.rfl, rfl, rfl⟩

/-- Steps that leave the entries of the older kinds alone compose. -/
theorem SameOld.trans {s t u : HubState} (h : SameOld s t) (h' : SameOld t u) : SameOld s u :=
  ⟨h'.map.trans h.map, fun i e he => (h'.entry i e he).trans (h.entry i e he),
    h'.floor.1.trans h.floor.1, h'.floor.2.trans h.floor.2⟩

/-- Writing over an entry of the newer kinds moves none of the older ones: the place stays and so
do the others. -/
theorem sameOld_overwrite {s : HubState} {i : Nat} {e : GlobalEntry}
    (hget : s.globalEntries[i]? = some e) (hk : keyIsModes e.key = true) (norm : Str) (ts : Int)
    (act : Bool) : SameOld s (overwrite s i e norm ts act) := by
  refine ⟨overwrite_map .., ?_, rfl, rfl⟩
  intro j a ha
  show (s.globalEntries.set i _)[j]? = some a ↔ _
  by_cases hij : i = j
  · -- the entry before and after is of another class
    subst hij
    rw [List.getElem?_set_self (List.getElem?_eq_some_iff.mp hget).1, hget]
    constructor
    · intro heq
      cases heq
      rw [hk] at ha
      cases ha
    · intro heq
      cases heq
      rw [hk] at ha
      cases ha
  · rw [List.getElem?_set_ne hij]

/-- Dropping a binding touches no entry at all. -/
theorem sameOld_uchanPut (clk : Clock) (s : HubState) (u c : Str) (ts : Int) :
    SameOld s (uchanPut clk s u c false ts).1 := by
  have hres := uchanPut_result clk s u c false ts
  generalize uchanPut clk s u c false ts = r at hres ⊢
  cases hres <;> exact ⟨rfl, fun _ _ _ => Iff.rfl, rfl, rfl⟩

/-- Neither does forgetting what was learned. -/
theorem sameOld_learnedDrop (s : HubState) (chan : Str) : SameOld s (learnedDrop s chan) := by
  unfold learnedDrop
  split <;> exact ⟨rfl, fun _ _ _ => Iff.rfl, rfl, rfl⟩

/-- A cascade keeps the invariant: each tombstone it writes is a put, and nothing else touches the
table. -/
theorem StoreInv.chanCascadeDel {s : HubState} (h : StoreInv s) (clk : Clock) (chan : Str)
    (ts : Int) (announce : Bool) : StoreInv (chanCascadeDel clk s chan ts announce).1 :=
  chanCascadeDel_induction (fun s hs => hs.of_sameTable (sameTable_learnedDrop s chan))
    (fun _ e hs _ _ _ _ => hs.putRecord clk e.key _ ts)
    (fun s u c hs _ _ => hs.of_sameTable (sameTable_uchanPut clk s u c false ts))
    (fun s p hs => hs.of_sameTable (sameTable_broadcast s p)) h

/-- The cascade of a channel touches settings, bans, bindings and learned keys only. By
`chanCascadeDel_induction`. -/
theorem sameOld_chanCascadeDel {s : HubState} (h : StoreInv s) (clk : Clock) (chan : Str)
    (ts : Int) (announce : Bool) : SameOld s (Hub.chanCascadeDel clk s chan ts announce).1 := by
  have hrun : StoreInv (Hub.chanCascadeDel clk s chan ts announce).1
      ∧ SameOld s (Hub.chanCascadeDel clk s chan ts announce).1 := by
    refine chanCascadeDel_induction (P := fun t => StoreInv t ∧ SameOld s t)
      (fun t ht => ⟨ht.1.of_sameTable (sameTable_learnedDrop t chan),
        ht.2.trans (sameOld_learnedDrop t chan)⟩) ?_
      (fun t u c ht _ _ => ⟨ht.1.of_sameTable (sameTable_uchanPut clk t u c false ts),
        ht.2.trans (sameOld_uchanPut clk t u c ts)⟩)
      (fun t p ht => ⟨ht.1.of_sameTable (sameTable_broadcast t p),
        ht.2.trans ⟨rfl, fun _ _ _ => Iff.rfl, rfl, rfl⟩⟩) ⟨h, .refl s⟩
    intro t e ht he hk hact _
    refine ⟨ht.1.putRecord clk e.key _ ts, ht.2.trans ?_⟩
    obtain ⟨i, hget⟩ := List.mem_iff_getElem?.mp he
    rw [putRecord_tombstoneOf ht.1 hget hk hact]
    have hmodes : keyIsModes e.key = true := by rcases hk with hk | hk <;> rw [hk] <;> rfl
    split
    · exact sameOld_overwrite hget hmodes _ ts false
    · exact .refl t
  exact hrun.2

/-- The cascade of a channel neither takes nor frees room for a channel: the number of entries of
the older kinds stays what it was, and a tombstone keeps the place of its record. -/
theorem globalRoom_chanCascadeDel {s : HubState} (h : StoreInv s) (clk : Clock)
    (chan : Str) (ts : Int) (announce : Bool) :
    globalRoom (Hub.chanCascadeDel clk s chan ts announce).1 .c = globalRoom s .c := by
  have hsame : ∀ {t u : HubState}, SameTable t u → globalRoom t .c = globalRoom s .c →
      globalRoom u .c = globalRoom s .c := by
    intro t u htu ht
    rw [← ht]
    unfold globalRoom
    rw [htu.1, htu.2]
  have hrun : StoreInv (Hub.chanCascadeDel clk s chan ts announce).1
      ∧ globalRoom (Hub.chanCascadeDel clk s chan ts announce).1 .c = globalRoom s .c := by
    refine chanCascadeDel_induction (P := fun t => StoreInv t ∧ globalRoom t .c = globalRoom s .c)
      (fun t ht => ⟨ht.1.of_sameTable (sameTable_learnedDrop t chan),
        hsame (sameTable_learnedDrop t chan) ht.2⟩) ?_
      (fun t u c ht _ _ => ⟨ht.1.of_sameTable (sameTable_uchanPut clk t u c false ts),
        hsame (sameTable_uchanPut clk t u c false ts) ht.2⟩)
      (fun t p ht => ⟨ht.1.of_sameTable (sameTable_broadcast t p),
      hsame (sameTable_broadcast t p) ht.2⟩) ⟨h, rfl⟩
    intro t e ht he hk hact _
    refine ⟨ht.1.putRecord clk e.key _ ts, ?_⟩
    obtain ⟨i, hget⟩ := List.mem_iff_getElem?.mp he
    rw [putRecord_tombstoneOf ht.1 hget hk hact]
    split
    · -- an entry is overwritten: as many entries as before, and none of them of the old kinds
      rw [← ht.2]
      unfold globalRoom overwrite
      simp only [List.length_set]
      split <;> simp
    · exact ht.2
  exact hrun.2

end IrcHub.Proofs
