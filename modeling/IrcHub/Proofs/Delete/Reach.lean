import IrcHub.Proofs.Global.Store

/-!
# `IrcHub.Proofs.Delete.Reach`: what the cascade of a channel delete reaches

What the cascade of a channel delete reaches. The cascade walks the global table once and then the
live bindings of the channel. Over a store in order it leaves no live setting, ban or binding of
the channel with a stamp up to its own, and it touches nothing of another channel:

- `BindingsOk`: one well-formed binding per user and channel
- `NoLive`: nothing live of a channel up to a stamp
- `cascadeEntry_stepCleared`, `cascadeEntries_cleared`: the walk over the table
- `cascadeBindings_unbound`: the walk over the bindings
- `noLive_chanCascadeDel`: the cascade clears the channel
- `SameElsewhere`, `sameElsewhere_chanCascadeDel`: everything else stays

The walk changes the table while it goes through it. A tombstone is written in place, so the
entries keep their positions and the walk finds every one of them (`StepCleared`).

A record with a stamp above the delete's stays, and so it should: it was made later.
-/

set_option autoImplicit false

namespace IrcHub.Proofs

open IrcHub.Hub Str
open String (utf8Len)

/-! ### Bindings in order -/

/-- The binding table is in order: every record passed the checks of `uchanPut`, and there is
one per user and channel. -/
structure BindingsOk (rs : List UchanRecord) : Prop where
  shape : ∀ r ∈ rs, uuidShape r.uuid = true ∧ uchanNameOk r.chan = true ∧ 0 < r.timestamp
  distinct : rs.Pairwise fun a b => ¬ (a.uuid = b.uuid ∧ eqIc a.chan b.chan = true)

/-- No bindings at all are well formed. -/
theorem bindingsOk_nil : BindingsOk [] := ⟨fun _ h => (List.not_mem_nil h).elim, .nil⟩

/-- Rows taken out leave the others well formed. -/
theorem BindingsOk.sublist {rs rs' : List UchanRecord} (h : BindingsOk rs) (hs : rs'.Sublist rs) :
    BindingsOk rs' :=
  ⟨fun r hr => h.shape r (hs.subset hr), h.distinct.sublist hs⟩

/-- The same up to case, in either order. -/
theorem eqIc_symm {a b : Str} (h : eqIc a b = true) : eqIc b a = true :=
  eqIc_iff.mpr (eqIc_iff.mp h).symm

/-- And through a third spelling. -/
theorem eqIc_trans {a b c : Str} (h : eqIc a b = true) (h' : eqIc b c = true) : eqIc a c = true :=
  eqIc_iff.mpr ((eqIc_iff.mp h).trans (eqIc_iff.mp h'))

/-- A stored binding is where the lookup finds it. -/
theorem uchanFind_of_get {s : HubState} (h : BindingsOk s.uchanRecords) {i : Nat}
    {r : UchanRecord} (hget : s.uchanRecords[i]? = some r) :
    uchanFind s r.uuid r.chan = some i := by
  obtain ⟨hi, hget'⟩ := List.getElem?_eq_some_iff.mp hget
  rw [uchanFind, List.findIdx?_eq_some_iff_getElem]
  refine ⟨hi, by simp [hget', eqIc], ?_⟩
  intro j hj heq
  simp only [Bool.and_eq_true, beq_iff_eq] at heq
  have hpair := List.pairwise_iff_getElem.mp h.distinct j i (by omega) hi hj
  exact hpair (by rw [hget']; exact heq)

/-- The binding that is found is of the user and the channel, in some spelling. -/
theorem uchanFind_some {s : HubState} {uuid chan : Str} {i : Nat} {r : UchanRecord}
    (hfind : uchanFind s uuid chan = some i) (hget : s.uchanRecords[i]? = some r) :
    r.uuid = uuid ∧ eqIc r.chan chan = true := by
  rw [uchanFind, List.findIdx?_eq_some_iff_getElem] at hfind
  obtain ⟨hi, heq, -⟩ := hfind
  rw [List.getElem?_eq_some_iff] at hget
  obtain ⟨-, rfl⟩ := hget
  simpa using heq

/-- Writing state and stamp into binding `i` replaces that one. -/
theorem uchanSet_eq {s : HubState} {i : Nat} {r : UchanRecord}
    (hget : s.uchanRecords[i]? = some r) (active : Bool) (ts : Int) :
    (uchanSet s i active ts).uchanRecords
      = s.uchanRecords.set i { r with isActive := active, timestamp := ts } := by
  simp [uchanSet, List.modify_eq_set_getElem?, hget]

/-- Bindings stay in order whatever is offered. -/
theorem BindingsOk.uchanPut {s : HubState} (h : BindingsOk s.uchanRecords) (clk : Clock)
    (uuid chan : Str) (active : Bool) (ts : Int) :
    BindingsOk (uchanPut clk s uuid chan active ts).1.uchanRecords := by
  have hres := uchanPut_result clk s uuid chan active ts
  generalize Hub.uchanPut clk s uuid chan active ts = q at hres ⊢
  cases hres with
  | refused => exact h
  | rewrote i r hshape hname hpos hahead hfind hget hacc =>
    rw [uchanSet_eq hget]
    refine ⟨?_, Table.pairwise_set h.distinct hget (fun _ _ hx => hx) (fun _ _ hx => hx)⟩
    intro a ha
    rcases List.mem_or_eq_of_mem_set ha with ha | rfl
    · exact h.shape a ha
    · have hr := h.shape r (List.mem_of_getElem? hget)
      exact ⟨hr.1, hr.2.1, hpos⟩
  | new hshape hname hpos hahead hfind hroom =>
    refine ⟨?_, List.pairwise_append.mpr ⟨h.distinct, List.pairwise_singleton _ _, ?_⟩⟩
    · intro a ha
      rcases List.mem_append.mp ha with ha | ha
      · exact h.shape a ha
      · rw [List.mem_singleton] at ha
        subst ha
        exact ⟨hshape, hname, hpos⟩
    · -- the lookup found no binding of this user and channel
      intro a ha b hb hab
      rw [List.mem_singleton] at hb
      subst hb
      rw [uchanFind, List.findIdx?_eq_none_iff] at hfind
      have hno := hfind a ha
      simp only [Bool.and_eq_false_iff, beq_eq_false_iff_ne] at hno
      rcases hno with hno | hno
      · exact hno hab.1
      · rw [hab.2] at hno
        cases hno

/-- A put of a record touches no binding. -/
theorem putRecord_uchanRecords (clk : Clock) (s : HubState) (k : GlobalKey) (v : Str) (ts : Int) :
    (putRecord clk s k v ts).1.uchanRecords = s.uchanRecords := by
  have hres := putRecord_result clk s k v ts
  generalize putRecord clk s k v ts = q at hres ⊢
  cases hres with
  | refused => rfl
  | rewrote i e hok hfind hget hacc hban => rfl
  | new hok hfind hban hroom => rw [globalPush_eq]
  | evicted s' hok hfind hban hfull hevict hroom =>
    obtain ⟨b, e, -, -, -, rfl⟩ := evictOldestTombstone_eq hevict
    rw [globalPush_eq]
  | onlyEvicted s' hfull hevict hroom =>
    obtain ⟨b, e, -, -, -, rfl⟩ := evictOldestTombstone_eq hevict
    rfl

/-! ### What the cascade clears -/

/-- Not a live setting or ban of the channel with a stamp up to `t`. -/
def Cleared (chan : Str) (t : Int) (e : GlobalEntry) : Prop :=
  (e.key = .C ∨ e.key = .B) → entryActive e = true → entryChanEq e chan = true → t < e.timestamp

/-- Not a live binding of the channel with a stamp up to `t`. -/
def Unbound (chan : Str) (t : Int) (r : UchanRecord) : Prop :=
  r.isActive = true → eqIc r.chan chan = true → t < r.timestamp

/-- No live setting, ban or binding of the channel has a stamp up to `t`. -/
structure NoLive (chan : Str) (t : Int) (s : HubState) : Prop where
  entries : ∀ e ∈ s.globalEntries, Cleared chan t e
  bindings : ∀ r ∈ s.uchanRecords, Unbound chan t r

section Walk

variable {clk : Clock} {chan : Str} {ts : Int}

/-- What a cascade notes changes no table. -/
theorem note_globalEntries (c : Cascade) (s : HubState) (announce : Bool) (line : Str) :
    (c.note s announce line).state.globalEntries = s.globalEntries
      ∧ (c.note s announce line).state.globalIdx = s.globalIdx
      ∧ (c.note s announce line).state.uchanRecords = s.uchanRecords := by
  unfold Cascade.note announceLine
  split
  · simp only []
    split <;> exact ⟨rfl, rfl, rfl⟩
  · exact ⟨rfl, rfl, rfl⟩

/-- One step of the walk clears its entry and leaves the others. -/
structure StepCleared (chan : Str) (ts : Int) (i : Nat) (s s' : HubState) : Prop where
  store : StoreInv s'
  length : s'.globalEntries.length = s.globalEntries.length
  others : ∀ j, j ≠ i → s'.globalEntries[j]? = s.globalEntries[j]?
  here : ∀ e, s'.globalEntries[i]? = some e → Cleared chan ts e
  bindings : s'.uchanRecords = s.uchanRecords

/-- One entry of a cascade is cleared if it is of the channel, and every other is left. The
tombstone must be stampable: a stamp that is not positive, or too far ahead, clears nothing. -/
theorem cascadeEntry_stepCleared {c : Cascade} (hs : StoreInv c.state) (hpos : 0 < ts)
    (hahead : tsAhead clk ts = false) (announce : Bool) (i : Nat) :
    StepCleared chan ts i c.state (cascadeEntry clk chan ts announce c i).state := by
  have hstay : (∀ e, c.state.globalEntries[i]? = some e → Cleared chan ts e) →
      StepCleared chan ts i c.state c.state :=
    fun h => ⟨hs, rfl, fun _ _ => rfl, h, rfl⟩
  unfold cascadeEntry
  cases hget : c.state.globalEntries[i]? with
  | none => exact hstay fun e he => (by rw [hget] at he; cases he)
  | some e =>
    simp only []
    -- the entry is not of the channel, or not live
    split
    · rename_i hcond
      refine hstay fun a ha => ?_
      rw [hget] at ha
      cases ha
      intro hk hact hchan
      have hk' : (decide (e.key = .C) || decide (e.key = .B)) = true := by simpa using hk
      simp [hk', hact, hchan] at hcond
    rename_i hcond
    simp only [Bool.or_eq_true, Bool.not_eq_true', not_or, Bool.not_eq_false] at hcond
    -- a lock or a ban of the channel, which is live
    have hk : e.key = .C ∨ e.key = .B := by simpa using hcond.1.1
    have ht := hs.tombstoneOf_spec (List.mem_of_getElem? hget) hk
    have hdel := putRecord_tombstoneOf hs hget hk hcond.1.2 clk ts
    rw [if_neg (Nat.not_le.mpr (utf8Len_lt_of_recordValid ht.valid))]
    by_cases hle : e.timestamp ≤ ts
    · -- the entry becomes its tombstone
      rw [if_pos ⟨hpos, hahead, hle⟩] at hdel
      have hput := hs.putRecord clk e.key (tombstoneOf e.key e.value) ts
      rw [hdel] at hput
      simp only [hdel, Bool.not_true, Bool.false_eq_true, if_false]
      obtain ⟨hent, hidx, hbind⟩ := note_globalEntries c
        (overwrite c.state i e (tombstoneOf e.key e.value) ts false) announce
        (e.key.tag :: '|' :: tombstoneOf e.key e.value ++ '|' :: ofInt ts ++ ['\n'])
      refine ⟨?_, ?_, ?_, ?_, hbind⟩
      · rw [StoreInv, hent, hidx]
        exact hput
      · rw [hent]
        exact List.length_set
      · intro j hj
        rw [hent]
        exact List.getElem?_set_ne (Ne.symm hj)
      · intro a ha
        rw [hent] at ha
        have hset : (c.state.globalEntries.set i
            { e with value := tombstoneOf e.key e.value, timestamp := ts })[i]? = some a := ha
        rw [List.getElem?_set_self (List.getElem?_eq_some_iff.mp hget).1] at hset
        cases hset
        intro _ hact
        rw [entryActive, ht.dead] at hact
        cases hact
    -- its stamp is later than the cascade's, so it stays
    · rw [if_neg fun h => hle h.2.2] at hdel
      simp only [hdel, Bool.not_false, if_true]
      refine hstay fun a ha => ?_
      rw [hget] at ha
      cases ha
      exact fun _ _ _ => lt_of_not_ge hle

/-- The walk clears every entry from its start on. `fuel` counts the positions that are left, and
`hfuel` says that it reaches the end. The induction is on it, with what was cleared before as
`hdone`. -/
theorem cascadeEntries_cleared (chan : Str) (hpos : 0 < ts) (hahead : tsAhead clk ts = false)
    (announce : Bool) (fuel i : Nat) (c : Cascade) (hs : StoreInv c.state)
    (hdone : ∀ j < i, ∀ e, c.state.globalEntries[j]? = some e → Cleared chan ts e)
    (hfuel : c.state.globalEntries.length ≤ i + fuel) :
    (∀ e ∈ (cascadeEntries clk chan ts announce fuel i c).state.globalEntries, Cleared chan ts e)
      ∧ (cascadeEntries clk chan ts announce fuel i c).state.uchanRecords
        = c.state.uchanRecords := by
  -- the fuel runs out, or the walk runs off the table, with everything behind it cleared
  have hend : c.state.globalEntries.length ≤ i →
      ∀ e ∈ c.state.globalEntries, Cleared chan ts e := by
    intro hle e he
    obtain ⟨j, hj⟩ := List.mem_iff_getElem?.mp he
    exact hdone j (Nat.lt_of_lt_of_le (List.getElem?_eq_some_iff.mp hj).1 hle) e hj
  induction fuel generalizing i c with
  | zero => exact ⟨hend hfuel, rfl⟩
  | succ fuel ih =>
    unfold cascadeEntries
    split
    · have hstep : StepCleared chan ts i c.state (cascadeEntry clk chan ts announce c i).state :=
        cascadeEntry_stepCleared hs hpos hahead announce i
      have hdone' : ∀ j < i + 1, ∀ e,
          (cascadeEntry clk chan ts announce c i).state.globalEntries[j]? = some e →
          Cleared chan ts e := by
        intro j hj e he
        by_cases hji : j = i
        · subst hji
          exact hstep.here e he
        · rw [hstep.others j hji] at he
          exact hdone j (by omega) e he
      have hrest := ih (i + 1) _ hstep.store hdone' (by rw [hstep.length]; omega) (by
        intro hle e he
        obtain ⟨j, hj⟩ := List.mem_iff_getElem?.mp he
        exact hdone' j (Nat.lt_of_lt_of_le (List.getElem?_eq_some_iff.mp hj).1 hle) e hj)
      exact ⟨hrest.1, hrest.2.trans hstep.bindings⟩
    · rename_i hout
      exact ⟨hend (Nat.le_of_not_lt hout), rfl⟩

/-- Deleting one binding changes the table as `uchanPut` does. -/
theorem cascadeBinding_tables (clk : Clock) (ts : Int) (announce : Bool) (c : Cascade)
    (hit : Str × Str) :
    (cascadeBinding clk ts announce c hit).state.uchanRecords
        = (uchanPut clk c.state hit.1 hit.2 false ts).1.uchanRecords
      ∧ (cascadeBinding clk ts announce c hit).state.globalEntries = c.state.globalEntries := by
  have htable : (uchanPut clk c.state hit.1 hit.2 false ts).1.globalEntries
      = c.state.globalEntries := (sameTable_uchanPut clk c.state hit.1 hit.2 false ts).1
  unfold cascadeBinding
  simp only []
  split
  · exact ⟨rfl, htable⟩
  split
  · exact ⟨rfl, htable⟩
  split
  · exact ⟨rfl, htable⟩
  split
  · exact ⟨rfl, htable⟩
  · rename_i r _
    obtain ⟨hent, -, hbind⟩ := note_globalEntries c
      (uchanPut clk c.state hit.1 hit.2 false ts).1 true (formatUchan r)
    exact ⟨hbind, hent.trans htable⟩

/-- A live binding that survives the delete of `hit` is another one, or newer. -/
theorem uchanPut_del_survivor {s : HubState} (hb : BindingsOk s.uchanRecords) (hpos : 0 < ts)
    (hahead : tsAhead clk ts = false) {hit : Str × Str} {r : UchanRecord}
    (hr : r ∈ (uchanPut clk s hit.1 hit.2 false ts).1.uchanRecords) (hact : r.isActive = true)
    (hle : r.timestamp ≤ ts) : r ∈ s.uchanRecords ∧ (r.uuid, r.chan) ≠ hit := by
  obtain ⟨u, ch⟩ := hit
  -- the record of a stored binding is found at its own position
  have hfound : ∀ j, s.uchanRecords[j]? = some r → (r.uuid, r.chan) = (u, ch) →
      uchanFind s u ch = some j := by
    intro j hj heq
    cases heq
    exact uchanFind_of_get hb hj
  have hres := uchanPut_result clk s u ch false ts
  generalize hq : Hub.uchanPut clk s u ch false ts = q at hres hr
  cases hres with
  | refused =>
    refine ⟨hr, fun heq => ?_⟩
    obtain ⟨j, hj⟩ := List.mem_iff_getElem?.mp hr
    have hshape := hb.shape r hr
    have hfind := hfound j hj heq
    cases heq
    -- a live record with a stamp up to the delete's loses to it
    have hacc : lwwAccepts clk ts false r.timestamp r.isActive = true := by
      simp only [lwwAccepts, hahead, hact, Bool.false_eq_true, if_false, Bool.or_eq_true,
        decide_eq_true_eq, Bool.and_eq_true, Bool.not_false, and_true, gt_iff_lt]
      omega
    rw [uchanPut, if_neg (by simp [hshape.1, hshape.2.1, hpos, hahead]), hfind] at hq
    simp [hj, hacc] at hq
  | rewrote i a hshape hname _ _ hfind hget hacc =>
    rw [uchanSet_eq hget] at hr
    obtain ⟨j, hj⟩ := List.mem_iff_getElem?.mp hr
    by_cases hij : i = j
    · subst hij
      rw [List.getElem?_set_self (List.getElem?_eq_some_iff.mp hget).1] at hj
      cases hj
      cases hact
    · rw [List.getElem?_set_ne hij] at hj
      refine ⟨List.mem_of_getElem? hj, fun heq => hij ?_⟩
      have := hfound j hj heq
      rw [hfind] at this
      exact Option.some.inj this
  | new hshape hname _ _ hfind hroom =>
    rcases List.mem_append.mp hr with hold | hnew
    · refine ⟨hold, fun heq => ?_⟩
      obtain ⟨j, hj⟩ := List.mem_iff_getElem?.mp hold
      have := hfound j hj heq
      rw [hfind] at this
      cases this
    · rw [List.mem_singleton] at hnew
      subst hnew
      cases hact

/-- The walk over the live bindings clears them. `hcover` says that the list of hits has all of
them; it was made before the walk. -/
theorem cascadeBindings_unbound (chan : Str) (hpos : 0 < ts) (hahead : tsAhead clk ts = false)
    (announce : Bool) (hits : List (Str × Str)) (c : Cascade)
    (hb : BindingsOk c.state.uchanRecords)
    (hcover : ∀ r ∈ c.state.uchanRecords, r.isActive = true → eqIc r.chan chan = true →
      r.timestamp ≤ ts → (r.uuid, r.chan) ∈ hits) :
    (∀ r ∈ (hits.foldl (cascadeBinding clk ts announce) c).state.uchanRecords, Unbound chan ts r)
      ∧ (hits.foldl (cascadeBinding clk ts announce) c).state.globalEntries
        = c.state.globalEntries := by
  induction hits generalizing c with
  | nil =>
    refine ⟨fun r hr hact hchan => ?_, rfl⟩
    by_contra hle
    exact List.not_mem_nil (hcover r hr hact hchan (not_lt.mp hle))
  | cons hit hits ih =>
    obtain ⟨hbind, hent⟩ := cascadeBinding_tables clk ts announce c hit
    have hrest := ih (cascadeBinding clk ts announce c hit)
      (by rw [hbind]; exact hb.uchanPut clk hit.1 hit.2 false ts) (by
        intro r hr hact hchan hle
        rw [hbind] at hr
        obtain ⟨hold, hne⟩ := uchanPut_del_survivor hb hpos hahead hr hact hle
        rcases List.mem_cons.mp (hcover r hold hact hchan hle) with heq | hmem
        · exact absurd heq hne
        · exact hmem)
    exact ⟨hrest.1, hrest.2.trans hent⟩

end Walk

/-- Forgetting what was learned of a channel changes neither table. -/
theorem learnedDrop_tables (s : HubState) (chan : Str) :
    (learnedDrop s chan).globalEntries = s.globalEntries
      ∧ (learnedDrop s chan).uchanRecords = s.uchanRecords := by
  unfold learnedDrop
  split <;> exact ⟨rfl, rfl⟩

/-- A stamp that is not positive is below every stored one. -/
theorem noLive_of_nonpos {s : HubState} (hs : StoreInv s) (hb : BindingsOk s.uchanRecords)
    {t : Int} (ht : t ≤ 0) (chan : Str) : NoLive chan t s := by
  refine ⟨fun e he hk _ _ => ?_, fun r hr _ _ => Int.lt_of_le_of_lt ht (hb.shape r hr).2.2⟩
  have hmodes : keyIsModes e.key = true := by rcases hk with hk | hk <;> rw [hk] <;> rfl
  exact Int.lt_of_le_of_lt ht ((hs.entryOk e he).modes hmodes).2

/-- A cascade leaves bindings well formed. -/
theorem BindingsOk.chanCascadeDel {s : HubState} (hb : BindingsOk s.uchanRecords) (clk : Clock)
    (chan : Str) (ts : Int) (announce : Bool) :
    BindingsOk (chanCascadeDel clk s chan ts announce).1.uchanRecords := by
  refine chanCascadeDel_induction (P := fun t => BindingsOk t.uchanRecords) ?_ ?_ ?_ ?_ hb
  · intro t ht
    rw [(learnedDrop_tables t chan).2]
    exact ht
  · intro t e ht _ _ _ _
    rw [putRecord_uchanRecords]
    exact ht
  · exact fun t u c ht _ _ => ht.uchanPut clk u c false ts
  · exact fun _ _ ht => ht

/-- The cascade leaves nothing live of the channel with a stamp up to its own. `hstar`: the
channel is not the star, which the cascade of the bindings leaves out. -/
theorem noLive_chanCascadeDel {s : HubState} (hs : StoreInv s) (hb : BindingsOk s.uchanRecords)
    {clk : Clock} {ts : Int} (hahead : tsAhead clk ts = false) {chan : Str}
    (hstar : eqIc ['*'] chan = false) (announce : Bool) :
    NoLive chan ts (chanCascadeDel clk s chan ts announce).1 := by
  by_cases hpos : 0 < ts
  · obtain ⟨hent0, hbind0⟩ := learnedDrop_tables s chan
    have hentries := cascadeEntries_cleared chan hpos hahead announce
      (learnedDrop s chan).globalEntries.length 0 { state := learnedDrop s chan }
      (hs.of_sameTable (sameTable_learnedDrop s chan)) (fun j hj => absurd hj (Nat.not_lt_zero j))
      (Nat.le_of_eq (Nat.zero_add _).symm)
    generalize hc : cascadeEntries clk chan ts announce
      (learnedDrop s chan).globalEntries.length 0 { state := learnedDrop s chan } = c at hentries
    have hbindings := cascadeBindings_unbound chan hpos hahead announce
      (cascadeHits c.state chan) c (by rw [hentries.2, hbind0]; exact hb) (by
        intro r hr hact hchan _
        refine List.mem_map.mpr ⟨r, List.mem_filter.mpr ⟨hr, ?_⟩, rfl⟩
        have hne : r.chan ≠ ['*'] := by
          intro heq
          rw [heq, hstar] at hchan
          cases hchan
        simp [hact, hne, hchan])
    have hfinal : NoLive chan ts
        ((cascadeHits c.state chan).foldl (cascadeBinding clk ts announce) c).state := by
      refine ⟨?_, hbindings.1⟩
      rw [hbindings.2]
      exact hentries.1
    unfold chanCascadeDel
    simp only [hc]
    split
    · exact hfinal
    · exact ⟨hfinal.entries, hfinal.bindings⟩
  · exact noLive_of_nonpos (hs.chanCascadeDel clk chan ts announce)
      (hb.chanCascadeDel clk chan ts announce) (not_lt.mp hpos) chan

/-! ### What the cascade leaves alone -/

/-- A channel record, settings or ban of the channel. -/
def ofChan (chan : Str) (e : GlobalEntry) : Bool :=
  (decide (e.key = .c) || decide (e.key = .C) || decide (e.key = .B)) && entryChanEq e chan

/-- Whatever is not of the channel is as it was: the other entries and bindings, in their
places, and the learned keys. -/
structure SameElsewhere (chan : Str) (s s' : HubState) : Prop where
  entry : ∀ (i : Nat) (e : GlobalEntry), ofChan chan e = false →
    (s'.globalEntries[i]? = some e ↔ s.globalEntries[i]? = some e)
  binding : ∀ (i : Nat) (r : UchanRecord), eqIc r.chan chan = false →
    (s'.uchanRecords[i]? = some r ↔ s.uchanRecords[i]? = some r)
  learned : ∀ l : ChanLearned, eqIc l.chan chan = false → (l ∈ s'.chanLearned ↔ l ∈ s.chanLearned)

/-- A state is the same elsewhere as itself. -/
theorem SameElsewhere.refl (chan : Str) (s : HubState) : SameElsewhere chan s s :=
  ⟨fun _ _ _ => Iff.rfl, fun _ _ _ => Iff.rfl, fun _ _ => Iff.rfl⟩

/-- Steps that only touch the channel compose. -/
theorem SameElsewhere.trans {chan : Str} {s t u : HubState} (h : SameElsewhere chan s t)
    (h' : SameElsewhere chan t u) : SameElsewhere chan s u :=
  ⟨fun i e he => (h'.entry i e he).trans (h.entry i e he),
    fun i r hr => (h'.binding i r hr).trans (h.binding i r hr),
    fun l hl => (h'.learned l hl).trans (h.learned l hl)⟩

/-- Rewriting a row that `p` takes into one that `p` takes shows no other row. -/
theorem getElem?_set_iff_of_marked {α : Type} {l : List α} {i : Nat} {a a' x : α} {p : α → Bool}
    (hget : l[i]? = some a) (ha : p a = true) (ha' : p a' = true) (hx : p x = false) (j : Nat) :
    (l.set i a')[j]? = some x ↔ l[j]? = some x := by
  by_cases hij : i = j
  · subst hij
    rw [List.getElem?_set_self (List.getElem?_eq_some_iff.mp hget).1, hget]
    constructor
    · intro h
      cases h
      rw [hx] at ha'
      cases ha'
    · intro h
      cases h
      rw [hx] at ha
      cases ha
  · rw [List.getElem?_set_ne hij]

/-- Appending a row that `p` takes shows no other row. -/
theorem getElem?_append_iff_of_marked {α : Type} {l : List α} {a x : α} {p : α → Bool}
    (ha : p a = true) (hx : p x = false) (j : Nat) :
    (l ++ [a])[j]? = some x ↔ l[j]? = some x := by
  rcases Nat.lt_trichotomy j l.length with hlt | rfl | hgt
  · rw [List.getElem?_append_left hlt]
  · have hne : a ≠ x := by
      rintro rfl
      rw [hx] at ha
      cases ha
    simp [hne]
  · rw [List.getElem?_eq_none (by simp; omega), List.getElem?_eq_none (by omega)]

/-- Forgetting touches no record, and of the learned keys only those of the channel. -/
theorem sameElsewhere_learnedDrop (s : HubState) (chan : Str) :
    SameElsewhere chan s (learnedDrop s chan) := by
  obtain ⟨hent, hbind⟩ := learnedDrop_tables s chan
  refine ⟨fun i e _ => by rw [hent], fun i r _ => by rw [hbind], fun l hl => ?_⟩
  unfold learnedDrop
  cases hfind : learnedIndex s chan with
  | none => rfl
  | some i =>
    rw [learnedIndex, List.findIdx?_eq_some_iff_getElem] at hfind
    obtain ⟨hi, heq, -⟩ := hfind
    rw [show ({ s with chanLearned := Table.swapRemove s.chanLearned i } : HubState).chanLearned
      = Table.swapRemove s.chanLearned i from rfl, (Table.swapRemove_perm _ hi).mem_iff,
      List.mem_eraseIdx_iff_getElem?]
    constructor
    · rintro ⟨j, -, hj⟩
      exact List.mem_of_getElem? hj
    · intro hmem
      obtain ⟨j, hj⟩ := List.mem_iff_getElem?.mp hmem
      refine ⟨j, ?_, hj⟩
      rintro rfl
      rw [(List.getElem?_eq_some_iff.mp hj).2] at heq
      rw [heq] at hl
      cases hl

/-- A binding that is dropped is one of the channel. -/
theorem sameElsewhere_uchanPut (clk : Clock) (s : HubState) {u c chan : Str}
    (hc : eqIc c chan = true) (ts : Int) :
    SameElsewhere chan s (uchanPut clk s u c false ts).1 := by
  have hres := uchanPut_result clk s u c false ts
  generalize uchanPut clk s u c false ts = q at hres ⊢
  cases hres with
  | refused => exact .refl chan s
  | rewrote i r _ _ _ _ hfind hget hacc =>
    have hr := eqIc_trans (uchanFind_some hfind hget).2 hc
    refine ⟨fun _ _ _ => Iff.rfl, fun j a ha => ?_, fun _ _ => Iff.rfl⟩
    rw [uchanSet_eq hget]
    exact getElem?_set_iff_of_marked (p := fun r => eqIc r.chan chan) hget hr hr ha j
  | new _ _ _ _ hfind hroom =>
    exact ⟨fun _ _ _ => Iff.rfl, fun j a ha =>
      getElem?_append_iff_of_marked (p := fun r => eqIc r.chan chan) hc ha j, fun _ _ => Iff.rfl⟩

/-- A tombstone is of the channel its record was of. -/
theorem firstField_tombstoneOf {k : GlobalKey} {v : Str} (hk : k = .C ∨ k = .B)
    (hv : recordValid k v = true) : firstField (tombstoneOf k v) = firstField v := by
  have ht := (tombstoneOf_spec hk hv).ident
  rw [← firstField_ident k (tombstoneOf k v), ht, firstField_ident]

/-- The cascade of a channel touches nothing of another one, whatever its stamp. -/
theorem sameElsewhere_chanCascadeDel {s : HubState} (hs : StoreInv s) (clk : Clock) (chan : Str)
    (ts : Int) (announce : Bool) :
    SameElsewhere chan s (chanCascadeDel clk s chan ts announce).1 := by
  have hrun : StoreInv (Hub.chanCascadeDel clk s chan ts announce).1
      ∧ SameElsewhere chan s (Hub.chanCascadeDel clk s chan ts announce).1 := by
    refine chanCascadeDel_induction (P := fun t => StoreInv t ∧ SameElsewhere chan s t)
      (fun t ht => ⟨ht.1.of_sameTable (sameTable_learnedDrop t chan),
        ht.2.trans (sameElsewhere_learnedDrop t chan)⟩) ?_
      (fun t u c ht _ hc => ⟨ht.1.of_sameTable (sameTable_uchanPut clk t u c false ts),
        ht.2.trans (sameElsewhere_uchanPut clk t hc ts)⟩)
      (fun t p ht => ⟨ht.1.of_sameTable (sameTable_broadcast t p),
        ht.2.trans ⟨fun _ _ _ => Iff.rfl, fun _ _ _ => Iff.rfl, fun _ _ => Iff.rfl⟩⟩)
      ⟨hs, .refl chan s⟩
    intro t e ht he hk hact hchan
    refine ⟨ht.1.putRecord clk e.key _ ts, ht.2.trans ?_⟩
    obtain ⟨i, hget⟩ := List.mem_iff_getElem?.mp he
    rw [putRecord_tombstoneOf ht.1 hget hk hact]
    have hmodes : keyIsModes e.key = true := by rcases hk with hk | hk <;> rw [hk] <;> rfl
    have hvalid := ((ht.1.entryOk e he).modes hmodes).1
    split
    · -- an entry of the channel becomes another entry of the channel
      have hkey : (decide (e.key = .c) || decide (e.key = .C) || decide (e.key = .B)) = true := by
        rcases hk with hk | hk <;> simp [hk]
      have hold : ofChan chan e = true := by rw [ofChan, hkey, hchan]; rfl
      have hnew : ofChan chan { e with value := tombstoneOf e.key e.value, timestamp := ts }
          = true := by
        have : entryChanEq { e with value := tombstoneOf e.key e.value, timestamp := ts } chan
            = true := by
          rw [entryChanEq, firstField_tombstoneOf hk hvalid]
          exact hchan
        rw [ofChan, hkey, this]
        rfl
      exact ⟨fun j a ha => getElem?_set_iff_of_marked hget hold hnew ha j, fun _ _ _ => Iff.rfl,
        fun _ _ => Iff.rfl⟩
    · exact .refl chan t
  exact hrun.2

end IrcHub.Proofs
