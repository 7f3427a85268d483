import IrcHub.Proofs.Floor.Restore

/-!
# `IrcHub.Proofs.Floor.Whole`: the admin floor brings back full admins

The floor runs when no full admin is left. It looks at the admins that lost the flag or their
record lately, the window, and undoes the removal of each by writes that are stamped one past it.

* `Restorable.other`: what one admin needs to come back is still there after another came back,
  because a restore only touches its own admin
* `restore_all`: hence every admin of a window comes back, by induction on the window, and nobody
  else does
* `adminFloor_restores`: in a state the floor may find, under `FloorOk`, the hub holds full admins
  again, as many as the floor says, and a peer with the same records that applies the lines holds
  them too
* `adminFloor_refused`: a state where the hub refuses its own write as stamped too far ahead, and
  counts the admin as back all the same

The condition `FloorOk` speaks of the state before the floor only: there is an admin to bring back
and the writes will be taken. `FloorState` lists where a floor can run, which is in a state of a
run or in the middle of a sync or of a push, where the lines are applied and the lists are not yet
sent out.
-/

set_option autoImplicit false

namespace IrcHub.Proofs

open IrcHub.Hub Str
open String (utf8Len)

/-! ### Full admins -/

/-- A live admin that holds `a`. -/
def fullUser (s : HubState) (u : UserRecord) : Bool :=
  u.typ == 'a' && u.isActive && (userFlags s u.uuid).contains 'a'

/-- The number of full admins. -/
def fullAdmins (s : HubState) : Nat := s.userRecords.countP (fullUser s)

/-- The user at a place of the table is a full admin. -/
def fullAt (s : HubState) (i : Nat) : Bool := (s.userRecords[i]?).any (fullUser s)

/-- The records that pass, counted by their places. The floor walks places of the table while the
number of full admins is a count over the records, and this lemma brings the two together. -/
theorem countP_eq_places {α : Type} (l : List α) (f : α → Bool) :
    l.countP f = ((List.range l.length).filter fun i => (l[i]?).any f).length := by
  induction l using List.reverseRecOn with
  | nil => rfl
  | append_singleton l a ih =>
    have hplaces : (List.range l.length).filter (fun i => ((l ++ [a])[i]?).any f)
        = (List.range l.length).filter fun i => (l[i]?).any f :=
      List.filter_congr fun i hi => by rw [List.getElem?_append_left (List.mem_range.mp hi)]
    rw [List.countP_append, List.length_append, List.length_singleton, List.range_succ,
      List.filter_append, hplaces, List.length_append, ih]
    cases hfa : f a with
    | true => simp [hfa]
    | false => simp [hfa]

section Window

variable {clk : Clock} {s t : HubState} {i j : Nat} {u v : UserRecord}

/-! ### One admin and the others -/

/-- Flags that are the same give the same rights. -/
theorem userFlags_of_flags {uuid : Str} (h : uflagFind t uuid = uflagFind s uuid
    ∧ ∀ k, uflagFind s uuid = some k → t.uflagRecords[k]? = s.uflagRecords[k]?) :
    userFlags t uuid = userFlags s uuid := by
  unfold userFlags
  rw [h.1]
  cases hfind : uflagFind s uuid with
  | none => rfl
  | some k => simp only [h.2 k hfind]

/-- Two admins of a window have their own uuids. -/
theorem Restorable.uuid_ne (h : Restorable clk s i u) (hv : s.userRecords[j]? = some v)
    (hij : j ≠ i) :
    v.uuid ≠ u.uuid :=
  fun heq => hij (h.alone j v hv heq)

/-- What one admin needs is still there after another came back. The restore of `u` writes the
record and the flags of `u`, whose uuid is not that of `v`, and leaves the ceilings of the tables
as they were. -/
theorem Restorable.other (hu : Restorable clk s i u) (hv : Restorable clk s j v) (hij : j ≠ i)
    (hback : Restored s i u t) : Restorable clk t j v := by
  obtain ⟨w, husers, hwuuid, -, -⟩ := hback.users
  obtain ⟨f, hmasks, hf⟩ := hback.masks
  have hne : v.uuid ≠ u.uuid := hu.uuid_ne hv.get hij
  have hflags := hback.flags v.uuid hne
  refine ⟨?_, hv.typ, hv.uuid, ?_, ?_, fun hdel => ?_⟩
  · rw [husers, List.getElem?_set_ne hij.symm]
    exact hv.get
  · intro k x hx hxuuid
    rw [husers] at hx
    by_cases hik : i = k
    · subst hik
      rw [List.getElem?_set_self (List.getElem?_eq_some_iff.mp hu.get).1] at hx
      cases hx
      exact absurd (hxuuid.symm.trans hwuuid) hne
    · rw [List.getElem?_set_ne hik] at hx
      exact hv.alone k x hx hxuuid
  · intro hlost
    rw [userFlags_of_flags hflags] at hlost
    obtain ⟨k, r, hfind, hget, hrest⟩ := hv.lost hlost
    exact ⟨k, r, hflags.1.trans hfind, (hflags.2 k hfind).trans hget, hrest⟩
  · have hundone := hv.deleted hdel
    refine ⟨hundone.stamp, hundone.name, hundone.key, fun k m hm hdrop => ?_⟩
    have hmuuid : m.uuid = v.uuid := by
      unfold droppedWith at hdrop
      simp only [Bool.and_eq_true, beq_iff_eq] at hdrop
      exact hdrop.1.1.2
    rw [hmasks, List.getElem?_map] at hm
    obtain ⟨m0, hm0, hfm⟩ := Option.map_eq_some_iff.mp hm
    have hsame : m = m0 := by
      rw [← hfm]
      refine (hf m0).2.2 fun heq => hne ?_
      rw [← hmuuid, ← hfm, (hf m0).1, heq]
    rw [hsame] at hdrop ⊢
    have hfind : ∀ uuid mask, maskFind t uuid mask = maskFind s uuid mask := by
      intro uuid mask
      have hcomp : (fun m : MaskRecord => m.uuid == uuid && eqIc m.mask mask) ∘ f
          = fun m => m.uuid == uuid && eqIc m.mask mask := by
        funext m
        show ((f m).uuid == uuid && eqIc (f m).mask mask) = _
        rw [(hf m).1, (hf m).2.1]
      unfold maskFind
      rw [hmasks, List.findIdx?_map, hcomp]
    rw [hfind]
    exact hundone.masks k m0 hm0 hdrop

/-- A restored admin is a full one. -/
theorem Restored.fullAt_self (hu : Restorable clk s i u) (hback : Restored s i u t) :
    fullAt t i = true := by
  obtain ⟨w, husers, hwuuid, htyp, hact⟩ := hback.users
  unfold fullAt
  rw [husers, List.getElem?_set_self (List.getElem?_eq_some_iff.mp hu.get).1]
  show fullUser t w = true
  unfold fullUser
  rw [htyp, hact, hwuuid, hback.full]
  rfl

/-- And every other is what it was. -/
theorem Restored.fullAt_other (hu : Restorable clk s i u) (hij : j ≠ i)
    (hback : Restored s i u t) :
    fullAt t j = fullAt s j := by
  obtain ⟨w, husers, -, -, -⟩ := hback.users
  unfold fullAt
  rw [husers, List.getElem?_set_ne hij.symm]
  cases hget : s.userRecords[j]? with
  | none => rfl
  | some v =>
    show fullUser t v = fullUser s v
    unfold fullUser
    rw [userFlags_of_flags (hback.flags v.uuid (hu.uuid_ne hget hij))]

/-! ### All admins -/

/-- All admins of a window come back. Besides the full admins this says what the induction over
the window needs: the table keeps its length, the places outside the window keep what they were,
the lines fit a frame, and a peer with the same records takes them. -/
structure AllBack (clk : Clock) (s : HubState) (is : List Nat) (t : HubState)
    (ls : List Str) : Prop where
  eq : ∀ out, is.foldl (restoreAdmin clk) (s, out) = (t, out ++ ls.flatten)
  length : t.userRecords.length = s.userRecords.length
  full : ∀ i ∈ is, fullAt t i = true
  others : ∀ j, j ∉ is → fullAt t j = fullAt s j
  fit : ∀ l ∈ ls, LineFit lineOk 340 l
  count : ls.length ≤ is.length * (maxHubUserMasks + 2)
  peer : ∀ p, SamePeople s p → ∃ q, Accepts clk p (ls.map List.dropLast) q ∧ SamePeople t q

/-- All admins of a list, by induction on it: what can be restored before can be after, because a
restore only touches its own admin. -/
theorem restore_all (is : List Nat) : ∀ s : HubState, is.Nodup →
    (∀ i ∈ is, ∃ u, Restorable clk s i u) → Fits (fun _ => True) s →
    ∃ t ls, AllBack clk s is t ls := by
  induction is with
  | nil =>
    intro s _ _ _
    refine ⟨s, [], fun out => by simp, rfl, fun _ h => (List.not_mem_nil h).elim, fun _ _ => rfl,
      fun _ h => (List.not_mem_nil h).elim, Nat.zero_le _, fun p hp => ⟨p, .nil p, hp⟩⟩
  | cons i is ih =>
    intro s hnodup hall hfits
    obtain ⟨hnotin, hnodup⟩ := List.nodup_cons.mp hnodup
    obtain ⟨u, hu⟩ := hall i List.mem_cons_self
    obtain ⟨r, ls, hback⟩ := restoreAdmin_back hu hfits
    have hrest : ∀ j ∈ is, ∃ v, Restorable clk r j v := by
      intro j hj
      obtain ⟨v, hv⟩ := hall j (List.mem_cons_of_mem _ hj)
      exact ⟨v, hu.other hv (fun heq => hnotin (heq ▸ hj)) hback.restored⟩
    have hfitsr : Fits (fun _ => True) r := by
      have hstep : Fits (fun _ => True) (restoreAdmin clk (s, []) i).1 :=
        Fits.restoreAdmin hfits (fun _ _ _ => trivial) i
      rw [hback.eq] at hstep
      exact hstep
    obtain ⟨t, ls', hrun⟩ := ih r hnodup hrest hfitsr
    refine ⟨t, ls ++ ls', fun out => ?_, ?_, ?_, ?_, ?_, ?_, ?_⟩
    · rw [List.foldl_cons, hback.eq, hrun.eq, List.flatten_append, List.append_assoc]
    · obtain ⟨w, husers, -⟩ := hback.restored.users
      rw [hrun.length, husers, List.length_set]
    · intro j hj
      rcases List.mem_cons.mp hj with rfl | hj
      · rw [hrun.others j hnotin]
        exact hback.restored.fullAt_self hu
      · exact hrun.full j hj
    · intro j hj
      obtain ⟨hne, hj⟩ := not_or.mp fun h => hj (List.mem_cons.mpr h)
      rw [hrun.others j hj, hback.restored.fullAt_other hu hne]
    · intro l hl
      rcases List.mem_append.mp hl with hl | hl
      · exact hback.lines.fit l hl
      · exact hrun.fit l hl
    · have hone := hback.lines.count
      have hmore := hrun.count
      rw [List.length_append, List.length_cons, Nat.succ_mul]
      omega
    · intro p hp
      obtain ⟨q, hq, hqsame⟩ := hback.peer p hp
      obtain ⟨q', hq', hqsame'⟩ := hrun.peer q hqsame
      rw [List.map_append]
      exact ⟨q', hq.append hq', hqsame'⟩

end Window

/-! ### The window -/

section Floor

variable {clk : Clock} {s t : HubState}

/-- What a filter picks out of a list keeps its order. -/
private theorem filterMap_sublist_map {α β : Type} {f : α → Option β} {g : α → β}
    (h : ∀ a b, f a = some b → b = g a) (l : List α) : (l.filterMap f).Sublist (l.map g) := by
  induction l with
  | nil => exact List.Sublist.slnil
  | cons a l ih =>
    rw [List.map_cons]
    cases hfa : f a with
    | none =>
      rw [List.filterMap_cons_none hfa]
      exact ih.cons _
    | some b =>
      rw [List.filterMap_cons_some hfa, h a b hfa]
      exact ih.cons_cons _

/-- The admins of the window in the order of the table. -/
theorem floorWindow_sublist (s : HubState) :
    (floorWindow s).Sublist (List.range s.userRecords.length) := by
  unfold floorWindow
  simp only []
  refine (List.Sublist.map _ List.filter_sublist).trans ?_
  rw [List.map_filterMap]
  have hplaces := filterMap_sublist_map
    (f := fun p : UserRecord × Nat => ((floorCandidate s p.1).map fun t => (p.2, t)).map (·.1))
    (g := (·.2)) (fun p i hi => by
      rw [Option.map_map] at hi
      obtain ⟨t, -, rfl⟩ := Option.map_eq_some_iff.mp hi
      rfl)
    (s.userRecords.zipIdx.filter fun p => p.1.typ == 'a')
  refine hplaces.trans ((List.Sublist.map _ List.filter_sublist).trans ?_)
  rw [List.zipIdx_map_snd, List.range_eq_range']

/-- The newest removal is one of them, or none is past 0. The fold starts at the `0` of the
source, hence the second case. -/
theorem foldl_newest (cand : List (Nat × Int)) (m : Int) :
    m ≤ cand.foldl (fun m c => max m c.2) m
      ∧ (cand.foldl (fun m c => max m c.2) m = m
        ∨ ∃ c ∈ cand, c.2 = cand.foldl (fun m c => max m c.2) m) := by
  induction cand generalizing m with
  | nil => exact ⟨Int.le_refl _, .inl rfl⟩
  | cons c cand ih =>
    rw [List.foldl_cons]
    obtain ⟨hle, hnew⟩ := ih (max m c.2)
    refine ⟨by omega, ?_⟩
    rcases hnew with heq | ⟨d, hd, heq⟩
    · rw [heq]
      rcases Int.le_total c.2 m with hc | hc
      · exact .inl (by omega)
      · exact .inr ⟨c, List.mem_cons_self, by omega⟩
    · exact .inr ⟨d, List.mem_cons_of_mem _ hd, heq⟩

/-- What the floor needs to do what it says: a removal that is not stamped far before the epoch,
and every admin of the window can come back. -/
structure FloorOk (clk : Clock) (s : HubState) : Prop where
  recent : ∃ u ∈ s.userRecords, u.typ = 'a' ∧ ∃ t, floorCandidate s u = some t
    ∧ -adminFloorWindow ≤ t
  undone : ∀ i ∈ floorWindow s, ∃ u, Restorable clk s i u

/-- Somebody is in the window. The newest removal is in it, because the window is measured back
from that one. -/
theorem FloorOk.window_ne (h : FloorOk clk s) : floorWindow s ≠ [] := by
  obtain ⟨u, hu, htyp, ts, hts, hrecent⟩ := h.recent
  unfold floorWindow
  simp only []
  obtain ⟨i, hi⟩ := List.getElem?_of_mem hu
  have hmem : (i, ts) ∈ (s.userRecords.zipIdx.filter fun p => p.1.typ == 'a').filterMap fun p =>
      (floorCandidate s p.1).map fun t => (p.2, t) := by
    refine List.mem_filterMap.mpr ⟨(u, i), List.mem_filter.mpr ⟨?_, ?_⟩, ?_⟩
    · exact List.mem_zipIdx_iff_getElem?.mpr hi
    · exact beq_iff_eq.mpr htyp
    · rw [hts]
      rfl
  generalize (s.userRecords.zipIdx.filter fun p => p.1.typ == 'a').filterMap (fun p =>
      (floorCandidate s p.1).map fun t => (p.2, t)) = cand at hmem ⊢
  obtain ⟨-, heq | ⟨c, hc, heq⟩⟩ := foldl_newest cand 0
  · rw [heq]
    refine List.ne_nil_of_mem (a := i)
      (List.mem_map.mpr ⟨(i, ts), List.mem_filter.mpr ⟨hmem, ?_⟩, rfl⟩)
    exact decide_eq_true (by omega)
  · rw [← heq]
    refine List.ne_nil_of_mem (a := c.1) (List.mem_map.mpr ⟨c, List.mem_filter.mpr ⟨hc, ?_⟩, rfl⟩)
    have hwindow : adminFloorWindow = 60 := rfl
    exact decide_eq_true (by omega)

/-- The floor runs when there is no full admin, over the window. This is the floor unfolded once,
for the proofs that follow. -/
theorem adminFloorRestore_some {lines : Str} (h : adminFloorRestore clk s = (t, some lines)) :
    (∀ j, fullAt s j = false) ∧ (floorWindow s).foldl (restoreAdmin clk) (s, [])
    = (t, lines) := by
  unfold adminFloorRestore at h
  simp only [] at h
  split at h
  · cases h
  rename_i hnone
  split at h
  · cases h
  refine ⟨fun j => ?_, ?_⟩
  · unfold fullAt
    cases hget : s.userRecords[j]? with
    | none => rfl
    | some u =>
      show fullUser s u = false
      rw [Bool.eq_false_iff]
      intro hfull
      unfold fullUser at hfull
      simp only [Bool.and_eq_true] at hfull
      refine hnone (List.any_eq_true.mpr ⟨(u, j), List.mem_filter.mpr ⟨?_, hfull.1.1⟩, ?_⟩)
      · exact List.mem_zipIdx_iff_getElem?.mpr hget
      · exact Bool.and_eq_true_iff.mpr ⟨hfull.1.2, hfull.2⟩
  · simp only [Prod.mk.injEq, Option.some.injEq] at h
    exact Prod.ext h.1 h.2

/-! ### The states it looks at -/

/-- A state the floor may find: one of a run, or one inside a step, after the lines of a frame or
of a push. Inside a step the lists have been pruned and migrated, and the floor is what comes
next. -/
inductive FloorState (clk : Clock) : HubState → Prop
  | run {es : List HubEvent} {s : HubState} (hrun : runHub es = some s) : FloorState clk s
  | sync {es : List HubEvent} {r : HubState} {frame : Str} {p : HubState × SyncCounters}
      (hrun : runHub es = some r) (hlines : syncLines clk (r, {}) (frameLines frame) = some p) :
      FloorState clk (accessMigrate clk (accessPrune p.1)).1
  | push {es : List HubEvent} {r : HubState} {id frame : Str} {a : PushAcc}
      (hrun : runHub es = some r) (hnow : InI64 clk.now)
      (hlines : (pushLines (untilNul frame)).foldlM (pushLine clk (configFrozen r) id)
      { state := r } = some a) :
      FloorState clk (accessMigrate clk a.state).1

/-- Any character is allowed. -/
private theorem wireOk_any : WireOk fun _ => True := fun _ _ _ => trivial

/-- A reachable state fits, whatever the characters. -/
private theorem fits_any {es : List HubEvent} {r : HubState} (hrun : runHub es = some r) :
    Fits (fun _ => True) r :=
  fits_runHub wireOk_any (.inl fun _ => trivial) hrun

/-- The tables of such a state are within their ceilings. Every line that is applied keeps them
there, and so do the prune and the migration. -/
theorem FloorState.fits (h : FloorState clk s) : Fits (fun _ => True) s := by
  cases h with
  | run hrun => exact fits_any hrun
  | @sync es r frame p hrun hlines =>
    have hp : Fits (fun _ => True) p.1 := by
      refine Lww.inv_runM (I := fun p => Fits (fun _ => True) p.1)
        (Q := fun line => ∀ c ∈ line, True) ?_ (fits_any hrun) (fun _ _ _ _ => trivial)
        (Lww.alongM_of_forall (fun _ _ => trivial) _ _) hlines
      exact fun p line q hp hline _ hq => hp.syncLine wireOk_any hline (.inl trivial) hq
    exact hp.accessPrune.accessMigrate wireOk_any
  | @push es r id frame a hrun hnow hlines =>
    have ha : Fits (fun _ => True) a.state := by
      refine Lww.inv_runM (I := fun a => Fits (fun _ => True) a.state)
        (Q := fun line => ∀ c ∈ line, True) ?_ (fits_any hrun) (fun _ _ _ _ => trivial)
        (Lww.alongM_of_forall (fun _ _ => trivial) _ _) hlines
      exact fun a line b ha hline _ hb => ha.pushLine wireOk_any hnow hline (.inl trivial) hb
    exact ha.accessMigrate wireOk_any

/-! ### The floor -/

/-- Where what it writes is taken, the floor brings full admins back, as many as it says, and a
peer with the same records stores each of its lines and has them too. That the floor ran is a
hypothesis (`hfloor`); that no admin was full before follows from it, so the number of full admins
afterwards is the number that came back. -/
theorem adminFloor_restores {lines : Str} (hstate : FloorState clk s) (hok : FloorOk clk s)
    (hfloor : adminFloorRestore clk s = (t, some lines)) :
    0 < fullAdmins t ∧ adminFloorRestored s = fullAdmins t
      ∧ ∀ p, SamePeople s p → ∃ q, Accepts clk p (frameLines lines) q ∧ SamePeople t q
      ∧ 0 < fullAdmins q := by
  have hfits := hstate.fits
  obtain ⟨hnone, hfold⟩ := adminFloorRestore_some hfloor
  have hsub := floorWindow_sublist s
  have hnodup : (floorWindow s).Nodup := hsub.nodup List.nodup_range
  -- the restore, user by user
  obtain ⟨t', ls, hback⟩ := restore_all (floorWindow s) s hnodup hok.undone hfits
  have hrun := hback.eq []
  rw [hfold, List.nil_append] at hrun
  obtain ⟨rfl, rfl⟩ := Prod.mk.inj hrun
  -- the full admins are the places of the window
  have hcount : fullAdmins t = (floorWindow s).length := by
    unfold fullAdmins
    rw [countP_eq_places]
    refine List.Perm.length_eq
      ((List.perm_ext_iff_of_nodup (List.nodup_range.filter _) hnodup).mpr fun i => ?_)
    rw [List.mem_filter]
    constructor
    · intro ⟨_, hfull⟩
      by_contra hi
      have hstill : fullAt t i = true := hfull
      rw [hback.others i hi, hnone i] at hstill
      cases hstill
    · intro hi
      refine ⟨?_, hback.full i hi⟩
      rw [hback.length]
      exact hsub.subset hi
  have hpos : 0 < fullAdmins t := by
    rw [hcount]
    exact List.length_pos_of_ne_nil hok.window_ne
  refine ⟨hpos, hcount.symm, fun p hp => ?_⟩
  obtain ⟨q, hq, hsame⟩ := hback.peer p hp
  -- the payload reads back as the lines of the restore
  have hlines : frameLines ls.flatten = ls.map List.dropLast := by
    refine frameLines_flatten (fun l hl => (hback.fit l hl).isLine fun h => h.1 rfl) ?_ ?_
    · intro hnul
      obtain ⟨l, hl, hc⟩ := List.mem_flatten.mp hnul
      rcases (hback.fit l hl).chars _ hc with hchar | hend
      · exact hchar.2 rfl
      · cases hend
    -- and is below the limit, at so many lines of that length
    · have hwindow : (floorWindow s).length ≤ maxHubUserRecords := by
        have hlen := hsub.length_le
        rw [List.length_range] at hlen
        exact hlen.trans hfits.users.len
      have hlen := utf8Len_flatten_le fun l hl => (hback.fit l hl).len
      have hls : ls.length ≤ maxHubUserRecords * (maxHubUserMasks + 2) :=
        hback.count.trans (Nat.mul_le_mul_right _ hwindow)
      have hbound : maxHubUserRecords * (maxHubUserMasks + 2) * 341 < maxSyncPayload := by decide
      exact Nat.lt_of_le_of_lt (hlen.trans (Nat.mul_le_mul_right _ hls)) hbound
  refine ⟨q, hlines ▸ hq, hsame, ?_⟩
  -- the peer has the same users and the same flags, so the same full admins
  have hqcount : fullAdmins q = fullAdmins t := by
    unfold fullAdmins
    rw [hsame.users]
    refine List.countP_congr fun u _ => ?_
    unfold fullUser
    rw [userFlags_congr hsame.flags]
  rw [hqcount]
  exact hpos

end Floor

/-! ### A refused write -/

/-- The one admin of these events. -/
def floorAdmin : UserRecord where
  uuid := "0a0a0a0a-0000-4000-8000-000000000001".toList
  name := "alice".toList
  typ := 'a'
  isActive := true
  timestamp := 1699999998

/-- A peer takes the flags of the only admin, stamped as far ahead of the clock as a hub takes. -/
def floorEvent : HubEvent where
  now := ⟨1700000000, inI64_runTime⟩
  op := .peerSync ("a|0a0a0a0a-0000-4000-8000-000000000001|alice||add|0|1699999998|\n".toList
    ++ "uf|0a0a0a0a-0000-4000-8000-000000000001|a|1699999998\n".toList
    ++ "uf|0a0a0a0a-0000-4000-8000-000000000001||1700003600\n".toList)

/-- A second later the write of the floor is taken. -/
def floorClock : Clock where
  now := 1700000001

/-- The only admin is removed by a peer and comes back. The removal is stamped an hour ahead, and
a second later the write of the floor, one past that stamp, is no longer too far ahead. -/
theorem adminFloor_restores_alice :
    ∃ s t lines, runHub [floorEvent] = some s ∧ adminFloorRestore floorClock s = (t, some lines)
      ∧ 0 < fullAdmins t ∧ adminFloorRestored s = fullAdmins t
      ∧ ∃ q, Accepts floorClock s (frameLines lines) q ∧ SamePeople t q ∧ 0 < fullAdmins q := by
  have hrun : ((runHub [floorEvent]).any fun s => decide
      (s.userRecords = [floorAdmin]
      ∧ s.uflagRecords = [{ uuid := floorAdmin.uuid, timestamp := 1700003600 }]
        ∧ floorWindow s = [0] ∧ floorCandidate s floorAdmin = some 1700003600
        ∧ uflagFind s floorAdmin.uuid = some 0
        ∧ (adminFloorRestore floorClock s).2.isSome = true)) = true := by
    decide +kernel
  obtain ⟨s, hs, hall⟩ := (Option.any_eq_true _ _).mp hrun
  obtain ⟨husers, hflags, hwindow, hcand, hfind, hsome⟩ := of_decide_eq_true hall
  obtain ⟨lines, hlines⟩ := Option.isSome_iff_exists.mp hsome
  have hback : Restorable floorClock s 0 floorAdmin := by
    refine ⟨by rw [husers]; rfl, rfl, by decide, ?_, fun _ =>
      ⟨0, { uuid := floorAdmin.uuid, timestamp := 1700003600 },
      hfind, by rw [hflags]; rfl, by decide, by decide, by decide⟩, fun h => by cases h⟩
    intro j v hv _
    rw [husers] at hv
    have hj := (List.getElem?_eq_some_iff.mp hv).1
    exact Nat.lt_one_iff.mp hj
  have hok : FloorOk floorClock s := by
    refine ⟨⟨floorAdmin, by rw [husers]; exact List.mem_cons_self, rfl, 1700003600,
      hcand, by decide⟩, fun i hi => ?_⟩
    rw [hwindow] at hi
    exact ⟨floorAdmin, List.mem_singleton.mp hi ▸ hback⟩
  have hfloor : adminFloorRestore floorClock s
    = ((adminFloorRestore floorClock s).1, some lines) :=
    Prod.ext rfl hlines
  obtain ⟨hpos, hcount, hpeer⟩ := adminFloor_restores (.run hs) hok hfloor
  exact ⟨s, _, lines, hs, hfloor, hpos, hcount, hpeer s ⟨rfl, rfl, rfl⟩⟩

/-- At the time of the event itself the hub refuses the write of its own floor, which says that
one admin is back. -/
theorem adminFloor_refused :
    ∃ s, runHub [floorEvent] = some s ∧ fullAdmins s = 0
      ∧ ∃ t lines, adminFloorRestore floorEvent.clock s = (t, some lines)
        ∧ adminFloorRestored s = 1 ∧ fullAdmins t = 0 ∧ lines = [] := by
  have hrun : ((runHub [floorEvent]).any fun s => decide
      (fullAdmins s = 0 ∧ (adminFloorRestore floorEvent.clock s).2 = some []
        ∧ adminFloorRestored s = 1 ∧ fullAdmins (adminFloorRestore floorEvent.clock s).1 = 0))
          = true := by
    decide +kernel
  obtain ⟨s, hs, hall⟩ := (Option.any_eq_true _ _).mp hrun
  obtain ⟨hnone, hlines, hcount, hstill⟩ := of_decide_eq_true hall
  exact ⟨s, hs, hnone, _, [], Prod.ext rfl hlines, hcount, hstill, rfl⟩

end IrcHub.Proofs
