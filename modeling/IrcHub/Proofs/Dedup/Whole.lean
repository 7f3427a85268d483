import IrcHub.Proofs.Dedup.Masks
import IrcHub.Proofs.Purge.Exact
import Mathlib.Data.Int.ConditionallyCompleteOrder
import Mathlib.Order.ConditionallyCompleteLattice.Basic

/-!
# `IrcHub.Proofs.Dedup.Whole`: what the merge of duplicate users loses

What the merge of duplicate users loses. For every group of live records of one name and type the
merge leaves the best record, and that record has the last-writer-wins winner of the flags and of
the bindings of the group. The masks are another matter. A mask follows one note, so it gets to
the surviving owner only if its owner met that record itself (`Direct`); and of two equal masks
the one used later stays, whatever their stamps. `mergedWhole_iff` says that nothing is lost
exactly when neither shows (`MasksSurvive`).

- `Merged`, `MergedWhole`: what should be left of a group, and of all of them
- `GroupMask`, `DirectMask`, `MaskWinner`: the records of a mask in a group, those that get
  through, and the last writer
- `goesTo_iff`: where a mask goes is decided by its owner's meeting the best record
- `rights_dedupPruned`: the rights of a group after the merge and the pruning

The tables are as the config loader fills them (`LoadedTables`): one record per user uuid, and the
keyed tables of rights. The merge runs only while the config is loading. What follows it in the
loader, the pruning, is part of what is looked at: it drops the rights of the users that are gone.
-/

set_option autoImplicit false

namespace IrcHub.Proofs

open IrcHub.Hub Str

/-! ### The claim and the condition -/

/-- A record of this mask that a record of the group owns. -/
def GroupMask (group : List UserRecord) (mask : Str) (m : MaskRecord) : Prop :=
  (∃ u ∈ group, m.uuid = u.uuid) ∧ eqIc m.mask mask = true

/-- Such a record whose owner met the best record of the group. -/
def DirectMask (group : List UserRecord) (mask : Str) (m : MaskRecord) : Prop :=
  (∃ u, Direct group u ∧ m.uuid = u.uuid) ∧ eqIc m.mask mask = true

/-- The last writer among the records of a mask in a group. -/
def MaskWinner (s : HubState) (group : List UserRecord) (mask : Str) (m : MaskRecord) : Prop :=
  ∀ m' ∈ s.maskRecords, GroupMask group mask m' →
    lwwRank m'.timestamp m'.isActive ≤ lwwRank m.timestamp m.isActive

/-- Of a group one record is left, with every mask of the group once and the winners of the
masks, the flags and the bindings. -/
structure Merged (s t : HubState) (group left : List UserRecord) (w : UserRecord) : Prop where
  mem : w ∈ group
  left_eq : left = [w]
  masks : ∀ mask, (∃ m ∈ s.maskRecords, GroupMask group mask m) →
    ∃ m ∈ s.maskRecords, GroupMask group mask m ∧ MaskWinner s group mask m
      ∧ t.maskRecords.filter (isMask w.uuid mask) = [{ m with uuid := w.uuid }]
  flags : IsGreatest { x | ∃ u ∈ group, flagView s u.uuid = x } (flagView t w.uuid)
  binds : ∀ chan, IsGreatest { x | ∃ u ∈ group, bindingView s (u.uuid, chan) = x }
    (bindingView t (w.uuid, chan))

/-- Every group was merged without a loss. -/
def MergedWhole (s t : HubState) : Prop :=
  ∀ typ name, userGroup s.userRecords typ name ≠ [] →
    ∃ w, Merged s t (userGroup s.userRecords typ name) (userGroup t.userRecords typ name) w

/-- Of every mask of a group, the first of the records used last among those whose owner met the
best record is the last writer of the whole group. -/
def MasksSurvive (s : HubState) : Prop :=
  ∀ typ name mask, (∃ m ∈ s.maskRecords, GroupMask (userGroup s.userRecords typ name) mask m) →
    ∃ m, Lww.FirstMax MaskRecord.lastUsed (DirectMask (userGroup s.userRecords typ name) mask)
      s.maskRecords m
      ∧ MaskWinner s (userGroup s.userRecords typ name) mask m

/-- The tables the config loader hands to the merge. -/
structure LoadedTables (s : HubState) : Prop where
  users : (s.userRecords.map UserRecord.uuid).Nodup
  rights : RightsKeyed s
  roomUsers : s.userRecords.length ≤ maxHubUserRecords
  roomMasks : s.maskRecords.length ≤ maxHubUserMasks

/-- The merge as the loader runs it, with the pruning after it. -/
def dedupPruned (clk : Clock) (s : HubState) : HubState := accessPrune (dedupRecords clk s).1

/-! ### What the merge leaves -/

section Whole

variable {clk : Clock} {s : HubState}

/-- Where a mask goes is decided by its owner's meeting the best record. The note of an owner that
met it names it, and the note of any other names a record that is gone. -/
theorem goesTo_iff (h : LoadedTables s) {typ : Char} {name : Str} {w : UserRecord}
    (hw : Best (userGroup s.userRecords typ name) w) (mask : Str) (m : MaskRecord) :
    goesTo (s.userRecords.foldl dedupUser {}).remap w.uuid mask m
      ↔ DirectMask (userGroup s.userRecords typ name) mask m := by
  have hwalk := walked_dedup h.users h.roomUsers
  generalize s.userRecords.foldl dedupUser {} = acc at hwalk
  have hinj : ∀ {x y : UserRecord}, x ∈ s.userRecords → y ∈ s.userRecords →
    x.uuid = y.uuid → x = y :=
    fun hx hy heq => List.inj_on_of_nodup_map h.users hx hy heq
  obtain ⟨hwmem, hwname⟩ := mem_userGroup.mp hw.1
  rw [goesTo, isMask, Bool.and_eq_true, beq_iff_eq]
  show remapOwner acc.remap m.uuid = w.uuid ∧ eqIc m.mask mask = true ↔ _
  refine and_congr_left fun _ => ⟨fun hto => ?_, ?_⟩
  · -- the owner is one of the group
    have howner : ∃ u ∈ userGroup s.userRecords typ name, m.uuid = u.uuid := by
      by_cases hlive : ∃ u ∈ s.userRecords, u.isActive = true ∧ u.uuid = m.uuid
      · obtain ⟨u, hu, hact, huuid⟩ := hlive
        have hgroup : u ∈ userGroup s.userRecords u.typ u.name :=
          mem_userGroup.mpr ⟨hu, ofName_self hact⟩
        obtain ⟨v, hv, hown⟩ := hwalk.owner u.typ u.name u hgroup
        obtain ⟨hvmem, hvname⟩ := mem_userGroup.mp hv
        have hvw : v = w := hinj hvmem hwmem (by rw [← hown, huuid, hto])
        have hsame : sameUser v u = true := sameUser_of_ofName hvname (mem_userGroup.mp hgroup).2
        refine ⟨u, mem_userGroup.mpr ⟨hu, ?_⟩, huuid.symm⟩
        rw [ofName_congr hsame, hvw]
        exact hwname
      · have hnone : ∀ p ∈ acc.remap, p.1 ≠ m.uuid := by
          intro p hp heq
          obtain ⟨u, hu, hact, huuid⟩ := hwalk.noted p hp
          exact hlive ⟨u, hu, hact, huuid.trans heq⟩
        rw [remapOwner_of_none hnone] at hto
        exact ⟨w, hw.1, hto⟩
    obtain ⟨u, hu, huuid⟩ := howner
    rw [huuid] at hto
    exact ⟨u, (hwalk.direct typ name w hw u hu).mp hto, huuid⟩
  · rintro ⟨u, hdirect, huuid⟩
    have hu : u ∈ userGroup s.userRecords typ name := by
      obtain ⟨before, v, after, heq, -, hor⟩ := hdirect
      rw [heq]
      rcases hor with hbest | rfl | hafter
      · exact List.mem_append_left _ hbest.1
      · exact List.mem_append_right _ List.mem_cons_self
      · exact List.mem_append_right _ (List.mem_cons_of_mem _ hafter)
    rw [huuid]
    exact (hwalk.direct typ name w hw u hu).mpr hdirect

/-- A register of a user that is there is not pruned. -/
private theorem rowView_filter_of_pos {ρ κ R : Type} [DecidableEq κ] {key : ρ → κ} {rank : ρ → R}
    {rows : List ρ} {p : ρ → Bool} {k : κ} (h : ∀ r, key r = k → p r = true) :
    Lww.rowView key rank (rows.filter p) k = Lww.rowView key rank rows k := by
  have hfind : (rows.filter p).find? (fun r => decide (key r = k)) = rows.find? fun r =>
    decide (key r = k) := by
    rw [List.find?_filter]
    congr 1
    funext r
    by_cases hr : key r = k
    · simp [hr, h r hr]
    · simp [hr]
  rw [Lww.rowView, hfind, Lww.rowView]

/-- The rights of a user who is left are not pruned. -/
private theorem flagView_pruned (hkeyed : RightsKeyed s) {u : Str}
    (hu : u ∈ s.userRecords.map (·.uuid)) :
    flagView (accessPrune s) u = flagView s u := by
  rw [accessPrune_eq hkeyed]
  refine rowView_filter_of_pos fun r hr => ?_
  simpa [hr] using hu

/-- Nor are its bindings. -/
private theorem bindingView_pruned (hkeyed : RightsKeyed s) {u : Str}
    (hu : u ∈ s.userRecords.map (·.uuid)) (chan : Str) :
    bindingView (accessPrune s) (u, chan) = bindingView s (u, chan) := by
  rw [accessPrune_eq hkeyed]
  refine rowView_filter_of_pos fun r hr => ?_
  have huuid : r.uuid = u := congrArg Prod.fst hr
  simpa [huuid] using hu

/-- The flags and bindings of a group after the merge are those of all its records joined. `hleft`
says that the record is among those left, so the pruning keeps its rights. -/
private theorem rights_dedupPruned (hload : clk.loading = true) (h : LoadedTables s) {typ : Char}
    {name : Str} {w : UserRecord} (hw : Best (userGroup s.userRecords typ name) w)
    (hleft : w ∈ (s.userRecords.foldl dedupUser {}).users) :
    IsGreatest { x | ∃ u ∈ userGroup s.userRecords typ name, flagView s u.uuid = x }
        (flagView (dedupPruned clk s) w.uuid)
      ∧ ∀ chan, IsGreatest
        { x | ∃ u ∈ userGroup s.userRecords typ name, bindingView s (u.uuid, chan) = x }
        (bindingView (dedupPruned clk s) (w.uuid, chan)) := by
  have hkeyed : RightsKeyed (dedupRecords clk s).1 :=
    (h.rights.followNotes clk (s.userRecords.foldl dedupUser {}).remap).of_eq rfl rfl
  have hmem : w.uuid ∈ (dedupRecords clk s).1.userRecords.map (·.uuid) :=
    List.mem_map_of_mem hleft
  constructor
  · rw [dedupPruned, flagView_pruned hkeyed hmem]
    exact (followed_dedup (followsUuid_flags hload) h.rights h.users h.roomUsers).greatest
      typ name w hw
  · intro chan
    rw [dedupPruned, bindingView_pruned hkeyed hmem]
    exact (followed_dedup (followsUuid_binding hload chan) h.rights h.users h.roomUsers).greatest
      typ name w hw

/-- The merge loses nothing exactly when the masks survive. `hload` and `h` are how the loader
calls it. One direction reads the winners off the masks that are left; the other builds `Merged`
from the three parts. -/
theorem mergedWhole_iff (hload : clk.loading = true) (h : LoadedTables s) :
    MergedWhole s (dedupPruned clk s) ↔ MasksSurvive s := by
  have hwalk := walked_dedup h.users h.roomUsers
  -- the record a group is left with, and the masks it has
  have hkept : ∀ typ name, userGroup s.userRecords typ name ≠ [] →
      ∃ w, Best (userGroup s.userRecords typ name) w
        ∧ userGroup (dedupPruned clk s).userRecords typ name = [w]
        ∧ w ∈ (s.userRecords.foldl dedupUser {}).users := by
    intro typ name hne
    obtain ⟨w, hbest, heq⟩ := hwalk.best typ name hne
    have hmem : w ∈ userGroup (s.userRecords.foldl dedupUser {}).users typ name :=
      heq ▸ List.mem_cons_self
    exact ⟨w, hbest, heq, (mem_userGroup.mp hmem).1⟩
  -- the masks of a mask text that go to a survivor leave one record, the first of the last used
  have hmasks : ∀ w ∈ (s.userRecords.foldl dedupUser {}).users, ∀ mask,
      MasksOf (s.userRecords.foldl dedupUser {}).remap w.uuid mask s.maskRecords
        (dedupPruned clk s).maskRecords :=
    fun w hw mask => dedupMasks_first s.maskRecords h.roomMasks ⟨w, hw, rfl⟩ mask
  have hfirst : ∀ {typ name w mask m}, Best (userGroup s.userRecords typ name) w →
      (Lww.FirstMax MaskRecord.lastUsed
      (goesTo (s.userRecords.foldl dedupUser {}).remap w.uuid mask)
          s.maskRecords m
        ↔ Lww.FirstMax MaskRecord.lastUsed (DirectMask (userGroup s.userRecords typ name) mask)
          s.maskRecords m) := by
    intro typ name w mask m hw
    have heq : goesTo (s.userRecords.foldl dedupUser {}).remap w.uuid mask
        = DirectMask (userGroup s.userRecords typ name) mask :=
      funext fun x => propext (goesTo_iff h hw mask x)
    rw [heq]
  -- the masks that are left are the winners
  constructor
  · rintro hwhole typ name mask ⟨m, hm, ⟨u, hu, huuid⟩, hmask⟩
    have hne : userGroup s.userRecords typ name ≠ [] := List.ne_nil_of_mem hu
    obtain ⟨w, hbest, hleft, hin⟩ := hkept typ name hne
    obtain ⟨v, hv⟩ := hwhole typ name hne
    have hvw : v = w := List.singleton_inj.mp (hv.left_eq.symm.trans hleft)
    subst hvw
    obtain ⟨k, -, -, hwin, hfilter⟩ := hv.masks mask ⟨m, hm, ⟨u, hu, huuid⟩, hmask⟩
    rcases hmasks v hin mask with ⟨hnil, -⟩ | ⟨x, hx, heq⟩
    · rw [hnil] at hfilter
      cases hfilter
    · -- the record that stayed is the winner, up to its owner
      rw [heq] at hfilter
      have hsame := List.singleton_inj.mp hfilter
      have hts : x.timestamp = k.timestamp := (congrArg MaskRecord.timestamp hsame :)
      have hact : x.isActive = k.isActive := (congrArg MaskRecord.isActive hsame :)
      refine ⟨x, (hfirst hbest).mp hx, ?_⟩
      rw [MaskWinner, hts, hact]
      exact hwin
  -- the winners are the masks that are left, and the group merges whole
  · intro hsurvive typ name hne
    obtain ⟨w, hbest, hleft, hin⟩ := hkept typ name hne
    obtain ⟨hflags, hbinds⟩ := rights_dedupPruned hload h hbest hin
    refine ⟨w, hbest.1, hleft, fun mask hex => ?_, hflags, hbinds⟩
    obtain ⟨m, hm, hwin⟩ := hsurvive typ name mask hex
    have hgo := (hfirst hbest).mpr hm
    -- the table keeps a mask if one goes to the survivor
    rcases hmasks w hin mask with ⟨-, hnone⟩ | ⟨x, hx, heq⟩
    · obtain ⟨before, after, hsplit, hown, -⟩ := hgo
      exact absurd hown (hnone m (hsplit ▸ List.mem_append_right _ List.mem_cons_self))
    · have hxm : x = m := hx.unique hgo
      subst hxm
      obtain ⟨before, after, hsplit, hown, -⟩ := hm
      have hxmem : x ∈ s.maskRecords := hsplit ▸ List.mem_append_right _ List.mem_cons_self
      have hto : remapOwner (s.userRecords.foldl dedupUser {}).remap x.uuid = w.uuid := by
        have hgoes : goesTo (s.userRecords.foldl dedupUser {}).remap w.uuid mask x :=
          (goesTo_iff h hbest mask x).mpr hown
        rw [goesTo, isMask, Bool.and_eq_true, beq_iff_eq] at hgoes
        exact hgoes.1
      refine ⟨x, hxmem, ⟨?_, hown.2⟩, hwin, ?_⟩
      · obtain ⟨⟨u, ⟨before, v, after, hg, -, hor⟩, huuid⟩, -⟩ := hown
        refine ⟨u, ?_, huuid⟩
        rw [hg]
        rcases hor with hb | rfl | ha
        · exact List.mem_append_left _ hb.1
        · exact List.mem_append_right _ List.mem_cons_self
        · exact List.mem_append_right _ (List.mem_cons_of_mem _ ha)
      · rw [heq, followed, hto]

end Whole

/-! ### Three hubs that each created the same admin -/

/-- Three live records of one name, each seen later than the one before, and a mask of the
first. -/
def threeAdmins : HubState where
  userRecords :=
    [{ uuid := "11111111-1111-1111-1111-111111111111".toList, name := "bob".toList, typ := 'a',
        isActive := true, lastSeen := 100, timestamp := 10 },
      { uuid := "22222222-2222-2222-2222-222222222222".toList, name := "Bob".toList, typ := 'a',
        isActive := true, lastSeen := 200, timestamp := 10 },
      { uuid := "33333333-3333-3333-3333-333333333333".toList, name := "bob".toList, typ := 'a',
        isActive := true, lastSeen := 300, timestamp := 10 }]
  maskRecords :=
    [{ uuid := "11111111-1111-1111-1111-111111111111".toList, mask := "*!bob@home".toList,
        isActive := true, timestamp := 20 }]

/-- A hub that loads its config. -/
def loadClock : Clock where
  now := 1700000000
  loading := true

/-- The table of the example is one that loads. -/
private theorem threeAdmins_loaded : LoadedTables threeAdmins where
  users := by decide
  rights := ⟨.nil, .nil, fun _ h => (List.not_mem_nil h).elim⟩
  roomUsers := by decide
  roomMasks := by decide

/-- Two live records of one name with the same mask. The first has the newer mask, the second was
seen later and has the newer flags. -/
def admittedTwice : HubState where
  userRecords :=
    [{ uuid := "11111111-1111-1111-1111-111111111111".toList, name := "bob".toList, typ := 'a',
        isActive := true, lastSeen := 100, timestamp := 10 },
      { uuid := "22222222-2222-2222-2222-222222222222".toList, name := "Bob".toList, typ := 'a',
        isActive := true, lastSeen := 200, timestamp := 10 }]
  maskRecords :=
    [{ uuid := "11111111-1111-1111-1111-111111111111".toList, mask := "*!bob@home".toList,
        isActive := true, lastUsed := 7, timestamp := 30 },
      { uuid := "22222222-2222-2222-2222-222222222222".toList, mask := "*!BOB@home".toList,
        isActive := false, lastUsed := 5, timestamp := 20 }]
  uflagRecords :=
    [{ uuid := "11111111-1111-1111-1111-111111111111".toList, flags := "a".toList,
        timestamp := 10 },
      { uuid := "22222222-2222-2222-2222-222222222222".toList, flags := "c".toList,
        timestamp := 20 }]

/-- This table loads as well. -/
private theorem admittedTwice_loaded : LoadedTables admittedTwice where
  users := by decide
  rights := ⟨by decide, .nil, fun _ h => (List.not_mem_nil h).elim⟩
  roomUsers := by decide
  roomMasks := by decide

/-- Its one group is both records, whatever the case of the name. -/
private theorem admittedTwice_group {typ : Char} {name : Str}
    (hne : userGroup admittedTwice.userRecords typ name ≠ []) :
    userGroup admittedTwice.userRecords typ name = admittedTwice.userRecords := by
  have hsame : ∀ u ∈ admittedTwice.userRecords, ∀ w ∈ admittedTwice.userRecords,
      sameUser u w = true := by
    decide
  obtain ⟨u, hu⟩ := List.exists_mem_of_ne_nil _ hne
  obtain ⟨hmem, hname⟩ := mem_userGroup.mp hu
  exact List.filter_eq_self.mpr fun w hw => (ofName_congr (hsame u hmem w hw)).trans hname

/-- The mask used last is the one written last, and its owner met the best record. -/
private theorem admittedTwice_survive : MasksSurvive admittedTwice := by
  rintro typ name mask ⟨m, hm, ⟨u, hu, huuid⟩, hmask⟩
  rw [admittedTwice_group (List.ne_nil_of_mem hu)]
  have hspelt : ∀ x ∈ admittedTwice.maskRecords, eqIc x.mask mask = true := by
    have hone : ∀ x ∈ admittedTwice.maskRecords, ∀ y ∈ admittedTwice.maskRecords,
        lower x.mask = lower y.mask := by decide
    exact fun x hx => eqIc_iff.mpr ((hone x hx m hm).trans (eqIc_iff.mp hmask))
  refine ⟨_, ⟨[], _, rfl,
      ⟨⟨_, ⟨[_], _, [], rfl, ?_, .inl ⟨.head _, ?_⟩⟩, rfl⟩, hspelt _ (.head _)⟩,
      fun x hx => (nomatch hx), fun x hx _ => ?_⟩,
    fun x hx _ => ?_⟩
  · exact ⟨by decide, by decide⟩
  · exact fun v hv hne => absurd (List.mem_singleton.mp hv) hne
  · rw [List.mem_singleton.mp hx]
    decide
  · have hrank : ∀ x ∈ admittedTwice.maskRecords, lwwRank x.timestamp x.isActive
        ≤ lwwRank (30 : Int) true := by decide
    exact hrank x hx

/-- Of three live admins of one name the condition decides. Of the two nothing is lost: the one
seen later is left, with the mask and the flags written last. -/
theorem mergedWhole_admins :
    (MergedWhole threeAdmins (dedupPruned loadClock threeAdmins) ↔ MasksSurvive threeAdmins)
      ∧ MergedWhole admittedTwice (dedupPruned loadClock admittedTwice)
      ∧ (dedupPruned loadClock admittedTwice).userRecords.map (·.name) = ["Bob".toList]
      ∧ (dedupPruned loadClock admittedTwice).maskRecords.map (·.timestamp) = [30] :=
  ⟨mergedWhole_iff rfl threeAdmins_loaded,
    (mergedWhole_iff rfl admittedTwice_loaded).mpr admittedTwice_survive, by decide +kernel,
    by decide +kernel⟩

/-- The mask of the first record goes to the second, which is gone. -/
theorem threeAdmins_lose_mask :
    ¬ MergedWhole threeAdmins (dedupPruned loadClock threeAdmins) := by
  intro h
  obtain ⟨w, hw⟩ := h 'a' "bob".toList (by decide)
  have howned : ∃ m ∈ threeAdmins.maskRecords,
      GroupMask (userGroup threeAdmins.userRecords 'a' "bob".toList) "*!bob@home".toList m := by
    have hfirst : ∃ u ∈ userGroup threeAdmins.userRecords 'a' "bob".toList,
        "11111111-1111-1111-1111-111111111111".toList = u.uuid := by decide
    exact ⟨_, List.mem_cons_self, hfirst, by decide⟩
  obtain ⟨m, -, -, -, hfilter⟩ := hw.masks "*!bob@home".toList howned
  have hgone : (dedupPruned loadClock threeAdmins).maskRecords = [] := by decide +kernel
  rw [hgone] at hfilter
  cases hfilter

end IrcHub.Proofs
