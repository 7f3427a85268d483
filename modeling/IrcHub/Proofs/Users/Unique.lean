import IrcHub.Lib.Apart
import IrcHub.Lib.Lww
import IrcHub.Proofs.Delete.Reach
import IrcHub.Proofs.Users.Tables

/-!
# `IrcHub.Proofs.Users.Unique`: one user to a uuid, a name and a key

No two users have one uuid, no two live users of a type one name and no two live users one key,
and a user has each mask once (`UsersUnique`). The commands of the console look for the name and
the key before they write. A line of a peer is merged into the record of its uuid, and nobody
looks: `UserClear` is what such a line has to meet for the users to stay apart.

* `lineSlot`: where a line is compared, with what is known of the record there
* `usersUnique_syncUserRecord_iff`: over a line the users stay apart exactly when it is clear
* `usersUnique_addUserRecord_iff`: over a `user add` exactly when the uuid it draws is not in use
* `UsersUnique.setUserkey`, `UsersUnique.addUsermask` and the other commands need nothing
* `usersUnique_step_iff`, `usersUnique_run_iff`: one event, and a whole run
* `name_shared`: a run of one line after which two admins have one name

The comparison ignores stamps and activity times (`bareUser`), so a line that changes these alone
keeps the users apart whatever else holds. Deleted users may share names and keys.
-/

set_option autoImplicit false

open Table (Apart apart_iff_pairwise)

namespace IrcHub.Proofs

open IrcHub.Hub Str

variable {clk : Clock} {s t : HubState} {u v inc : UserRecord}

/-! ### Users apart -/

/-- The public key of a record that has one. -/
def userKeyOf (u : UserRecord) : Option Str := if u.hasPubkey then some u.pubkeyB64 else none

/-- Two live users of one type and one name. -/
def SharesName (u v : UserRecord) : Prop :=
  u.isActive = true ∧ v.isActive = true ∧ u.typ = v.typ ∧ eqIc u.name v.name = true

/-- Two live users with one key. -/
def SharesKey (u v : UserRecord) : Prop :=
  u.isActive = true ∧ v.isActive = true ∧ (userKeyOf u).isSome = true ∧ userKeyOf u = userKeyOf v

/-- One mask of one user, up to case. -/
def SameMask (m n : MaskRecord) : Prop := m.uuid = n.uuid ∧ eqIc m.mask n.mask = true

instance (u v : UserRecord) : Decidable (SharesName u v) :=
  inferInstanceAs (Decidable (_ ∧ _ ∧ _ ∧ _))
instance (u v : UserRecord) : Decidable (SharesKey u v) :=
  inferInstanceAs (Decidable (_ ∧ _ ∧ _ ∧ _))
instance (m n : MaskRecord) : Decidable (SameMask m n) := inferInstanceAs (Decidable (_ ∧ _))

/-- The users of a hub can be told apart. -/
structure UsersUnique (s : HubState) : Prop where
  uuids : (s.userRecords.map (·.uuid)).Nodup
  names : s.userRecords.Pairwise fun u v => ¬ SharesName u v
  keys : s.userRecords.Pairwise fun u v => ¬ SharesKey u v
  masks : s.maskRecords.Pairwise fun m n => ¬ SameMask m n

instance (s : HubState) : Decidable (UsersUnique s) :=
  decidable_of_iff ((s.userRecords.map (·.uuid)).Nodup
    ∧ s.userRecords.Pairwise (fun u v => ¬ SharesName u v)
      ∧ s.userRecords.Pairwise (fun u v => ¬ SharesKey u v) ∧ s.maskRecords.Pairwise fun m n =>
        ¬ SameMask m n)
    ⟨fun h => ⟨h.1, h.2.1, h.2.2.1, h.2.2.2⟩, fun h => ⟨h.uuids, h.names, h.keys, h.masks⟩⟩

/-- What two rows of the user table must not share. -/
structure UserApart (u v : UserRecord) : Prop where
  uuid : u.uuid ≠ v.uuid
  name : ¬ SharesName u v
  key : ¬ SharesKey u v

/-- Two users share a name in either order. -/
theorem SharesName.symm (h : SharesName u v) : SharesName v u :=
  ⟨h.2.1, h.1, h.2.2.1.symm, eqIc_symm h.2.2.2⟩

/-- They share a key in either order. -/
theorem SharesKey.symm (h : SharesKey u v) : SharesKey v u :=
  ⟨h.2.1, h.1, h.2.2.2 ▸ h.2.2.1, h.2.2.2.symm⟩

/-- So they are apart in either order. -/
theorem UserApart.symm (h : UserApart u v) : UserApart v u :=
  ⟨h.uuid.symm, fun hn => h.name hn.symm, fun hk => h.key hk.symm⟩

/-- Two masks differ in either order. -/
theorem not_sameMask_symm {m n : MaskRecord} (h : ¬ SameMask m n) : ¬ SameMask n m :=
  fun hs => h ⟨hs.1.symm, eqIc_symm hs.2⟩

/-- The four properties, as one relation between the rows of each table. -/
theorem usersUnique_iff : UsersUnique s ↔ Apart UserApart s.userRecords
    ∧ Apart (fun m n => ¬ SameMask m n) s.maskRecords := by
  rw [apart_iff_pairwise fun _ _ h => h.symm, apart_iff_pairwise fun _ _ h => not_sameMask_symm h]
  constructor
  · rintro ⟨huuids, hnames, hkeys, hmasks⟩
    refine ⟨?_, hmasks⟩
    have huuid : s.userRecords.Pairwise fun u v => u.uuid ≠ v.uuid := List.pairwise_map.mp huuids
    exact (huuid.and (hnames.and hkeys)).imp fun h => ⟨h.1, h.2.1, h.2.2⟩
  · rintro ⟨husers, hmasks⟩
    exact ⟨List.pairwise_map.mpr (husers.imp fun h => h.uuid), husers.imp fun h => h.name,
      husers.imp fun h => h.key, hmasks⟩

/-- Rows taken out leave the others apart. -/
theorem UsersUnique.within (h : UsersUnique s) (hsub : PeopleWithin s t) : UsersUnique t :=
  ⟨h.uuids.sublist (hsub.users.map _), h.names.sublist hsub.users, h.keys.sublist hsub.users,
    h.masks.sublist hsub.masks⟩

/-- The property reads users and masks only. -/
theorem usersUnique_congr (h : userTables t = userTables s) : UsersUnique t ↔ UsersUnique s :=
  ⟨fun ht => ht.within (.of_tables h.symm), fun hs => hs.within (.of_tables h)⟩

/-- A user without what no comparison reads. -/
def bareUser (u : UserRecord) : UserRecord := { u with lastSeen := 0, timestamp := 0 }

/-- A mask without what no comparison reads. -/
def bareMask (m : MaskRecord) : MaskRecord :=
  { m with isActive := false, lastUsed := 0, timestamp := 0 }

/-- Stamps do not tell users apart. -/
theorem apart_bareUser {l : List UserRecord} : Apart UserApart (l.map bareUser)
    ↔ Apart UserApart l := by
  constructor
  · intro h i j a b hij hi hj
    have hab := h i j (bareUser a) (bareUser b) hij (by rw [List.getElem?_map, hi]; rfl)
      (by rw [List.getElem?_map, hj]; rfl)
    exact ⟨hab.uuid, hab.name, hab.key⟩
  · exact fun h => h.map fun a _ b _ hab => ⟨hab.uuid, hab.name, hab.key⟩

/-- Stamps and life do not tell masks apart. -/
theorem apart_bareMask {l : List MaskRecord} :
    Apart (fun m n => ¬ SameMask m n) (l.map bareMask) ↔ Apart (fun m n => ¬ SameMask m n) l := by
  constructor
  · intro h i j a b hij hi hj
    exact h i j (bareMask a) (bareMask b) hij (by rw [List.getElem?_map, hi]; rfl)
      (by rw [List.getElem?_map, hj]; rfl)
  · exact fun h => h.map fun a _ b _ hab => hab

/-- Stamps and activity times keep nobody apart. -/
theorem usersUnique_of_bare (husers : t.userRecords.map bareUser = s.userRecords.map bareUser)
    (hmasks : t.maskRecords.map bareMask = s.maskRecords.map bareMask) : UsersUnique t
    ↔ UsersUnique s := by
  rw [usersUnique_iff, usersUnique_iff, ← apart_bareUser, ← apart_bareMask, husers, hmasks,
    apart_bareUser, apart_bareMask]

/-- Raising a stamp for a restore leaves the property as it was. -/
theorem usersUnique_raise (clk : Clock) (s : HubState) (slot : Slot) (ts : Int) :
    UsersUnique (raise clk s slot ts) ↔ UsersUnique s := by
  have hmodify : ∀ {α : Type} (l : List α) (i : Nat) (f g : α → α), (∀ a, g (f a) = g a) →
      (l.modify i f).map g = l.map g := by
    intro α l i f g hfg
    apply List.ext_getElem?
    intro j
    rw [List.getElem?_map, List.getElem?_map, List.getElem?_modify]
    cases hj : l[j]? with
    | none => rfl
    | some a =>
      by_cases hij : i = j
      · simp [hij, hfg]
      · simp [hij]
  unfold Hub.raise
  split
  · exact Iff.rfl
  cases slot with
  | user i => exact usersUnique_of_bare (hmodify _ _ _ _ fun _ => rfl) rfl
  | mask i => exact usersUnique_of_bare rfl (hmodify _ _ _ _ fun _ => rfl)
  | ban i => exact usersUnique_of_bare rfl rfl

/-! ### A line and the record it is about -/

/-- The record a line is about: the one of its uuid, and for a live line else the live one of its
name. -/
def lineTarget (s : HubState) (inc : UserRecord) : Option UserRecord :=
  match s.userRecords.find? fun u => u.uuid == inc.uuid with
  | some u => some u
  | none =>
    if inc.isActive then
      s.userRecords.find? fun ex => ex.isActive && ex.typ == inc.typ && eqIc ex.name inc.name
    else none

/-- The line is written: it wins against the record it is about, or there is room for a new
one. -/
def lineWritten (clk : Clock) (s : HubState) (inc : UserRecord) : Bool :=
  match lineTarget s inc with
  | some u =>
    (u.uuid == inc.uuid || incomingWins inc u)
      && lwwAccepts clk inc.timestamp inc.isActive u.timestamp u.isActive
  | none =>
    decide (s.userRecords.length < maxHubUserRecords) && !tsAhead clk inc.timestamp
      && (inc.isActive || !purgeFloorBlocks clk s inc.timestamp)
      && lwwAccepts clk inc.timestamp inc.isActive 0 false

/-- The key of the user when the line is written: a line without one leaves the old key. -/
def lineKey (s : HubState) (inc : UserRecord) : Option Str :=
  userKeyOf inc <|> (lineTarget s inc).bind userKeyOf

/-- What a line has to meet. A live one that is written meets no other live user of its name or
with the key it then has, and a user that takes a new uuid finds none of its masks there. -/
structure UserClear (clk : Clock) (s : HubState) (inc : UserRecord) : Prop where
  free : lineWritten clk s inc = true → inc.isActive = true → ∀ v ∈ s.userRecords,
    some v ≠ lineTarget s inc → v.isActive = true →
      ¬ (v.typ = inc.typ ∧ eqIc v.name inc.name = true)
        ∧ ¬ ((userKeyOf v).isSome = true ∧ userKeyOf v = lineKey s inc)
  moved : ∀ ex, lineTarget s inc = some ex → ex.uuid ≠ inc.uuid → incomingWins inc ex = true →
    ∀ m ∈ s.maskRecords, ∀ n ∈ s.maskRecords, m.uuid = ex.uuid → n.uuid = inc.uuid →
      eqIc m.mask n.mask = false

/-- Where a line is compared, by the record it is about. -/
inductive LineSlot (clk : Clock) (s : HubState) (inc : UserRecord) : Prop
  | held (i : Nat) (cur : UserRecord) (hget : s.userRecords[i]? = some cur)
      (huuid : cur.uuid = inc.uuid) (htarget : lineTarget s inc = some cur)
      (hslot : userSlot clk s inc = some (s, i))
  | named (i : Nat) (ex : UserRecord) (hget : s.userRecords[i]? = some ex)
      (hunknown : ∀ u ∈ s.userRecords, u.uuid ≠ inc.uuid) (hact : inc.isActive = true)
      (hex : ex.isActive = true ∧ ex.typ = inc.typ ∧ eqIc ex.name inc.name = true)
      (htarget : lineTarget s inc = some ex)
      (hslot : userSlot clk s inc = if incomingWins inc ex then some (adoptUuid clk s i ex inc, i)
      else none)
  | unknown (hunknown : ∀ u ∈ s.userRecords, u.uuid ≠ inc.uuid)
      (htarget : lineTarget s inc = none) (hslot : userSlot clk s inc = userNew clk s inc)

/-- Where a line is compared, with what is known of the record there. -/
theorem lineSlot (clk : Clock) (s : HubState) (inc : UserRecord) : LineSlot clk s inc := by
  cases hfind : userFind s inc.uuid with
  | some i =>
    obtain ⟨hlt, hp, -⟩ := List.findIdx?_eq_some_iff_getElem.mp hfind
    have hget := List.getElem?_eq_getElem hlt
    have hfound := Table.find?_of_findIdx? hfind hget
    refine .held i _ hget (beq_iff_eq.mp hp) ?_ ?_
    · rw [lineTarget, hfound]
    · rw [userSlot, hfind]
  | none =>
    have hunknown : ∀ u ∈ s.userRecords, u.uuid ≠ inc.uuid :=
      fun u hu => beq_eq_false_iff_ne.mp (List.findIdx?_eq_none_iff.mp hfind u hu)
    have hnone : (s.userRecords.find? fun u => u.uuid == inc.uuid) = none :=
      List.find?_eq_none.mpr fun u hu => by simpa using hunknown u hu
    by_cases hact : inc.isActive = true
    · cases hname : s.userRecords.findIdx? fun ex => ex.isActive && ex.typ == inc.typ
        && eqIc ex.name inc.name with
      | some i =>
        obtain ⟨hlt, hp, -⟩ := List.findIdx?_eq_some_iff_getElem.mp hname
        have hget := List.getElem?_eq_getElem hlt
        simp only [Bool.and_eq_true, beq_iff_eq] at hp
        refine .named i _ hget hunknown hact ⟨hp.1.1, hp.1.2, hp.2⟩ ?_ ?_
        · rw [lineTarget, hnone]
          exact (if_pos hact).trans (Table.find?_of_findIdx? hname hget)
        · rw [userSlot, hfind]
          dsimp only
          rw [if_pos hact, hname]
          dsimp only
          rw [hget]
      | none =>
        refine .unknown hunknown ?_ ?_
        · rw [lineTarget, hnone]
          refine (if_pos hact).trans (List.find?_eq_none.mpr fun u hu => ?_)
          have hu := List.findIdx?_eq_none_iff.mp hname u hu
          rw [hu]
          exact Bool.false_ne_true
        · rw [userSlot, hfind]
          dsimp only
          rw [if_pos hact, hname]
    · refine .unknown hunknown ?_ ?_
      · rw [lineTarget, hnone]
        exact if_neg hact
      · rw [userSlot, hfind]
        exact if_neg hact

/-! ### A line of a user -/

/-- The record a line leaves at its place. -/
theorem userApart_written (inc : UserRecord) (hact : u.isActive = inc.isActive)
    (huuid : u.uuid = inc.uuid) (htyp : u.typ = inc.typ) (hname : u.name = inc.name)
    (hkey : userKeyOf u = lineKey s inc) (hne : v.uuid ≠ inc.uuid) :
    UserApart v u ↔ (inc.isActive = true → v.isActive = true →
      ¬ (v.typ = inc.typ ∧ eqIc v.name inc.name = true)
      ∧ ¬ ((userKeyOf v).isSome = true ∧ userKeyOf v = lineKey s inc)) := by
  constructor
  · intro h hlive hv
    refine ⟨fun hn => h.name ⟨hv, hact.trans hlive, hn.1.trans htyp.symm, hname ▸ hn.2⟩,
      fun hk => ?_⟩
    exact h.key ⟨hv, hact.trans hlive, hk.1, hk.2.trans hkey.symm⟩
  · intro h
    refine ⟨huuid ▸ hne, fun hn => ?_, fun hk => ?_⟩
    · exact (h (hact ▸ hn.2.1) hn.1).1 ⟨hn.2.2.1.trans htyp, hname ▸ hn.2.2.2⟩
    · exact (h (hact ▸ hk.2.1) hk.1).2 ⟨hk.2.2.1, hk.2.2.2.trans hkey⟩

/-- A user that is written over has the key of the line, or keeps its own when the line has none.
-/
theorem userKeyOf_userWrite (inc u : UserRecord) :
    userKeyOf (userWrite inc u) = (userKeyOf inc <|> userKeyOf u) := by
  cases hinc : inc.hasPubkey with
  | true => simp [userKeyOf, userWrite, hinc]
  | false => simp [userKeyOf, userWrite, hinc]

/-- The other rows of the table, by place and by value. -/
theorem forall_other_iff {P : UserRecord → Prop} (h : Apart UserApart s.userRecords) {i : Nat}
    (hget : s.userRecords[i]? = some u) :
    (∀ (j : Nat) (x : UserRecord), j ≠ i → s.userRecords[j]? = some x → P x)
      ↔ ∀ v ∈ s.userRecords, some v ≠ some u → P v := by
  constructor
  · intro hall v hv hne
    obtain ⟨j, hj⟩ := List.getElem?_of_mem hv
    refine hall j v ?_ hj
    rintro rfl
    exact hne (hj.symm.trans hget)
  · intro hall j x hj hx
    refine hall x (List.mem_of_getElem? hx) fun heq => ?_
    cases heq
    exact (h j i u u hj hx hget).uuid rfl

/-- The line is written at the place of the record it is about. The others stay apart from each
other, so only the written record has to be compared with them. -/
theorem apart_set_userWrite (h : Apart UserApart s.userRecords) {i : Nat} (cur : UserRecord)
    (hget : s.userRecords[i]? = some u) (htarget : lineTarget s inc = some u)
    (huuid : cur.uuid = inc.uuid) (hkey : userKeyOf cur = userKeyOf u)
    (hothers : ∀ v ∈ s.userRecords, some v ≠ some u → v.uuid ≠ inc.uuid) :
    Apart UserApart (s.userRecords.set i (userWrite inc cur))
      ↔ (inc.isActive = true → ∀ v ∈ s.userRecords, some v ≠ lineTarget s inc →
        v.isActive = true → ¬ (v.typ = inc.typ ∧ eqIc v.name inc.name = true)
        ∧ ¬ ((userKeyOf v).isSome = true ∧ userKeyOf v = lineKey s inc)) := by
  have hlt := (List.getElem?_eq_some_iff.mp hget).1
  have hwritten : userKeyOf (userWrite inc cur) = lineKey s inc := by
    rw [userKeyOf_userWrite, lineKey, htarget, hkey]
    rfl
  have happ := fun v hv hne => userApart_written (u := userWrite inc cur)
    (v := v) inc rfl huuid rfl rfl hwritten (hothers v hv hne)
  rw [h.set_iff (fun _ _ hab => hab.symm) hlt, forall_other_iff h hget, htarget]
  constructor
  · exact fun hall hlive v hv hne => (happ v hv hne).mp (hall v hv hne) hlive
  · exact fun hall v hv hne => (happ v hv hne).mpr fun hlive => hall hlive v hv hne

/-- The masks of a user that takes another uuid: they stay apart exactly when none of them is
there. -/
theorem apart_masks_moved {ms : List MaskRecord} (h : Apart (fun m n => ¬ SameMask m n) ms)
    {old new : Str} (hne : old ≠ new) :
    Apart (fun m n => ¬ SameMask m n)
      (ms.map fun m => if m.uuid == old then { m with uuid := new } else m)
      ↔ ∀ m ∈ ms, ∀ n ∈ ms, m.uuid = old → n.uuid = new → eqIc m.mask n.mask = false := by
  constructor
  · intro hall m hm n hn hold hnew
    have hnold : n.uuid ≠ old := fun heq => hne (heq.symm.trans hnew)
    obtain ⟨i, hi⟩ := List.getElem?_of_mem hm
    obtain ⟨j, hj⟩ := List.getElem?_of_mem hn
    have hij : i ≠ j := by
      rintro rfl
      rw [hi] at hj
      cases hj
      exact hnold hold
    have hapart := hall i j { m with uuid := new } n hij
      (by rw [List.getElem?_map, hi]; simp [hold]) (by rw [List.getElem?_map, hj]; simp [hnold])
    exact Bool.eq_false_iff.mpr fun heq => hapart ⟨hnew.symm, heq⟩
  · intro hall
    refine h.map fun m hm n hn hmn => ?_
    by_cases hm' : m.uuid = old
    · by_cases hn' : n.uuid = old
      · simp only [hm', hn', beq_self_eq_true, if_true]
        exact fun hs => hmn ⟨hm'.trans hn'.symm, hs.2⟩
      · simp only [hm', beq_self_eq_true, if_true, beq_eq_false_iff_ne.mpr hn',
          Bool.false_eq_true, if_false]
        intro hs
        have hfalse := hall m hm n hn hm' hs.1.symm
        rw [hs.2] at hfalse
        cases hfalse
    · by_cases hn' : n.uuid = old
      · simp only [hn', beq_self_eq_true, if_true, beq_eq_false_iff_ne.mpr hm',
          Bool.false_eq_true, if_false]
        intro hs
        have hfalse := hall n hn m hm hn' hs.1
        rw [eqIc_symm hs.2] at hfalse
        cases hfalse
      · simp only [beq_eq_false_iff_ne.mpr hm', beq_eq_false_iff_ne.mpr hn',
          Bool.false_eq_true, if_false]
        exact hmn

/-- A line that leaves every row where it is meets nothing. -/
theorem userClear_of_idle (hidle : lineWritten clk s inc = false)
    (hstay : ∀ ex, lineTarget s inc = some ex → ex.uuid = inc.uuid
    ∨ incomingWins inc ex = false) :
    UserClear clk s inc := by
  refine ⟨fun hw => ?_, fun ex hex hne hwins => ?_⟩
  · rw [hidle] at hw
    cases hw
  · rcases hstay ex hex with heq | hlose
    · exact absurd heq hne
    · rw [hlose] at hwins
      cases hwins

/-- What the record of a known uuid has to meet. -/
theorem userClear_held (htarget : lineTarget s inc = some u) (huuid : u.uuid = inc.uuid)
    (hwritten : lineWritten clk s inc = true) :
    UserClear clk s inc ↔ (inc.isActive = true → ∀ v ∈ s.userRecords, some v ≠ lineTarget s inc →
      v.isActive = true → ¬ (v.typ = inc.typ ∧ eqIc v.name inc.name = true)
        ∧ ¬ ((userKeyOf v).isSome = true ∧ userKeyOf v = lineKey s inc)) := by
  refine ⟨fun h => h.free hwritten, fun hfree => ⟨fun _ => hfree, fun ex hex hne => ?_⟩⟩
  rw [htarget, Option.some.injEq] at hex
  exact absurd (hex ▸ huuid) hne

/-- A user takes another uuid; the others stay. -/
theorem adoptUuid_users {i : Nat} {ex : UserRecord} (hget : s.userRecords[i]? = some ex) :
    (adoptUuid clk s i ex inc).userRecords = s.userRecords.set i
    { ex with uuid := inc.uuid } := by
  simp [adoptUuid, List.modify_eq_set_getElem?, hget]

/-- Its masks go with it. -/
theorem adoptUuid_masks (clk : Clock) (s : HubState) (i : Nat) (ex inc : UserRecord) :
    (adoptUuid clk s i ex inc).maskRecords
      = s.maskRecords.map fun m => if m.uuid == ex.uuid then { m with uuid := inc.uuid }
        else m := by
  simp [adoptUuid]

/-- The users stay apart over a line exactly when it is clear. The cases are where the line is
compared, and for each whether it is written. -/
theorem usersUnique_syncUserRecord_iff (clk : Clock) (h : UsersUnique s) {key : Char}
    {vstart : Str} (hparse : parseUserRecord vstart key = some inc) (cnt : SyncCounters) :
    UsersUnique (syncUserRecord clk s key vstart cnt).1 ↔ UserClear clk s inc := by
  obtain ⟨husers, hmasks⟩ := usersUnique_iff.mp h
  -- a line that writes nothing is clear, and leaves the tables apart
  have hidle : ∀ {t : HubState}, UsersUnique t → lineWritten clk s inc = false →
      (∀ ex, lineTarget s inc = some ex → ex.uuid = inc.uuid ∨ incomingWins inc ex = false) →
      (UsersUnique t ↔ UserClear clk s inc) :=
    fun ht hw hstay => ⟨fun _ => userClear_of_idle hw hstay, fun _ => ht⟩
  unfold syncUserRecord
  rw [hparse]
  dsimp only
  cases lineSlot clk s inc with
  -- the uuid is known: the line is written into its record, if it is newer
  | held i cur hget huuid htarget hslot =>
    rw [hslot]
    dsimp only
    rw [hget]
    dsimp only
    have hwritten : lineWritten clk s inc
        = lwwAccepts clk inc.timestamp inc.isActive cur.timestamp cur.isActive := by
      rw [lineWritten, htarget]
      simp [huuid]
    cases hacc : lwwAccepts clk inc.timestamp inc.isActive cur.timestamp cur.isActive with
    | false =>
      rw [Bool.not_false, if_pos rfl]
      -- older: only the counter of the clock may move
      dsimp only
      refine hidle ((usersUnique_raise clk s _ _).mpr h) (hwritten.trans hacc) fun ex hex =>
        .inl ?_
      rw [htarget, Option.some.injEq] at hex
      exact hex ▸ huuid
    | true =>
      -- newer: the other users stay as they are, none of them of that uuid
      have hothers : ∀ v ∈ s.userRecords, some v ≠ some cur → v.uuid ≠ inc.uuid := fun v hv hne =>
        huuid ▸ (husers.of_mem hv (List.mem_of_getElem? hget) fun heq => hne (heq ▸ rfl)).uuid
      have hset := apart_set_userWrite husers _ hget htarget huuid rfl hothers
      rw [userClear_held htarget huuid (hwritten.trans hacc), ← hset, usersUnique_iff]
      exact and_iff_left hmasks
  -- the uuid is new, but the name is in the table: the greater uuid takes the record over
  | named i ex hget hunknown hact hex htarget hslot =>
    have hne : ex.uuid ≠ inc.uuid := hunknown ex (List.mem_of_getElem? hget)
    rw [hslot]
    cases hwins : incomingWins inc ex with
    | false =>
      -- the record in the table has the greater uuid, and the line is dropped
      refine hidle h ?_ fun ex' hex' => .inr ?_
      · rw [lineWritten, htarget]
        simp [hne, hwins]
      · rw [htarget, Option.some.injEq] at hex'
        exact hex' ▸ hwins
    | true =>
      -- the line takes the record over, and the masks of the old uuid move
      have hlt := (List.getElem?_eq_some_iff.mp hget).1
      have hget' : (adoptUuid clk s i ex inc).userRecords[i]? = some
        { ex with uuid := inc.uuid } := by
        rw [adoptUuid_users hget, List.getElem?_set_self hlt]
      have hmoved := apart_masks_moved hmasks hne
      rw [if_pos rfl]
      dsimp only
      rw [hget']
      dsimp only
      have hwritten : lineWritten clk s inc
          = lwwAccepts clk inc.timestamp inc.isActive ex.timestamp ex.isActive := by
        rw [lineWritten, htarget]
        simp [hwins]
      have hmove : (∀ ex', lineTarget s inc = some ex' → ex'.uuid ≠ inc.uuid →
        incomingWins inc ex' = true →
          ∀ m ∈ s.maskRecords, ∀ n ∈ s.maskRecords, m.uuid = ex'.uuid → n.uuid = inc.uuid →
            eqIc m.mask n.mask = false)
          ↔ ∀ m ∈ s.maskRecords, ∀ n ∈ s.maskRecords, m.uuid = ex.uuid → n.uuid = inc.uuid →
            eqIc m.mask n.mask = false := by
        constructor
        · exact fun hall => hall ex htarget hne hwins
        · intro hall ex' hex' _ _
          rw [htarget, Option.some.injEq] at hex'
          exact hex' ▸ hall
      cases hacc : lwwAccepts clk inc.timestamp inc.isActive ex.timestamp ex.isActive with
      | false =>
        -- only the uuid changes
        have hrenamed : Apart UserApart (s.userRecords.set i { ex with uuid := inc.uuid }) := by
          refine (husers.set_iff (fun _ _ hab => hab.symm) hlt).mpr fun j x hj hx => ?_
          have hxe := husers j i x ex hj hx hget
          exact ⟨hunknown x (List.mem_of_getElem? hx), hxe.name, hxe.key⟩
        rw [Bool.not_false, if_pos rfl]
        dsimp only
        refine (usersUnique_raise clk _ _ _).trans ?_
        rw [usersUnique_iff, adoptUuid_users hget, adoptUuid_masks, and_iff_right hrenamed,
          hmoved, ← hmove]
        refine ⟨fun hall => ⟨fun hw => ?_, hall⟩, fun hclear => hclear.moved⟩
        rw [hwritten, hacc] at hw
        cases hw
      | true =>
        have hset := apart_set_userWrite husers { ex with uuid := inc.uuid } hget htarget rfl rfl
          fun v hv _ => hunknown v hv
        show UsersUnique { adoptUuid clk s i ex inc with userRecords := _ } ↔ _
        rw [usersUnique_iff, adoptUuid_users hget, List.set_set, adoptUuid_masks, hmoved,
          hset, ← hmove]
        exact ⟨fun hall => ⟨fun _ => hall.1, hall.2⟩, fun hclear =>
          ⟨hclear.free (hwritten.trans hacc), hclear.moved⟩⟩
  -- neither the uuid nor the name is known: a new record, if there is room
  | unknown hunknown htarget hslot =>
    have hstay : ∀ ex, lineTarget s inc = some ex → ex.uuid = inc.uuid
      ∨ incomingWins inc ex = false := by
      intro ex hex
      rw [htarget] at hex
      cases hex
    have hwritten : lineWritten clk s inc = ((decide (s.userRecords.length < maxHubUserRecords)
        && !tsAhead clk inc.timestamp && (inc.isActive || !purgeFloorBlocks clk s inc.timestamp))
        && lwwAccepts clk inc.timestamp inc.isActive 0 false) := by
      rw [lineWritten, htarget]
    rw [hslot, userNew]
    cases hroom : decide (s.userRecords.length < maxHubUserRecords) && !tsAhead clk inc.timestamp
        && (inc.isActive || !purgeFloorBlocks clk s inc.timestamp) with
    | false =>
      -- no room, or a stamp ahead: nothing is written
      rw [hroom, Bool.false_and] at hwritten
      exact hidle h hwritten hstay
    | true =>
      rw [hroom, Bool.true_and] at hwritten
      rw [if_pos rfl]
      dsimp only
      rw [List.getElem?_concat_length]
      dsimp only
      cases hacc : lwwAccepts clk inc.timestamp inc.isActive 0 false with
      | false =>
        -- a blank record is made all the same, and it clashes with none
        have hblank : Apart UserApart (s.userRecords ++ [({ uuid := inc.uuid } : UserRecord)]) :=
          (husers.append_iff fun _ _ hab => hab.symm).mpr fun x hx =>
            ⟨hunknown x hx, fun hn => (nomatch hn.2.1), fun hk => (nomatch hk.2.1)⟩
        rw [Bool.not_false, if_pos rfl]
        dsimp only
        refine hidle ((usersUnique_raise clk _ _ _).mpr ?_) (hwritten.trans hacc) hstay
        exact usersUnique_iff.mpr ⟨hblank, hmasks⟩
      | true =>
        -- the record is appended, and the line is clear if nobody clashes with it
        have hkey : userKeyOf (userWrite inc { uuid := inc.uuid }) = lineKey s inc := by
          rw [userKeyOf_userWrite, lineKey, htarget]
          rfl
        have happ := fun v hv => userApart_written (u := userWrite inc { uuid := inc.uuid })
          (v := v) inc rfl rfl rfl rfl hkey (hunknown v hv)
        show UsersUnique { s with userRecords := _ } ↔ _
        rw [usersUnique_iff]
        rw [List.set_append_right _ _ (Nat.le_refl _), Nat.sub_self, List.set_cons_zero,
          husers.append_iff fun _ _ hab => hab.symm]
        constructor
        · rintro ⟨hall, -⟩
          refine ⟨fun _ hlive v hv _ => (happ v hv).mp (hall v hv) hlive, fun ex hex => ?_⟩
          rw [htarget] at hex
          cases hex
        · intro hclear
          refine ⟨fun v hv => (happ v hv).mpr fun hlive => ?_, hmasks⟩
          exact hclear.free (hwritten.trans hacc) hlive v hv
            (by rw [htarget]; exact Option.some_ne_none v)

/-! ### Other lines of a peer -/

/-- A mask rewritten in place stays the mask it is. -/
theorem UsersUnique.setMask (h : UsersUnique s) {i : Nat} {m n : MaskRecord}
    (hget : s.maskRecords[i]? = some m) (hsame : bareMask n = bareMask m) :
    UsersUnique { s with maskRecords := s.maskRecords.set i n } := by
  refine (usersUnique_of_bare (s := s) (t := { s with maskRecords := s.maskRecords.set i n })
    rfl ?_).mpr h
  show (s.maskRecords.set i n).map bareMask = s.maskRecords.map bareMask
  rw [List.map_set, hsame]
  exact Table.set_of_getElem? (by rw [List.getElem?_map, hget]; rfl)

/-- A mask the user does not have yet. -/
theorem UsersUnique.addMask (h : UsersUnique s) {m : MaskRecord}
    (hnew : ∀ n ∈ s.maskRecords, n.uuid = m.uuid → eqIc n.mask m.mask = false) :
    UsersUnique { s with maskRecords := s.maskRecords ++ [m] } := by
  obtain ⟨husers, hmasks⟩ := usersUnique_iff.mp h
  refine usersUnique_iff.mpr ⟨husers, ?_⟩
  refine (hmasks.append_iff fun _ _ => not_sameMask_symm).mpr fun n hn hs => ?_
  have hfalse := hnew n hn hs.1
  rw [hs.2] at hfalse
  cases hfalse

/-- A mask that is not found is not among those of the user, in any case. -/
theorem maskFind_none {uuid mask : Str} (h : maskFind s uuid mask = none) :
    ∀ n ∈ s.maskRecords, n.uuid = uuid → eqIc n.mask mask = false := by
  intro n hn huuid
  have hno := List.findIdx?_eq_none_iff.mp h n hn
  rw [huuid, beq_self_eq_true, Bool.true_and] at hno
  exact hno

/-- The place a mask line is compared at is one of a table with masks apart. -/
theorem UsersUnique.maskAt {inc : MaskRecord} {i : Nat} (h : UsersUnique s)
    (hat : MaskAt clk s inc t i) :
    UsersUnique t := by
  cases hat with
  | held i hfind => exact h
  | new hfind hroom hahead hfloor =>
    exact h.addMask fun n hn huuid => maskFind_none hfind n hn huuid

/-- A line of a mask. -/
theorem UsersUnique.syncMaskRecord (h : UsersUnique s) (clk : Clock) (vstart line : Str)
    (cnt : SyncCounters) :
    UsersUnique (syncMaskRecord clk s vstart line cnt).1 := by
  have hres := maskSync clk s vstart line cnt
  generalize (Hub.syncMaskRecord clk s vstart line cnt).1 = t at hres ⊢
  cases hres with
  | dropped _ => exact h
  | refused inc t i cur hparse huser hslot hget hacc =>
    exact (usersUnique_raise clk t _ _).mpr (h.maskAt (maskAt_of_maskSlot hslot))
  | stored inc t i cur hparse huser hslot hget hacc =>
      exact (h.maskAt (maskAt_of_maskSlot hslot)).setMask hget rfl

/-- The record a line of a user offers. -/
def userLine (line : Str) : Option UserRecord :=
  (globalLine line).bind fun p =>
    if hasUuidDashes (firstValue p.2) && (p.1 = .a || p.1 = .o)
      then parseUserRecord p.2 p.1.tag else none

/-- A line of a record starts with the tag of its kind and a bar. -/
theorem globalLine_some {line v : Str} {k : GlobalKey} (h : globalLine line = some (k, v)) :
    line = k.tag :: '|' :: v := by
  unfold globalLine at h
  split at h
  · cases h
  rename_i t w hsplit
  obtain ⟨key, hkey, heq⟩ := Option.map_eq_some_iff.mp h
  cases heq
  have htag := List.find?_some hkey
  have hsome := (splitOnce_eq_some_iff.mp hsplit).1
  rw [hsome, ← beq_iff_eq.mp htag]
  rfl

/-- A line of a user is merged as one. -/
theorem syncLine_user {line : Str} (h : userLine line = some inc) (clk : Clock)
    (p : HubState × SyncCounters) :
    ∃ key vstart, parseUserRecord vstart key = some inc
      ∧ syncLine clk p line = some (syncUserRecord clk p.1 key vstart p.2) := by
  obtain ⟨⟨k, v⟩, hline, hparse⟩ := Option.bind_eq_some_iff.mp h
  dsimp only at hparse
  split at hparse
  · rename_i huser
    simp only [Bool.and_eq_true, Bool.or_eq_true, decide_eq_true_eq] at huser
    refine ⟨k.tag, v, hparse, ?_⟩
    have htagged : syncTagged clk p.1 line p.2 = none := by
      rw [globalLine_some hline]
      rcases huser.2 with rfl | rfl
      · rfl
      · rfl
    have hbot : afterTag "b|".toList line = none := by
      rw [globalLine_some hline]
      rcases huser.2 with rfl | rfl
      · rfl
      · rfl
    unfold syncLine
    rw [htagged, hbot, hline]
    dsimp only
    unfold syncGlobal
    simp only [huser.1, huser.2, Bool.true_and, Bool.or_eq_true, decide_eq_true_eq, if_true]
  · cases hparse

/-- A line that offers no user keeps the users apart. -/
theorem UsersUnique.syncLine (h : UsersUnique s) {line : Str} (hline : userLine line = none)
    {cnt : SyncCounters} {q : HubState × SyncCounters}
    (hq : syncLine clk (s, cnt) line = some q) :
    UsersUnique q.1 := by
  unfold Hub.syncLine at hq
  split at hq
  · rename_i q' htagged
    cases hq
    exact h.within (peopleWithin_syncTagged htagged)
  split at hq
  · exact (usersUnique_congr (userTables_syncBotEntry hq)).mpr h
  split at hq
  · rename_i key vstart hglobal
    cases hq
    unfold Hub.syncGlobal
    dsimp only
    split
    · rename_i huser
      -- the record does not parse
      have hnone : parseUserRecord vstart key.tag = none := by
        rw [userLine, hglobal] at hline
        exact (if_pos huser).symm.trans hline
      unfold syncUserRecord
      rw [hnone]
      exact h
    split
    · exact h.syncMaskRecord _ _ _ _
    split
    · exact h
    split
    · exact h
    split
    · exact h
    have hraw := fun k v ts =>
      (usersUnique_congr (userTables_storeGlobalEntryRaw clk s k v ts)).mpr h
    split
    · exact hraw _ _ _
    · exact hraw _ _ _
  · exact (usersUnique_congr (userTables_syncBotEntry hq)).mpr h

/-! ### Commands of the console -/

/-- The uuid the hub draws for a new user is not in use: neither as a user, nor with the mask it
gets. -/
def AddClear (s : HubState) (typ : Char) (payload uuid : Str) : Prop :=
  ∀ a flags chans, userAddFields payload = some a →
    userAddAccess s typ a.access = some (flags, chans) → userAddOk s typ a chans = true →
    (∀ u ∈ s.userRecords, u.uuid ≠ uuid)
      ∧ ∀ m ∈ s.maskRecords, m.uuid = uuid → eqIc m.mask a.mask = false

/-- `user add` keeps users apart exactly when the uuid it draws is not in use. Name and key it
checks itself. -/
theorem usersUnique_addUserRecord_iff (h : UsersUnique s) (clk : Clock) (payload : Str)
    (typ : Char) (uuid : Str) : UsersUnique (addUserRecord clk s payload typ uuid)
    ↔ AddClear s typ payload uuid := by
  obtain ⟨husers, hmasks⟩ := usersUnique_iff.mp h
  unfold addUserRecord
  -- a line that does not parse adds nothing
  cases hfields : userAddFields payload with
  | none =>
    refine ⟨fun _ a flags chans ha => ?_, fun _ => h⟩
    rw [hfields] at ha
    cases ha
  | some a =>
    dsimp only
    -- an access that is not granted adds nothing
    cases haccess : userAddAccess s typ a.access with
    | none =>
      refine ⟨fun _ b flags chans hb hc => ?_, fun _ => h⟩
      rw [hfields] at hb
      cases hb
      rw [haccess] at hc
      cases hc
    | some p =>
      obtain ⟨flags, chans⟩ := p
      dsimp only
      -- a command that is refused adds nothing
      cases hok : userAddOk s typ a chans with
      | false =>
        rw [Bool.not_false, if_pos rfl]
        refine ⟨fun _ b fl cs hb hc ho => ?_, fun _ => h⟩
        rw [hfields] at hb
        cases hb
        rw [haccess] at hc
        cases hc
        rw [hok] at ho
        cases ho
      | true =>
        rw [Bool.not_true, if_neg Bool.false_ne_true]
        -- the command looked for the name and the key
        have hfree : ∀ o ∈ s.userRecords, o.isActive = true →
            eqIc o.name a.name = false ∧ userKeyOf o ≠ some a.pubKey := by
          intro o ho hact
          simp only [userAddOk, Bool.and_eq_true, Bool.not_eq_true'] at hok
          have hno := List.any_eq_false.mp hok.1.1.1.2 o ho
          simp only [hact, Bool.true_and, Bool.or_eq_true, Bool.and_eq_true, beq_iff_eq, not_or,
            not_and] at hno
          refine ⟨Bool.eq_false_iff.mpr hno.1, fun hkey => ?_⟩
          unfold userKeyOf at hkey
          split at hkey
          · rename_i hhas
            exact hno.2 hhas (Option.some.inj hkey)
          · cases hkey
        rw [usersUnique_congr
          ((userTables_broadcast _ _).trans (userTables_userAddRights _ _ _ _ _ _)),
          usersUnique_iff]
        dsimp only
        -- one user and one mask are added
        rw [husers.append_iff fun _ _ hab => hab.symm, hmasks.append_iff fun _ _ =>
          not_sameMask_symm]
        constructor
        · rintro ⟨hu, hm⟩ b fl cs hb - -
          rw [hfields] at hb
          cases hb
          refine ⟨fun u hmem => (hu u hmem).uuid, fun m hmem huuid => ?_⟩
          exact Bool.eq_false_iff.mpr fun heq => hm m hmem ⟨huuid, heq⟩
        -- names and keys are free, since the command looked; the uuid and the mask are free by
        -- the condition
        · intro hclear
          obtain ⟨hu, hm⟩ := hclear a flags chans hfields haccess hok
          refine ⟨fun o ho => ⟨hu o ho, fun hn => ?_, fun hk => ?_⟩, fun m hmem hs => ?_⟩
          · have hname := (hfree o ho hn.1).1
            rw [hn.2.2.2] at hname
            cases hname
          · exact (hfree o ho hk.1).2 hk.2.2.2
          · have hmask := hm m hmem hs.1
            rw [hs.2] at hmask
            cases hmask

/-- A user is rewritten in place, and comes no closer to the others. -/
theorem UsersUnique.setUser (h : UsersUnique s) {i : Nat} (hget : s.userRecords[i]? = some u)
    (hapart : ∀ (j : Nat) (x : UserRecord), j ≠ i → s.userRecords[j]? = some x → UserApart x u →
    UserApart x v) :
    UsersUnique { s with userRecords := s.userRecords.set i v } := by
  obtain ⟨husers, hmasks⟩ := usersUnique_iff.mp h
  refine usersUnique_iff.mpr ⟨?_, hmasks⟩
  exact (husers.set_iff (fun _ _ hab => hab.symm) (List.getElem?_eq_some_iff.mp hget).1).mpr
    fun j x hj hx => hapart j x hj hx (husers j i x u hj hx hget)

/-- The masks that go with a user stay in their places. -/
theorem UsersUnique.dropMasks (h : UsersUnique s) (clk : Clock) (uuid : Str) :
    UsersUnique { s with maskRecords := s.maskRecords.map (dropMask clk uuid) } := by
  have hsame : ∀ m : MaskRecord, bareMask (dropMask clk uuid m) = bareMask m := by
    intro m
    unfold dropMask
    split
    · rfl
    · rfl
  refine (usersUnique_of_bare (s := s)
    (t := { s with maskRecords := s.maskRecords.map (dropMask clk uuid) }) rfl ?_).mpr h
  show (s.maskRecords.map (dropMask clk uuid)).map bareMask = s.maskRecords.map bareMask
  rw [List.map_map]
  exact List.map_congr_left fun m _ => hsame m

/-- `user del` changes life and stamps. -/
theorem UsersUnique.delUserRecord (h : UsersUnique s) (clk : Clock) (payload : Str) :
    UsersUnique (delUserRecord clk s payload) := by
  unfold Hub.delUserRecord
  split
  · exact h
  rename_i ui u hfind
  split
  · exact h
  obtain ⟨i, -, hi⟩ := Option.bind_eq_some_iff.mp hfind
  obtain ⟨w, hget, heq⟩ := Option.map_eq_some_iff.mp hi
  cases heq
  have hdel := h.setUser
    (v := { u with isActive := false, timestamp := lwwNextTs clk u.timestamp }) hget
    fun j x _ _ hx => ⟨hx.uuid, fun hn => (nomatch hn.2.1), fun hk => (nomatch hk.2.1)⟩
  exact (usersUnique_congr (userTables_broadcast _ _)).mpr (hdel.dropMasks clk u.uuid)

/-- A mask written over by one of its text and user. -/
theorem UsersUnique.maskWrite (h : UsersUnique s) {i : Nat} {m n : MaskRecord}
    (hget : s.maskRecords[i]? = some m) (hsame : bareMask n = bareMask m) :
    UsersUnique (maskWrite s i n) :=
  (usersUnique_congr (userTables_broadcast _ _)).mpr (h.setMask hget hsame)

/-- `user mask add` writes over the mask that is there, or adds one that is not. -/
theorem UsersUnique.addUsermask (h : UsersUnique s) (clk : Clock) (payload : Str) :
    UsersUnique (addUsermask clk s payload) := by
  unfold Hub.addUsermask
  split
  · exact h
  rename_i name mask _
  split
  · exact h
  split
  · exact h
  rename_i u _
  dsimp only
  split
  · exact h
  split
  · rename_i m mi hlast
    have hmem := List.mem_of_getLast? hlast
    have hget := List.mem_zipIdx_iff_getElem?.mp (List.mem_filter.mp hmem).1
    exact h.maskWrite hget rfl
  · rename_i hlast
    split
    · exact h
    refine (usersUnique_congr (userTables_broadcast _ _)).mpr (h.addMask fun n hn huuid => ?_)
    have hnone := List.getLast?_eq_none_iff.mp hlast
    obtain ⟨j, hj⟩ := List.getElem?_of_mem hn
    have hno := List.filter_eq_nil_iff.mp hnone (n, j) (List.mem_zipIdx_iff_getElem?.mpr hj)
    simp only [huuid, beq_self_eq_true, Bool.true_and] at hno
    exact Bool.eq_false_iff.mpr hno

/-- `user mask del` changes life and stamp. -/
theorem UsersUnique.delUsermask (h : UsersUnique s) (clk : Clock) (payload : Str) :
    UsersUnique (delUsermask clk s payload) := by
  unfold Hub.delUsermask
  split
  · exact h
  split
  · exact h
  split
  · exact h
  split
  · exact h
  rename_i m hget
  exact h.maskWrite hget rfl

/-- `user key` refuses a key that somebody has. -/
theorem UsersUnique.setUserkey (h : UsersUnique s) (clk : Clock) (payload : Str) :
    UsersUnique (setUserkey clk s payload) := by
  unfold Hub.setUserkey
  split
  · exact h
  rename_i name pubKey _
  split
  · exact h
  split
  · exact h
  rename_i ti u hfind
  split
  · exact h
  rename_i hfree
  obtain ⟨i, -, hi⟩ := Option.bind_eq_some_iff.mp hfind
  obtain ⟨w, hget, heq⟩ := Option.map_eq_some_iff.mp hi
  cases heq
  refine (usersUnique_congr (userTables_broadcast _ _)).mpr
    (h.setUser hget fun j x hj hx hxu => ?_)
  refine ⟨hxu.uuid, fun hn => hxu.name hn, fun hk => hfree ?_⟩
  -- another live user has the key
  have hkey : userKeyOf x = some pubKey := hk.2.2.2
  refine List.any_eq_true.mpr ⟨(x, j), List.mem_zipIdx_iff_getElem?.mpr hx, ?_⟩
  unfold userKeyOf at hkey
  split at hkey
  · rename_i hhas
    simp [hj, hk.1, hhas, Option.some.inj hkey]
  · cases hkey

/-! ### Runs -/

/-- What changes the user tables: a line of a peer, or a command of an admin. -/
inductive UserEvent
  /-- A line, with what the lines before it were counted as. -/
  | line (text : Str) (cnt : SyncCounters)
  /-- `user add`, with the random bytes of the new uuid. -/
  | add (admin : Bool) (payload : Str) (random : Fin 16 → UInt8)
  | del (payload : Str)
  | maskAdd (payload : Str)
  | maskDel (payload : Str)
  | setKey (payload : Str)
  | access (payload : Str)

/-- One event, `none` when the hub crashes. -/
def UserEvent.run (clk : Clock) (s : HubState) : UserEvent → Option HubState
  | .line text cnt => (syncLine clk (s, cnt) text).map (·.1)
  | .add admin payload random => (HubOp.userAdd admin payload random).run clk s
  | .del payload => (HubOp.userDel payload).run clk s
  | .maskAdd payload => (HubOp.maskAdd payload).run clk s
  | .maskDel payload => (HubOp.maskDel payload).run clk s
  | .setKey payload => (HubOp.userKey payload).run clk s
  | .access payload => (HubOp.userAccess payload).run clk s

/-- What an event has to meet. A command needs nothing, but for the luck of a `user add`. -/
def EventClear (clk : Clock) (s : HubState) : UserEvent → Prop
  | .line text _ => ∀ inc, userLine text = some inc → UserClear clk s inc
  | .add admin payload random =>
    AddClear s (if admin then 'a' else 'o') (untilNul payload) (genUuidV4 random)
  | _ => True

/-- A step of a hub that may have crashed. -/
def userStep (s : Option HubState) (e : Clock × UserEvent) : Option HubState :=
  s.bind (e.2.run e.1)

/-- The condition of a step: a crashed hub has none. -/
def StepClear (s : Option HubState) (e : Clock × UserEvent) : Prop :=
  ∀ t ∈ s, EventClear e.1 t e.2

/-- One event keeps the users apart exactly when it is clear. -/
theorem usersUnique_step_iff (h : UsersUnique s) (clk : Clock) (e : UserEvent) :
    (∀ t ∈ e.run clk s, UsersUnique t) ↔ EventClear clk s e := by
  have halways : ∀ {t : HubState}, UsersUnique t → ((∀ u ∈ some t, UsersUnique u) ↔ True) :=
    fun ht => iff_true_intro fun u hu => Option.mem_some_iff.mp hu ▸ ht
  cases e with
  | line line cnt =>
    cases huser : userLine line with
    | some inc =>
      obtain ⟨key, vstart, hparse, hstep⟩ := syncLine_user huser clk (s, cnt)
      have hrun : UserEvent.run clk s (.line line cnt) = some
        (syncUserRecord clk s key vstart cnt).1 := by
        rw [UserEvent.run, hstep]
        rfl
      have hiff := usersUnique_syncUserRecord_iff clk h hparse cnt
      rw [hrun]
      constructor
      · intro hall inc' hinc'
        rw [huser] at hinc'
        cases hinc'
        exact hiff.mp (hall _ rfl)
      · intro hclear t ht
        cases ht
        exact hiff.mpr (hclear inc huser)
    | none =>
      constructor
      · intro _ inc hinc
        rw [huser] at hinc
        cases hinc
      · intro _ t ht
        obtain ⟨q, hq, rfl⟩ := Option.map_eq_some_iff.mp ht
        exact h.syncLine huser hq
  | add admin payload random =>
    have hiff := usersUnique_addUserRecord_iff h clk (untilNul payload)
      (if admin then 'a' else 'o') (genUuidV4 random)
    constructor
    · exact fun hall => hiff.mp (hall _ rfl)
    · intro hclear t ht
      cases ht
      exact hiff.mpr hclear
  | del payload => exact halways (h.delUserRecord clk _)
  | maskAdd payload => exact halways (h.addUsermask clk _)
  | maskDel payload => exact halways (h.delUsermask clk _)
  | setKey payload => exact halways (h.setUserkey clk _)
  | access payload => exact halways ((usersUnique_congr (userTables_userAccess clk s _)).mpr h)

/-- Along a run from a table of users that can be told apart, they can be told apart in every
state reached exactly when every step is clear. -/
theorem usersUnique_run_iff (h : UsersUnique s) (es : List (Clock × UserEvent)) :
    (∀ n, ∀ t ∈ (es.take n).foldl userStep (some s), UsersUnique t)
      ↔ Lww.Along StepClear userStep (some s) es := by
  refine Lww.forall_take_iff_along (I := fun _ => True) (G := fun s => ∀ t ∈ s, UsersUnique t)
    (fun _ _ _ _ _ => trivial) (fun s e _ hs => ?_) trivial
    (fun t ht => Option.mem_some_iff.mp ht ▸ h) es
  cases s with
  | none => exact ⟨fun _ t ht => (nomatch ht), fun _ t ht => (nomatch ht)⟩
  | some s =>
    have hiff := usersUnique_step_iff (hs s rfl) e.1 e.2
    exact ⟨fun hall t ht => Option.mem_some_iff.mp ht ▸ hiff.mp hall, fun hclear =>
      hiff.mpr (hclear s rfl)⟩

/-- Another admin. -/
def bob : UserRecord :=
  { alice with uuid := "89abcdef-0123-4567-89ab-cdef01234567".toList, name := "bob".toList }

/-- A hub that knows both. -/
def twoAdmins : HubState where
  userRecords := [alice, bob]

/-- A newer line of the first, under the name of the second. -/
def renameRun : List (Clock × UserEvent) :=
  [({ now := 1000 }, .line "a|01234567-89ab-cdef-0123-456789abcdef|Bob||add|0|950|".toList {})]

/-- The theorem at that run: the line is not clear. -/
theorem renameRun_not_clear : ¬ Lww.Along StepClear userStep (some twoAdmins) renameRun := by
  have hstart : UsersUnique twoAdmins := by decide +kernel
  intro hclear
  have hall := (usersUnique_run_iff hstart renameRun).mpr hclear 1
  have hbad : (((renameRun.take 1).foldl userStep (some twoAdmins)).any fun s =>
    decide (¬ UsersUnique s)) = true := by
    decide +kernel
  obtain ⟨t, ht, hnot⟩ := (Option.any_eq_true _ _).mp hbad
  exact of_decide_eq_true hnot (hall t ht)

/-- Two live admins of one name. -/
theorem name_shared : UsersUnique twoAdmins
    ∧ (renameRun.foldl userStep (some twoAdmins)).any (fun s =>
      s.userRecords.any fun u => u.isActive && u.name == "Bob".toList && u.uuid == alice.uuid)
        = true
    ∧ (renameRun.foldl userStep (some twoAdmins)).any (fun s => decide (¬ UsersUnique s))
      = true := by
  decide +kernel

end IrcHub.Proofs
