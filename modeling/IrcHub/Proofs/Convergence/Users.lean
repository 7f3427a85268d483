import IrcHub.Lib.Lww
import IrcHub.Proofs.Global.Cascade
import IrcHub.Proofs.Users.Refused

/-!
# `IrcHub.Proofs.Convergence.Users`: users and usermasks of two hubs

Users and usermasks of two hubs. A user is ordered by stamp and by delete over add; its key is a
part that a line without a key leaves alone. A usermask is state and stamp, ordered alike, and
needs its user to be there. Two hubs that merge the same lines of a user and of one of its masks,
in any order and any number of times, agree on the user and on the mask as long as no two newest
lines tie; they agree on the key when the newest line carries one, or no newer line changes it.

- `userView`, `maskView`: what a hub holds of a user and of a mask
- `FairUser`, `FairMask`: lines that are compared with the record of their uuid
- `view_user`, `view_mask`: one line of each kind, and `view_apply` for either
- `NoTie`, `KeyDecided`: the conditions on the lines
- `users_converge`: two hubs agree
- `users_diverge`: a line without a key that overtakes one with a key

A mask is always decided: of two lines of one stamp the delete wins, and two lines that are the
same but for their text leave the same mask. For a user a tie is broken by who came first, and a
name or a type can then differ.

The record a line meets first is the blank one that `userSlot` appends, so a register comes into
being with its first line (`Lww.opened`).
-/

set_option autoImplicit false

namespace IrcHub.Proofs

open IrcHub.Hub Str

/-! ### What a hub holds of a user and a mask -/

/-- Name, type, state and stamp of a user. -/
structure UserFace where
  name : Str
  typ : Char
  isActive : Bool
  timestamp : Int
  deriving DecidableEq

/-- What decides between two lines of a user. -/
def UserFace.rank (f : UserFace) : Int ×ₗ Bool := lwwRank f.timestamp f.isActive

/-- The face of a record, and its key. -/
def userFaceKey (u : UserRecord) : UserFace × Option Str :=
  (⟨u.name, u.typ, u.isActive, u.timestamp⟩, if u.hasPubkey then some u.pubkeyB64 else none)

/-- State and stamp of a mask. -/
def maskFace (m : MaskRecord) : Bool × Int := (m.isActive, m.timestamp)

/-- What decides between two lines of a mask. -/
def maskRank (f : Bool × Int) : Int ×ₗ Bool := lwwRank f.2 f.1

/-- What a hub holds of a user. -/
def userView (s : HubState) (uuid : Str) : Option (UserFace × Option Str) :=
  (s.userRecords.find? fun u => u.uuid == uuid).map userFaceKey

/-- What a hub holds of a mask. -/
def maskView (s : HubState) (uuid mask : Str) : Option (Bool × Int) :=
  (s.maskRecords.find? fun m => m.uuid == uuid && eqIc m.mask mask).map maskFace

/-! ### Lines -/

/-- A user line (its tag and the rest) or a usermask line (the rest and the whole line). -/
inductive SyncLine
  | user (key : Char) (vstart : Str)
  | mask (vstart line : Str)
  deriving DecidableEq

/-- The hub after a line, under the clock it arrives at. -/
def SyncLine.apply (s : HubState) (p : Clock × SyncLine) : HubState :=
  match p.2 with
  | .user key vstart => (syncUserRecord p.1 s key vstart {}).1
  | .mask vstart line => (syncMaskRecord p.1 s vstart line {}).1

/-- The user a line offers. -/
def userOffer : SyncLine → Option (UserFace × Option Str)
  | .user key vstart => (parseUserRecord vstart key).map userFaceKey
  | .mask _ _ => none

/-- The mask a line offers. -/
def maskOffer : SyncLine → Option (Bool × Int)
  | .user _ _ => none
  | .mask vstart _ => (parseMaskRecord vstart).map maskFace

/-- A user line of the uuid that is compared with the record of the uuid: not ahead of the clock,
no purge floor, room in the table, no other live record of the name. -/
structure FairUser (uuid : Str) (s : HubState) (clk : Clock) (inc : UserRecord) : Prop where
  ofUuid : inc.uuid = uuid
  notAhead : tsAhead clk inc.timestamp = false
  noFloor : s.purgeFloorUntil ≤ clk.now
  room : userFind s uuid ≠ none ∨ s.userRecords.length < maxHubUserRecords
  noOther : userFind s uuid = none →
    ∀ u ∈ s.userRecords, u.isActive = true → u.typ = inc.typ → eqIc u.name inc.name = false

/-- A line of the mask that is compared with the mask: the user is known, and the like. -/
structure FairMask (uuid mask : Str) (s : HubState) (clk : Clock) (inc : MaskRecord) : Prop where
  ofUuid : inc.uuid = uuid
  ofMask : eqIc inc.mask mask = true
  notAhead : tsAhead clk inc.timestamp = false
  noFloor : s.purgeFloorUntil ≤ clk.now
  known : userFind s uuid ≠ none
  room : maskFind s uuid mask ≠ none ∨ s.maskRecords.length < maxHubUserMasks

/-- A line of the user or of the mask that counts. -/
def SyncLine.Fair (uuid mask : Str) (s : HubState) (p : Clock × SyncLine) : Prop :=
  match p.2 with
  | .user key vstart => ∃ inc, parseUserRecord vstart key = some inc ∧ FairUser uuid s p.1 inc
  | .mask vstart _ => ∃ inc, parseMaskRecord vstart = some inc ∧ FairMask uuid mask s p.1 inc

/-! ### One line -/

section Step

variable {s : HubState} {uuid mask : Str} {clk : Clock}

/-- A floor that has passed blocks nothing. -/
theorem not_purgeFloorBlocks (h : s.purgeFloorUntil ≤ clk.now) (ts : Int) :
    purgeFloorBlocks clk s ts = false := by
  simp only [purgeFloorBlocks, Bool.and_eq_false_iff, decide_eq_false_iff_not, gt_iff_lt, not_lt]
  exact .inl h

/-- A fair line finds the record of its uuid, or a blank one in its place. It does not find the
record of another uuid by name: `noOther`. -/
theorem FairUser.slot {inc : UserRecord} (h : FairUser uuid s clk inc) :
    (∃ i, userFind s uuid = some i ∧ userSlot clk s inc = some (s, i))
      ∨ (userFind s uuid = none ∧ userSlot clk s inc = some
        ({ s with userRecords := s.userRecords ++ [{ uuid := uuid }] },
        s.userRecords.length)) := by
  have huuid := h.ofUuid
  subst huuid
  cases hfind : userFind s inc.uuid with
  | some i => exact .inl ⟨i, rfl, by simp [userSlot, hfind]⟩
  | none =>
    have hroom : s.userRecords.length < maxHubUserRecords := by simpa [hfind] using h.room
    have hnew : userNew clk s inc = some
        ({ s with userRecords := s.userRecords ++ [{ uuid := inc.uuid }] },
          s.userRecords.length) := by
      simp [userNew, hroom, h.notAhead, not_purgeFloorBlocks h.noFloor]
    have hname : (s.userRecords.findIdx? fun ex =>
        ex.isActive && ex.typ == inc.typ && eqIc ex.name inc.name) = none := by
      rw [List.findIdx?_eq_none_iff]
      intro u hu
      have hno := h.noOther hfind u hu
      simp only [Bool.and_eq_false_iff, beq_eq_false_iff_ne]
      by_cases hact : u.isActive = true
      · by_cases htyp : u.typ = inc.typ
        · exact .inr (hno hact htyp)
        · exact .inl (.inr htyp)
      · exact .inl (.inl (by simpa using hact))
    refine .inr ⟨rfl, ?_⟩
    simp only [userSlot, hfind, hname, hnew]
    split <;> rfl

/-- A line that is written brings its face, and its key if it has one. -/
theorem userFaceKey_userWrite (inc cur : UserRecord) :
    userFaceKey (userWrite inc cur)
      = ((userFaceKey inc).1, (userFaceKey inc).2.or (userFaceKey cur).2) := by
  unfold userFaceKey userWrite
  cases inc.hasPubkey <;> rfl

/-- Both outcomes rewrite the record at the slot: the view is the winner of the two. The key of
the loser may stay, which is what `keepWith` says. -/
theorem userView_compared {t : HubState} {i : Nat} {inc cur : UserRecord} {key : Char}
    {vstart : Str} (cnt : SyncCounters) (hparse : parseUserRecord vstart key = some inc)
    (hslot : userSlot clk s inc = some (t, i)) (hfind : userFind t uuid = some i)
    (hget : t.userRecords[i]? = some cur) (huuid : cur.uuid = uuid)
    (hahead : tsAhead clk inc.timestamp = false) :
    userView (syncUserRecord clk s key vstart cnt).1 uuid
        = some (Lww.keepWith UserFace.rank (userFaceKey cur) (userFaceKey inc))
      ∧ (syncUserRecord clk s key vstart cnt).1.maskRecords = t.maskRecords := by
  have hview : ∀ u : UserRecord, u.uuid = uuid →
      ((t.userRecords.set i u).find? fun u => u.uuid == uuid).map userFaceKey
        = some (userFaceKey u) := by
    intro u hu
    rw [Table.find?_set_of_findIdx? hfind (by simp [hu])]
    rfl
  have hrank : lwwAccepts clk inc.timestamp inc.isActive cur.timestamp cur.isActive = true
      ↔ (userFaceKey cur).1.rank < (userFaceKey inc).1.rank := lwwAccepts_iff hahead
  unfold Lww.keepWith
  cases hacc : lwwAccepts clk inc.timestamp inc.isActive cur.timestamp cur.isActive with
  | false =>
    have htables := userTables_refused cnt hparse hslot hget hacc
    have husers := congrArg Prod.fst htables
    have hmasks := congrArg Prod.snd htables
    rw [if_neg (by rw [← hrank, hacc]; exact Bool.false_ne_true)]
    refine ⟨?_, hmasks⟩
    rw [userView, show (syncUserRecord clk s key vstart cnt).1.userRecords = _ from husers]
    exact hview { cur with lastSeen := raisedTo clk cur.lastSeen inc.lastSeen } huuid
  | true =>
    rw [if_pos (hrank.mp hacc)]
    have hsync : (syncUserRecord clk s key vstart cnt).1
        = { t with userRecords := t.userRecords.set i (userWrite inc cur) } := by
      simp [syncUserRecord, hparse, hslot, hget, hacc]
    rw [hsync]
    refine ⟨?_, rfl⟩
    rw [userView, hview (userWrite inc cur) huuid, userFaceKey_userWrite]

/-- A fair user line writes the user and leaves the mask. -/
theorem view_user {inc : UserRecord} {key : Char} {vstart : Str}
    (hparse : parseUserRecord vstart key = some inc) (h : FairUser uuid s clk inc) (mask : Str)
    (cnt : SyncCounters) :
    userView (syncUserRecord clk s key vstart cnt).1 uuid
        = Lww.opened (Lww.keepWith UserFace.rank) (userFaceKey {}) (userView s uuid)
          (some (userFaceKey inc))
      ∧ maskView (syncUserRecord clk s key vstart cnt).1 uuid mask = maskView s uuid mask := by
  rcases h.slot with ⟨i, hfind, hslot⟩ | ⟨hfind, hslot⟩
  · obtain ⟨hlt, hcur, -⟩ := List.findIdx?_eq_some_iff_getElem.mp hfind
    have hget : s.userRecords[i]? = some s.userRecords[i] := List.getElem?_eq_getElem hlt
    have hold : userView s uuid = some (userFaceKey s.userRecords[i]) := by
      rw [userView, Table.find?_of_findIdx? hfind hget]
      rfl
    obtain ⟨hview, hmasks⟩ := userView_compared cnt hparse hslot hfind hget
      (by simpa using hcur) h.notAhead
    exact ⟨by rw [hview, hold]; rfl, by rw [maskView, hmasks]; rfl⟩
  · -- first sight: the blank record is what the line is compared with
    have hold : userView s uuid = none := by
      rw [userView, Option.map_eq_none_iff, List.find?_eq_none]
      intro u hu
      simpa using List.findIdx?_eq_none_iff.mp hfind u hu
    have hfind' : userFind { s with userRecords := s.userRecords ++ [{ uuid := uuid }] } uuid
        = some s.userRecords.length :=
      Table.findIdx?_append_of_none hfind (by simp)
    have hget : ({ s with userRecords := s.userRecords ++ [{ uuid := uuid }] } :
        HubState).userRecords[s.userRecords.length]? = some { uuid := uuid } := by simp
    obtain ⟨hview, hmasks⟩ := userView_compared cnt hparse hslot hfind' hget rfl h.notAhead
    exact ⟨by rw [hview, hold]; rfl, by rw [maskView, hmasks]; rfl⟩

/-- A fair mask line is looked up under the mask that the view is of. -/
theorem maskFind_respell {inc : MaskRecord} (h : FairMask uuid mask s clk inc) :
    (fun m : MaskRecord => m.uuid == inc.uuid && eqIc m.mask inc.mask)
      = fun m => m.uuid == uuid && eqIc m.mask mask := by
  funext m
  rw [h.ofUuid, eqIc, eqIc, eqIc_iff.mp h.ofMask]

/-- A fair mask line finds the mask, or a blank record in its place. -/
theorem FairMask.slot {inc : MaskRecord} (h : FairMask uuid mask s clk inc) :
    (∃ i, maskFind s uuid mask = some i ∧ maskSlot clk s inc = some (s, i))
      ∨ (maskFind s uuid mask = none ∧ maskSlot clk s inc = some
        ({ s with maskRecords := s.maskRecords ++ [{ uuid := inc.uuid, mask := inc.mask }] },
          s.maskRecords.length)) := by
  have hsame : maskFind s inc.uuid inc.mask = maskFind s uuid mask := by
    rw [maskFind, maskFind, maskFind_respell h]
  cases hfind : maskFind s uuid mask with
  | some i => exact .inl ⟨i, rfl, by simp [maskSlot, hsame, hfind]⟩
  | none =>
    have hroom : s.maskRecords.length < maxHubUserMasks := by simpa [hfind] using h.room
    refine .inr ⟨rfl, ?_⟩
    simp [maskSlot, hsame, hfind, hroom, h.notAhead, not_purgeFloorBlocks h.noFloor]

/-- Both outcomes rewrite the mask at the slot. -/
theorem maskView_compared {t : HubState} {i : Nat} {inc cur : MaskRecord} {vstart : Str}
    (line : Str) (cnt : SyncCounters) (hparse : parseMaskRecord vstart = some inc)
    (hknown : userFind s inc.uuid ≠ none) (hslot : maskSlot clk s inc = some (t, i))
    (hfind : maskFind t uuid mask = some i) (hget : t.maskRecords[i]? = some cur)
    (hcur : (cur.uuid == uuid && eqIc cur.mask mask) = true)
    (hahead : tsAhead clk inc.timestamp = false) :
    maskView (syncMaskRecord clk s vstart line cnt).1 uuid mask
        = some (Lww.keep maskRank (maskFace cur) (maskFace inc))
      ∧ (syncMaskRecord clk s vstart line cnt).1.userRecords = t.userRecords := by
  have hview : ∀ m : MaskRecord, (m.uuid == uuid && eqIc m.mask mask) = true →
      ((t.maskRecords.set i m).find? fun m => m.uuid == uuid && eqIc m.mask mask).map maskFace
        = some (maskFace m) := by
    intro m hm
    rw [Table.find?_set_of_findIdx? hfind hm]
    rfl
  have hrank : lwwAccepts clk inc.timestamp inc.isActive cur.timestamp cur.isActive = true
      ↔ maskRank (maskFace cur) < maskRank (maskFace inc) := lwwAccepts_iff hahead
  unfold Lww.keep
  cases hacc : lwwAccepts clk inc.timestamp inc.isActive cur.timestamp cur.isActive with
  | false =>
    have htables := userTables_refused_mask line cnt hparse hknown hslot hget hacc
    have husers := congrArg Prod.fst htables
    have hmasks := congrArg Prod.snd htables
    rw [if_neg (by rw [← hrank, hacc]; exact Bool.false_ne_true)]
    refine ⟨?_, husers⟩
    rw [maskView, show (syncMaskRecord clk s vstart line cnt).1.maskRecords = _ from hmasks]
    exact hview { cur with lastUsed := raisedTo clk cur.lastUsed inc.lastUsed } hcur
  | true =>
    rw [if_pos (hrank.mp hacc)]
    have hsome : (userFind s inc.uuid).isNone = false := Option.isNone_eq_false_iff.mpr
      (Option.isSome_iff_ne_none.mpr hknown)
    let m : MaskRecord := { cur with
      isActive := inc.isActive
      lastUsed := max cur.lastUsed inc.lastUsed
      timestamp := inc.timestamp }
    have hsync : (syncMaskRecord clk s vstart line cnt).1
        = { t with maskRecords := t.maskRecords.set i m } := by
      simp [syncMaskRecord, hparse, hsome, hslot, hget, hacc, m]
    rw [hsync]
    exact ⟨hview m hcur, rfl⟩

/-- A fair mask line writes the mask and leaves the user. -/
theorem view_mask {inc : MaskRecord} {vstart : Str} (line : Str)
    (hparse : parseMaskRecord vstart = some inc) (h : FairMask uuid mask s clk inc)
    (cnt : SyncCounters) :
    userView (syncMaskRecord clk s vstart line cnt).1 uuid = userView s uuid
      ∧ maskView (syncMaskRecord clk s vstart line cnt).1 uuid mask
        = Lww.opened (Lww.keep maskRank) (maskFace {}) (maskView s uuid mask)
          (some (maskFace inc)) := by
  have hknown : userFind s inc.uuid ≠ none := h.ofUuid ▸ h.known
  rcases h.slot with ⟨i, hfind, hslot⟩ | ⟨hfind, hslot⟩
  · obtain ⟨hlt, hcur, -⟩ := List.findIdx?_eq_some_iff_getElem.mp hfind
    have hget : s.maskRecords[i]? = some s.maskRecords[i] := List.getElem?_eq_getElem hlt
    have hold : maskView s uuid mask = some (maskFace s.maskRecords[i]) := by
      rw [maskView, Table.find?_of_findIdx? hfind hget]
      rfl
    obtain ⟨hview, husers⟩ := maskView_compared line cnt hparse hknown hslot hfind hget hcur
      h.notAhead
    exact ⟨by rw [userView, husers]; rfl, by rw [hview, hold]; rfl⟩
  · have hold : maskView s uuid mask = none := by
      rw [maskView, Option.map_eq_none_iff, List.find?_eq_none]
      intro m hm
      simpa using List.findIdx?_eq_none_iff.mp hfind m hm
    have hnew : (inc.uuid == uuid && eqIc inc.mask mask) = true := by
      simp [h.ofUuid, h.ofMask]
    have hfind' : maskFind
        { s with maskRecords := s.maskRecords ++ [{ uuid := inc.uuid, mask := inc.mask }] } uuid
        mask = some s.maskRecords.length :=
      Table.findIdx?_append_of_none hfind hnew
    have hget : ({ s with
        maskRecords := s.maskRecords ++ [{ uuid := inc.uuid, mask := inc.mask }] } :
        HubState).maskRecords[s.maskRecords.length]?
          = some { uuid := inc.uuid, mask := inc.mask } := by simp
    obtain ⟨hview, husers⟩ := maskView_compared line cnt hparse hknown hslot hfind' hget hnew
      h.notAhead
    exact ⟨by rw [userView, husers]; rfl, by rw [hview, hold]; rfl⟩

/-- What one line does to the user and to the mask. A line of the one kind is no offer to the
other. -/
theorem view_apply {p : Clock × SyncLine} (h : SyncLine.Fair uuid mask s p) :
    userView (SyncLine.apply s p) uuid
        = Lww.opened (Lww.keepWith UserFace.rank) (userFaceKey {}) (userView s uuid)
          (userOffer p.2)
      ∧ maskView (SyncLine.apply s p) uuid mask
        = Lww.opened (Lww.keep maskRank) (maskFace {}) (maskView s uuid mask)
          (maskOffer p.2) := by
  obtain ⟨clk, line⟩ := p
  cases line with
  | user key vstart =>
    obtain ⟨inc, hparse, hfair⟩ := h
    obtain ⟨husers, hmasks⟩ := view_user hparse hfair mask {}
    simp only [SyncLine.apply, userOffer, maskOffer, hparse, Option.map_some]
    exact ⟨husers, hmasks⟩
  | mask vstart line =>
    obtain ⟨inc, hparse, hfair⟩ := h
    obtain ⟨husers, hmasks⟩ := view_mask line hparse hfair {}
    simp only [SyncLine.apply, userOffer, maskOffer, hparse, Option.map_some]
    exact ⟨husers, hmasks⟩

end Step

/-! ### Convergence -/

/-- The users a list of lines offers. -/
def userOffers (l : List (Clock × SyncLine)) : List (UserFace × Option Str) :=
  l.filterMap fun p => userOffer p.2

/-- No two different lines are the newest of the user, where those are newer than what the hub
holds. Older lines may tie. -/
def NoTie (s : HubState) (uuid : Str) (l : List (Clock × SyncLine)) : Prop :=
  ∀ x ∈ userOffers l, ∀ y ∈ userOffers l,
    ((userView s uuid).getD (userFaceKey {})).1.rank < x.1.rank →
      (∀ z ∈ userOffers l, z.1.rank ≤ x.1.rank) → x.1.rank = y.1.rank → x = y

/-- The newest line carries a key, or no line newer than what the hub holds changes it. -/
def KeyDecided (s : HubState) (uuid : Str) (l : List (Clock × SyncLine)) : Prop :=
  Lww.Decided UserFace.rank ((userView s uuid).getD (userFaceKey {})) (userOffers l)

/-- The view after a list of fair lines is that of the lines kept one after the other: the
greatest rank, the first of it, and the key of the last that had one. -/
theorem view_foldl {s : HubState} {uuid mask : Str} {l : List (Clock × SyncLine)}
    (hl : Lww.Along (SyncLine.Fair uuid mask) SyncLine.apply s l) :
    userView (l.foldl SyncLine.apply s) uuid
        = l.foldl (fun v p => Lww.opened (Lww.keepWith UserFace.rank) (userFaceKey {}) v
          (userOffer p.2)) (userView s uuid)
      ∧ maskView (l.foldl SyncLine.apply s) uuid mask
        = l.foldl (fun v p => Lww.opened (Lww.keep maskRank) (maskFace {}) v (maskOffer p.2))
          (maskView s uuid mask) := by
  induction l generalizing s with
  | nil => exact ⟨rfl, rfl⟩
  | cons p l ih =>
    obtain ⟨husers, hmasks⟩ := view_apply hl.1
    simp only [List.foldl_cons, ← husers, ← hmasks]
    exact ih hl.2

/-- An offer of one order is one of the other, as both have the same lines. -/
theorem mem_filterMap_snd {α : Type} {f : SyncLine → Option α} {l l' : List (Clock × SyncLine)}
    (hsame : ∀ x, x ∈ l.map Prod.snd → x ∈ l'.map Prod.snd) {y : α}
    (hy : y ∈ l.filterMap fun p => f p.2) : y ∈ l'.filterMap fun p => f p.2 := by
  obtain ⟨p, hp, hf⟩ := List.mem_filterMap.mp hy
  obtain ⟨p', hp', heq⟩ := List.mem_map.mp (hsame p.2 (List.mem_map_of_mem hp))
  exact List.mem_filterMap.mpr ⟨p', hp', by rw [heq]; exact hf⟩

/-- State and stamp are all of a mask's face. -/
theorem maskRank_injective {f g : Bool × Int} (h : maskRank f = maskRank g) : f = g := by
  have hpair := toLex.injective h
  rw [Prod.mk.injEq] at hpair
  have hact : f.1 = g.1 := by simpa using hpair.2
  exact Prod.ext hact hpair.1

/-- Two hubs that start alike and merge the same lines of a user and of one of its masks, each in
its own order and as often as it likes, hold the same user up to its key, and the same mask, if no
two different lines are the newest ones; and the same key, if it is decided.

`hl` and `hl'`: each line counts where it arrives. `hsame`: the lines are the same on both sides.
`htie` is about the newest lines only, since older ones are overwritten whatever their order. -/
theorem users_converge {s : HubState} {uuid mask : Str} {l l' : List (Clock × SyncLine)}
    (hl : Lww.Along (SyncLine.Fair uuid mask) SyncLine.apply s l)
    (hl' : Lww.Along (SyncLine.Fair uuid mask) SyncLine.apply s l')
    (hsame : ∀ x, x ∈ l.map Prod.snd ↔ x ∈ l'.map Prod.snd) (htie : NoTie s uuid l) :
    (userView (l.foldl SyncLine.apply s) uuid).map Prod.fst
        = (userView (l'.foldl SyncLine.apply s) uuid).map Prod.fst
      ∧ maskView (l.foldl SyncLine.apply s) uuid mask
        = maskView (l'.foldl SyncLine.apply s) uuid mask
      ∧ (KeyDecided s uuid l → userView (l.foldl SyncLine.apply s) uuid
        = userView (l'.foldl SyncLine.apply s) uuid) := by
  have hmem : ∀ y, y ∈ userOffers l ↔ y ∈ userOffers l' := fun y =>
    ⟨mem_filterMap_snd fun x => (hsame x).mp, mem_filterMap_snd fun x => (hsame x).mpr⟩
  have hmem' : ∀ y, (y ∈ l.filterMap fun p => maskOffer p.2)
      ↔ y ∈ l'.filterMap fun p => maskOffer p.2 := fun y =>
    ⟨mem_filterMap_snd fun x => (hsame x).mp, mem_filterMap_snd fun x => (hsame x).mpr⟩
  have hnil : ∀ {α : Type} {m m' : List α}, (∀ y, y ∈ m ↔ y ∈ m') → (m = [] ↔ m' = []) := by
    intro α m m' h
    simp only [List.eq_nil_iff_forall_not_mem, h]
  obtain ⟨husers, hmasks⟩ := view_foldl hl
  obtain ⟨husers', hmasks'⟩ := view_foldl hl'
  rw [Lww.foldl_opened _ _ (fun p : Clock × SyncLine => userOffer p.2)] at husers husers'
  rw [Lww.foldl_opened _ _ (fun p : Clock × SyncLine => maskOffer p.2)] at hmasks hmasks'
  rw [husers, husers', hmasks, hmasks']
  by_cases hempty : userOffers l = []
  · have hempty' : userOffers l' = [] := (hnil hmem).mp hempty
    simp only [userOffers] at hempty hempty'
    rw [if_pos hempty, if_pos hempty']
    refine ⟨rfl, ?_, fun _ => rfl⟩
    simp only [hnil hmem']
    rw [Lww.foldl_keep_congr maskRank hmem' fun x _ y _ _ _ h => maskRank_injective h]
  · have hempty' : userOffers l' ≠ [] := fun h => hempty ((hnil hmem).mpr h)
    simp only [userOffers] at hempty hempty'
    rw [if_neg hempty, if_neg hempty']
    refine ⟨?_, ?_, fun hdec => ?_⟩
    · simp only [Option.map_some, Lww.foldl_keepWith_fst]
      congr 1
      refine Lww.foldl_keep_congr UserFace.rank (fun y => ?_) ?_
      · simp only [List.mem_map]
        exact exists_congr fun x => and_congr_left fun _ => hmem x
      · intro x hx y hy hlt hmax heq
        obtain ⟨x', hx', rfl⟩ := List.mem_map.mp hx
        obtain ⟨y', hy', rfl⟩ := List.mem_map.mp hy
        rw [htie x' hx' y' hy' hlt (fun z hz => hmax z.1 (List.mem_map_of_mem hz)) heq]
    · simp only [hnil hmem']
      rw [Lww.foldl_keep_congr maskRank hmem' fun x _ y _ _ _ h => maskRank_injective h]
    · exact congrArg some (Lww.foldl_keepWith_congr UserFace.rank hmem htie hdec)

/-- The uuid of an admin. -/
def aliceUuid : Str := "01234567-89ab-cdef-0123-456789abcdef".toList

/-- A line of the admin with a key, stamped `ts`. -/
def keyedLine (ts : Int) : Clock × SyncLine :=
  ({ now := 1000 }, .user 'a' (aliceUuid ++ "|alice|".toList ++ List.replicate 86 'Q'
    ++ "==|add|0|".toList ++ ofInt ts ++ ['|']))

/-- A line of the admin without a key. -/
def keylessLine (ts : Int) : Clock × SyncLine :=
  ({ now := 1000 }, .user 'a' (aliceUuid ++ "|alice||add|0|".toList ++ ofInt ts ++ ['|']))

/-- A line of a mask of the admin. -/
def maskLine (ts : Int) : Clock × SyncLine :=
  ({ now := 1000 }, .mask (aliceUuid ++ "|*!*@host|add|0|".toList ++ ofInt ts)
    ("m|".toList ++ aliceUuid ++ "|*!*@host|add|0|".toList ++ ofInt ts))

/-- A line with a key overtakes one without, and a mask follows: both orders agree. -/
theorem users_converge_keyed :
    userView ([keylessLine 900, keyedLine 901, maskLine 950].foldl SyncLine.apply {}) aliceUuid
      = userView ([keyedLine 901, maskLine 950, keylessLine 900].foldl SyncLine.apply {})
        aliceUuid := by
  -- the records that the three lines are read as
  let keyless : UserRecord := { alice with lastSeen := 0 }
  let keyed : UserRecord := { keyless with
    timestamp := 901
    pubkeyB64 := List.replicate 86 'Q' ++ "==".toList
    hasPubkey := true }
  let mask : MaskRecord := {
    uuid := aliceUuid
    mask := "*!*@host".toList
    isActive := true
    timestamp := 950 }
  have hkeyed : parseUserRecord (aliceUuid ++ "|alice|".toList ++ List.replicate 86 'Q'
      ++ "==|add|0|".toList ++ ofInt 901 ++ ['|']) 'a' = some keyed := by decide +kernel
  have hkeyless : parseUserRecord (aliceUuid ++ "|alice||add|0|".toList ++ ofInt 900 ++ ['|']) 'a'
      = some keyless := by decide +kernel
  have hmask : parseMaskRecord (aliceUuid ++ "|*!*@host|add|0|".toList ++ ofInt 950)
      = some mask := by decide +kernel
  -- the user is unknown only at the start, where there is no other user either
  have hstart : ∀ inc : UserRecord, inc.uuid = aliceUuid → inc.timestamp ≤ 1000 →
      FairUser aliceUuid {} { now := 1000 } inc := by
    intro inc huuid hts
    refine ⟨huuid, ?_, by decide, .inr (by decide), fun _ u hu => (List.not_mem_nil hu).elim⟩
    simp only [tsAhead, Bool.not_false, Bool.true_and, decide_eq_false_iff_not, gt_iff_lt, not_lt]
    show inc.timestamp ≤ 1000 + 3600
    omega
  -- in this order nothing stands against a line
  have hl : Lww.Along (SyncLine.Fair aliceUuid "*!*@host".toList) SyncLine.apply {}
      [keylessLine 900, keyedLine 901, maskLine 950] := by
    refine ⟨⟨keyless, hkeyless, hstart keyless rfl (by decide)⟩, ⟨keyed, hkeyed, ?_⟩,
      ⟨mask, hmask, ?_⟩, trivial⟩
    · exact ⟨rfl, by decide, by decide +kernel, .inl (by decide +kernel),
        fun h => absurd h (by decide +kernel)⟩
    · exact ⟨rfl, by decide, by decide, by decide +kernel, by decide +kernel,
        .inr (by decide +kernel)⟩
  -- nor in the other
  have hl' : Lww.Along (SyncLine.Fair aliceUuid "*!*@host".toList) SyncLine.apply {}
      [keyedLine 901, maskLine 950, keylessLine 900] := by
    refine ⟨⟨keyed, hkeyed, hstart keyed rfl (by decide)⟩, ⟨mask, hmask, ?_⟩,
      ⟨keyless, hkeyless, ?_⟩, trivial⟩
    · exact ⟨rfl, by decide, by decide, by decide +kernel, by decide +kernel,
        .inr (by decide +kernel)⟩
    · exact ⟨rfl, by decide, by decide +kernel, .inl (by decide +kernel),
        fun h => absurd h (by decide +kernel)⟩
  have hoffers : userOffers [keylessLine 900, keyedLine 901, maskLine 950]
      = [userFaceKey keyless, userFaceKey keyed] := by decide +kernel
  -- the offers are the same and none ties, so the view is the same
  refine (users_converge hl hl' ?_ ?_).2.2 (.inl ?_)
  · intro x
    simp only [List.map_cons, List.map_nil, List.mem_cons, List.not_mem_nil, or_false]
    exact ⟨fun h => h.elim (fun h => .inr (.inr h)) fun h => h.elim .inl fun h => .inr (.inl h),
      fun h => h.elim (fun h => .inr (.inl h)) fun h => h.elim (fun h => .inr (.inr h)) .inl⟩
  · rw [NoTie, hoffers]
    decide
  · rw [hoffers]
    decide

/-- The line with the key is older: the hub that merges it first keeps its key, the other has
none. Neither of the two lines ties. -/
theorem users_diverge :
    userView ([keyedLine 900, keylessLine 901].foldl SyncLine.apply {}) aliceUuid
        = some (⟨"alice".toList, 'a', true, 901⟩, some (List.replicate 86 'Q' ++ "==".toList))
      ∧ userView ([keylessLine 901, keyedLine 900].foldl SyncLine.apply {}) aliceUuid
        = some (⟨"alice".toList, 'a', true, 901⟩, none) := by
  refine ⟨by decide +kernel, by decide +kernel⟩

end IrcHub.Proofs
