import IrcHub.Proofs.Floor.Accepts
import IrcHub.Proofs.Purge.Rights

/-!
# `IrcHub.Proofs.Floor.Restore`: one admin comes back

One admin comes back. `restoreAdmin` undoes the removal of one admin. Where every stamp it writes
is one a hub takes and every text it sends is one a line carries (`Restorable`), the admin is a
full admin afterwards, no other user changes (`Restored`), and a peer with the same records stores
every line and has the same records again (`restoreAdmin_back`).

- `Bumps`: the stamp just past a stamp is one a hub takes
- `DeleteUndone`: what the delete of a user took along can come back
- `accepts_revive`: a peer stores the lines of a deleted admin and of its masks
- `flagBack_lost`: a lost flag comes back
- `reviveLines_fit`: the lines fit a frame
- `AdminBack`, `restoreAdmin_back`: all of it for one admin

An admin may be deleted, or have lost `a`, or both, and the restore does what is needed of the
two. Each write is stamped one past what it undoes, so a stamp at the very end of what the clock
allows has no next one. There the hub refuses its own write.
-/

set_option autoImplicit false

namespace IrcHub.Proofs

open IrcHub.Hub Str
open String (utf8Len)

/-! ### Conditions -/

/-- Both states hold the same users, usermasks and flags. -/
structure SamePeople (s p : HubState) : Prop where
  users : p.userRecords = s.userRecords
  masks : p.maskRecords = s.maskRecords
  flags : p.uflagRecords = s.uflagRecords

/-- A line carries the text. -/
def LineText (t : Str) : Prop := '|' ∉ t ∧ '\n' ∉ t ∧ '\x00' ∉ t

/-- The stamp just past `ts` is one a hub takes over `ts`. -/
def Bumps (clk : Clock) (ts : Int) : Prop := ts < i64Max ∧ tsAhead clk (satSucc ts) = false

/-- What the delete of a user took along can come back: the delete can be undone, the name and the
key are ones a line takes, and so is every mask dropped with the user, which a lookup finds. -/
structure DeleteUndone (clk : Clock) (s : HubState) (u : UserRecord) : Prop where
  stamp : Bumps clk u.timestamp
  name : u.name ≠ [] ∧ LineText u.name
  key : u.hasPubkey = true → (pubkeyB64Decode u.pubkeyB64).isSome = true
  masks : ∀ (k : Nat) (m : MaskRecord), s.maskRecords[k]? = some m → droppedWith u m = true →
    maskFind s m.uuid m.mask = some k ∧ Bumps clk m.timestamp ∧ LineText m.mask

/-- The removal of an admin can be undone: its uuid is its own, and what is written back is
taken. -/
structure Restorable (clk : Clock) (s : HubState) (i : Nat) (u : UserRecord) : Prop where
  get : s.userRecords[i]? = some u
  typ : u.typ = 'a'
  uuid : uuidShape u.uuid = true
  alone : ∀ (j : Nat) (v : UserRecord), s.userRecords[j]? = some v → v.uuid = u.uuid → j = i
  lost : (userFlags s u.uuid).contains 'a' = false → ∃ (k : Nat) (r : UflagRecord),
    uflagFind s u.uuid = some k ∧ s.uflagRecords[k]? = some r ∧ 0 ≤ r.timestamp
      ∧ Bumps clk r.timestamp
  deleted : u.isActive = false → DeleteUndone clk s u

/-! ### Effects -/

/-- The admin is full again, and the records of other users are as they were. -/
structure Restored (s : HubState) (i : Nat) (u : UserRecord) (t : HubState) : Prop where
  users : ∃ v, t.userRecords = s.userRecords.set i v ∧ v.uuid = u.uuid ∧ v.typ = 'a'
    ∧ v.isActive = true
  masks : ∃ f : MaskRecord → MaskRecord, t.maskRecords = s.maskRecords.map f
    ∧ ∀ m, (f m).uuid = m.uuid ∧ (f m).mask = m.mask ∧ (m.uuid ≠ u.uuid → f m = m)
  full : (userFlags t u.uuid).contains 'a' = true
  flags : ∀ uuid, uuid ≠ u.uuid → uflagFind t uuid = uflagFind s uuid
    ∧ ∀ k, uflagFind s uuid = some k → t.uflagRecords[k]? = s.uflagRecords[k]?

section Restore

variable {clk : Clock} {s t p q : HubState} {i : Nat} {u : UserRecord}

/-- Below the greatest stamp the next one is later. -/
theorem satSucc_gt {ts : Int} (h : ts < i64Max) : ts < satSucc ts := by
  unfold satSucc
  omega

/-- A record stamped just past a delete is stored over it. -/
theorem Bumps.lwwAccepts {ts : Int} (h : Bumps clk ts) (act curAct : Bool) :
    lwwAccepts clk (satSucc ts) act ts curAct = true := by
  have hgt := satSucc_gt h.1
  unfold Hub.lwwAccepts
  rw [h.2]
  simp [hgt]

/-! ### The masks of a user -/

/-- A mask that comes back is of the same user and text. -/
theorem reviveMask_uuid (u : UserRecord) (m : MaskRecord) :
    (reviveMask u m).uuid = m.uuid ∧ (reviveMask u m).mask = m.mask := by
  unfold reviveMask
  split
  · exact ⟨rfl, rfl⟩
  · exact ⟨rfl, rfl⟩

/-- Masks that come back are found where they were. -/
theorem maskFind_revived {ms : List MaskRecord} {pre suf : List MaskRecord}
    (hp : p.maskRecords = pre.map (reviveMask u) ++ suf) (hms : ms = pre ++ suf)
    (uuid mask : Str) :
    maskFind p uuid mask = ms.findIdx? fun m => m.uuid == uuid && eqIc m.mask mask := by
  have hsame : (fun m : MaskRecord => m.uuid == uuid && eqIc m.mask mask) ∘ reviveMask u
      = fun m => m.uuid == uuid && eqIc m.mask mask := by
    funext m
    show ((reviveMask u m).uuid == uuid && eqIc (reviveMask u m).mask mask) = _
    rw [(reviveMask_uuid u m).1, (reviveMask_uuid u m).2]
  unfold maskFind
  rw [hp, hms, List.findIdx?_append, List.findIdx?_append, List.findIdx?_map, hsame,
    List.length_map]

/-- A peer stores the lines of the masks that come back, in the order of the table. The induction
is on the masks still to come (`suf`), with those that came in front of them. -/
theorem accepts_masks (huuid : uuidShape u.uuid = true) (suf : List MaskRecord) :
    ∀ (pre : List MaskRecord) (p : HubState), (userFind p u.uuid).isSome = true →
      p.maskRecords = pre.map (reviveMask u) ++ suf →
      (∀ (k : Nat) (m : MaskRecord), (pre ++ suf)[k]? = some m → droppedWith u m = true →
        ((pre ++ suf).findIdx? fun x => x.uuid == m.uuid && eqIc x.mask m.mask) = some k
          ∧ Bumps clk m.timestamp ∧ LineText m.mask ∧ MaskFits (fun _ => True) m) →
      Accepts clk p ((suf.filter (droppedWith u)).map fun m =>
        (formatMaskRecord (reviveMask u m)).dropLast)
        { p with maskRecords := (pre ++ suf).map (reviveMask u) } := by
  induction suf with
  -- no mask is left to come
  | nil =>
    intro pre p _ hp _
    rw [List.append_nil] at hp ⊢
    have heq : p = { p with maskRecords := pre.map (reviveMask u) } := by
      rw [← hp]
    rw [← heq]
    exact .nil p
  -- the next mask, which was dropped with the user or was not
  | cons m suf ih =>
    intro pre p huser hp hmasks
    have hstep : (pre ++ [m]) ++ suf = pre ++ m :: suf := by simp
    by_cases hdrop : droppedWith u m = true
    -- dropped: its line carries the next stamp, which wins over the one in the table
    · have hm : (pre ++ m :: suf)[pre.length]? = some m := by simp
      obtain ⟨hfind, hbumps, htext, hfits⟩ := hmasks _ m hm hdrop
      have hrevived : reviveMask u m
        = { m with isActive := true, timestamp := satSucc m.timestamp } := by
        unfold reviveMask
        rw [if_pos hdrop]
      have hmuuid : m.uuid = u.uuid := by
        unfold droppedWith at hdrop
        simp only [Bool.and_eq_true, beq_iff_eq] at hdrop
        exact hdrop.1.1.2
      have hinactive : m.isActive = false := by
        unfold droppedWith at hdrop
        simp only [Bool.and_eq_true, Bool.not_eq_true'] at hdrop
        exact hdrop.1.1.1
      have hline : MaskLine (reviveMask u m) := by
        rw [hrevived]
        exact ⟨hmuuid ▸ huuid, ⟨Nat.lt_succ_of_le hfits.mask.len, htext.1⟩, hfits.used,
          inI64_satSucc hfits.stamp⟩
      have hfindp : maskFind p (reviveMask u m).uuid (reviveMask u m).mask = some pre.length := by
        rw [(reviveMask_uuid u m).1, (reviveMask_uuid u m).2, maskFind_revived hp rfl, hfind]
      have hget : p.maskRecords[pre.length]? = some m := by
        rw [hp]
        simp
      have hacc : lwwAccepts clk (reviveMask u m).timestamp (reviveMask u m).isActive m.timestamp
        m.isActive = true := by
        rw [hrevived]
        exact hbumps.lwwAccepts true m.isActive
      have hknown : (userFind p (reviveMask u m).uuid).isSome = true := by
        rw [(reviveMask_uuid u m).1, hmuuid, huser]
      -- the peer takes the line, and the masks before this one stay as they are
      have hfirst := accepts_mask hknown hfindp hget hline hacc
      have hset : ({ p with
          maskRecords := p.maskRecords.set pre.length
            { m with
              isActive := (reviveMask u m).isActive
              lastUsed := max m.lastUsed (reviveMask u m).lastUsed
              timestamp := (reviveMask u m).timestamp } } : HubState)
          = { p with maskRecords := (pre ++ [m]).map (reviveMask u) ++ suf } := by
        rw [hp, hrevived]
        simp [hrevived]
      -- the rest of the masks, behind one more
      rw [hset] at hfirst
      have hrest := ih (pre ++ [m])
        { p with maskRecords := (pre ++ [m]).map (reviveMask u) ++ suf } huser rfl
        (by rw [hstep]; exact hmasks)
      rw [List.filter_cons_of_pos hdrop, List.map_cons]
      rw [hstep] at hrest
      exact hfirst.append hrest
    -- it was not dropped with the user, so no line goes out for it
    · have hkept : reviveMask u m = m := by
        unfold reviveMask
        rw [if_neg hdrop]
      rw [List.filter_cons_of_neg hdrop, ← hstep]
      refine ih (pre ++ [m]) p huser ?_ (by rw [hstep]; exact hmasks)
      rw [hp]
      simp [hkept]

/-! ### A deleted admin -/

/-- The admin as it comes back. -/
def revived (u : UserRecord) : UserRecord :=
  { u with
    isActive := true
    timestamp := satSucc u.timestamp }

/-- A user is found at the place it had, as long as the users are the same. -/
theorem Restorable.userFind_eq (h : Restorable clk s i u)
    (hsame : p.userRecords = s.userRecords) :
    userFind p u.uuid = some i := by
  obtain ⟨hi, heq⟩ := List.getElem?_eq_some_iff.mp h.get
  unfold userFind
  rw [hsame]
  refine List.findIdx?_eq_some_iff_getElem.mpr ⟨hi, by rw [heq]; exact beq_self_eq_true _,
    fun j hj hsameUuid => ?_⟩
  have hjlt : j < s.userRecords.length := Nat.lt_trans hj hi
  have hji := h.alone j s.userRecords[j] (List.getElem?_eq_getElem hjlt) (beq_iff_eq.mp hsameUuid)
  omega

/-- Writing the revived record over the deleted one gives the revived one. -/
theorem userWrite_revived (u : UserRecord) : userWrite (wired (revived u)) u = revived u := by
  obtain ⟨uuid, name, key, hasKey, typ, active, seen, ts⟩ := u
  cases hasKey with
  | true => simp [userWrite, wired, revived]
  | false => simp [userWrite, wired, revived]

/-- The lines of a deleted admin and of its masks. -/
def reviveLines (s : HubState) (u : UserRecord) : List Str :=
  formatUserRecord (revived u)
    :: (s.maskRecords.filter (droppedWith u)).map fun m => formatMaskRecord (reviveMask u m)

/-- A deleted user comes back with its masks, each a second above its delete. -/
theorem reviveUser_eq (s : HubState) (i : Nat) {u : UserRecord} (hdel : u.isActive = false) :
    reviveUser s i u = ({ s with
      userRecords := s.userRecords.set i (revived u)
      maskRecords := s.maskRecords.map (reviveMask u) }, (reviveLines s u).flatten) := by
  unfold reviveUser reviveLines
  rw [hdel, List.flatten_cons, List.flatMap_def]
  rfl

/-- A peer stores the lines of a deleted admin and of its masks. `hsame`: the peer holds the same
users, masks and flags as the hub. -/
theorem accepts_revive (h : Restorable clk s i u) (hfits : Fits (fun _ => True) s)
    (hdel : u.isActive = false) (hsame : SamePeople s p) :
    Accepts clk p ((reviveLines s u).map List.dropLast)
      { p with
        userRecords := p.userRecords.set i (revived u)
        maskRecords := p.maskRecords.map (reviveMask u) } := by
  have hundone := h.deleted hdel
  have hu := hfits.users.all u (List.mem_of_getElem? h.get)
  have hfind := h.userFind_eq hsame.users
  have hget : p.userRecords[i]? = some u := by
    rw [hsame.users]
    exact h.get
  have hline : UserLine (revived u) :=
    ⟨h.uuid, ⟨hundone.name.1, Nat.lt_succ_of_le hu.name.len, hundone.name.2.1⟩,
     hundone.key, hu.seen,
      inI64_satSucc hu.stamp⟩
  have hfirst := accepts_user (u := revived u) hfind hget h.typ hline
    (hundone.stamp.lwwAccepts true u.isActive)
  rw [userWrite_revived] at hfirst
  have hknown : (userFind { p with userRecords := p.userRecords.set i (revived u) } u.uuid).isSome
    = true := by
    have hi := (List.getElem?_eq_some_iff.mp hget).1
    unfold userFind
    rw [List.findIdx?_isSome]
    exact List.any_eq_true.mpr ⟨revived u, List.mem_set hi _, beq_self_eq_true u.uuid⟩
  have hmasks := @accepts_masks clk _ h.uuid s.maskRecords []
    { p with userRecords := p.userRecords.set i (revived u) } hknown hsame.masks
    fun k m hm hdrop => by
      have hundoneMask := hundone.masks k m hm hdrop
      exact ⟨hundoneMask.1, hundoneMask.2.1, hundoneMask.2.2,
        hfits.masks.all m (List.mem_of_getElem? hm)⟩
  have hall := hfirst.append hmasks
  unfold reviveLines
  rw [hsame.masks]
  simpa [Function.comp_def] using hall

/-! ### A lost flag -/

/-- The flag record as it comes back. -/
def reflagged (r : UflagRecord) : UflagRecord :=
  { r with
    flags := ['a']
    timestamp := satSucc r.timestamp }

/-- The flag record of an admin that lost `a` is written. -/
theorem uflagPut_reflagged {k : Nat} {r : UflagRecord} (huuid : uuidShape u.uuid = true)
    (hfind : uflagFind s u.uuid = some k) (hget : s.uflagRecords[k]? = some r)
    (hpos : 0 ≤ r.timestamp) (hbumps : Bumps clk r.timestamp) :
    uflagPut clk s u.uuid ['a'] (satSucc r.timestamp)
      = (uflagSet s k u.uuid ['a'] (satSucc r.timestamp), true) := by
  have hgt := satSucc_gt hbumps.1
  have hcanon : uflagsCanon ['a'] = some ['a'] := by decide
  have hacc : uflagsAccepts clk (satSucc r.timestamp) ['a'] r.timestamp r.flags = true := by
    unfold uflagsAccepts
    rw [hbumps.2]
    simp only [Bool.false_eq_true, if_false]
    rw [if_pos (by omega), decide_eq_true (by omega)]
  have hguard : (!uuidShape u.uuid || decide (satSucc r.timestamp ≤ 0)
    || tsAhead clk (satSucc r.timestamp)) = false := by
    rw [huuid, hbumps.2, decide_eq_false (by omega)]
    rfl
  unfold uflagPut
  rw [hcanon]
  simp only [hguard, Bool.false_eq_true, if_false, hfind, hget, hacc, Bool.not_true]

/-- The lookup reads the flags only. -/
theorem uflagFind_congr (h : p.uflagRecords = s.uflagRecords) (uuid : Str) :
    uflagFind p uuid = uflagFind s uuid := by
  unfold uflagFind
  rw [h]

/-- So does what a user may do. -/
theorem userFlags_congr (h : p.uflagRecords = s.uflagRecords) (uuid : Str) :
    userFlags p uuid = userFlags s uuid := by
  unfold userFlags
  rw [uflagFind_congr h, h]

/-- What the write of a lost flag comes to: the record, its line, and a peer that stores it. -/
structure FlagBack (clk : Clock) (s : HubState) (u : UserRecord) (t : HubState)
    (ls : List Str) : Prop where
  eq : restoreFlag clk s u.uuid = (t, ls.flatten)
  people : t.userRecords = s.userRecords ∧ t.maskRecords = s.maskRecords
  full : (userFlags t u.uuid).contains 'a' = true
  others : ∀ uuid, uuid ≠ u.uuid → uflagFind t uuid = uflagFind s uuid
    ∧ ∀ k, uflagFind s uuid = some k → t.uflagRecords[k]? = s.uflagRecords[k]?
  peer : ∀ p, SamePeople s p → (∃ v ∈ p.userRecords, v.uuid = u.uuid) →
    ∃ q, Accepts clk p (ls.map List.dropLast) q ∧ SamePeople t q
  lines : ls = [] ∨ ∃ r, ls = [formatUflag r] ∧ uuidShape r.uuid = true ∧ r.flags = ['a']
    ∧ InI64 r.timestamp

/-- An admin that has `a` needs no write. -/
theorem flagBack_held (hheld : (userFlags s u.uuid).contains 'a' = true) :
    FlagBack clk s u s [] where
  eq := by
    unfold restoreFlag
    rw [if_pos hheld]
    rfl
  people := ⟨rfl, rfl⟩
  full := hheld
  others _ _ := ⟨rfl, fun _ _ => rfl⟩
  peer p hp _ := ⟨p, .nil p, hp⟩
  lines := .inl rfl

/-- A lost flag comes back above the stamp it was lost at. That stamp must have a next one that is
not too far ahead. -/
theorem flagBack_lost {k : Nat} {r : UflagRecord} (huuid : uuidShape u.uuid = true)
    (hlost : (userFlags s u.uuid).contains 'a' = false) (hfind : uflagFind s u.uuid = some k)
    (hget : s.uflagRecords[k]? = some r) (hpos : 0 ≤ r.timestamp)
    (hbumps : Bumps clk r.timestamp) :
    FlagBack clk s u (uflagSet s k u.uuid ['a'] (satSucc r.timestamp))
      [formatUflag (reflagged r)] := by
  -- the record is put back at its place with the flag in it
  have hruuid : r.uuid = u.uuid := uflagFind_some hfind hget
  have hput := uflagPut_reflagged huuid hfind hget hpos hbumps
  have hrecords : (uflagSet s k u.uuid ['a'] (satSucc r.timestamp)).uflagRecords
    = s.uflagRecords.set k (reflagged r) :=
    uflagSet_eq hget _ _ _
  have hklt := (List.getElem?_eq_some_iff.mp hget).1
  have hback : (uflagSet s k u.uuid ['a'] (satSucc r.timestamp)).uflagRecords[k]? = some
    (reflagged r) := by
    rw [hrecords, List.getElem?_set_self hklt]
  -- no other record moves
  have hfinds : ∀ uuid, uflagFind (uflagSet s k u.uuid ['a'] (satSucc r.timestamp)) uuid
    = uflagFind s uuid := by
    intro uuid
    unfold uflagFind
    rw [hrecords]
    exact Table.findIdx?_set_of_eq hget
      (show ((reflagged r).uuid == uuid) = (r.uuid == uuid) from rfl)
  have hgt := satSucc_gt hbumps.1
  have hrange : 0 ≤ satSucc r.timestamp ∧ satSucc r.timestamp ≤ i64Max := by
    have hcap : i64Max = 9223372036854775807 := rfl
    unfold satSucc
    omega
  have hflag : '|' ∉ ['a'] ∧ utf8Len ['a'] ≤ 6 := ⟨by decide, by decide⟩
  -- what the restore does: its answer, the tables, the flag, the other users, and the peers
  refine ⟨?_, ⟨uflagSet_userRecords _ _ _ _ _, uflagSet_maskRecords _ _ _ _ _⟩, ?_, ?_, ?_, ?_⟩
  · unfold restoreFlag
    rw [if_neg (by rw [hlost]; decide), hfind]
    simp only [hget, hput, Bool.not_true, Bool.false_eq_true, if_false, hback, Option.map_some,
      Option.getD_some, List.flatten_cons, List.flatten_nil, List.append_nil]
  · unfold userFlags
    rw [hfinds, hfind]
    simp only [hback, Option.map_some, Option.getD_some]
    show ['a'].contains 'a' = true
    decide
  · intro uuid hne
    refine ⟨hfinds uuid, fun j hj => ?_⟩
    rw [hrecords]
    by_cases hjk : k = j
    · subst hjk
      exact absurd ((uflagFind_some hj hget).symm.trans hruuid) hne
    · rw [List.getElem?_set_ne hjk]
  -- a peer with the same flags takes the line to the same record
  · intro p hp hknown
    obtain ⟨v, hv, hvuuid⟩ := hknown
    have hputp := uflagPut_reflagged (s := p) huuid
      ((uflagFind_congr hp.flags u.uuid).trans hfind) (by rw [hp.flags]; exact hget) hpos hbumps
    have hputr : uflagPut clk p (reflagged r).uuid (reflagged r).flags (reflagged r).timestamp
        = (uflagSet p k u.uuid ['a'] (satSucc r.timestamp), true) := by
      show uflagPut clk p r.uuid ['a'] (satSucc r.timestamp) = _
      rw [hruuid]
      exact hputp
    have haccepts := @accepts_uflag clk p _ (reflagged r) hv (hvuuid.trans hruuid.symm)
      (hruuid ▸ huuid) hflag hrange (by rw [hputr])
    rw [hputr] at haccepts
    refine ⟨_, haccepts, ?_⟩
    have hgetp : p.uflagRecords[k]? = some r := by
      rw [hp.flags]
      exact hget
    refine ⟨?_, ?_, ?_⟩
    · rw [uflagSet_userRecords, uflagSet_userRecords, hp.users]
    · rw [uflagSet_maskRecords, uflagSet_maskRecords, hp.masks]
    · rw [hrecords, uflagSet_eq hgetp, hp.flags]
      rfl
  · refine .inr ⟨reflagged r, rfl, hruuid ▸ huuid, rfl, ?_, hrange.2⟩
    show i64Min ≤ satSucc r.timestamp
    have hmin : i64Min = -9223372036854775808 := rfl
    omega

/-! ### One admin -/

/-- The characters of a line of the floor. -/
def lineOk (c : Char) : Prop := c ≠ '\n' ∧ c ≠ '\x00'

/-- Characters of a line are those that a frame can carry. -/
theorem wireOk_lineOk : WireOk lineOk := fun _ hend hnul => ⟨hend, hnul⟩

/-- Lines of at most 340 bytes, no more than a user, its masks and its flags have. -/
structure FloorLines (ls : List Str) : Prop where
  fit : ∀ l ∈ ls, LineFit lineOk 340 l
  count : ls.length ≤ maxHubUserMasks + 2

/-- A text without a line end fits a line. -/
theorem lineFit_of_text {t : Str} {n : Nat} (hlen : utf8Len t ≤ n) (h : LineText t) :
    Fit lineOk n t :=
  ⟨hlen, fun _ hc => ⟨fun heq => h.2.1 (heq ▸ hc), fun heq => h.2.2 (heq ▸ hc)⟩⟩

/-- The line does not tell what it leaves out. -/
theorem formatUserRecord_wired (u : UserRecord) :
    formatUserRecord (wired u) = formatUserRecord u := by
  obtain ⟨uuid, name, key, hasKey, typ, active, seen, ts⟩ := u
  cases hasKey with
  | true => rfl
  | false => rfl

/-- The lines about an admin that comes back fit a frame: one for it and one for each of its
masks. -/
theorem reviveLines_fit (h : Restorable clk s i u) (hfits : Fits (fun _ => True) s)
    (hdel : u.isActive = false) :
    (∀ l ∈ reviveLines s u, LineFit lineOk 340 l)
    ∧ (reviveLines s u).length ≤ maxHubUserMasks + 1 := by
  have hundone := h.deleted hdel
  have hu := hfits.users.all u (List.mem_of_getElem? h.get)
  refine ⟨fun l hl => ?_, ?_⟩
  · rcases List.mem_cons.mp hl with rfl | hl
    · have hkey : Fit lineOk combinedKeyB64 (if u.hasPubkey then u.pubkeyB64 else []) := by
        split
        · rename_i hkey
          exact fit_of_pubkey (chars_of_pubkey wireOk_lineOk (hundone.key hkey))
            (hundone.key hkey)
        · exact .nil
      have htyp : Fit lineOk 1 [u.typ] := by
        rw [h.typ]
        exact fit_text wireOk_lineOk (by decide) (by decide)
      have hline : UserFits lineOk (wired (revived u)) :=
        ⟨fit_uuidShape wireOk_lineOk h.uuid, lineFit_of_text hu.name.len hundone.name.2, hkey,
         htyp, hu.seen,
          inI64_satSucc hu.stamp⟩
      rw [← formatUserRecord_wired]
      exact (hline.line wireOk_lineOk).mono (by decide)
    · obtain ⟨m, hm, rfl⟩ := List.mem_map.mp hl
      obtain ⟨hmem, hdrop⟩ := List.mem_filter.mp hm
      obtain ⟨k, hk⟩ := List.getElem?_of_mem hmem
      have htext := (hundone.masks k m hk hdrop).2.2
      have hm := hfits.masks.all m hmem
      have hmuuid : m.uuid = u.uuid := by
        unfold droppedWith at hdrop
        simp only [Bool.and_eq_true, beq_iff_eq] at hdrop
        exact hdrop.1.1.2
      have hline : MaskFits lineOk (reviveMask u m) := by
        unfold reviveMask
        rw [if_pos hdrop]
        exact ⟨hmuuid ▸ fit_uuidShape wireOk_lineOk h.uuid,
          lineFit_of_text hm.mask.len htext, hm.used, inI64_satSucc hm.stamp⟩
      exact hline.line wireOk_lineOk
  · have hlen : (s.maskRecords.filter (droppedWith u)).length ≤ maxHubUserMasks :=
      (List.length_filter_le _ _).trans hfits.masks.len
    unfold reviveLines
    rw [List.length_cons, List.length_map]
    omega

/-- The state after a deleted admin came back, before its flags. -/
def undeleted (s : HubState) (i : Nat) (u : UserRecord) : HubState :=
  { s with
    userRecords := s.userRecords.set i (revived u)
    maskRecords := s.maskRecords.map (reviveMask u) }

/-- One admin comes back. -/
structure AdminBack (clk : Clock) (s : HubState) (i : Nat) (u : UserRecord) (t : HubState)
    (ls : List Str) :
    Prop where
  eq : ∀ out, restoreAdmin clk (s, out) i = (t, out ++ ls.flatten)
  restored : Restored s i u t
  lines : FloorLines ls
  peer : ∀ p, SamePeople s p → ∃ q, Accepts clk p (ls.map List.dropLast) q ∧ SamePeople t q

/-- The flag line is a line. -/
theorem flagLine_fit {t : HubState} {ls : List Str} (h : FlagBack clk s u t ls) :
    (∀ l ∈ ls, LineFit lineOk 340 l) ∧ ls.length ≤ 1 := by
  rcases h.lines with rfl | ⟨r, rfl, huuid, hflags, hstamp⟩
  · exact ⟨fun l hl => (List.not_mem_nil hl).elim, Nat.zero_le _⟩
  · refine ⟨fun l hl => ?_, Nat.le_refl _⟩
    have hfit : FlagFits lineOk r :=
      ⟨fit_uuidShape wireOk_lineOk huuid, hflags ▸ fit_text wireOk_lineOk (by decide) (by decide),
       hstamp⟩
    rw [List.mem_singleton.mp hl]
    exact (hfit.line wireOk_lineOk).mono (by decide)

/-- The flags of the admin, in a state with its flag table. -/
theorem flagBack_of_restorable (h : Restorable clk s i u)
    (hflags : t.uflagRecords = s.uflagRecords) :
    ∃ w ls, FlagBack clk t u w ls := by
  cases hheld : (userFlags s u.uuid).contains 'a' with
  | true => exact ⟨t, [], flagBack_held (by rw [userFlags_congr hflags, hheld])⟩
  | false =>
    obtain ⟨k, r, hfind, hget, hpos, hbumps⟩ := h.lost hheld
    exact ⟨_, _, flagBack_lost h.uuid (by rw [userFlags_congr hflags, hheld])
      ((uflagFind_congr hflags u.uuid).trans hfind) (by rw [hflags]; exact hget) hpos hbumps⟩

/-- One admin that can be restored is back, with the lines that say so. `hfits` is what bounds the
texts and the tables. -/
theorem restoreAdmin_back (h : Restorable clk s i u) (hfits : Fits (fun _ => True) s) :
    ∃ t ls, AdminBack clk s i u t ls := by
  have hi := (List.getElem?_eq_some_iff.mp h.get).1
  -- the admin is there: only its flag comes back
  cases hact : u.isActive with
  | true =>
    obtain ⟨t, ls, hback⟩ := flagBack_of_restorable h (t := s) rfl
    refine ⟨t, ls, ?_, ⟨⟨u, ?_, rfl, h.typ, hact⟩, ⟨id, ?_, fun m => ⟨rfl, rfl, fun _ => rfl⟩⟩,
      hback.full, hback.others⟩,
      ⟨(flagLine_fit hback).1, (flagLine_fit hback).2.trans (by decide)⟩, fun p hp =>
      hback.peer p hp ?_⟩
    · intro out
      have hrev : reviveUser s i u = (s, []) := by
        unfold reviveUser
        rw [if_pos hact]
      unfold restoreAdmin
      rw [h.get]
      simp only [hrev, hback.eq, List.append_nil]
    · rw [hback.people.1, Table.set_of_getElem? h.get]
    · rw [hback.people.2, List.map_id]
    · exact ⟨u, by rw [hp.users]; exact List.mem_of_getElem? h.get, rfl⟩
  -- it was dropped: the record and its masks come back first
  | false =>
    obtain ⟨t, ls, hback⟩ := flagBack_of_restorable h (t := undeleted s i u) rfl
    obtain ⟨hfit, hcount⟩ := reviveLines_fit h hfits hact
    refine ⟨t, reviveLines s u ++ ls, ?_,
      ⟨⟨revived u, hback.people.1, rfl, h.typ, rfl⟩, ⟨reviveMask u, hback.people.2, ?_⟩,
      hback.full, hback.others⟩, ⟨?_, ?_⟩, fun p hp => ?_⟩
    · intro out
      unfold restoreAdmin
      rw [h.get]
      simp only [reviveUser_eq s i hact]
      show ((restoreFlag clk (undeleted s i u) u.uuid).1,
        out ++ (reviveLines s u).flatten ++ (restoreFlag clk (undeleted s i u) u.uuid).2) = _
      rw [hback.eq, List.flatten_append, List.append_assoc]
    · intro m
      refine ⟨(reviveMask_uuid u m).1, (reviveMask_uuid u m).2, fun hne => ?_⟩
      unfold reviveMask
      rw [if_neg]
      unfold droppedWith
      simp [hne]
    -- each line is short enough, the ones of the record and the one of the flag
    · intro l hl
      rcases List.mem_append.mp hl with hl | hl
      · exact hfit l hl
      · exact (flagLine_fit hback).1 l hl
    · have hone := (flagLine_fit hback).2
      rw [List.length_append]
      omega
    -- the peer takes the lines of the record, and with them the line of the flag
    · have hpeer := accepts_revive h hfits hact hp
      have hsame : SamePeople (undeleted s i u) { p with
          userRecords := p.userRecords.set i (revived u)
          maskRecords := p.maskRecords.map (reviveMask u) } :=
        ⟨by rw [hp.users]; rfl, by rw [hp.masks]; rfl, hp.flags⟩
      obtain ⟨q, hq, hqsame⟩ :=
        hback.peer _ hsame ⟨revived u, List.mem_set (by rw [hp.users]; exact hi) _, rfl⟩
      rw [List.map_append]
      exact ⟨q, hpeer.append hq, hqsame⟩

end Restore

end IrcHub.Proofs
