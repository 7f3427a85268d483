import IrcHub.Lib.Table
import IrcHub.Proofs.Users.Merge

/-!
# `IrcHub.Proofs.Users.Refused`: what a refused line leaves behind

A user or usermask line that last-writer-wins refuses still carries the time its user was last
seen, or its mask last used, and that time is merged outside last-writer-wins. Against a record
the hub holds, a refused line changes that time and nothing else.

* `raisedTo`: what becomes of the time: the later of the two, unless the line's is in the future
* `userTables_refused`, `userTables_refused_mask`: the two tables after a refused line
* `refused_line_raises_only`: what a line that is not stored leaves behind, in each of the ways it
  can fail to be stored
* `refused_line_raises`: a refused line that raises a time
-/

set_option autoImplicit false

namespace IrcHub.Proofs

open IrcHub.Hub Str

/-- The user and the usermask table. -/
def userTables (s : HubState) : List UserRecord × List MaskRecord :=
  (s.userRecords, s.maskRecords)

/-- An activity time after a line reported `ts`. One too far in the future is not believed. -/
def raisedTo (clk : Clock) (cur ts : Int) : Int :=
  if ts > clk.now + activityMaxFuture then cur else max cur ts

/-- A user's last-seen stamp that is raised, in the tables. -/
theorem userTables_raise_user {clk : Clock} {s : HubState} {i : Nat} {u : UserRecord}
    (hget : s.userRecords[i]? = some u) (ts : Int) :
    userTables (raise clk s (.user i) ts)
      = (s.userRecords.set i { u with lastSeen := raisedTo clk u.lastSeen ts },
        s.maskRecords) := by
  unfold raise raisedTo userTables
  split
  · have hsame : s.userRecords.set i u = s.userRecords := Table.set_of_getElem? hget
    exact Prod.ext hsame.symm rfl
  · simp [List.modify_eq_set_getElem?, hget]

/-- A mask's last-used stamp that is raised. -/
theorem userTables_raise_mask {clk : Clock} {s : HubState} {i : Nat} {m : MaskRecord}
    (hget : s.maskRecords[i]? = some m) (ts : Int) :
    userTables (raise clk s (.mask i) ts)
      = (s.userRecords, s.maskRecords.set i
        { m with lastUsed := raisedTo clk m.lastUsed ts }) := by
  unfold raise raisedTo userTables
  split
  · have hsame : s.maskRecords.set i m = s.maskRecords := Table.set_of_getElem? hget
    exact Prod.ext rfl hsame.symm
  · simp [List.modify_eq_set_getElem?, hget]

/-- A refused user line: the record it was compared with takes the time it reports. -/
theorem userTables_refused {clk : Clock} {s t : HubState} {key : Char} {vstart : Str}
    {inc cur : UserRecord} {i : Nat} (cnt : SyncCounters)
    (hparse : parseUserRecord vstart key = some inc) (hslot : userSlot clk s inc = some (t, i))
    (hget : t.userRecords[i]? = some cur)
    (hacc : lwwAccepts clk inc.timestamp inc.isActive cur.timestamp cur.isActive = false) :
    userTables (syncUserRecord clk s key vstart cnt).1
      = (t.userRecords.set i { cur with lastSeen := raisedTo clk cur.lastSeen inc.lastSeen },
        t.maskRecords) := by
  have hsync : (syncUserRecord clk s key vstart cnt).1 = raise clk t (.user i) inc.lastSeen := by
    simp [syncUserRecord, hparse, hslot, hget, hacc]
  rw [hsync]
  exact userTables_raise_user hget inc.lastSeen

/-- A refused usermask line, likewise. -/
theorem userTables_refused_mask {clk : Clock} {s t : HubState} {vstart : Str}
    {inc cur : MaskRecord} {i : Nat} (line : Str) (cnt : SyncCounters)
    (hparse : parseMaskRecord vstart = some inc) (huser : userFind s inc.uuid ≠ none)
    (hslot : maskSlot clk s inc = some (t, i)) (hget : t.maskRecords[i]? = some cur)
    (hacc : lwwAccepts clk inc.timestamp inc.isActive cur.timestamp cur.isActive = false) :
    userTables (syncMaskRecord clk s vstart line cnt).1
      = (t.userRecords,
        t.maskRecords.set i { cur with lastUsed := raisedTo clk cur.lastUsed inc.lastUsed }) := by
  have hknown : (userFind s inc.uuid).isNone = false := Option.isNone_eq_false_iff.mpr
    (Option.isSome_iff_ne_none.mpr huser)
  have hsync : (syncMaskRecord clk s vstart line cnt).1 = raise clk t (.mask i) inc.lastUsed := by
    simp [syncMaskRecord, hparse, hknown, hslot, hget, hacc]
  rw [hsync]
  exact userTables_raise_mask hget inc.lastUsed

/-- What a line that is not stored leaves behind. Refused against the record of its uuid (its uuid
and mask), it raises that record's activity time and changes nothing else; refused against the
live record of its name, that record and its masks take its uuid first; stopped before the
comparison, it changes nothing. -/
theorem refused_line_raises_only (clk : Clock) (s : HubState) (cnt : SyncCounters) :
    (∀ key vstart inc i cur, parseUserRecord vstart key = some inc →
      userFind s inc.uuid = some i → s.userRecords[i]? = some cur →
      lwwAccepts clk inc.timestamp inc.isActive cur.timestamp cur.isActive = false →
      userTables (syncUserRecord clk s key vstart cnt).1
        = (s.userRecords.set i { cur with lastSeen := raisedTo clk cur.lastSeen inc.lastSeen },
          s.maskRecords))
    ∧ (∀ key vstart inc i ex, parseUserRecord vstart key = some inc →
      userSlot clk s inc = some (adoptUuid clk s i ex inc, i) → s.userRecords[i]? = some ex →
      lwwAccepts clk inc.timestamp inc.isActive ex.timestamp ex.isActive = false →
      userTables (syncUserRecord clk s key vstart cnt).1
        = (s.userRecords.set i
            { ex with uuid := inc.uuid, lastSeen := raisedTo clk ex.lastSeen inc.lastSeen },
          s.maskRecords.map fun m => if m.uuid == ex.uuid
            then { m with uuid := inc.uuid } else m))
    ∧ (∀ vstart line inc i cur, parseMaskRecord vstart = some inc → userFind s inc.uuid ≠ none →
      maskFind s inc.uuid inc.mask = some i → s.maskRecords[i]? = some cur →
      lwwAccepts clk inc.timestamp inc.isActive cur.timestamp cur.isActive = false →
      userTables (syncMaskRecord clk s vstart line cnt).1
        = (s.userRecords,
          s.maskRecords.set i { cur with lastUsed := raisedTo clk cur.lastUsed inc.lastUsed }))
    ∧ (∀ key vstart, (∀ inc, parseUserRecord vstart key = some inc → userSlot clk s inc = none) →
      userTables (syncUserRecord clk s key vstart cnt).1 = userTables s)
    ∧ (∀ vstart line, (∀ inc, parseMaskRecord vstart = some inc →
        userFind s inc.uuid = none ∨ maskSlot clk s inc = none) →
      userTables (syncMaskRecord clk s vstart line cnt).1 = userTables s) := by
  refine ⟨?_, ?_, ?_, ?_, ?_⟩
  -- against the record of its uuid
  · intro key vstart inc i cur hparse hfind hget hacc
    have hslot : userSlot clk s inc = some (s, i) := by simp [userSlot, hfind]
    exact userTables_refused cnt hparse hslot hget hacc
  -- against the live record of its name
  · intro key vstart inc i ex hparse hslot hget hacc
    have hlt := (List.getElem?_eq_some_iff.mp hget).1
    have hget' : (adoptUuid clk s i ex inc).userRecords[i]? = some
      { ex with uuid := inc.uuid } := by
      simp [adoptUuid, hget]
    have hset : (adoptUuid clk s i ex inc).userRecords
        = s.userRecords.set i { ex with uuid := inc.uuid } := by
      simp [adoptUuid, List.modify_eq_set_getElem?, hget]
    rw [userTables_refused cnt hparse hslot hget' hacc, hset, List.set_set]
    simp [adoptUuid]
  -- a mask against the mask of its text
  · intro vstart line inc i cur hparse huser hfind hget hacc
    have hslot : maskSlot clk s inc = some (s, i) := by simp [maskSlot, hfind]
    exact userTables_refused_mask line cnt hparse huser hslot hget hacc
  -- a user line that never came to the comparison
  · intro key vstart h
    unfold syncUserRecord
    cases hparse : parseUserRecord vstart key with
    | none => rfl
    | some inc => simp [h inc hparse]
  -- nor a mask line
  · intro vstart line h
    unfold syncMaskRecord
    cases hparse : parseMaskRecord vstart with
    | none => rfl
    | some inc =>
      rcases h inc hparse with huser | hslot
      · simp [huser]
      · simp only [hslot]
        split <;> rfl

/-- An admin, seen at 100 and stamped 900. -/
def alice : UserRecord where
  uuid := "01234567-89ab-cdef-0123-456789abcdef".toList
  name := "alice".toList
  typ := 'a'
  isActive := true
  lastSeen := 100
  timestamp := 900

/-- A hub that knows her. -/
def oneAdmin : HubState where
  userRecords := [alice]

/-- An older line that saw her at 500. -/
def olderLine : Str := "01234567-89ab-cdef-0123-456789abcdef|alice||add|500|800|".toList

/-- The theorem at that line. -/
theorem refused_olderLine :
    userTables (syncUserRecord { now := 1000 } oneAdmin 'a' olderLine {}).1
      = ([{ alice with lastSeen := 500 }], []) := by
  have hparse : parseUserRecord olderLine 'a'
      = some { alice with lastSeen := 500, timestamp := 800 } := by decide +kernel
  have hfind : userFind oneAdmin alice.uuid = some 0 := by decide +kernel
  exact (refused_line_raises_only { now := 1000 } oneAdmin {}).1 'a' olderLine _ 0 alice hparse
    hfind rfl (by decide)

/-- The rule refuses the line, and the user table is not as it was. -/
theorem refused_line_raises :
    lwwAccepts { now := 1000 } 800 true 900 true = false
      ∧ (syncUserRecord { now := 1000 } oneAdmin 'a' olderLine {}).1.userRecords
        ≠ oneAdmin.userRecords := by
  refine ⟨by decide, by decide +kernel⟩

end IrcHub.Proofs
