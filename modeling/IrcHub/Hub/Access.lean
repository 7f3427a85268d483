import IrcHub.Hub.State

/-!
# `IrcHub.Hub.Access`: admin flags and oper channel bindings

The access records of `access.rs`: one flag record per user (`uf`) and one binding per user and
channel (`uc`), the channel `"*"` being all channels. Both are replicated, so both are decided by
stamps.

Every writer goes through `uflagPut` and `uchanPut`, which check the fields, decide
last-writer-wins and respect the table ceilings. `true` says that the record was stored. The
writers are the lines of peers and bots (`accessIngest`), the grants of users from before these
records existed (`accessMigrate`), and the console:

* `uflagsEdit`: a flag change as typed, with and without signs
* `chanChangeInto`: a change to the bindings of an oper. It makes several writes, one after the
  other, and stops at the first that is refused. What was written before it stays
* `accessNextTs`: the stamp of such a change, past every stamp of the user

`chanChangeInto_induction` is the one place where the writes of a change are listed. Each property
of a change follows from it and the same property of `uchanPut`.

The two put functions differ in one rule. Flags go by `uflagsAccepts`, where on a tie the fewer
rights win, and bindings by `lwwAccepts`, where a delete does. What a user may do is read from the
same tables (`userHasFlag`, `userChanOk`).
-/

set_option autoImplicit false

namespace IrcHub.Hub

open Str
open String (utf8Len)

/-- A hexadecimal digit of either case. -/
def isHexDigit (c : Char) : Bool :=
  c.isDigit || ('a' ≤ c && c ≤ 'f') || ('A' ≤ c && c ≤ 'F')

/-- 36 characters, dashes at 8, 13, 18 and 23, hexadecimal digits elsewhere. -/
def uuidShape (u : Str) : Bool :=
  u.length == 36 &&
    u.zipIdx.all fun p => if p.2 ∈ [8, 13, 18, 23] then p.1 == '-' else isHexDigit p.1

/-- The letters of `input` once each in canonical order, `none` on an unknown letter. -/
def uflagsCanon (input : Str) : Option Str :=
  if input.all (userFlagLetters.contains ·) then
    some (userFlagLetters.filter (input.contains ·))
  else none

/-- Acceptance of a flag set: a newer stamp wins, on a tie the fewer rights. -/
def uflagsAccepts (clk : Clock) (inTs : Int) (input : Str) (curTs : Int) (cur : Str) : Bool :=
  if tsAhead clk inTs then false
  else if inTs ≠ curTs then decide (inTs > curTs)
  else if input.contains 'a' ≠ cur.contains 'a' then !input.contains 'a'
  else if utf8Len input ≠ utf8Len cur then decide (utf8Len input < utf8Len cur)
  else decide (input < cur)

/-- `"*"`, or a channel name without blank, comma, bar, colon or control byte. -/
def uchanNameOk (chan : Str) : Bool :=
  chan == ['*'] ||
    (decide (2 ≤ utf8Len chan) && decide (utf8Len chan < maxChan)
      && (chan.head? == some '#' || chan.head? == some '&')
      && chan.all fun c =>
        decide (c.toNat > 0x20) && c.toNat != 0x7f && c != ',' && c != '|' && c != ':')

/-- Index of the user's flag record. -/
def uflagFind (s : HubState) (uuid : Str) : Option Nat :=
  s.uflagRecords.findIdx? (fun r => r.uuid == uuid)

/-- Index of the user's binding to the channel. -/
def uchanFind (s : HubState) (uuid chan : Str) : Option Nat :=
  s.uchanRecords.findIdx? (fun r => r.uuid == uuid && eqIc r.chan chan)

/-- Write flags and stamp into record `i`. A drop of `a` is remembered for the admin
floor. -/
def uflagSet (s : HubState) (i : Nat) (uuid canon : Str) (ts : Int) : HubState :=
  let had := (s.uflagRecords[i]?.map (·.flags)).getD []
  let s' := { s with
    uflagRecords := s.uflagRecords.modify i fun r => { r with flags := canon, timestamp := ts } }
  -- kept in a ring, since the record no longer says that it held one
  if had.contains 'a' && !canon.contains 'a' then
    { s' with
      adrop := s.adrop.set s.adropNext (uuid, ts)
      adropNext := (s.adropNext + 1) % adminDropLog }
  else s'

/-- Store a flag record if it wins. -/
def uflagPut (clk : Clock) (s : HubState) (uuid flags : Str) (ts : Int) : HubState × Bool :=
  match uflagsCanon flags with
  | none => (s, false)
  | some canon =>
    -- a stamp too far ahead is refused before the record is looked up
    if !uuidShape uuid || ts ≤ 0 || tsAhead clk ts then (s, false)
    else
      match uflagFind s uuid with
      | some i =>
        match s.uflagRecords[i]? with
        | some r =>
          -- the stored record wins: nothing is written
          if !uflagsAccepts clk ts canon r.timestamp r.flags then (s, false)
          else (uflagSet s i uuid canon ts, true)
        | none => (s, false)
      | none =>
        -- at the ceiling a new record is refused, and no older one makes room for it
        if s.uflagRecords.length ≥ maxHubUserFlags then (s, false)
        else
          let s' := { s with uflagRecords := s.uflagRecords ++ [{ uuid := uuid }] }
          (uflagSet s' s.uflagRecords.length uuid canon ts, true)

/-- Write state and stamp into binding `i`. -/
def uchanSet (s : HubState) (i : Nat) (active : Bool) (ts : Int) : HubState :=
  { s with
    uchanRecords :=
      s.uchanRecords.modify i fun r => { r with isActive := active, timestamp := ts } }

/-- Store a binding if it wins. -/
def uchanPut (clk : Clock) (s : HubState) (uuid chan : Str) (active : Bool) (ts : Int) :
    HubState × Bool :=
  if !uuidShape uuid || !uchanNameOk chan || ts ≤ 0 || tsAhead clk ts then (s, false)
  else
    match uchanFind s uuid chan with
    | some i =>
      match s.uchanRecords[i]? with
      | some r =>
        if !lwwAccepts clk ts active r.timestamp r.isActive then (s, false)
        else (uchanSet s i active ts, true)
      | none => (s, false)
    | none =>
      -- a tombstone older than the last purge is not re-created
      if !active && purgeFloorBlocks clk s ts then (s, false)
      else if s.uchanRecords.length ≥ maxHubChanBinds then (s, false)
      else
        -- made as a live binding of stamp zero, then written like one that was there
        let s' := { s with uchanRecords := s.uchanRecords ++ [{ uuid := uuid, chan := chan }] }
        (uchanSet s' s.uchanRecords.length active ts, true)

/-! ### Lines -/

/-- The flag line on the wire. -/
def formatUflag (r : UflagRecord) : Str :=
  "uf|".toList ++ r.uuid ++ '|' :: r.flags ++ '|' :: ofInt r.timestamp ++ ['\n']

/-- The binding line on the wire. -/
def formatUchan (r : UchanRecord) : Str :=
  "uc|".toList ++ r.uuid ++ '|' :: r.chan ++ '|' ::
    (if r.isActive then "add".toList else "del".toList) ++ '|' :: ofInt r.timestamp ++ ['\n']

/-- The flags and bindings of the users that pass `keep`. -/
def accessAppend (s : HubState) (keep : Str → Bool) : Str :=
  (s.uflagRecords.filter fun r => keep r.uuid).flatMap formatUflag
    ++ (s.uchanRecords.filter fun r => keep r.uuid).flatMap formatUchan

/-- A text without the line ends it stops in. -/
def trimLineEnd (s : Str) : Str :=
  (s.reverse.dropWhile fun c => c == '\n' || c == '\r').reverse

/-- One line without its tag, `kind` being `f` or `c`: whether the record changed, `none` for a
malformed line. With `needUser` a record of a user the hub does not hold is dropped. -/
def accessIngest (clk : Clock) (s : HubState) (kind : Char) (body : Str) (needUser : Bool) :
    HubState × Option Bool :=
  -- a line of the full width would have been cut by the buffer it was read into
  if utf8Len body ≥ ucLineMax then (s, none)
  else
    let f := (trimLineEnd body).splitOn '|'
    -- a user the hub does not hold yet: the records come again behind its line
    if needUser && !s.userRecords.any (fun u => some u.uuid == f.head?) then (s, none)
    else if kind = 'f' then
      match f with
      | [uuid, flags, ts] => let p := uflagPut clk s uuid flags (atoll ts); (p.1, some p.2)
      | _ => (s, none)
    else
      match f with
      | [uuid, chan, act, ts] =>
        -- only the two words, never a prefix of one
        if act ≠ "add".toList && act ≠ "del".toList then (s, none)
        else let p := uchanPut clk s uuid chan (act == "add".toList) (atoll ts); (p.1, some p.2)
      | _ => (s, none)

/-! ### Rights of a user -/

/-- The flags a user holds, none for an unknown user. -/
def userFlags (s : HubState) (uuid : Str) : Str :=
  match uflagFind s uuid with
  | some i => (s.uflagRecords[i]?.map (·.flags)).getD []
  | none => []

/-- Admin flag check: `a` passes every letter. -/
def userHasFlag (s : HubState) (uuid : Str) (flag : Char) : Bool :=
  (userFlags s uuid).contains 'a' || (flag != '\x00' && (userFlags s uuid).contains flag)

/-- An oper's channel access: a live `"*"`, or a live binding to the channel. -/
def userChanOk (s : HubState) (uuid : Str) (chan : Option Str) : Bool :=
  s.uchanRecords.any fun r =>
    -- a stored name keeps its case, so the comparison folds it
    r.isActive && r.uuid == uuid && (r.chan == ['*'] || chan.any fun c => eqIc r.chan c)

/-- A live admin without flags gets `a`, a live oper without bindings gets `"*"`, both at the
oldest stamp there is. Also counts the records made. -/
def migrateUser (clk : Clock) (p : HubState × Nat) (u : Str × Char) : HubState × Nat :=
  let (uuid, typ) := u
  -- only an admin who never had a flag record; one that was cleared stays clear
  if typ = 'a' && (uflagFind p.1 uuid).isNone then
    let q := uflagPut clk p.1 uuid ['a'] userAccessMigrateTs
    (q.1, if q.2 then p.2 + 1 else p.2)
  -- a tombstone counts as a record here: a removed oper is not made global again
  else if typ = 'o' && !p.1.uchanRecords.any (fun r => r.uuid == uuid) then
    let q := uchanPut clk p.1 uuid ['*'] true userAccessMigrateTs
    (q.1, if q.2 then p.2 + 1 else p.2)
  else p

/-- Every live user gets the access records it lacks. -/
def accessMigrate (clk : Clock) (s : HubState) : HubState × Nat :=
  ((s.userRecords.filter (·.isActive)).map fun u => (u.uuid, u.typ)).foldl
  (migrateUser clk) (s, 0)

/-- The letters held, the sign in force and whether a letter was seen, one character on. -/
def uflagsEditStep (acc : Option (Str × Option Bool × Bool)) (c : Char) :
    Option (Str × Option Bool × Bool) :=
  match acc with
  | none => none
  | some (held, sign, any) =>
    if c = '+' then some (held, some true, any)
    else if c = '-' then some (held, some false, any)
    -- a letter outside the set makes the whole change invalid
    else if !userFlagLetters.contains c then none
    else
      match sign with
      -- a letter before any sign
      | none => none
      | some true => some (c :: held, sign, true)
      | some false => some (held.filter (· != c), sign, true)

/-- A flag change as typed: `+c-u` edits the flags, anything without a minus replaces them. -/
def uflagsEdit (cur spec : Str) : Option Str :=
  if spec.isEmpty then none
  else if !spec.contains '-' then
    let body := if spec.head? = some '+' then spec.tail else spec
    if spec.head? = some '+' && body.isEmpty then none else uflagsCanon body
  else
    match spec.foldl uflagsEditStep (some ((uflagsCanon cur).getD [], none, false)) with
    -- a change without a single letter says nothing
    | some (held, _, true) => some (userFlagLetters.filter (held.contains ·))
    | _ => none

/-- Stamp of a change to the access records of a user: past every stamp they carry. -/
def accessNextTs (clk : Clock) (s : HubState) (uuid : Str) : Int :=
  let flag := match uflagFind s uuid with
    | some i => (s.uflagRecords[i]?.map (·.timestamp)).getD 0
    | none => 0
  lwwNextTs clk
    ((s.uchanRecords.filter fun r => r.uuid == uuid).foldl
    (fun prev r => max prev r.timestamp) flag)

/-- The live bindings of a user. -/
def liveBindings (s : HubState) (uuid : Str) : List Str :=
  (s.uchanRecords.filter fun r => r.isActive && r.uuid == uuid).map (·.chan)

/-- A change under way: the state, the text of its lines and their number. -/
structure BindChange where
  state : HubState
  out : Str
  n : Nat := 0

/-- One write and its line. `false`: the write was refused. -/
def BindChange.emit (clk : Clock) (uuid : Str) (ts : Int) (p : BindChange) (c : Str)
    (act : Bool) : BindChange × Bool :=
  let q := uchanPut clk p.state uuid c act ts
  -- refused: what was written before stays, and no line tells of this one
  if !q.2 then ({ p with state := q.1 }, false)
  else
    match (uchanFind q.1 uuid c).bind (q.1.uchanRecords[·]?) with
    | some r => ({ state := q.1, out := p.out ++ formatUchan r, n := p.n + 1 }, true)
    -- the record just written is always there; the source reads it back all the same
    | none => ({ p with state := q.1, n := p.n + 1 }, true)

/-- Deletes one after the other, up to the first that is refused. -/
def BindChange.emitDels (clk : Clock) (uuid : Str) (ts : Int) : List Str → BindChange →
    BindChange × Bool
  | [], p => (p, true)
  | c :: cs, p =>
    match p.emit clk uuid ts c false with
    | (p, true) => emitDels clk uuid ts cs p
    | (p, false) => (p, false)

/-- The `"*"` delete, unless there is a record of `"*"`. -/
def BindChange.emitStarDel (clk : Clock) (uuid : Str) (ts : Int) (p : BindChange) :
    BindChange × Bool :=
  if (uchanFind p.state uuid ['*']).isNone then p.emit clk uuid ts ['*'] false else (p, true)

/-- The writes of a change, in their order. -/
def BindChange.writes (clk : Clock) (uuid : Str) (ts : Int) (add : Bool) (chan : Str)
    (p : BindChange) :
    BindChange × Bool :=
  let star := chan == ['*']
  if add then
    match p.emit clk uuid ts chan true with
    | (p, false) => (p, false)
    | (p, true) =>
      -- the other kind goes
      match BindChange.emitDels clk uuid ts ((liveBindings p.state uuid).filter fun c =>
        (c == ['*']) != star) p with
      | (p, false) => (p, false)
      | (p, true) => if star then (p, true) else p.emitStarDel clk uuid ts
  else if star then
    match BindChange.emitDels clk uuid ts (liveBindings p.state uuid) p with
    -- a delete of the star removes every binding, and leaves a tombstone of the star
    | (p, false) => (p, false)
    | (p, true) => p.emitStarDel clk uuid ts
  else p.emit clk uuid ts chan false

/-- A change to the bindings of an oper, its lines appended to `out`. The number of lines, `none`
when a write was refused. -/
def chanChangeInto (clk : Clock) (s : HubState) (uuid : Str) (add : Bool) (chan out : Str) :
    HubState × Str × Option Nat :=
  let r := BindChange.writes clk uuid (accessNextTs clk s uuid) add chan
    { state := s, out := out }
  (r.1.state, r.1.out, if r.2 then some r.1.n else none)

/-- A change as the console makes it: into a text of its own. Also the lines written, `none` when
a write was refused. -/
def chanChange (clk : Clock) (s : HubState) (uuid : Str) (add : Bool) (chan : Str) :
    HubState × Option Str :=
  let r := chanChangeInto clk s uuid add chan []
  (r.1, r.2.2.map fun _ => r.2.1)

/-! What every binding write keeps, a whole change keeps. -/

section Induction

variable {clk : Clock} {uuid : Str} {ts : Int} {P : HubState → Prop}

/-- One write. -/
theorem BindChange.emit_induction (hput : ∀ s c act, P s → P (uchanPut clk s uuid c act ts).1)
    {p : BindChange} (hp : P p.state) (c : Str) (act : Bool) :
    P (p.emit clk uuid ts c act).1.state := by
  have hput := hput p.state c act hp
  unfold BindChange.emit
  dsimp only
  split
  · exact hput
  split
  · exact hput
  · exact hput

/-- Deletes one after the other. -/
theorem BindChange.emitDels_induction (hput : ∀ s c act, P s → P (uchanPut clk s uuid c act ts).1)
    (cs : List Str) {p : BindChange} (hp : P p.state) :
    P (BindChange.emitDels clk uuid ts cs p).1.state := by
  induction cs generalizing p with
  | nil => exact hp
  | cons c cs ih =>
    have hemit := BindChange.emit_induction hput hp c false
    unfold BindChange.emitDels
    split
    · rename_i q hq
      rw [hq] at hemit
      exact ih hemit
    · rename_i q hq
      rw [hq] at hemit
      exact hemit

/-- The `"*"` delete. -/
theorem BindChange.emitStarDel_induction
    (hput : ∀ s c act, P s → P (uchanPut clk s uuid c act ts).1) {p : BindChange}
    (hp : P p.state) :
    P (p.emitStarDel clk uuid ts).1.state := by
  unfold BindChange.emitStarDel
  split
  · exact BindChange.emit_induction hput hp _ _
  · exact hp

/-- A whole change. The cases are those of the source: an add of a channel or of `"*"`, a delete
of `"*"`, and a delete of a channel. `hput` is the property for one write, under the stamp that
all writes of the change share; it is asked for every state, since a later write starts from what
an earlier one left. -/
theorem chanChangeInto_induction {s : HubState}
    (hput : ∀ t c act, P t → P (uchanPut clk t uuid c act (accessNextTs clk s uuid)).1) (hs : P s)
    (add : Bool) (chan out : Str) : P (chanChangeInto clk s uuid add chan out).1 := by
  have hstart : P ({ state := s, out := out } : BindChange).state := hs
  unfold chanChangeInto BindChange.writes
  dsimp only
  split
  · have hemit := BindChange.emit_induction hput hstart chan true
    split
    · rename_i q hq
      rw [hq] at hemit
      exact hemit
    rename_i q hq
    rw [hq] at hemit
    have hdels := BindChange.emitDels_induction hput
      ((liveBindings q.state uuid).filter fun c => (c == ['*']) != (chan == ['*'])) hemit
    split
    · rename_i q' hq'
      rw [hq'] at hdels
      exact hdels
    rename_i q' hq'
    rw [hq'] at hdels
    split
    · exact hdels
    · exact BindChange.emitStarDel_induction hput hdels
  split
  · have hdels := BindChange.emitDels_induction hput (liveBindings s uuid) hstart
    split
    · rename_i q hq
      rw [hq] at hdels
      exact hdels
    · rename_i q hq
      rw [hq] at hdels
      exact BindChange.emitStarDel_induction hput hdels
  · exact BindChange.emit_induction hput hstart chan false

end Induction

end IrcHub.Hub
