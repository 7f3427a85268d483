import IrcHub.Proofs.Global.Store
import IrcHub.Proofs.Writes.Frames

/-!
# `IrcHub.Proofs.Writes.Runs`: every operation of a hub is a chain of writes

`writes_run` is about one operation: the commands of the console, the frames and the timers. What
holds of the empty hub and what every write keeps holds in every state a hub reaches
(`keeps_runHub`).

An invariant of the records is proved in two steps by this: once for each `Write`, by cases, and
once for the empty hub. The invariants of the channels, of the rights and of the stamps are proved
so, and none of them looks at a command.
-/

set_option autoImplicit false

namespace IrcHub.Proofs

open IrcHub.Hub Str

variable {clk : Clock} {r s t : HubState}

/-! ### Commands of an admin -/

/-- The rights a new user is given, by induction on the channels. -/
theorem WriteChain.userAddRights (h : WriteChain clk r s) (typ : Char) (uuid flags : Str)
    (chans : List Str) :
    WriteChain clk r (userAddRights clk s typ uuid flags chans) := by
  unfold Hub.userAddRights
  split
  · exact h.tail (.flag _ _ _)
  · have hchans := WriteChain.foldl (f := fun s c => (uchanPut clk s uuid c true clk.now).1)
      (fun t c ht => ht.tail (.bind _ _ _ _)) h chans
    simp only []
    split
    · exact hchans
    · exact hchans.tail (.bind _ _ _ _)

/-- `user add`. -/
theorem WriteChain.addUserRecord (h : WriteChain clk r s) (payload : Str) (typ : Char)
    (uuid : Str) :
    WriteChain clk r (addUserRecord clk s payload typ uuid) := by
  unfold Hub.addUserRecord
  split
  · exact h
  split
  · exact h
  split
  · exact h
  refine WriteChain.broadcast (WriteChain.userAddRights ?_ typ uuid _ _) _
  refine h.newUser ?_ _
  exact .inr rfl

/-- A change is stamped past the stamp it changes, as far as stamps go. -/
theorem le_lwwNextTs (clk : Clock) (prev : Int) : min prev i64Max ≤ lwwNextTs clk prev := by
  unfold lwwNextTs satSucc
  split
  · omega
  · omega

/-- `user del`: the user, its masks and its rights. -/
theorem WriteChain.delUserRecord (h : WriteChain clk r s) (payload : Str) :
    WriteChain clk r (delUserRecord clk s payload) := by
  unfold Hub.delUserRecord
  split
  · exact h
  rename_i ui u hfind
  split
  · exact h
  obtain ⟨i, -, hget⟩ := Option.bind_eq_some_iff.mp hfind
  obtain ⟨v, hv, heq⟩ := Option.map_eq_some_iff.mp hget
  cases heq
  exact WriteChain.broadcast (h.setUser hv (le_lwwNextTs _ _) _) _

/-- A mask is written over or added. -/
theorem WriteChain.maskWrite (h : WriteChain clk r s) (i : Nat) (m : MaskRecord) :
    WriteChain clk r (maskWrite s i m) := (h.masks _).broadcast _

/-- `user mask add`. -/
theorem WriteChain.addUsermask (h : WriteChain clk r s) (payload : Str) :
    WriteChain clk r (addUsermask clk s payload) := by
  unfold Hub.addUsermask
  split
  · exact h
  split
  · exact h
  split
  · exact h
  simp only []
  split
  · exact h
  split
  · exact h.maskWrite _ _
  · split
    · exact h
    · exact (h.masks _).broadcast _

/-- `user mask del`. -/
theorem WriteChain.delUsermask (h : WriteChain clk r s) (payload : Str) :
    WriteChain clk r (delUsermask clk s payload) := by
  unfold Hub.delUsermask
  split
  · exact h
  split
  · exact h
  split
  · exact h
  split
  · exact h
  · exact h.maskWrite _ _

/-- `user key`. -/
theorem WriteChain.setUserkey (h : WriteChain clk r s) (payload : Str) :
    WriteChain clk r (setUserkey clk s payload) := by
  unfold Hub.setUserkey
  split
  · exact h
  split
  · exact h
  split
  · exact h
  rename_i ti u hfind
  split
  · exact h
  obtain ⟨i, -, hget⟩ := Option.bind_eq_some_iff.mp hfind
  obtain ⟨v, hv, heq⟩ := Option.map_eq_some_iff.mp hget
  cases heq
  exact WriteChain.broadcast (h.setUser hv (le_lwwNextTs _ _) s.maskRecords) _

/-- A change to the bindings is a chain of binding writes. -/
theorem WriteChain.chanChange (h : WriteChain clk r s) (uuid : Str) (add : Bool) (chan : Str) :
    WriteChain clk r (chanChange clk s uuid add chan).1 :=
  chanChangeInto_induction (fun _ _ _ h => h.tail (.bind _ _ _ _)) h add chan []

/-- `user access`, which changes flags and bindings. -/
theorem WriteChain.userAccess (h : WriteChain clk r s) (payload : Str) :
    WriteChain clk r (userAccess clk s payload) := by
  have hflags : ∀ (t : UserRecord) (spec : Str), WriteChain clk r
    (userSetFlags clk s t spec) := by
    intro t spec
    unfold userSetFlags
    split
    · exact h
    split
    · exact h
    split
    · exact h
    rename_i flags _ _
    have hput : WriteChain clk r (uflagPut clk s t.uuid flags (accessNextTs clk s t.uuid)).1 :=
      h.tail (.flag _ _ _)
    simp only []
    split
    · exact hput
    split
    · exact hput
    · exact hput.broadcast _
  have hchans : ∀ (t : UserRecord) (add : Bool) (chan : Str),
      WriteChain clk r (userSetChan clk s t add chan) := by
    intro t add chan
    unfold userSetChan
    split
    · exact h
    have hchange := h.chanChange t.uuid add chan
    simp only []
    split
    · exact hchange
    split
    · exact hchange
    · exact hchange.broadcast _
  unfold Hub.userAccess
  simp only []
  split
  · split
    · split
      · exact hflags _ _
      · exact h
    split
    · split
      · exact hchans _ _ _
      · exact h
    · exact h
  · exact h

/-- `channel add`. -/
theorem WriteChain.addChannel (h : WriteChain clk r s) (payload : Str) :
    WriteChain clk r (addChannel clk s payload) := by
  unfold Hub.addChannel
  simp only []
  split
  · exact h
  · exact WriteChain.broadcast (h.tail (.update _ _ _ _ _)) _

/-- `channel del`: the cascade, then the tombstone. -/
theorem WriteChain.delChannel (h : WriteChain clk r s) (payload : Str) :
    WriteChain clk r (delChannel clk s payload) := by
  unfold Hub.delChannel
  split
  · exact h
  · have hcascade : WriteChain clk r
      (chanCascadeDel clk s payload (chanDelStamp clk s payload) true).1 :=
      h.tail (.cascade _ _ _)
    exact WriteChain.broadcast (hcascade.tail (.update _ _ _ _ _)) _

/-- A checked record is stored. -/
theorem WriteChain.storeRecord (h : WriteChain clk r s) (k : GlobalKey) (value : Str)
    (prev : Int) :
    WriteChain clk r (storeRecord clk s k value prev).1 := by
  have hput : WriteChain clk r (putRecord clk s k value (lwwNextTs clk prev)).1 :=
    h.tail (.put _ _ _)
  unfold Hub.storeRecord
  simp only []
  split
  · unfold announceRecord
    simp only []
    split
    · exact hput.broadcast _
    · exact hput
  · exact hput

/-- `channel set` is a put of one record. -/
theorem WriteChain.chansetPut (h : WriteChain clk r s) (chan modes settings : Str) :
    WriteChain clk r (chansetPut clk s chan modes settings).1 := by
  unfold Hub.chansetPut
  split
  · exact h
  split
  · exact h
  split
  · exact h
  split
  · exact h
  split
  · exact h
  split
  · exact h
  · exact h.storeRecord .C _ _

/-- `net set`. -/
theorem WriteChain.netsetPut (h : WriteChain clk r s) (modes settings : Str) :
    WriteChain clk r (netsetPut clk s modes settings).1 := by
  unfold Hub.netsetPut
  split
  · exact h
  split
  · exact h
  split
  · exact h
  · exact h.storeRecord .D _ _

/-- `ban add`. -/
theorem WriteChain.banAdd (h : WriteChain clk r s) (chan mask : Str) (expires : Int)
    (sticky : Bool) (setter reason : Str) :
    WriteChain clk r (banAdd clk s chan mask expires sticky setter reason).1 := by
  have hite : ∀ (c : Prop) [Decidable c] (p q : HubState × ModesStatus), WriteChain clk r p.1 →
      WriteChain clk r q.1 → WriteChain clk r (if c then p else q).1 := fun c _ p q hp hq =>
    iteInduction (motive := fun x : HubState × ModesStatus => WriteChain clk r x.1) (fun _ => hp)
      fun _ => hq
  unfold Hub.banAdd
  refine hite _ _ _ h (hite _ _ _ h ?_)
  split
  · exact h
  refine hite _ _ _ h
    (hite _ _ _ h (hite _ _ _ h (hite _ _ _ h (hite _ _ _ h (hite _ _ _ h ?_)))))
  exact h.storeRecord .B _ _

/-- `ban del`. -/
theorem WriteChain.banDel (h : WriteChain clk r s) (chan mask : Str) :
    WriteChain clk r (banDel clk s chan mask).1 := by
  unfold Hub.banDel
  split
  · exact h
  split
  · exact h
  split
  · exact h
  split
  · exact h
  split
  · exact h
  · exact h.storeRecord .B _ _

/-- `bot add`: the new bot is elsewhere, and its values go through the update of an entry. -/
theorem WriteChain.createBotCmd (h : WriteChain clk r s) {payload : Str}
    (ht : createBotCmd clk s payload = some t) : WriteChain clk r t := by
  unfold Hub.createBotCmd at ht
  split at ht
  · split at ht
    · split at ht
      · unfold createBot at ht
        split at ht
        · cases ht
          exact h
        unfold addBotMemory at ht
        split at ht
        · cases ht
          exact h
        simp only [Option.bind_eq_bind, Option.bind_eq_some_iff] at ht
        obtain ⟨p, hp, q, hq, u, hu, heq⟩ := ht
        cases heq
        refine WriteChain.updateEntry
          (WriteChain.updateEntry (WriteChain.updateEntry (h.elsewhere ?_) hp) hq) hu
        exact ⟨rfl, rfl, rfl, rfl, rfl, rfl, rfl⟩
      · cases ht
        exact h
    · cases ht
      exact h
  · cases ht
    exact h

/-- `bot del`. -/
theorem WriteChain.deleteBot (h : WriteChain clk r s) {uuid : Str}
    (ht : deleteBot clk s uuid = some t) :
    WriteChain clk r t := by
  unfold Hub.deleteBot at ht
  split at ht
  · cases ht
    exact h
  split at ht
  · cases ht
    exact h
  simp only [] at ht
  split at ht
  · cases ht
  rename_i p hupdate
  have hp : WriteChain clk r p.1 := h.updateEntry hupdate
  split at ht
  · cases ht
    exact hp
  · cases ht
    exact hp.broadcast _

/-- The option flags. -/
theorem WriteChain.optWrite (h : WriteChain clk r s) (flags : Str) :
    WriteChain clk r (optWrite clk s flags) := by
  refine WriteChain.broadcast (WriteChain.elsewhere h ?_) _
  exact ⟨rfl, rfl, rfl, rfl, rfl, rfl, rfl⟩

/-- A purge with its broadcast. -/
theorem WriteChain.purgeAndBroadcast (h : WriteChain clk r s) (cutoff : Int) (id : Str) :
    WriteChain clk r (purgeAndBroadcast clk s cutoff id) :=
  ((h.executePurge cutoff).recordRecentPurge cutoff id).broadcast _

/-- A sweep of the bans, which puts a tombstone for each that has expired. -/
theorem WriteChain.bansSweep (h : WriteChain clk r s) : WriteChain clk r (bansSweep clk s) :=
  bansSweep_induction (P := WriteChain clk r)
    (fun _ ht => ht.elsewhere ⟨rfl, rfl, rfl, rfl, rfl, rfl, rfl⟩)
    (fun _ _ ht _ => ht.tail (.put _ _ _)) (fun _ p ht => ht.broadcast p) h

/-! ### Runs -/

/-- Every operation is a chain of writes. The cases are the operations. -/
theorem writes_run {op : HubOp} (ht : op.run clk s = some t) : WriteChain clk s t := by
  have h := WriteChain.refl clk s
  cases op with
  -- the lines of a peer and of a bot
  | peerSync frame => exact h.processPeerSync ht
  | push id frame => exact h.processBotConfigPush ht
  | delta id frame => exact h.processBotDelta ht
  -- the console's commands
  | userAdd admin payload random =>
    cases ht
    exact h.addUserRecord _ _ _
  | userDel payload =>
    cases ht
    exact h.delUserRecord _
  | maskAdd payload =>
    cases ht
    exact h.addUsermask _
  | maskDel payload =>
    cases ht
    exact h.delUsermask _
  | userKey payload =>
    cases ht
    exact h.setUserkey _
  | userAccess payload =>
    cases ht
    exact h.userAccess _
  | chanAdd payload =>
    cases ht
    exact h.addChannel _
  | chanDel payload =>
    cases ht
    exact h.delChannel _
  | chanset chan modes settings =>
    cases ht
    exact h.chansetPut _ _ _
  | netset modes settings =>
    cases ht
    exact h.netsetPut _ _
  | banAdd chan mask expires sticky setter reason =>
    cases ht
    exact h.banAdd _ _ _ _ _ _
  | banDel chan mask =>
    cases ht
    exact h.banDel _ _
  | botAdd payload => exact h.createBotCmd ht
  | botDel payload => exact h.deleteBot ht
  | optSet payload =>
    cases ht
    exact h.optWrite _
  | purgeDays payload =>
    cases ht
    unfold setPurgeDays
    split
    · exact h
    · refine WriteChain.broadcast (h.elsewhere ?_) _
      unfold gsettingSet
      split
      · exact .refl s
      · exact ⟨rfl, rfl, rfl, rfl, rfl, rfl, rfl⟩
  | purge payload id =>
    cases ht
    unfold purgeTombstones
    split
    · exact h.purgeAndBroadcast _ _
    split
    · exact h
    split
    · exact h
    · exact h.purgeAndBroadcast _ _
  | freeze on =>
    cases ht
    unfold optFlagSet
    split
    · exact h
    · exact h.optWrite _
  -- what the hub does by itself
  | autopurge id =>
    cases ht
    split
    · exact h.purgeAndBroadcast _ _
    · exact h
  | sweep =>
    cases ht
    exact h.bansSweep
  | activity slot ts =>
    cases ht
    exact h.raise slot ts
  | seen id ts =>
    obtain ⟨p, hp, rfl⟩ := Option.map_eq_some_iff.mp ht
    exact h.updateEntry hp
  | wiped id =>
    cases ht
    refine h.elsewhere ?_
    unfold revokeMarkWiped
    split
    · exact .refl s
    · exact ⟨rfl, rfl, rfl, rfl, rfl, rfl, rfl⟩

/-- What holds of the empty hub and what every write keeps holds after every run. -/
theorem keeps_runHub {P : HubState → Prop} (h0 : P {})
    (hstep : ∀ (clk : Clock) (s t : HubState), P s → Write clk s t → P t) {es : List HubEvent}
    (hrun : runHub es = some s) : P s := by
  have hfold : es.foldlM (fun s (e : HubEvent) => e.op.run e.clock s) {} = some s := by
    rw [← Lww.foldl_bind_eq_foldlM]
    exact hrun
  refine Lww.inv_runM (I := P) (Q := fun _ => True) ?_ h0 (fun _ _ => trivial)
    (Lww.alongM_of_forall (fun _ _ => trivial) _ _) hfold
  exact fun t e u ht _ _ hu => (writes_run hu).keeps (hstep e.clock) ht

end IrcHub.Proofs
