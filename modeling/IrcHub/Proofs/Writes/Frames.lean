import IrcHub.Lib.Lww
import IrcHub.Proofs.Writes.Steps

/-!
# `IrcHub.Proofs.Writes.Frames`: the frames of peers and bots as chains of writes

One lemma for each function a frame goes through, from the lines to the whole frame. Each of them
takes a chain of writes that led to the state before and makes it longer, so that the lemmas
compose as the functions do.

* `WriteChain.syncLine`, `WriteChain.processPeerSync`: a line and a frame of a peer
* `WriteChain.pushLine`, `WriteChain.processBotConfigPush`, `WriteChain.processBotDelta`: a line,
  a push and a short push of a bot
* `WriteChain.updateEntry`: a line about a bot, which is the way both take into the bots

Nothing is asked of the text of a frame: whatever a peer or a bot sends, what it changes of the
records is a chain of the writes of `IrcHub.Proofs.Writes.Steps`.
-/

set_option autoImplicit false

namespace IrcHub.Proofs

open IrcHub.Hub Str

variable {clk : Clock} {r s t : HubState}

/-! ### Frames of a peer -/

/-- The memory of recent purges is no record. -/
theorem WriteChain.recordRecentPurge (h : WriteChain clk r s) (cutoff : Int) (id : Str) :
    WriteChain clk r (recordRecentPurge clk s cutoff id) := by
  unfold Hub.recordRecentPurge
  simp only []
  split
  · exact h.elsewhere ⟨rfl, rfl, rfl, rfl, rfl, rfl, rfl⟩
  split
  · exact h.elsewhere ⟨rfl, rfl, rfl, rfl, rfl, rfl, rfl⟩
  · exact h.elsewhere ⟨rfl, rfl, rfl, rfl, rfl, rfl, rfl⟩

/-- A purge is one write of its own: it takes rows out. -/
theorem WriteChain.executePurge (h : WriteChain clk r s) (cutoff : Int) :
    WriteChain clk r (executePurge clk s cutoff) := h.tail (.purge cutoff)

/-- A purge that a peer asks for. -/
theorem WriteChain.syncPurge (h : WriteChain clk r s) (line body : Str) (cnt : SyncCounters) :
    WriteChain clk r (syncPurge clk s line body cnt).1 := by
  unfold Hub.syncPurge
  split
  · exact h
  split
  · exact h
  · exact ((h.recordRecentPurge _ _).executePurge _).broadcast _

/-- What a peer learned of a channel. -/
theorem WriteChain.learnedIngest (h : WriteChain clk r s) (body : Str) :
    WriteChain clk r (learnedIngest clk s body).1 := by
  unfold Hub.learnedIngest
  split
  · exact h
  split
  · split
    · exact h
    · exact h.tail (.learned _ _ _ _)
  · exact h

/-- The list of revocations is none of the tables the writes are about. -/
theorem sameRecords_revokeMerge (s : HubState) (rv : Revoked) :
    SameRecords s (revokeMerge s rv).1 := by
  unfold revokeMerge revokeNew
  repeat' split
  all_goals exact ⟨rfl, rfl, rfl, rfl, rfl, rfl, rfl⟩

/-- Nor is the purge setting. -/
theorem sameRecords_gsettingIngest (s : HubState) (body : Str) :
    SameRecords s (gsettingIngest clk s body).1 := by
  unfold gsettingIngest
  repeat' split
  all_goals exact ⟨rfl, rfl, rfl, rfl, rfl, rfl, rfl⟩

/-- A line that starts with one of the tags. -/
theorem WriteChain.syncTagged (h : WriteChain clk r s) {line : Str} {cnt : SyncCounters}
    {q : HubState × SyncCounters} (hq : syncTagged clk s line cnt = some q) :
    WriteChain clk r q.1 := by
  unfold Hub.syncTagged at hq
  split at hq
  · cases hq
    exact h.syncPurge _ _ _
  split at hq
  · cases hq
    exact h
  split at hq
  · cases hq
    exact h.accessIngest _ _ _
  split at hq
  · cases hq
    exact h.learnedIngest _
  split at hq
  · cases hq
    unfold syncOpt
    split
    · exact h
    split
    · exact h.elsewhere ⟨rfl, rfl, rfl, rfl, rfl, rfl, rfl⟩
    · exact h
  split at hq
  · cases hq
    exact h.elsewhere (sameRecords_gsettingIngest s _)
  obtain ⟨body, -, rfl⟩ := Option.map_eq_some_iff.mp hq
  unfold syncRevoke
  split
  · exact h
  rename_i rv _
  have hmerge : WriteChain clk r (revokeMerge s rv).1 :=
    h.elsewhere (sameRecords_revokeMerge s rv)
  simp only []
  split
  · exact hmerge
  · exact hmerge

/-- A line of a record by its kind. -/
theorem WriteChain.syncGlobal (h : WriteChain clk r s) (key : GlobalKey) (vstart line : Str)
    (cnt : SyncCounters) : WriteChain clk r (syncGlobal clk s key vstart line cnt).1 := by
  unfold Hub.syncGlobal
  simp only []
  split
  · exact h.syncUserRecord _ _ _
  split
  · exact h.syncMaskRecord _ _ _
  split
  · exact h
  split
  · exact h
  split
  · exact h
  split
  · exact h.tail (.raw _ _ _)
  · exact h.tail (.raw _ _ _)

/-! ### Bots -/

/-- A deleted bot that goes on the list. -/
theorem sameRecords_revokeFromBot (s : HubState) (b : BotConfig) :
    SameRecords s (revokeFromBot s b).1 := by
  unfold revokeFromBot
  split
  · exact .refl s
  simp only []
  split
  · exact .refl s
  · exact sameRecords_revokeMerge s _

/-- A revocation brought up to date touches none of the records. -/
theorem sameRecords_revokeAfter (s : HubState) (uuid key : Str) :
    SameRecords s (revokeAfter s uuid key) := by
  have hoff : ∀ i, SameRecords s (if isRevoked s uuid then
      { s with bots := s.bots.modify i fun b => { b with isActive := false } } else s) := by
    intro i
    split
    · exact ⟨rfl, rfl, rfl, rfl, rfl, rfl, rfl⟩
    · exact .refl s
  unfold revokeAfter
  split
  · exact .refl s
  rename_i i _
  simp only []
  split
  · exact hoff i
  split
  · exact (hoff i).trans (sameRecords_revokeFromBot _ _)
  · exact hoff i

/-- The values of a bot are elsewhere too. -/
theorem sameRecords_updateBot {uuid key value : Str} {ts : Int} {p : HubState × Bool}
    (h : updateBot s uuid key value ts = some p) : SameRecords s p.1 := by
  unfold updateBot at h
  split at h
  · cases h
    exact .refl s
  split at h
  · cases h
    exact .refl s
  split at h
  · cases h
  split at h
  · cases h
  split at h
  · cases h
    exact .refl s
  · cases h
    exact ⟨rfl, rfl, rfl, rfl, rfl, rfl, rfl⟩

/-- A line about a bot, or about a global entry under its name. -/
theorem WriteChain.updateEntryInner (h : WriteChain clk r s)
    {uuid key value extra op : Str} {ts : Int} {p : HubState × Bool}
    (hp : updateEntryInner clk s uuid key value extra op ts = some p) :
    WriteChain clk r p.1 := by
  unfold Hub.updateEntryInner at hp
  split at hp
  · cases hp
    exact h
  split at hp
  · cases hp
    exact h.tail (.update _ _ _ _ _)
  · cases hp
    exact h.tail (.update _ _ _ _ _)
  · cases hp
    exact h.tail (.update _ _ _ _ _)
  · cases hp
    exact h
  split at hp
  · cases hp
    exact h
  split at hp
  · cases hp
    exact h
  rename_i t hbot
  have hsame : SameRecords s t := by
    unfold getOrCreateBot at hbot
    split at hbot
    · cases hbot
      exact .refl s
    split at hbot
    · cases hbot
      exact ⟨rfl, rfl, rfl, rfl, rfl, rfl, rfl⟩
    · cases hbot
  exact h.elsewhere (hsame.trans (sameRecords_updateBot hp))

/-- The same with what follows for the list of revocations. -/
theorem WriteChain.updateEntry (h : WriteChain clk r s) {uuid key value extra op : Str} {ts : Int}
    {p : HubState × Bool} (hp : updateEntry clk s uuid key value extra op ts = some p) :
    WriteChain clk r p.1 := by
  unfold Hub.updateEntry at hp
  split at hp
  · cases hp
    exact h
  split at hp
  · cases hp
  rename_i t ok hinner
  have ht := h.updateEntryInner hinner
  cases hp
  simp only []
  split
  · exact ht.elsewhere (sameRecords_revokeAfter t uuid key)
  · exact ht

/-- A line about a bot in a peer's frame. -/
theorem WriteChain.syncBotEntry (h : WriteChain clk r s) {ptr : Str} {cnt : SyncCounters}
    {q : HubState × SyncCounters} (hq : syncBotEntry clk s ptr cnt = some q) :
    WriteChain clk r q.1 := by
  unfold Hub.syncBotEntry at hq
  split at hq
  · cases hq
    exact h
  split at hq
  · cases hq
    exact h
  simp only [] at hq
  split at hq
  · split at hq
    · cases hq
      exact h
    split at hq
    · cases hq
    · rename_i t stored hupdate
      cases hq
      exact h.updateEntry hupdate
  · split at hq
    · cases hq
    · rename_i t stored hupdate
      cases hq
      exact h.updateEntry hupdate

/-- One line of a peer's frame. -/
theorem WriteChain.syncLine {p q : HubState × SyncCounters} (h : WriteChain clk r p.1)
    {line : Str} (hq : syncLine clk p line = some q) : WriteChain clk r q.1 := by
  unfold Hub.syncLine at hq
  split at hq
  · rename_i hq' htagged
    cases hq
    exact h.syncTagged htagged
  split at hq
  · exact h.syncBotEntry hq
  split at hq
  · cases hq
    exact h.syncGlobal _ _ _ _
  · exact h.syncBotEntry hq

/-- What is done once at the end of a frame. -/
theorem WriteChain.syncFinish (h : WriteChain clk r s) (cnt : SyncCounters) :
    WriteChain clk r (syncFinish clk s cnt) := by
  have hprune : WriteChain clk r (accessPrune s) := h.tail .prune
  have hrights := hprune.accessMigrate
  unfold Hub.syncFinish
  simp only []
  split
  · exact hrights
  split
  · exact hrights.floorBroadcast
  · exact hrights.floorBroadcast.broadcast _

/-- A whole frame of a peer is a chain of writes, by induction on its lines. -/
theorem WriteChain.processPeerSync (h : WriteChain clk r s) {frame : Str}
    (ht : processPeerSync clk s frame = some t) : WriteChain clk r t := by
  unfold Hub.processPeerSync at ht
  obtain ⟨p, hlines, rfl⟩ := Option.map_eq_some_iff.mp ht
  have hp : WriteChain clk r p.1 := by
    refine Lww.inv_runM (I := fun p => WriteChain clk r p.1) (Q := fun _ => True) ?_ h
      (fun _ _ => trivial) (Lww.alongM_of_forall (fun _ _ => trivial) _ _) hlines
    exact fun p line q hp _ _ hq => WriteChain.syncLine hp hq
  exact hp.syncFinish _

/-! ### Frames of a bot -/

/-- A pushed line is noted for the peers. -/
theorem WriteChain.pushSync {a : PushAcc} (h : WriteChain clk r t) (line : Str) :
    WriteChain clk r (a.sync t line).state := by
  unfold PushAcc.sync
  split
  · exact h.broadcast _
  · exact h

/-- The same with whether it was stored. -/
theorem WriteChain.pushWrote {a : PushAcc} {p : HubState × Bool} (h : WriteChain clk r p.1)
    (line : Str) :
    WriteChain clk r (a.wrote p line).state := by
  unfold PushAcc.wrote
  split
  · exact h.pushSync line
  · exact h

/-- A ban that a bot pushes, with the eviction it may need. -/
theorem WriteChain.banBotWrite (h : WriteChain clk r s) (id value : Str) (ts : Int) :
    WriteChain clk r (banBotWrite clk s id value ts).1 := by
  have hput : WriteChain clk r (putRecord clk s .B value ts).1 := h.tail (.put .B value ts)
  have hite : ∀ (c : Prop) [Decidable c] (p q : HubState × Bool), WriteChain clk r p.1 →
    WriteChain clk r q.1 →
      WriteChain clk r (if c then p else q).1 := fun c _ p q hp hq =>
    iteInduction (motive := fun x : HubState × Bool => WriteChain clk r x.1)
      (fun _ => hp) fun _ => hq
  -- one refusal after the other, the ban is put in two places
  unfold Hub.banBotWrite
  refine hite _ _ _ h (hite _ _ _ h (hite _ _ _ (hite _ _ _ hput h) ?_))
  exact hite _ _ _ h (hite _ _ _ h (hite _ _ _ h (hite _ _ _ h hput)))

/-- A mask that a bot pushes. -/
theorem WriteChain.pushMask {a : PushAcc} (h : WriteChain clk r a.state) (data : Str) :
    WriteChain clk r (pushMask clk data a).state := by
  unfold Hub.pushMask
  split
  · split
    · exact h
    split
    · exact h
    split
    · exact h
    rename_i u mi hslot
    have hu := writes_of_maskSlot h hslot
    split
    · exact hu
    split
    · exact WriteChain.raise hu (.mask mi) _
    · exact WriteChain.pushSync (WriteChain.masks hu _) _
  · exact h

/-- The record a pushed user is compared with is there, or a blank one is made. -/
private theorem writes_of_pushUserSlot {inc : UserRecord} {p : HubState × Nat}
    (h : WriteChain clk r s) (hslot : pushUserSlot clk s inc = some p) :
    WriteChain clk r p.1 := by
  unfold pushUserSlot at hslot
  split at hslot
  · cases hslot
    exact h
  unfold userNew at hslot
  split at hslot
  · cases hslot
    exact h.newUser (.inl rfl) s.maskRecords
  · cases hslot

/-- A user that a bot pushes. -/
theorem WriteChain.pushUser {a : PushAcc} (h : WriteChain clk r a.state) (typ : Char)
    (data : Str) :
    WriteChain clk r (pushUser clk typ data a).state := by
  unfold Hub.pushUser
  split
  · exact h
  rename_i inc hparse
  split
  · exact h
  rename_i u ui hslot
  have hu := writes_of_pushUserSlot h hslot
  split
  · exact hu
  rename_i cur hget
  split
  · exact WriteChain.raise hu (.user ui) _
  · rename_i hacc
    have hle : cur.timestamp ≤ inc.timestamp := le_of_lwwAccepts (by simpa using hacc)
    have hwrite : WriteChain clk r
      { u with userRecords := u.userRecords.set ui (userWrite inc cur) } := by
      refine WriteChain.setUser hu hget ?_ u.maskRecords
      exact Int.le_trans (Int.min_le_left _ _) hle
    simp only []
    split
    · exact hwrite.pushSync _
    · exact hwrite

/-- A value that a bot pushes about itself. -/
theorem WriteChain.pushOwn {a b : PushAcc} (h : WriteChain clk r a.state)
    {id key value : Str} {ts : Int} (hb : pushOwn clk id key value ts a = some b) :
    WriteChain clk r b.state := by
  unfold Hub.pushOwn at hb
  split at hb
  · cases hb
  · rename_i p hupdate
    cases hb
    exact (h.updateEntry hupdate).pushWrote _

/-- A pushed line by its letter. -/
theorem WriteChain.pushTyped {a b : PushAcc} (h : WriteChain clk r a.state) {id : Str}
    {typ : Char} {data : Str} (hb : pushTyped clk id typ data a = some b) :
    WriteChain clk r b.state := by
  have hidentity : ∀ (key : Str) (n : Nat), pushIdentity clk id key data n a = some b →
      WriteChain clk r b.state := by
    intro key n hb
    unfold pushIdentity at hb
    split at hb
    · exact h.pushOwn hb
    · cases hb
      exact h
  unfold Hub.pushTyped at hb
  split at hb
  · cases hb
    exact h
  split at hb
  · cases hb
    unfold pushChannel
    split
    · exact h
    split
    · exact h
    · exact WriteChain.pushWrote (h.tail (.update _ _ _ _ _)) _
  · cases hb
    exact (h.learnedIngest data).pushWrote _
  · cases hb
    unfold pushBan
    split
    · exact h
    split
    · exact h
    · exact (h.banBotWrite id _ _).pushWrote _
  · cases hb
    exact h.pushMask data
  · cases hb
    exact h.pushUser _ data
  · cases hb
    exact h.pushUser _ data
  · exact hidentity _ _ hb
  · exact hidentity _ _ hb
  · cases hb
    exact h

/-- One pushed line. -/
theorem WriteChain.pushLine {a b : PushAcc} {frozen : Bool} {id line : Str}
    (h : WriteChain clk r a.state) (hb : pushLine clk frozen id a line = some b) :
    WriteChain clk r b.state := by
  have haccess : ∀ (kind : Char) (body : Str), WriteChain clk r
    (pushAccess clk kind body line a).state := by
    intro kind body
    unfold pushAccess
    split
    · exact h
    · exact WriteChain.pushWrote (h.accessIngest kind body true) _
  unfold Hub.pushLine at hb
  split at hb
  · cases hb
    exact h
  split at hb
  · cases hb
    exact haccess _ _
  split at hb
  · cases hb
    exact haccess _ _
  split at hb
  · unfold pushHublist at hb
    split at hb
    · cases hb
      exact h
    split at hb
    · cases hb
      exact h
    · exact h.pushOwn hb
  split at hb
  · exact h.pushTyped hb
  · cases hb
    exact h

/-- What is done once at the end of a push: rights for new users, the admin floor, and the time
the bot was seen. -/
theorem WriteChain.pushFinish {a : PushAcc} (h : WriteChain clk r a.state) {id : Str}
    (ht : pushFinish clk id a = some t) : WriteChain clk r t := by
  have hrights := h.accessMigrate
  unfold Hub.pushFinish at ht
  simp only [] at ht
  split at ht
  · cases ht
    exact hrights
  split at ht
  · cases ht
  rename_i p hseen
  have hp : WriteChain clk r p.1 := hrights.floorBroadcast.updateEntry hseen
  cases ht
  split
  · exact hp
  · exact hp.broadcast _

/-- A whole push of a bot, by induction on its lines. -/
theorem WriteChain.processBotConfigPush (h : WriteChain clk r s) {id frame : Str}
    (ht : processBotConfigPush clk s id frame = some t) : WriteChain clk r t := by
  unfold Hub.processBotConfigPush at ht
  simp only [] at ht
  split at ht
  · cases ht
    exact h
  split at ht
  · cases ht
  rename_i a hlines
  have ha : WriteChain clk r a.state := by
    refine Lww.inv_runM (I := fun a => WriteChain clk r a.state) (Q := fun _ => True) ?_ h
      (fun _ _ => trivial) (Lww.alongM_of_forall (fun _ _ => trivial) _ _) hlines
    exact fun a line b ha _ _ hb => WriteChain.pushLine ha hb
  exact ha.pushFinish ht

/-- A short push of a bot. -/
theorem WriteChain.processBotDelta (h : WriteChain clk r s) {id frame : Str}
    (ht : processBotDelta clk s id frame = some t) : WriteChain clk r t := by
  unfold Hub.processBotDelta at ht
  split at ht
  · simp only [] at ht
    split at ht
    · cases ht
      exact h
    split at ht
    · cases ht
      exact h
    split at ht
    · cases ht
    rename_i p hupdate
    have hp : WriteChain clk r p.1 := h.updateEntry hupdate
    cases ht
    exact iteInduction (motive := WriteChain clk r) (fun _ => hp.broadcast _) (fun _ => hp)
  · cases ht
    exact h

end IrcHub.Proofs
