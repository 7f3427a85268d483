import IrcHub.Proofs.Bots.Own
import IrcHub.Proofs.Floor.Whole
import IrcHub.Proofs.Global.Exact

/-!
# `IrcHub.Proofs.Bots.Guards`: what opt `h` and a freeze keep from a bot

What opt `h` and a freeze keep from a bot. Under opt `h` a push or a delta of a bot leaves what
admins manage and the other bots as they are (`HubOnly`), and under a freeze it leaves everything
but the bot itself (`OwnWrites`). Each kind of line is looked at once (`Guarded.pushLine`). What a
push does after its lines finds nothing to do where every live user has its access record and a
full admin is there (`Served`).

- `HubOnly`: the two states hold the same of what admins manage. The records of a kind are
  compared as collections, since a new ban may move others
- `hubOnly_putBan`, `hubOnly_addChannel`: the two writes under opt `h` that go to the global table
- `hubOnly_push`, `hubOnly_delta`: the two frames under opt `h`
- `frozen_push`, `frozen_delta`: the two frames under a freeze
- `bot_bound`: both, for a bot that has logged in at some point of the run
- `freeze_moves_revoke`: a deleted bot that changes the revoke list under a freeze

`Served` is asked of the state before the frame. Where a user lacks its access record, a push of
any bot brings the grants that the hub owes it, which is not the bot's doing and is left out here.
-/

set_option autoImplicit false

namespace IrcHub.Proofs

open IrcHub.Hub Str
open String (utf8Len)

/-! ### What admins manage -/

/-- The records of one kind, in the order of the table. -/
def recordsOf (k : GlobalKey) (s : HubState) : List GlobalEntry :=
  s.globalEntries.filter fun e => decide (e.key = k)

/-- The names of the live channels, in the order of the table. -/
def liveChans (s : HubState) : List Str :=
  (s.globalEntries.filter fun e => decide (e.key = .c) && globalValueActive e.value).map fun e =>
    firstField e.value

/-- The two states hold the same of what admins manage and of the other bots. A new ban may move
records to another place of the table. -/
structure HubOnly (id : Str) (s t : HubState) : Prop where
  users : t.userRecords = s.userRecords
  masks : t.maskRecords = s.maskRecords
  flags : t.uflagRecords = s.uflagRecords
  binds : t.uchanRecords = s.uchanRecords
  settings : (recordsOf .C t).Perm (recordsOf .C s)
  defaults : (recordsOf .D t).Perm (recordsOf .D s)
  chans : (liveChans t).Perm (liveChans s)
  others : otherBots id t = otherBots id s
  /-- A bot cannot clear the flag it is bound by. -/
  opts : t.optFlags = s.optFlags

/-- Every live user has its access record, and a live admin holds `a`. -/
structure Served (s : HubState) : Prop where
  admins : ∀ u ∈ s.userRecords, u.isActive = true → u.typ = 'a' →
    (uflagFind s u.uuid).isSome = true
  opers : ∀ u ∈ s.userRecords, u.isActive = true → u.typ = 'o' →
    ∃ r ∈ s.uchanRecords, r.uuid = u.uuid
  full : ∃ u ∈ s.userRecords, fullUser s u = true

instance (s : HubState) : Decidable (Served s) :=
  decidable_of_iff
    ((∀ u ∈ s.userRecords, u.isActive = true → u.typ = 'a' → (uflagFind s u.uuid).isSome = true)
      ∧ (∀ u ∈ s.userRecords, u.isActive = true → u.typ = 'o' →
        ∃ r ∈ s.uchanRecords, r.uuid = u.uuid)
      ∧ ∃ u ∈ s.userRecords, fullUser s u = true)
    ⟨fun h => ⟨h.1, h.2.1, h.2.2⟩, fun h => ⟨h.admins, h.opers, h.full⟩⟩

section Guards

variable {clk : Clock} {id : Str} {r s t u : HubState}

/-- A state that stays as it is keeps what only the hub may change. -/
theorem HubOnly.refl (id : Str) (s : HubState) : HubOnly id s s :=
  ⟨rfl, rfl, rfl, rfl, .refl _, .refl _, .refl _, rfl, rfl⟩

/-- So do two steps after each other. -/
theorem HubOnly.trans (h : HubOnly id r s) (h' : HubOnly id s t) : HubOnly id r t :=
  ⟨h'.users.trans h.users, h'.masks.trans h.masks, h'.flags.trans h.flags, h'.binds.trans h.binds,
    h'.settings.trans h.settings, h'.defaults.trans h.defaults, h'.chans.trans h.chans,
    h'.others.trans h.others, h'.opts.trans h.opts⟩

/-- The table stays as it is. -/
theorem HubOnly.of_entries (hentries : t.globalEntries = s.globalEntries)
    (husers : t.userRecords = s.userRecords) (hmasks : t.maskRecords = s.maskRecords)
    (hflags : t.uflagRecords = s.uflagRecords) (hbinds : t.uchanRecords = s.uchanRecords)
    (hothers : otherBots id t = otherBots id s) (hopts : t.optFlags = s.optFlags) :
    HubOnly id s t where
  users := husers
  masks := hmasks
  flags := hflags
  binds := hbinds
  settings := by rw [recordsOf, recordsOf, hentries]
  defaults := by rw [recordsOf, recordsOf, hentries]
  chans := by rw [liveChans, liveChans, hentries]
  others := hothers
  opts := hopts

/-- Writes of the bot itself change nothing of that. -/
theorem OwnWrites.hubOnly {free : BotKey → Bool} (h : OwnWrites id free s t) : HubOnly id s t :=
  .of_entries (congrArg HubState.globalEntries h.shared :)
    (congrArg HubState.userRecords h.shared :) (congrArg HubState.maskRecords h.shared :)
    (congrArg HubState.uflagRecords h.shared :) (congrArg HubState.uchanRecords h.shared :)
    h.others (congrArg HubState.optFlags h.shared :)

/-- That a hub is served reads users and rights only. -/
theorem Served.congr (h : Served s) (husers : t.userRecords = s.userRecords)
    (hflags : t.uflagRecords = s.uflagRecords) (hbinds : t.uchanRecords = s.uchanRecords) :
    Served t where
  admins u hu hact htyp := by
    rw [uflagFind_congr hflags]
    exact h.admins u (husers ▸ hu) hact htyp
  opers u hu hact htyp := by
    rw [hbinds]
    exact h.opers u (husers ▸ hu) hact htyp
  full := by
    obtain ⟨u, hu, hfull⟩ := h.full
    refine ⟨u, husers ▸ hu, ?_⟩
    unfold fullUser at hfull ⊢
    rw [userFlags_congr hflags]
    exact hfull

/-! ### After the lines of a push -/

/-- Nobody lacks an access record, so the grants after a push change nothing. -/
theorem Served.accessMigrate (h : Served s) : accessMigrate clk s = (s, 0) := by
  have hstep : ∀ p ∈ (s.userRecords.filter (·.isActive)).map (fun u => (u.uuid, u.typ)),
      migrateUser clk (s, 0) p = (s, 0) := by
    intro p hp
    obtain ⟨u, hu, rfl⟩ := List.mem_map.mp hp
    obtain ⟨hmem, hact⟩ := List.mem_filter.mp hu
    unfold migrateUser
    simp only []
    rw [if_neg, if_neg]
    · intro hlacks
      obtain ⟨htyp, hnone⟩ := Bool.and_eq_true_iff.mp hlacks
      obtain ⟨r, hr, huuid⟩ := h.opers u hmem hact (of_decide_eq_true htyp)
      rw [Bool.not_eq_true', List.any_eq_false] at hnone
      exact hnone r hr (beq_iff_eq.mpr huuid)
    · intro hlacks
      obtain ⟨htyp, hnone⟩ := Bool.and_eq_true_iff.mp hlacks
      have hsome := h.admins u hmem hact (of_decide_eq_true htyp)
      rw [Option.isNone_iff_eq_none] at hnone
      rw [hnone] at hsome
      cases hsome
  unfold Hub.accessMigrate
  generalize (s.userRecords.filter (·.isActive)).map (fun u => (u.uuid, u.typ)) = us at hstep
  induction us with
  | nil => rfl
  | cons p us ih =>
    rw [List.foldl_cons, hstep p List.mem_cons_self]
    exact ih fun q hq => hstep q (List.mem_cons_of_mem _ hq)

/-- A full admin is left. -/
theorem Served.adminFloorRestore (h : Served s) : adminFloorRestore clk s = (s, none) := by
  obtain ⟨u, hu, hfull⟩ := h.full
  obtain ⟨i, hi⟩ := List.getElem?_of_mem hu
  unfold fullUser at hfull
  simp only [Bool.and_eq_true] at hfull
  unfold Hub.adminFloorRestore
  simp only []
  rw [if_pos]
  refine List.any_eq_true.mpr
    ⟨(u, i), List.mem_filter.mpr ⟨List.mem_zipIdx_iff_getElem?.mpr hi, hfull.1.1⟩, ?_⟩
  exact Bool.and_eq_true_iff.mpr ⟨hfull.1.2, hfull.2⟩

/-- What is left to do after the lines is the time the bot was seen. -/
theorem Served.pushFinish {a : PushAcc} (h : Served a.state) (ht : pushFinish clk id a = some t) :
    t = a.state ∨ ∃ p payload, updateEntry clk a.state id BotKey.seen.name [] []
      [] clk.now = some p
      ∧ (t = p.1 ∨ t = broadcastSyncToPeers p.1 payload) := by
  unfold Hub.pushFinish at ht
  rw [h.accessMigrate] at ht
  simp only [h.adminFloorRestore] at ht
  split at ht
  · cases ht
    exact .inl rfl
  split at ht
  · cases ht
  rename_i p hseen
  cases ht
  refine .inr ⟨p, a.batch, hseen, ?_⟩
  split
  · exact .inl rfl
  · exact .inr rfl

/-! ### Bans and channels -/

/-- A ban leaves everything but the bans. It may drop a tombstone of a ban for room, which moves
another record into its place. -/
theorem hubOnly_putBan (h : StoreInv s) (id v : Str) (ts : Int) :
    HubOnly id s (putRecord clk s .B v ts).1 := by
  have hres := putRecord_result clk s .B v ts
  generalize putRecord clk s .B v ts = q at hres ⊢
  -- a selection of records that takes no ban
  have key : ∀ t : HubState, t.userRecords = s.userRecords → t.maskRecords = s.maskRecords →
      t.uflagRecords = s.uflagRecords → t.uchanRecords = s.uchanRecords → t.bots = s.bots →
        t.optFlags = s.optFlags →
      (∀ f : GlobalEntry → Bool, (∀ e, e.key = .B → f e = false) →
        (t.globalEntries.filter f).Perm (s.globalEntries.filter f)) → HubOnly id s t := by
    intro t husers hmasks hflags hbinds hbots hopts hsel
    refine ⟨husers, hmasks, hflags, hbinds, hsel _ ?_, hsel _ ?_,
      (hsel _ ?_).map _, by rw [otherBots, otherBots, hbots],
      hopts⟩
    · intro e he
      rw [he]
      rfl
    · intro e he
      rw [he]
      rfl
    · intro e he
      rw [he]
      rfl
  -- an added ban is in no selection
  have hpush : ∀ (es : List GlobalEntry) (f : GlobalEntry →
    Bool), (∀ e : GlobalEntry, e.key = .B → f e = false) →
      (es ++ [newEntry .B v ts]).filter f = es.filter f := by
    intro es f hf
    rw [List.filter_append, List.filter_singleton, hf _ rfl]
    exact List.append_nil _
  -- nor is a ban whose place is taken by another record
  have hevicted : ∀ {b : Nat} {e : GlobalEntry} (f : GlobalEntry → Bool), s.globalEntries[b]?
    = some e → f e = false →
      ((Table.swapRemove s.globalEntries b).filter f).Perm (s.globalEntries.filter f) := by
    intro b e f hb hfe
    obtain ⟨hlt, rfl⟩ := List.getElem?_eq_some_iff.mp hb
    refine ((Table.swapRemove_perm _ hlt).filter f).trans ?_
    have herase := (List.getElem_cons_eraseIdx_perm hlt).filter f
    rw [List.filter_cons_of_neg (by rw [hfe]; decide)] at herase
    exact herase
  -- what the store does with the ban
  cases hres with
  | refused => exact .refl id s
  | rewrote i e hok hfind hget hacc hban =>
    obtain ⟨e', he', hkey, -⟩ := h.find_some rfl hfind
    rw [hget] at he'
    cases he'
    refine key _ rfl rfl rfl rfl rfl rfl fun f hf => ?_
    exact .of_eq (Table.filter_set_of_false hget (hf e hkey) (hf _ hkey))
  | new hok hfind hban hroom =>
    rw [globalPush_eq]
    exact key _ rfl rfl rfl rfl rfl rfl fun f hf => .of_eq (hpush _ f hf)
  | evicted s' hok hfind hban hfull hevict hroom =>
    obtain ⟨b, e, hb, hk, -, rfl⟩ := evictOldestTombstone_eq hevict
    rw [globalPush_eq]
    refine key _ rfl rfl rfl rfl rfl rfl fun f hf => ?_
    show ((Table.swapRemove s.globalEntries b ++ [newEntry .B v ts]).filter f).Perm _
    rw [hpush _ f hf]
    exact hevicted f hb (hf e hk)
  | onlyEvicted s' hfull hevict hroom =>
    obtain ⟨b, e, hb, hk, -, rfl⟩ := evictOldestTombstone_eq hevict
    exact key _ rfl rfl rfl rfl rfl rfl fun f hf => hevicted f hb (hf e hk)

/-- A ban of a bot is refused or is a put. What was checked does not matter here. -/
theorem banBotWrite_cases (clk : Clock) (s : HubState) (id value : Str) (ts : Int) :
    (banBotWrite clk s id value ts).1 = s
      ∨ (banBotWrite clk s id value ts).1 = (putRecord clk s .B value ts).1 := by
  have hite : ∀ (c : Prop) [Decidable c] (p q : HubState × Bool),
      (p.1 = s ∨ p.1 = (putRecord clk s .B value ts).1) →
      (q.1 = s ∨ q.1 = (putRecord clk s .B value ts).1) →
      ((if c then p else q).1 = s ∨ (if c then p else q).1 = (putRecord clk s .B value ts).1) :=
    fun c _ p q hp hq => iteInduction
      (motive := fun x : HubState × Bool => x.1 = s ∨ x.1 = (putRecord clk s .B value ts).1)
      (fun _ => hp) fun _ => hq
  -- one refusal after the other, the ban is put in two places
  unfold banBotWrite
  refine hite _ _ _ (.inl rfl)
    (hite _ _ _ (.inl rfl) (hite _ _ _ (hite _ _ _ (.inr rfl) (.inl rfl)) ?_))
  exact hite _ _ _ (.inl rfl)
    (hite _ _ _ (.inl rfl) (hite _ _ _ (.inl rfl) (hite _ _ _ (.inl rfl) (.inr rfl))))

/-- What a scan reads first is no longer than it may be. -/
theorem utf8Len_convText {data : Str} {n : Nat} {fmt : List Fmt} {old : Str}
    (hold : utf8Len old ≤ n) :
    utf8Len (convText (sscanf data (.set n :: fmt)) 0 old) ≤ n := by
  unfold convText sscanf
  simp only []
  split
  · exact hold
  · exact utf8Len_takeBytes_le n _

/-- A pushed channel has a name of at most 64 bytes. -/
theorem utf8Len_pushChannel {data : Str} {p : PushChannel} (h : parsePushChannel data = some p) :
    utf8Len p.chan ≤ 64 := by
  have hnil : utf8Len ([] : Str) ≤ 64 := Nat.zero_le _
  unfold parsePushChannel at h
  simp only [] at h
  split at h
  · cases h
    exact utf8Len_convText hnil
  split at h
  · cases h
    exact utf8Len_convText (utf8Len_convText hnil)
  split at h
  · cases h
    exact utf8Len_convText (utf8Len_convText (utf8Len_convText hnil))
  split at h
  · cases h
    exact utf8Len_convText (utf8Len_convText (utf8Len_convText (utf8Len_convText hnil)))
  · cases h

/-- A record composed with op `add` is live. The bounds keep the op from being cut off. -/
theorem globalValueActive_added {chan extra : Str} (hchan : utf8Len chan ≤ 72)
    (hextra : utf8Len extra < 80) :
    globalValueActive (combinedValue .c chan extra "add".toList) = true := by
  have hbar : '|' ∉ "add".toList := by decide
  have hadd : utf8Len "add".toList = 3 := by decide
  have hbarLen : utf8Len ['|'] = 1 := by decide
  unfold combinedValue
  simp only []
  split
  · have hsplit : chan ++ '|' :: extra ++ '|' :: "add".toList = (chan ++ ['|'] ++ extra) ++ '|'
      :: "add".toList := by
      simp
    have hlen : utf8Len (chan ++ '|' :: extra ++ '|' :: "add".toList) < 1024 := by
      have hcons : utf8Len ('|' :: "add".toList) = 4 := by decide
      rw [hsplit]
      simp only [String.utf8Len_append, hbarLen, hcons]
      omega
    rw [trunc_of_lt hlen, hsplit, globalValueActive_of_op hbar]
    rfl
  · have hsplit : chan ++ "||".toList ++ "add".toList = (chan ++ ['|']) ++ '|'
      :: "add".toList := by
      simp
    have hlen : utf8Len (chan ++ "||".toList ++ "add".toList) < 1024 := by
      have hcons : utf8Len ('|' :: "add".toList) = 4 := by decide
      rw [hsplit]
      simp only [String.utf8Len_append, hbarLen, hcons]
      omega
    rw [trunc_of_lt hlen, hsplit, globalValueActive_of_op hbar]
    rfl

/-- An `add` of a live channel keeps its name and keeps it live. What changes is its key, its
modes and its stamp, which bots may report. -/
theorem hubOnly_addChannel (h : StoreInv s) (id : Str) {chan extra : Str} (ts : Int)
    (hlive : (chanLive s chan).isSome = true) (hchan : utf8Len chan ≤ 64)
    (hextra : utf8Len extra < 80) :
    HubOnly id s (updateGlobalEntry clk s .c chan extra "add".toList ts).1 := by
  have hres := updateGlobalEntry_result clk s .c chan extra "add".toList ts
  generalize updateGlobalEntry clk s .c chan extra "add".toList ts = q at hres ⊢
  unfold chanLive at hlive
  cases hres with
  | refused => exact .refl id s
  | new hk hfind hahead hroom =>
    rw [hfind] at hlive
    cases hlive
  | rewrote i e hk hfind hget hacc =>
    rw [hfind] at hlive
    simp only [hget] at hlive
    have hkey : e.key = .c := h.key_of_find hfind hget
    have hact : globalValueActive e.value = true := by
      by_contra hdead
      rw [if_neg hdead] at hlive
      cases hlive
    have hname : utf8Len (firstField e.value) ≤ 64 := by
      have hfirst : utf8Len (firstField chan) ≤ utf8Len chan :=
        String.utf8Len_le_of_prefix ⟨_, cut_append '|' 0 chan⟩
      exact (h.nameHeld_of_find hfind hget).le.trans (hfirst.trans hchan)
    have hfirst : firstField (updateNorm .c e.value chan extra "add".toList)
      = firstField e.value := by
      rw [firstField_updateNorm]
      exact trunc_of_lt (Nat.lt_of_le_of_lt hname (by decide))
    have hstays : globalValueActive (updateNorm .c e.value chan extra "add".toList) = true := by
      have hsafe : safeOp "add".toList = "add".toList := by decide
      unfold updateNorm updateChan
      rw [if_pos rfl, hsafe]
      refine globalValueActive_added ?_ hextra
      exact Nat.le_of_lt_succ (utf8Len_trunc_lt _ (by decide))
    unfold replaceOld
    simp only []
    rw [if_neg (by rw [hstays]; simp)]
    refine ⟨rfl, rfl, rfl, rfl, .of_eq ?_, .of_eq ?_, .of_eq ?_, rfl, rfl⟩
    · exact Table.filter_set_of_false hget (by rw [hkey]; rfl) (by rw [hkey]; rfl)
    · exact Table.filter_set_of_false hget (by rw [hkey]; rfl) (by rw [hkey]; rfl)
    · refine Table.map_filter_set_of_eq hget ?_ hfirst
      show (decide (e.key = .c) && globalValueActive _)
        = (decide (e.key = .c) && globalValueActive _)
      rw [hstays, hact]

/-! ### Lines under opt `h` -/

/-- A state a push under opt `h` comes through. -/
structure Guarded (id : Str) (s t : HubState) : Prop where
  store : StoreInv t
  kept : HubOnly id s t

/-- A write of a bot about itself keeps what is guarded. -/
theorem Guarded.own {free : BotKey → Bool} (h : Guarded id s t) (hw : OwnWrites id free t u) :
    Guarded id s u where
  store := h.store.of_sameTable
    ⟨(congrArg HubState.globalEntries hw.shared :), (congrArg HubState.globalIdx hw.shared :)⟩
  kept := h.kept.trans hw.hubOnly

/-- So does a broadcast. -/
theorem Guarded.broadcast (h : Guarded id s t) (payload : Str) :
    Guarded id s (broadcastSyncToPeers t payload) :=
  h.own (OwnWrites.broadcast (.refl id (fun _ => true) t) payload)

/-- So does a line that was stored or not. -/
theorem Guarded.wrote {a : PushAcc} {p : HubState × Bool} (h : Guarded id s p.1) (line : Str) :
    Guarded id s (a.wrote p line).state := by
  unfold PushAcc.wrote
  split
  · unfold PushAcc.sync
    split
    · exact h.broadcast _
    · exact h
  · exact h

/-- A value the bot pushes about itself. The key must be none of a channel or an
old mask: `hper`. -/
theorem Guarded.pushOwn {a b : PushAcc} (h : Guarded id s a.state) (hid : utf8Len id < 64)
    {key value : Str} {ts : Int} (hper : perBotKey key)
    (hb : pushOwn clk id key value ts a = some b) : Guarded id s b.state := by
  unfold Hub.pushOwn at hb
  split at hb
  · cases hb
  · rename_i p hupdate
    cases hb
    have hwrites : OwnWrites id (fun _ => true) a.state p.1 :=
      ownWrites_updateEntry hid hper (fun _ _ => rfl) hupdate
    exact Guarded.wrote (h.own hwrites) _

/-- A nick or hostmask. -/
theorem Guarded.pushIdentity {a b : PushAcc} (h : Guarded id s a.state) (hid : utf8Len id < 64)
    {key data : Str} {n : Nat} (hper : perBotKey key)
    (hb : pushIdentity clk id key data n a = some b) : Guarded id s b.state := by
  unfold Hub.pushIdentity at hb
  split at hb
  · exact h.pushOwn hid hper hb
  · cases hb
    exact h

/-- A hub list. -/
theorem Guarded.pushHublist {a b : PushAcc} (h : Guarded id s a.state)
    (hid : utf8Len id < 64) {v : Str} (hb : pushHublist clk id v a = some b) :
    Guarded id s b.state := by
  unfold Hub.pushHublist at hb
  split at hb
  · cases hb
    exact h
  split at hb
  · cases hb
    exact h
  · exact h.pushOwn hid (by unfold perBotKey; decide) hb

/-- A channel. On a hub that alone may change records the line is dropped, which `hguard` says of
the state it meets. -/
theorem Guarded.pushChannel {a : PushAcc} (h : Guarded id s a.state)
    (hguard : hubOnlyMutations a.state = true) (data : Str) :
    Guarded id s (pushChannel clk id data a).state := by
  unfold Hub.pushChannel
  split
  · exact h
  rename_i p hparse
  rw [hguard]
  split
  · exact h
  rename_i hlive
  simp only [Bool.true_and, Bool.or_eq_true, bne_iff_ne, not_or, not_not, Bool.not_eq_true,
    Option.isNone_eq_false_iff] at hlive
  refine Guarded.wrote ?_ _
  rw [hlive.1]
  have hextra : utf8Len (trunc (p.key ++ '|' :: ofInt p.modes) 80) < 80 :=
    utf8Len_trunc_lt _ (by decide)
  exact ⟨h.store.updateGlobalEntry clk .c _ _ _ _,
    h.kept.trans (hubOnly_addChannel h.store id p.ts hlive.2 (utf8Len_pushChannel hparse) hextra)⟩

/-- A ban is no record that only the hub may change. -/
theorem Guarded.pushBan {a : PushAcc} (h : Guarded id s a.state) (data : Str) :
    Guarded id s (pushBan clk id data a).state := by
  unfold Hub.pushBan
  split
  · exact h
  rename_i value tsText _
  split
  · exact h
  refine Guarded.wrote ?_ _
  rcases banBotWrite_cases clk a.state id value (atoll tsText) with heq | heq
  · rw [heq]
    exact h
  · rw [heq]
    exact ⟨h.store.putRecord clk .B _ _, h.kept.trans (hubOnly_putBan h.store id _ _)⟩

/-- Nor is what a bot learned of a channel: that table is not one that admins manage. -/
theorem Guarded.learnedIngest (h : Guarded id s t) (body : Str) :
    Guarded id s (learnedIngest clk t body).1 := by
  have hput : ∀ (chan key : Str) (modes ts : Int), Guarded id s
    (learnedPut clk t chan key modes ts).1 := by
    intro chan key modes ts
    have hslots : ∀ ls : List ChanLearned, Guarded id s { t with chanLearned := ls } := fun ls =>
      ⟨h.store.of_sameTable ⟨rfl, rfl⟩, h.kept.trans (.of_entries rfl rfl rfl rfl rfl rfl rfl)⟩
    unfold learnedPut
    split
    · exact h
    split
    · exact h
    split
    · split
      · exact h
      split
      · exact h
      · exact hslots _
    split
    · exact h
    · exact hslots _
  unfold Hub.learnedIngest
  split
  · exact h
  split
  · split
    · exact h
    · exact hput _ _ _ _
  · exact h

/-- A pushed line by its letter. The cases are those of the source, one for each kind of line. -/
theorem Guarded.pushTyped {a b : PushAcc} (h : Guarded id s a.state) (hid : utf8Len id < 64)
    (hguard : hubOnlyMutations a.state = true) {typ : Char} {data : Str}
    (hb : pushTyped clk id typ data a = some b) : Guarded id s b.state := by
  unfold Hub.pushTyped at hb
  rw [hguard] at hb
  split at hb
  · cases hb
    exact h
  rename_i hmanaged
  split at hb
  · cases hb
    exact h.pushChannel hguard data
  · cases hb
    exact Guarded.wrote (h.learnedIngest data) _
  · cases hb
    exact h.pushBan data
  · exact absurd rfl hmanaged
  · exact absurd rfl hmanaged
  · exact absurd rfl hmanaged
  · exact h.pushIdentity hid (by unfold perBotKey; decide) hb
  · exact h.pushIdentity hid (by unfold perBotKey; decide) hb
  · cases hb
    exact h

/-- One pushed line. That the hub alone may change records is asked of the start; the lines before
have kept it. -/
theorem Guarded.pushLine {a b : PushAcc} (h : Guarded id s a.state) (hid : utf8Len id < 64)
    (hguard : hubOnlyMutations s = true) {frozen : Bool} {line : Str}
    (hb : pushLine clk frozen id a line = some b) : Guarded id s b.state := by
  have hstill : hubOnlyMutations a.state = true := by
    unfold hubOnlyMutations
    rw [h.kept.opts]
    exact hguard
  have haccess : ∀ (kind : Char) (body : Str), pushAccess clk kind body line a = a := by
    intro kind body
    unfold pushAccess
    rw [if_pos hstill]
  unfold Hub.pushLine at hb
  split at hb
  · cases hb
    exact h
  split at hb
  · cases hb
    rw [haccess]
    exact h
  split at hb
  · cases hb
    rw [haccess]
    exact h
  split at hb
  · exact h.pushHublist hid hb
  split at hb
  · exact h.pushTyped hid hstill hb
  · cases hb
    exact h

/-- Under opt `h` a push leaves what admins manage. `hid` is what a login makes of the uuid: it
fits its buffer. The induction is on the lines. -/
theorem hubOnly_push {frame : Str} (hstore : StoreInv s) (hserved : Served s)
    (hid : utf8Len id < 64) (hguard : hubOnlyMutations s = true)
    (ht : processBotConfigPush clk s id frame = some t) : HubOnly id s t := by
  unfold processBotConfigPush at ht
  simp only [] at ht
  split at ht
  · cases ht
    exact .refl id s
  split at ht
  · cases ht
  rename_i a hlines
  have ha : Guarded id s a.state := by
    refine Lww.inv_runM (I := fun a => Guarded id s a.state) (Q := fun _ => True) ?_
      ⟨hstore, .refl id s⟩ (fun _ _ => trivial)
      (Lww.alongM_of_forall (fun _ _ => trivial) _ _) hlines
    exact fun a line b ha _ _ hb => Guarded.pushLine ha hid hguard hb
  rcases (hserved.congr ha.kept.users ha.kept.flags ha.kept.binds).pushFinish ht
    with rfl | ⟨p, payload, hseen, hp⟩
  · exact ha.kept
  have hwrites : OwnWrites id (fun _ => true) a.state p.1 :=
    ownWrites_updateEntry hid (by unfold perBotKey; decide) (fun _ _ => rfl) hseen
  have hown : Guarded id s p.1 := ha.own hwrites
  rcases hp with rfl | rfl
  · exact hown.kept
  · exact (hown.broadcast payload).kept

/-- The keys opt `h` refuses are those that are not per bot. -/
theorem perBotKey_of_not_authoritative {key : Str} (h : hubAuthoritative key = false) :
    perBotKey key := by
  have hno : ∀ k ∈ [GlobalKey.a, .o, .m, .c, .p], globalKeyOf key ≠ some k := by
    intro k hk hglobal
    unfold hubAuthoritative at h
    rw [List.any_eq_false] at h
    exact h k hk (beq_iff_eq.mpr (name_of_globalKeyOf hglobal).symm)
  exact ⟨hno .c (by decide), hno .m (by decide), hno .o (by decide)⟩

/-- Under opt `h` a delta leaves what admins manage: a key of theirs is refused, and the others
are the bot's own. -/
theorem hubOnly_delta {frame : Str} (hid : utf8Len id < 64) (hguard : hubOnlyMutations s = true)
    (ht : processBotDelta clk s id frame = some t) : HubOnly id s t := by
  unfold processBotDelta at ht
  split at ht
  · simp only [] at ht
    rw [hguard] at ht
    split at ht
    · cases ht
      exact .refl id s
    rename_i hkey
    split at ht
    · cases ht
      exact .refl id s
    split at ht
    · cases ht
    rename_i p hupdate
    have hper := perBotKey_of_not_authoritative (by simpa using hkey)
    have hp : OwnWrites id (fun _ => true) s p.1 :=
      ownWrites_updateEntry hid hper (fun _ _ => rfl) hupdate
    cases ht
    exact iteInduction (motive := HubOnly id s) (fun _ => (hp.broadcast _).hubOnly) fun _ =>
      hp.hubOnly
  · cases ht
    exact .refl id s

/-! ### Lines under a freeze -/

/-- The keys a freeze leaves a bot: its nick, its hostmask and the time it was seen. -/
def identityKey : BotKey → Bool
  | .n | .h | .seen => true
  | _ => false

/-- The name of such a key is that of no other. -/
theorem identityKey_of_name {k k' : BotKey} (hk : identityKey k = true)
    (h : botKeyOf k.name = some k') :
    identityKey k' = true := by
  rw [botKeyOf_name] at h
  cases h
  exact hk

/-- No key of a bot is that of a channel or an old mask. -/
theorem perBotKey_name (k : BotKey) : perBotKey k.name := by
  unfold perBotKey
  rw [globalKeyOf_of_botKeyOf (botKeyOf_name k)]
  exact ⟨nofun, nofun, nofun⟩

/-- A nick or hostmask writes to the bot's own values. -/
theorem ownWrites_identity (hid : utf8Len id < 64) {k : BotKey} (hk : identityKey k = true)
    {value : Str} {ts : Int} {p : HubState × Bool}
    (h : updateEntry clk s id k.name value [] [] ts = some p) :
    OwnWrites id identityKey s p.1 :=
  ownWrites_updateEntry hid (perBotKey_name k) (fun _ hname => identityKey_of_name hk hname) h

/-- So does the line it comes on. `hk` says that the key is one that a freeze leaves to the
bot. -/
theorem OwnWrites.pushIdentity {a b : PushAcc} (h : OwnWrites id identityKey s a.state)
    (hid : utf8Len id < 64) {k : BotKey} (hk : identityKey k = true) {data : Str} {n : Nat}
    (hb : pushIdentity clk id k.name data n a = some b) : OwnWrites id identityKey s b.state := by
  unfold Hub.pushIdentity at hb
  split at hb
  · unfold Hub.pushOwn at hb
    split at hb
    · cases hb
    · rename_i p hupdate
      cases hb
      have hp := h.trans (ownWrites_identity hid hk hupdate)
      unfold PushAcc.wrote
      split
      · unfold PushAcc.sync
        split
        · exact hp.broadcast _
        · exact hp
      · exact hp
  · cases hb
    exact h

/-- The letter of a nick. -/
private theorem pushTyped_nick (data : Str) (a : PushAcc) :
    pushTyped clk id 'n' data a = pushIdentity clk id BotKey.n.name data 31 a := by
  unfold pushTyped
  exact if_neg (by simp)

/-- The letter of a hostmask. -/
private theorem pushTyped_hostmask (data : Str) (a : PushAcc) :
    pushTyped clk id 'h' data a = pushIdentity clk id BotKey.h.name data 255 a := by
  unfold pushTyped
  exact if_neg (by simp)

/-- Under a freeze a line is one of the nick or the hostmask, or it is not looked at. -/
theorem OwnWrites.pushLine {a b : PushAcc} (h : OwnWrites id identityKey s a.state)
    (hid : utf8Len id < 64) {line : Str} (hb : pushLine clk true id a line = some b) :
    OwnWrites id identityKey s b.state := by
  unfold Hub.pushLine at hb
  split at hb
  · cases hb
    exact h
  rename_i htaken
  unfold pushLineTaken at htaken
  simp only [Bool.not_true, Bool.false_or, Bool.not_eq_true', Bool.not_eq_false, Bool.and_eq_true,
    Bool.or_eq_true] at htaken
  have htag : ∀ c : Char, (afterTag [c, '|'] line).isSome = true →
    ∃ data, line = c :: '|' :: data := by
    intro c hsome
    unfold afterTag at hsome
    split at hsome
    · rename_i hpre
      obtain ⟨data, rfl⟩ := List.isPrefixOf_iff_prefix.mp hpre
      exact ⟨data, rfl⟩
    · cases hsome
  rcases htaken.2 with hn | hh
  · obtain ⟨data, rfl⟩ := htag 'n' hn
    have htyped : pushTyped clk id 'n' data a = some b := hb
    rw [pushTyped_nick] at htyped
    exact h.pushIdentity hid rfl htyped
  · obtain ⟨data, rfl⟩ := htag 'h' hh
    have htyped : pushTyped clk id 'h' data a = some b := hb
    rw [pushTyped_hostmask] at htyped
    exact h.pushIdentity hid rfl htyped

/-- Under a freeze a push leaves everything but the bot. `hserved` is for what follows the
lines. -/
theorem frozen_push {frame : Str} (hserved : Served s) (hid : utf8Len id < 64)
    (hfrozen : configFrozen s = true) (ht : processBotConfigPush clk s id frame = some t) :
    OwnWrites id identityKey s t := by
  unfold processBotConfigPush at ht
  rw [hfrozen] at ht
  simp only [] at ht
  split at ht
  · cases ht
    exact .refl id identityKey s
  split at ht
  · cases ht
  rename_i a hlines
  have ha : OwnWrites id identityKey s a.state := by
    refine Lww.inv_runM (I := fun a => OwnWrites id identityKey s a.state) (Q := fun _ => True) ?_
      (.refl id identityKey s) (fun _ _ => trivial)
      (Lww.alongM_of_forall (fun _ _ => trivial) _ _) hlines
    exact fun a line b ha _ _ hb => OwnWrites.pushLine ha hid hb
  have hkept := ha.hubOnly
  rcases (hserved.congr hkept.users hkept.flags hkept.binds).pushFinish ht
    with rfl | ⟨p, payload, hseen, hp⟩
  · exact ha
  have hown := ha.trans (ownWrites_identity hid rfl hseen)
  rcases hp with rfl | rfl
  · exact hown
  · exact hown.broadcast payload

/-- Under a freeze a delta leaves everything but the bot. -/
theorem frozen_delta {frame : Str} (hid : utf8Len id < 64) (hfrozen : configFrozen s = true)
    (ht : processBotDelta clk s id frame = some t) : OwnWrites id identityKey s t := by
  unfold processBotDelta at ht
  split at ht
  · simp only [] at ht
    split at ht
    · cases ht
      exact .refl id identityKey s
    rw [hfrozen] at ht
    split at ht
    · cases ht
      exact .refl id identityKey s
    rename_i k v rest hscan _ hkey
    split at ht
    · cases ht
    rename_i p hupdate
    have hidentity : k.text = BotKey.n.name ∨ k.text = BotKey.h.name := by
      simp only [Bool.true_and, Bool.and_eq_true, bne_iff_ne, not_and_or, not_not] at hkey
      exact hkey
    have hp : OwnWrites id identityKey s p.1 := by
      rcases hidentity with heq | heq
      · rw [heq] at hupdate
        exact ownWrites_identity hid rfl hupdate
      · rw [heq] at hupdate
        exact ownWrites_identity hid rfl hupdate
    cases ht
    exact iteInduction (motive := OwnWrites id identityKey s) (fun _ => hp.broadcast _) fun _ =>
      hp
  · cases ht
    exact .refl id identityKey s

end Guards

/-! ### Every payload of a bot -/

/-- At some point of the run the record of the bot was live, so that the bot could log in. -/
def LoggedIn (es : List HubEvent) (id : Str) : Prop :=
  ∃ before after s, es = before ++ after ∧ runHub before = some s ∧ botIsLive s id = true

/-- What a payload of a bot makes of the hub, as a push or as a delta. -/
def BotSends (clk : Clock) (s : HubState) (id payload : Str) (t : HubState) : Prop :=
  processBotConfigPush clk s id payload = some t ∨ processBotDelta clk s id payload = some t

/-- A bot that could log in has a uuid that was not cut. -/
theorem LoggedIn.utf8Len_lt {es : List HubEvent} {id : Str} (h : LoggedIn es id) :
    utf8Len id < 64 := by
  obtain ⟨before, after, s, -, hrun, hlive⟩ := h
  have hfits : Fits (fun _ => True) s :=
    fits_runHub (fun _ _ _ => trivial) (.inl fun _ => trivial) hrun
  unfold botIsLive at hlive
  obtain ⟨b, hfind, -⟩ := (Option.any_eq_true _ _).mp hlive
  have huuid := (hfits.bots.all b (List.mem_of_find?_eq_some hfind)).uuid.len
  have hhit := List.find?_some hfind
  have heq : b.uuid = id := beq_iff_eq.mp hhit
  rw [heq] at huuid
  exact Nat.lt_succ_of_le huuid

/-- Under opt `h` no payload of a bot changes what admins manage or another bot. Under a freeze it
changes the bot's own nick, hostmask and seen time, and with these whether its record is there and
live, and its place on the revoke list, unless the bot is in service.

`hlogin` says that the bot was live at some point of the run, which is how it came to have a
session. It may have been deleted since. -/
theorem bot_bound {es : List HubEvent} {s : HubState} (hrun : runHub es = some s)
    (hserved : Served s) {id : Str} (hlogin : LoggedIn es id) (clk : Clock) (payload : Str)
    {t : HubState} (hsent : BotSends clk s id payload t) :
    (hubOnlyMutations s = true → HubOnly id s t)
      ∧ (configFrozen s = true → OwnWrites id identityKey s t) := by
  have hfits : Fits (fun _ => True) s :=
    fits_runHub (fun _ _ _ => trivial) (.inl fun _ => trivial) hrun
  have hid := hlogin.utf8Len_lt
  constructor
  · intro hguard
    rcases hsent with hpush | hdelta
    · exact hubOnly_push hfits.store hserved hid hguard hpush
    · exact hubOnly_delta hid hguard hdelta
  · intro hfrozen
    rcases hsent with hpush | hdelta
    · exact frozen_push hserved hid hfrozen hpush
    · exact frozen_delta hid hfrozen hdelta

/-! ### A deleted bot under a freeze -/

/-- The bot of these events. -/
def olaf : Str := "0b0b0b0b-0000-4000-8000-000000000002".toList

/-- A full admin, a bot with a key and no nick, and opt `h`. -/
def olafEvent : HubEvent where
  now := ⟨1700000000, inI64_runTime⟩
  op := .peerSync ("a|0a0a0a0a-0000-4000-8000-000000000001|alice||add|0|1699999998|\n".toList
    ++ "uf|0a0a0a0a-0000-4000-8000-000000000001|a|1699999998\n".toList
    ++ "b|0b0b0b0b-0000-4000-8000-000000000002|pub|".toList ++ List.replicate 86 'A'
    ++ "==|1699999998\n".toList ++ "opt|h|1699999998\n".toList)

/-- The bot deletes itself. -/
def olafGone : HubEvent where
  now := ⟨1700000005, by decide⟩
  op := .delta olaf "d|1|1700000005".toList

/-- An upgrade run freezes the config. -/
def freezeEvent : HubEvent where
  now := ⟨1700000010, by decide⟩
  op := .freeze true

/-- The time of the delta. -/
def olafClock : Clock where
  now := 1700000020

/-- The bot tells its nick. -/
def olafNick : Str := "n|olaf|1700000020".toList

/-- The bot of the example is in the store and live. -/
theorem loggedIn_olaf (rest : List HubEvent) : LoggedIn (olafEvent :: rest) olaf := by
  have hrun : ((runHub [olafEvent]).any fun s => decide (botIsLive s olaf = true)) = true := by
    decide +kernel
  obtain ⟨s, hs, hlive⟩ := (Option.any_eq_true _ _).mp hrun
  exact ⟨[olafEvent], rest, s, rfl, hs, of_decide_eq_true hlive⟩

/-- A bot that pushes its nick on a hub that alone may change records. -/
theorem bot_bound_olaf :
    ∃ s t, runHub [olafEvent, freezeEvent] = some s
      ∧ processBotDelta olafClock s olaf olafNick = some t
      ∧ HubOnly olaf s t ∧ OwnWrites olaf identityKey s t ∧ t.revoked = s.revoked := by
  have hrun : ((runHub [olafEvent, freezeEvent]).any fun s =>
    decide (Served s ∧ hubOnlyMutations s = true
      ∧ configFrozen s = true ∧ botIsLive s olaf = true ∧ isRevoked s olaf = false
      ∧ (processBotDelta olafClock s olaf olafNick).isSome = true)) = true := by
    decide +kernel
  obtain ⟨s, hs, hall⟩ := (Option.any_eq_true _ _).mp hrun
  obtain ⟨hserved, hguard, hfrozen, hlive, hkeeps, hsome⟩ := of_decide_eq_true hall
  obtain ⟨t, ht⟩ := Option.isSome_iff_exists.mp hsome
  have hbound := bot_bound hs hserved (loggedIn_olaf [freezeEvent]) olafClock olafNick (.inr ht)
  exact ⟨s, t, hs, ht, hbound.1 hguard, hbound.2 hfrozen,
    (hbound.2 hfrozen).unnoted rfl rfl ⟨hlive, hkeeps⟩⟩

/-- The nick of a bot that deleted itself goes into the revoke list, freeze or not. -/
theorem freeze_moves_revoke :
    ∃ s t, runHub [olafEvent, olafGone, freezeEvent] = some s ∧ Served s
      ∧ LoggedIn [olafEvent, olafGone, freezeEvent] olaf ∧ configFrozen s = true
      ∧ processBotDelta olafClock s olaf olafNick = some t ∧ t.revoked ≠ s.revoked := by
  have hrun : ((runHub [olafEvent, olafGone, freezeEvent]).any fun s => decide (Served s
      ∧ configFrozen s = true
      ∧ (processBotDelta olafClock s olaf olafNick).any (fun t => decide (t.revoked ≠ s.revoked))
        = true)) = true := by
    decide +kernel
  obtain ⟨s, hs, hall⟩ := (Option.any_eq_true _ _).mp hrun
  obtain ⟨hserved, hfrozen, hsent⟩ := of_decide_eq_true hall
  obtain ⟨t, ht, hmoved⟩ := (Option.any_eq_true _ _).mp hsent
  exact ⟨s, t, hs, hserved, loggedIn_olaf _, hfrozen, ht, of_decide_eq_true hmoved⟩

end IrcHub.Proofs
