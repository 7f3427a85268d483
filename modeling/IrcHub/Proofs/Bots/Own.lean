import IrcHub.Hub.Ops
import IrcHub.Proofs.Bots.Revoked

/-!
# `IrcHub.Proofs.Bots.Own`: an update of a bot stays its own

An update of a bot stays its own. `updateEntry` under a per-bot key changes the record of its bot
and the bot's place on the revoke list, and nothing else (`ownWrites_updateEntry`). Under a key of
`free` the entries of all other keys stay. The record itself is made where it is gone and put out
of use where the bot is revoked, and a bot in service is not noted on the revoke list.

- `sharedPart`, `otherBots`, `keptEntries`, `botHeads`, `otherRevoked`: the parts of the state
  that are compared
- `OwnWrites`: what writes of one bot under free keys may change. `OwnWrites.trans` makes it a
  relation for runs
- `ownWrites_updateBot`: a value of the bot
- `ownWrites_revokeFromBot`, `ownWrites_revokeAfter`: the revoke rules that follow

The frame is stated as equality of the parts that stay, and each part that may change only in some
states has its condition in front of it: whether bots are live, for a bot that is steady, and the
revoke list, for one in service.
-/

set_option autoImplicit false

namespace IrcHub.Proofs

open IrcHub.Hub Str
open String (utf8Len)

/-! ### Parts of a state -/

/-- The state without the bots, the revoke list and what goes out to the peers. -/
def sharedPart (s : HubState) : HubState := { s with bots := [], revoked := [], peerOut := [] }

/-- The records of the other bots. -/
def otherBots (id : Str) (s : HubState) : List BotConfig := s.bots.filter fun b => b.uuid != id

/-- The entries of a bot under the keys that are not free. -/
def keptEntries (id : Str) (free : BotKey → Bool) (s : HubState) : List (ConfigEntry BotKey) :=
  s.bots.flatMap fun b => if b.uuid = id then b.entries.filter fun e => !free e.key else []

/-- Which bots there are, which of them are live, and when they were last synced. -/
def botHeads (s : HubState) : List (Str × Bool × Int) :=
  s.bots.map fun b => (b.uuid, b.isActive, b.lastSyncTime)

/-- The record of a bot is there and live. -/
def botIsLive (s : HubState) (id : Str) : Bool :=
  (s.bots.find? fun b => b.uuid == id).any (·.isActive)

/-- The record of a bot is live, and the bot is not on the revoke list. -/
def BotInService (s : HubState) (id : Str) : Prop := botIsLive s id = true
    ∧ isRevoked s id = false

/-- The record of a bot is there, and not one to be put out of use. -/
def BotSteady (s : HubState) (id : Str) : Prop :=
  (s.bots.any fun b => b.uuid == id) = true ∧ (botIsLive s id = true → isRevoked s id = false)

/-- A bot may be noted on the revoke list without a place of another. -/
def NoteRoom (s : HubState) (id : Str) : Prop := isRevoked s id = true
    ∨ s.revoked.length < maxRevoked

/-- The revoked bots but one. -/
def otherRevoked (id : Str) (s : HubState) : List Revoked := s.revoked.filter fun r =>
  r.uuid != id

/-- What writes of the bot `id` under the keys of `free` may change. `free` is a set of keys, so
the same relation serves a push, where all per-bot keys are free, and a freeze, where three of
them are. -/
structure OwnWrites (id : Str) (free : BotKey → Bool) (s t : HubState) : Prop where
  shared : sharedPart t = sharedPart s
  others : otherBots id t = otherBots id s
  kept : keptEntries id free t = keptEntries id free s
  heads : free .d = false → free .t = false → BotSteady s id → botHeads t = botHeads s
  unnoted : free .d = false → free .t = false → BotInService s id → t.revoked = s.revoked
  noted : NoteRoom s id → NoteRoom t id ∧ otherRevoked id t = otherRevoked id s

section Own

variable {clk : Clock} {id : Str} {free : BotKey → Bool} {s t u : HubState}

/-- Whether a bot is live is read off the heads of the bots. -/
theorem botIsLive_eq (s : HubState) (id : Str) :
    botIsLive s id = ((botHeads s).find? fun h => h.1 == id).any (·.2.1) := by
  unfold botIsLive botHeads
  rw [List.find?_map, Option.any_map]
  rfl

/-- So it depends on them alone. -/
theorem botIsLive_congr (h : botHeads t = botHeads s) (id : Str) :
    botIsLive t id = botIsLive s id := by
  rw [botIsLive_eq, h, ← botIsLive_eq]

/-- So does whether a bot is there. -/
theorem botThere_congr (h : botHeads t = botHeads s) (id : Str) :
    (t.bots.any fun b => b.uuid == id) = s.bots.any fun b => b.uuid == id := by
  have heq : ∀ r : HubState, (r.bots.any fun b => b.uuid == id) = (botHeads r).any fun h =>
    h.1 == id := by
    intro r
    unfold botHeads
    rw [List.any_map]
    rfl
  rw [heq, h, ← heq]

/-- A bot in service is steady: it is there and not one to be put out of use. -/
theorem BotInService.steady (h : BotInService s id) : BotSteady s id := by
  refine ⟨?_, fun _ => h.2⟩
  obtain ⟨b, hfind, -⟩ := (Option.any_eq_true _ _).mp h.1
  have hhit := List.find?_some hfind
  exact List.any_eq_true.mpr ⟨b, List.mem_of_find?_eq_some hfind, hhit⟩

/-- A state that stays as it is. -/
theorem OwnWrites.refl (id : Str) (free : BotKey → Bool) (s : HubState) : OwnWrites id free s s :=
  ⟨rfl, rfl, rfl, fun _ _ _ => rfl, fun _ _ _ => rfl, fun h => ⟨h, rfl⟩⟩

/-- Two steps after each other. The conditions in front of the parts are kept by the first
step. -/
theorem OwnWrites.trans (h : OwnWrites id free s t) (h' : OwnWrites id free t u) :
    OwnWrites id free s u where
  shared := h'.shared.trans h.shared
  others := h'.others.trans h.others
  kept := h'.kept.trans h.kept
  heads hd ht hsteady := by
    have hheads := h.heads hd ht hsteady
    have hlive := botIsLive_congr hheads id
    refine (h'.heads hd ht ⟨(botThere_congr hheads id).trans hsteady.1, fun hact => ?_⟩).trans
      hheads
    rw [hlive] at hact
    rw [isRevoked_congr (h.unnoted hd ht ⟨hact, hsteady.2 hact⟩)]
    exact hsteady.2 hact
  unnoted hd ht hserv := by
    have hrevoked := h.unnoted hd ht hserv
    refine (h'.unnoted hd ht ⟨?_, (isRevoked_congr hrevoked id).trans hserv.2⟩).trans hrevoked
    rw [botIsLive_congr (h.heads hd ht hserv.steady)]
    exact hserv.1
  noted hroom := by
    obtain ⟨hroom', hothers⟩ := h.noted hroom
    obtain ⟨hroom'', hothers'⟩ := h'.noted hroom'
    exact ⟨hroom'', hothers'.trans hothers⟩

/-- What goes out to the peers is not looked at. -/
theorem OwnWrites.broadcast (h : OwnWrites id free s t) (payload : Str) :
    OwnWrites id free s (broadcastSyncToPeers t payload) :=
  h.trans ⟨rfl, rfl, rfl, fun _ _ _ => rfl, fun _ _ _ => rfl, fun h => ⟨h, rfl⟩⟩

/-! ### Writes to the record -/

/-- The record of the bot is rewritten. `hkept` is about its entries, `hhead` about what makes it
live. -/
theorem ownWrites_set {i : Nat} {b b' : BotConfig} (hget : s.bots[i]? = some b)
    (huuid : b.uuid = id) (huuid' : b'.uuid = b.uuid)
    (hkept : (b'.entries.filter fun e => !free e.key) = b.entries.filter fun e => !free e.key)
    (hhead : free .d = false → free .t = false → BotSteady s id →
      b'.isActive = b.isActive ∧ b'.lastSyncTime = b.lastSyncTime) :
    OwnWrites id free s { s with bots := s.bots.set i b' } where
  shared := rfl
  others := Table.filter_set_of_false hget (by simp [huuid]) (by simp [huuid', huuid])
  kept := by
    unfold keptEntries
    rw [List.flatMap_def, List.flatMap_def, List.map_set, Table.set_of_getElem?]
    rw [List.getElem?_map, hget, huuid', hkept]
    rfl
  heads hd ht hsteady := by
    obtain ⟨hact, hsync⟩ := hhead hd ht hsteady
    unfold botHeads
    rw [List.map_set, Table.set_of_getElem?]
    rw [List.getElem?_map, hget, huuid', hact, hsync]
    rfl
  unnoted _ _ _ := rfl
  noted hroom := ⟨hroom, rfl⟩

/-- A new record of the bot has no entries. `hlen` says that its uuid was not cut, so the record
is found again. -/
theorem ownWrites_registered (hfind : botFind s id = none) (hlen : utf8Len id < 64) :
    OwnWrites id free s (registered s id) where
  shared := rfl
  others := by
    unfold otherBots registered
    rw [List.filter_append]
    simp [newBot, trunc_of_lt hlen]
  kept := by
    unfold keptEntries registered
    rw [List.flatMap_append]
    simp [newBot]
  heads _ _ hsteady := by
    obtain ⟨b, hb, huuid⟩ := List.any_eq_true.mp hsteady.1
    rw [List.findIdx?_eq_none_iff.mp hfind b hb] at huuid
    cases huuid
  unnoted _ _ _ := rfl
  noted hroom := ⟨hroom, rfl⟩

/-- A value under a free key leaves the entries of the others. -/
theorem put_kept {b b' : BotConfig} {k : BotKey} {v : Str} {ts : Int} (h : b.put k v ts = some b')
    (hk : free k = true) :
    (b'.entries.filter fun e => !free e.key) = b.entries.filter fun e => !free e.key := by
  unfold BotConfig.put at h
  split at h
  · split at h
    · cases h
      rfl
    · cases h
  split at h
  · cases h
  simp only [] at h
  split at h
  · rename_i i hfind
    split at h
    · cases h
    rename_i e hget
    have hkey : e.key = k := by
      obtain ⟨hi, hhit, -⟩ := List.findIdx?_eq_some_iff_getElem.mp hfind
      obtain ⟨_, rfl⟩ := List.getElem?_eq_some_iff.mp hget
      exact of_decide_eq_true hhit
    split at h
    · cases h
    split at h
    · cases h
      exact Table.filter_set_of_false hget (by simp [hkey, hk]) (by simp [hkey, hk])
    · cases h
  · split at h
    · cases h
      show (b.entries ++ _).filter _ = _
      rw [List.filter_append]
      simp [hk]
    · cases h

/-- Only the key `t` moves the sync time. -/
theorem put_lastSyncTime {b b' : BotConfig} {k : BotKey} {v : Str} {ts : Int}
    (h : b.put k v ts = some b') (hk : k ≠ .t) : b'.lastSyncTime = b.lastSyncTime := by
  unfold BotConfig.put at h
  rw [if_neg hk] at h
  split at h
  · cases h
  simp only [] at h
  split at h
  · split at h
    · cases h
    split at h
    · cases h
    split at h
    · cases h
      rfl
    · cases h
  · split at h
    · cases h
      rfl
    · cases h

/-- The bot that is found has the uuid. -/
theorem uuid_of_botFind {i : Nat} {b : BotConfig} (hfind : botFind s id = some i)
    (hget : s.bots[i]? = some b) :
    b.uuid = id := by
  obtain ⟨hi, hhit, -⟩ := List.findIdx?_eq_some_iff_getElem.mp hfind
  obtain ⟨_, rfl⟩ := List.getElem?_eq_some_iff.mp hget
  exact beq_iff_eq.mp hhit

/-- A value of the bot is stored, or refused. The key has to be one that the bot may write:
`hkey`. -/
theorem ownWrites_updateBot {key value : Str} {ts : Int} {p : HubState × Bool}
    (hkey : ∀ k, botKeyOf key = some k → free k = true)
    (h : updateBot s id key value ts = some p) :
    OwnWrites id free s p.1 := by
  unfold updateBot at h
  split at h
  · cases h
    exact .refl id free s
  rename_i k hk
  split at h
  · cases h
    exact .refl id free s
  split at h
  · cases h
  rename_i i hfind
  split at h
  · cases h
  rename_i b hget
  split at h
  · cases h
    exact .refl id free s
  rename_i b' hput
  cases h
  have hfree := hkey k hk
  refine ownWrites_set hget (uuid_of_botFind hfind hget) (put_spec hput).1
    (put_kept hput hfree) fun hd ht _ => ?_
  refine ⟨(put_spec hput).2 fun heq => ?_, put_lastSyncTime hput fun heq => ?_⟩
  · rw [heq, hd] at hfree
    cases hfree
  · rw [heq, ht] at hfree
    cases hfree

/-! ### The revoke rules -/

/-- A revocation is not in the shared part. -/
theorem sharedPart_revokeMerge (s : HubState) (inp : Revoked) :
    sharedPart (revokeMerge s inp).1 = sharedPart s := by
  unfold revokeMerge revokeNew
  split
  · split
    · rfl
    split
    · split
      · rfl
      · rfl
    · rfl
  · split
    · rfl
    · rfl

/-- Nor is one made from a bot. -/
theorem sharedPart_revokeFromBot (s : HubState) (b : BotConfig) :
    sharedPart (revokeFromBot s b).1 = sharedPart s := by
  unfold revokeFromBot
  split
  · rfl
  simp only []
  split
  · rfl
  · exact sharedPart_revokeMerge s _

/-- The record found first says whether the bot is live. -/
theorem botIsLive_of_get {i : Nat} {b : BotConfig} (hfind : botFind s id = some i)
    (hget : s.bots[i]? = some b) :
    botIsLive s id = b.isActive := by
  unfold botIsLive
  rw [Table.find?_of_findIdx? hfind hget]
  rfl

/-- A merge under the uuid of the bot leaves the others on the list, if there is room for it. -/
theorem noted_revokeMerge {inp : Revoked} (huuid : inp.uuid = id) (hroom : NoteRoom s id) :
    NoteRoom (revokeMerge s inp).1 id
      ∧ otherRevoked id (revokeMerge s inp).1 = otherRevoked id s := by
  unfold revokeMerge
  cases hfind : revokeFind s inp.uuid with
  | none =>
    have hnot : isRevoked s id = false := by
      unfold isRevoked
      rw [← huuid, hfind]
      rfl
    have hlen : s.revoked.length < maxRevoked := by
      rcases hroom with hyes | hlen
      · rw [hnot] at hyes
        cases hyes
      · exact hlen
    simp only []
    unfold revokeNew
    split
    · exact ⟨.inr hlen, rfl⟩
    rw [if_neg (by omega)]
    refine ⟨.inl (isRevoked_iff.mpr ⟨inp, List.mem_append_right _ List.mem_cons_self, huuid⟩), ?_⟩
    show (s.revoked ++ [inp]).filter _ = s.revoked.filter _
    rw [List.filter_append, List.filter_singleton, huuid, bne_self_eq_false]
    exact List.append_nil _
  | some i =>
    simp only []
    obtain ⟨hi, hhit, -⟩ := List.findIdx?_eq_some_iff_getElem.mp hfind
    have hget := List.getElem?_eq_getElem hi
    have hr : s.revoked[i].uuid = id := (beq_iff_eq.mp hhit).trans huuid
    rw [hget]
    refine ⟨.inl (isRevoked_iff.mpr ⟨_, List.mem_set hi _, hr⟩), ?_⟩
    exact Table.filter_set_of_false hget (by rw [hr, bne_self_eq_false]) (by
      show (s.revoked[i].uuid != id) = false
      rw [hr, bne_self_eq_false])

/-- A dead bot on its way to the revoke list. `hdead` says that a bot in service is live, so it
does not get there. -/
private theorem ownWrites_revokeFromBot {b : BotConfig} (huuid : b.uuid = id)
    (hdead : BotInService s id → b.isActive = true) :
    OwnWrites id free s (revokeFromBot s b).1 where
  shared := sharedPart_revokeFromBot s b
  others := by
    unfold otherBots
    rw [revokeFromBot_bots]
  kept := by
    unfold keptEntries
    rw [revokeFromBot_bots]
  heads _ _ _ := by
    unfold botHeads
    rw [revokeFromBot_bots]
  unnoted _ _ hlive := by
    have hsame : revokeFromBot s b = (s, false) := by
      unfold revokeFromBot
      rw [hdead hlive]
      rfl
    rw [hsame]
  noted hroom := by
    unfold revokeFromBot
    split
    · exact ⟨hroom, rfl⟩
    simp only []
    split
    · exact ⟨hroom, rfl⟩
    · exact noted_revokeMerge ((revokeOf_uuid b).trans huuid) hroom

/-- A revocation that is brought up to date is no write of another bot. -/
theorem ownWrites_revokeAfter (s : HubState) (key : Str) :
    OwnWrites id free s (revokeAfter s id key) := by
  unfold revokeAfter
  split
  · exact .refl id free s
  rename_i i hfind
  simp only []
  have hoff : OwnWrites id free s (if isRevoked s id then
      { s with bots := s.bots.modify i fun b => { b with isActive := false } } else s) := by
    split
    · rename_i hrevoked
      rw [List.modify_eq_set_getElem?]
      cases hget : s.bots[i]? with
      | none => exact .refl id free s
      | some b =>
        refine ownWrites_set hget (uuid_of_botFind hfind hget) rfl rfl fun _ _ hsteady =>
          ⟨?_, rfl⟩
        -- a live record of a revoked bot is not steady
        cases hact : b.isActive with
        | false => rfl
        | true =>
          rw [hsteady.2 ((botIsLive_of_get hfind hget).trans hact)] at hrevoked
          cases hrevoked
    · exact .refl id free s
  -- a bot in service stays as it is
  split
  · exact hoff
  rename_i b hget
  have hstill : ∀ r : HubState, r = (if isRevoked s id then
      { s with bots := s.bots.modify i fun b => { b with isActive := false } } else s) →
      botFind r id = some i := by
    rintro r rfl
    rw [← hfind]
    split
    · rw [List.modify_eq_set_getElem?]
      cases hold : s.bots[i]? with
      | none => rfl
      | some a => exact Table.findIdx?_set_of_eq hold rfl
    · rfl
  split
  · refine hoff.trans
      (ownWrites_revokeFromBot (uuid_of_botFind (hstill _ rfl) hget) fun hlive => ?_)
    rw [← botIsLive_of_get (hstill _ rfl) hget]
    exact hlive.1
  · exact hoff

/-! ### Updates -/

/-- The key is not that of a channel or an old mask. -/
def perBotKey (key : Str) : Prop :=
  globalKeyOf key ≠ some .c ∧ globalKeyOf key ≠ some .m ∧ globalKeyOf key ≠ some .o

/-- An update of a bot under a per-bot key stays its own. `hper` excludes the keys of the global
table, `hkey` those that are not free, and `hid` a uuid that would be cut. -/
theorem ownWrites_updateEntry {key value extra op : Str} {ts : Int} {p : HubState × Bool}
    (hid : utf8Len id < 64) (hper : perBotKey key)
    (hkey : ∀ k, botKeyOf key = some k → free k = true)
    (h : updateEntry clk s id key value extra op ts = some p) : OwnWrites id free s p.1 := by
  unfold updateEntry at h
  -- it is refused
  split at h
  · cases h
    exact .refl id free s
  split at h
  · cases h
  rename_i t ok hinner
  cases h
  -- the record that the value goes to
  have ht : OwnWrites id free s t := by
    unfold updateEntryInner at hinner
    split at hinner
    · cases hinner
      exact .refl id free s
    -- the key is none of the global table
    split at hinner
    · rename_i hglobal
      exact absurd hglobal hper.1
    · rename_i hglobal
      exact absurd hglobal hper.2.1
    · rename_i hglobal
      exact absurd hglobal hper.2.2
    · cases hinner
      exact .refl id free s
    split at hinner
    · cases hinner
      exact .refl id free s
    split at hinner
    · cases hinner
      exact .refl id free s
    rename_i r hbot
    unfold getOrCreateBot at hbot
    -- the bot is there
    split at hbot
    · cases hbot
      exact ownWrites_updateBot hkey hinner
    -- the bot is made
    rename_i habsent
    split at hbot
    · cases hbot
      have hnone : botFind s id = none := by
        cases hfind : botFind s id with
        | none => rfl
        | some i =>
          rw [hfind] at habsent
          exact absurd rfl habsent
      exact (ownWrites_registered hnone hid).trans (ownWrites_updateBot hkey hinner)
    · cases hbot
  show OwnWrites id free s (if ok && revokeGuards key then revokeAfter t id key else t)
  -- and the revoke rules follow for some keys
  split
  · exact ht.trans (ownWrites_revokeAfter t key)
  · exact ht

end Own

end IrcHub.Proofs
