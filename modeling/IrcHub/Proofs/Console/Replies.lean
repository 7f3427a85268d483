import IrcHub.Proofs.Bots.Revoked
import IrcHub.Proofs.Console.Users

/-!
# `IrcHub.Proofs.Console.Replies`: what a success answer is worth

What a success answer is worth. A success answer of the console is composed from the command, not
from the store. `Truthful` says that the records the hub holds afterwards are those of the answer,
and that the lines for the peers read back as these records. `ReplyTaken` is the condition on the
command and the state before it under which that is so (`truthful_iff`).

- a bot: there is room, and the nick passes the checks of the store (`botAdded_iff`)
- a channel: the store takes the record, under a name a line can carry
  (`Proofs/Console/Channels.lean`)
- a user: name and mask have no line end (`Proofs/Console/Users.lean`)

A new bot is written by three updates, its nick, its key and the time, each of which may be
refused (`LiveAt.updateEntry`). Its key passes the checks of the store since it passed those of
the command, and its nick may not.

The theorem is about every state a hub reaches and every command that is answered. A command that
is refused says nothing that could be wrong. The uuid drawn for a user must be new (`FreshDraw`),
and the clock sane.
-/

set_option autoImplicit false

namespace IrcHub.Proofs

open IrcHub.Hub Str
open String (utf8Len)

/-! ### What an answer says -/

/-- The hub holds what the answer says, and told the peers so. A new bot is not told to them. -/
def Truthful (s : HubState) : AdminReply → Prop
  | .botAdded uuid nick pubKey =>
    ∃ b, (botFind s uuid).bind (s.bots[·]?) = some b ∧ b.isActive = true
      ∧ (b.entry .n).map (·.value) = some nick ∧ (b.entry .pub).map (·.value) = some pubKey
  | .channelAdded name key => ∃ modes ts, ChanSaid s name key modes "add".toList ts
  | .channelRemoved name => ∃ key modes ts, ChanSaid s name key modes "del".toList ts
  | .userAdded name typ pubKey mask access =>
    ∃ u m, UserSaid s u m access ∧ u.name = name ∧ u.typ = typ ∧ u.pubkeyB64 = pubKey
      ∧ m.mask = mask

/-- The condition under which an answer is true, on the command and on the state before it. -/
def ReplyTaken (clk : Clock) (s : HubState) : AdminReply → Prop
  | .botAdded _ nick _ =>
      s.bots.length < maxBots ∧ fieldOk nick false = true ∧ utf8Len nick < maxNick
  | .channelAdded name key =>
    AddTaken clk s name ∨ ChanHeld s name key (globalChannelModes s name) "add".toList i64Max
  | .channelRemoved name =>
    ('|' ∉ name ∧ '\n' ∉ name ∧ utf8Len name < 1019)
      ∧ (DelTaken clk s name ∨ ChanHeld s name [] 0 "del".toList i64Max)
  | .userAdded name _ _ mask _ => '\n' ∉ name ∧ '\n' ∉ mask

/-! ### Bots -/

section Bots

variable {clk : Clock} {s : HubState} {uuid : Str}

/-- The live bot `b` of the uuid is at place `i`, and the uuid is not revoked. -/
private structure LiveAt (s : HubState) (uuid : Str) (i : Nat) (b : BotConfig) : Prop where
  find : botFind s uuid = some i
  get : s.bots[i]? = some b
  live : b.isActive = true
  free : isRevoked s uuid = false

/-- The bot with other entries. -/
private def withEntries (s : HubState) (i : Nat) (b : BotConfig)
    (es : List (ConfigEntry BotKey)) :
    HubState :=
  { s with bots := s.bots.set i { b with entries := es } }

/-- A bot stays where it is, and live, when its values change. -/
private theorem LiveAt.withEntries {i : Nat} {b : BotConfig} (h : LiveAt s uuid i b)
    (es : List (ConfigEntry BotKey)) :
    LiveAt (withEntries s i b es) uuid i { b with entries := es } where
  find := by
    have hset : (s.bots.set i { b with entries := es }).findIdx? (fun b => b.uuid == uuid)
      = botFind s uuid :=
      Table.findIdx?_set_of_eq h.get rfl
    exact hset.trans h.find
  get := List.getElem?_set_self (List.getElem?_eq_some_iff.mp h.get).1
  live := h.live
  free := h.free

/-- The entry a value becomes. -/
private def botEntry (k : BotKey) (value : Str) (ts : Int) : ConfigEntry BotKey :=
  { key := k, value := trunc value 1024, timestamp := ts, lastUsed := 0 }

/-- A new value of a live bot is stored exactly if it passes the checks of fields and lengths.
`hnew` says that the bot has no entry of the key yet, `hroom` that it has room for one. -/
private theorem LiveAt.updateEntry {k : BotKey} {i : Nat} {b : BotConfig} (h : LiveAt s uuid i b)
    (hk : k = .n ∨ k = .pub ∨ k = .seen) (value : Str) (huuid : fieldOk uuid false = true)
    (hnamed : uuidReserved uuid = false) (hload : tsAhead clk clk.now = false)
    (hnew : b.entries.findIdx? (fun e => e.key = k) = none)
    (hroom : b.entries.length < maxBotEntries) :
    updateEntry clk s uuid k.name value [] [] clk.now
      = if fieldOk value false && botValueOk k value then
          some (Proofs.withEntries s i b (b.entries ++ [botEntry k value clk.now]), true)
        else some (s, false) := by
  -- the three keys: none is a delete, none is global, and all follow the revoke rules
  have hkd : k.name ≠ BotKey.d.name := by
    rcases hk with rfl | rfl | rfl <;> decide
  have hbar : ([GlobalKey.c, .m, .o].any fun g => [g.tag] == k.name) = false := by
    rcases hk with rfl | rfl | rfl <;> decide
  have hname : fieldOk k.name false = true := by
    rcases hk with rfl | rfl | rfl <;> decide
  have hguard : revokeGuards k.name = true := by
    rcases hk with rfl | rfl | rfl <;> decide
  have hglobal : globalKeyOf k.name = none := globalKeyOf_of_botKeyOf (botKeyOf_name k)
  -- no check refuses the update
  have hrefused : updateRefused clk s uuid k.name value clk.now = false := by
    unfold updateRefused
    rw [h.free, beq_eq_false_iff_ne.mpr hkd]
    simp
  have hfields : updateFieldsOk uuid k.name value [] [] = fieldOk value false := by
    unfold updateFieldsOk
    simp only [hbar, huuid, hname, Bool.true_and]
    have hnil : fieldOk [] false = true := rfl
    rw [hnil, Bool.and_true, Bool.and_true]
  have hinner : updateEntryInner clk s uuid k.name value [] [] clk.now
      = if fieldOk value false then updateBot s uuid k.name value clk.now
        else some (s, false) := by
    unfold updateEntryInner getOrCreateBot
    rw [hfields, hload, hglobal, hnamed, h.find]
    cases fieldOk value false <;> rfl
  -- the bot has no entry of the key and has room, so it takes one
  have hput : b.put k value clk.now
      = some { b with entries := b.entries ++ [botEntry k value clk.now] } := by
    unfold BotConfig.put
    rw [hnew]
    rcases hk with rfl | rfl | rfl <;> simp [hroom, BotConfig.write, botEntry]
  unfold Hub.updateEntry
  rw [if_neg (by rw [hrefused]; decide), hinner]
  by_cases hval : fieldOk value false = true
  case neg => simp [hval]
  rw [if_pos hval, hval, Bool.true_and]
  unfold updateBot
  rw [botKeyOf_name k]
  by_cases hvalue : botValueOk k value = true
  case neg => simp [hvalue]
  simp only [hvalue, Bool.not_true, Bool.false_eq_true, if_false, h.find, h.get, hput,
    if_true, hguard, Bool.and_self]
  -- a live bot that is not revoked is left as it is
  have hlive := h.withEntries (b.entries ++ [botEntry k value clk.now])
  have hafter : revokeAfter (Proofs.withEntries s i b (b.entries ++ [botEntry k value clk.now]))
    uuid k.name
      = Proofs.withEntries s i b (b.entries ++ [botEntry k value clk.now]) := by
    unfold revokeAfter
    rw [hlive.find]
    simp only [hlive.free, Bool.false_eq_true, if_false, hlive.get, h.live, Bool.not_true,
      Bool.false_and]
  exact congrArg (fun t => some (t, true)) hafter

/-- The nick passes the checks of the store. -/
def nickTaken (nick : Str) : Bool := fieldOk nick false && decide (utf8Len nick < maxNick)

/-- The entries of a bot just added: its nick if the store took it, its key, and when it was
seen. -/
private def addedEntries (nick pubKey : Str) (now : Int) : List (ConfigEntry BotKey) :=
  (if nickTaken nick then [botEntry .n nick now] else [])
    ++ [botEntry .pub pubKey now, botEntry .seen [] now]

/-- A character of a field. -/
private def FieldChar (c : Char) : Prop := 0x20 ≤ c.toNat ∧ c.toNat ≠ 0x7f ∧ c ≠ '|'

/-- Every character of a range of letters or digits is one of a field. -/
private theorem fieldChar_of_range {c : Char} (lo hi : Char) (hlo : 0x20 ≤ lo.toNat)
    (hhi : hi.toNat < 0x7b) (hc : lo.toNat ≤ c.toNat ∧ c.toNat ≤ hi.toNat) : FieldChar c := by
  refine ⟨hlo.trans hc.1, by omega, ?_⟩
  rintro rfl
  have hbar : '|'.toNat = 0x7c := rfl
  omega

/-- Characters between two others, by code. -/
private theorem toNat_range {lo hi c : Char} (h : (decide (lo ≤ c) && decide (c ≤ hi)) = true) :
    lo.toNat ≤ c.toNat ∧ c.toNat ≤ hi.toNat := by
  rw [Bool.and_eq_true, decide_eq_true_eq, decide_eq_true_eq] at h
  exact h

/-- A text of field characters is a field. -/
private theorem fieldOk_of_chars {t : Str} (h : ∀ c ∈ t, FieldChar c) :
    fieldOk t false = true := by
  unfold fieldOk
  rw [List.all_eq_true]
  intro c hc
  obtain ⟨h1, h2, h3⟩ := h c hc
  simp [h1, h2, h3]

/-- The key of a bot passes the checks of the store: what decodes has no control byte and no
bar. -/
private theorem fieldOk_of_pubOk {k : Str} (h : pubOk k = true) : fieldOk k false = true := by
  refine fieldOk_of_chars (forall_of_pubOk ⟨by decide, by decide, by decide⟩ ?_ h)
  intro c x hx
  unfold b64Sextet at hx
  split at hx
  · exact fieldChar_of_range 'A' 'Z' (by decide) (by decide) (toNat_range ‹_›)
  split at hx
  · exact fieldChar_of_range 'a' 'z' (by decide) (by decide) (toNat_range ‹_›)
  split at hx
  · exact fieldChar_of_range '0' '9' (by decide) (by decide) (toNat_of_isDigit ‹_›)
  split at hx
  · subst c
    exact ⟨by decide, by decide, by decide⟩
  split at hx
  · subst c
    exact ⟨by decide, by decide, by decide⟩
  · cases hx

/-- So does a uuid. -/
private theorem fieldOk_of_uuidShape {u : Str} (h : uuidShape u = true) :
    fieldOk u false = true := by
  refine fieldOk_of_chars (forall_of_uuidShape ⟨by decide, by decide, by decide⟩ ?_ h)
  intro c hc
  unfold isHexDigit at hc
  rw [Bool.or_eq_true, Bool.or_eq_true] at hc
  rcases hc with (hc | hc) | hc
  · exact fieldChar_of_range '0' '9' (by decide) (by decide) (toNat_of_isDigit hc)
  · exact fieldChar_of_range 'a' 'f' (by decide) (by decide) (toNat_range hc)
  · exact fieldChar_of_range 'A' 'F' (by decide) (by decide) (toNat_range hc)

/-- A uuid is no key of a bot. -/
private theorem uuidReserved_of_uuidShape {u : Str} (h : uuidShape u = true) :
    uuidReserved u = false := by
  have hlen : u.length = 36 := by
    rw [uuidShape, Bool.and_eq_true] at h
    exact beq_iff_eq.mp h.1
  unfold uuidReserved
  rw [List.any_eq_false]
  intro k _ hname
  have hk : k.name.length < 36 := by cases k <;> decide
  rw [beq_iff_eq.mp hname] at hk
  omega

/-- The hub `s` with one more bot, which has these entries. -/
private structure Added (s t : HubState) (uuid : Str) (es : List (ConfigEntry BotKey)) :
    Prop where
  bots : t.bots = s.bots ++ [{ newBot uuid with entries := es }]
  revoked : t.revoked = s.revoked

/-- The bot that was added is there, live, at the end of the table. -/
private theorem Added.liveAt {t : HubState} {es : List (ConfigEntry BotKey)}
    (h : Added s t uuid es) (huuid : uuidShape uuid = true) (hfree : isRevoked s uuid = false)
    (hfind : botFind s uuid = none) :
    LiveAt t uuid s.bots.length { newBot uuid with entries := es } := by
  have hshort : utf8Len uuid < 64 := by
    rw [utf8Len_of_uuidShape huuid]
    decide
  refine ⟨?_, by rw [h.bots]; simp, rfl, (isRevoked_congr h.revoked uuid).trans hfree⟩
  unfold botFind at hfind ⊢
  rw [h.bots]
  exact Table.findIdx?_append_of_none hfind (by simp [newBot, trunc_of_lt hshort])

/-- One value of the new bot: its entry is there afterwards, or nothing changed. -/
private theorem Added.updateEntry {t : HubState} {es : List (ConfigEntry BotKey)}
    (h : Added s t uuid es) (huuid : uuidShape uuid = true) (hload : tsAhead clk clk.now = false)
    (hfree : isRevoked s uuid = false) (hfind : botFind s uuid = none) {k : BotKey}
    (hk : k = .n ∨ k = .pub ∨ k = .seen) (value : Str) (hnew : ∀ e ∈ es, e.key ≠ k)
    (hroom : es.length < maxBotEntries) :
    ∃ p, updateEntry clk t uuid k.name value [] [] clk.now = some p ∧ Added s p.1 uuid
      (if fieldOk value false && botValueOk k value then es ++ [botEntry k value clk.now]
      else es) := by
  have hlive := h.liveAt huuid hfree hfind
  have hnone : es.findIdx? (fun e => e.key = k) = none := by
    rw [List.findIdx?_eq_none_iff]
    intro e he
    exact decide_eq_false (hnew e he)
  rw [hlive.updateEntry hk value (fieldOk_of_uuidShape huuid)
    (uuidReserved_of_uuidShape huuid) hload hnone hroom]
  split
  · refine ⟨_, rfl, ?_, h.revoked⟩
    show t.bots.set s.bots.length _ = _
    rw [h.bots]
    simp
  · exact ⟨_, rfl, h⟩

/-- What `bot add` leaves: nothing new without room, else the new bot with the values the store
took. -/
private theorem addBotMemory_eq (nick : Str) {pubKey : Str} (huuid : uuidShape uuid = true)
    (hpub : pubOk pubKey = true) (hload : tsAhead clk clk.now = false)
    (hfree : isRevoked s uuid = false) (hfind : botFind s uuid = none) :
    ∃ t, addBotMemory clk s uuid nick pubKey = some t ∧
      if s.bots.length < maxBots then Added s t uuid (addedEntries nick pubKey clk.now)
        else t = s := by
  -- no room: nothing is added
  by_cases hroom : s.bots.length < maxBots
  case neg =>
    refine ⟨s, ?_, by rw [if_neg hroom]⟩
    unfold addBotMemory
    rw [if_pos (by simp [Nat.le_of_not_lt hroom])]
  -- the values that the store takes: the key and the empty last seen always, the nick if it is
  -- short
  have hpubTaken : (fieldOk pubKey false && botValueOk .pub pubKey) = true := by
    rw [fieldOk_of_pubOk hpub]
    rw [pubOk, Bool.and_eq_true, decide_eq_true_eq] at hpub
    unfold botValueOk botValueMax
    simp [hpub.1]
  have hseenTaken : (fieldOk [] false && botValueOk .seen []) = true := rfl
  have hnickTaken : (fieldOk nick false && botValueOk .n nick) = nickTaken nick := by
    unfold botValueOk botValueMax nickTaken
    simp [Nat.le_iff_lt_add_one]
  have h₀ : Added s (registered s uuid) uuid [] := ⟨rfl, rfl⟩
  -- the nick first
  obtain ⟨p₁, hp₁, h₁⟩ := h₀.updateEntry huuid hload hfree hfind (.inl rfl) nick
    (fun _ he => (List.not_mem_nil he).elim) (by decide)
  rw [hnickTaken, List.nil_append] at h₁
  generalize hes : (if nickTaken nick then [botEntry .n nick clk.now] else []) = es at h₁
  have hkeys : ∀ e ∈ es, e.key = .n := by
    intro e he
    rw [← hes] at he
    split at he
    · rw [List.mem_singleton.mp he]
      rfl
    · exact (List.not_mem_nil he).elim
  have hfew : es.length ≤ 1 := by
    rw [← hes]
    split
    · exact Nat.le_refl 1
    · exact Nat.zero_le 1
  -- then the key
  obtain ⟨p₂, hp₂, h₂⟩ := h₁.updateEntry huuid hload hfree hfind (.inr (.inl rfl)) pubKey
    (fun e he => by rw [hkeys e he]; decide) (Nat.lt_of_le_of_lt hfew (by decide))
  rw [if_pos hpubTaken] at h₂
  -- then the last seen
  obtain ⟨p₃, hp₃, h₃⟩ := h₂.updateEntry huuid hload hfree hfind (.inr (.inr rfl)) []
    (by
      intro e he
      rcases List.mem_append.mp he with he | he
      · rw [hkeys e he]
        decide
      · rw [List.mem_singleton.mp he]
        exact (by decide : BotKey.pub ≠ .seen))
    (by
      rw [List.length_append]
      exact Nat.lt_of_le_of_lt (Nat.add_le_add_right hfew 1) (by decide))
  rw [if_pos hseenTaken] at h₃
  refine ⟨p₃.1, ?_, ?_⟩
  · unfold addBotMemory
    rw [if_neg (by simp [hfind, hroom])]
    show Option.bind (updateEntry clk (registered s uuid) uuid BotKey.n.name nick [] [] clk.now) _
      = _
    simp only [hp₁, hp₂, hp₃, Option.bind_eq_bind, Option.bind_some]
  · rw [if_pos hroom]
    unfold addedEntries
    rw [hes]
    simpa using h₃

/-- The answer to `bot add` is true exactly if there is room and the store takes the nick. The
answer itself gives the shape of uuid and key, and that neither is taken. -/
private theorem botAdded_iff {payload nick pubKey : Str} (hload : tsAhead clk clk.now = false)
    (h : createBotReply s payload = some (.botAdded uuid nick pubKey)) :
    ∃ t, createBotCmd clk s payload = some t ∧
      (Truthful t (.botAdded uuid nick pubKey)
        ↔ s.bots.length < maxBots ∧ fieldOk nick false = true ∧ utf8Len nick < maxNick) := by
  -- what the answer says about the checks
  unfold createBotReply at h
  split at h
  case h_2 => cases h
  rename_i nick' uuid' f hsplit
  split at h
  case h_2 => cases h
  rename_i key' hword
  split at h
  · cases h
  rename_i hguard
  cases h
  simp only [Bool.or_eq_true, Bool.not_eq_true', not_or, Bool.not_eq_false, Bool.not_eq_true]
    at hguard
  obtain ⟨⟨⟨⟨⟨hnick, hscan⟩, huuid⟩, hpub⟩, hfree⟩, hnone⟩ := hguard
  have hfind : botFind s uuid = none := by simpa using hnone
  -- the command goes through with these values
  obtain ⟨t, ht, hadded⟩ := addBotMemory_eq nick huuid hpub hload hfree hfind
  refine ⟨t, ?_, ?_⟩
  · unfold createBotCmd createBot
    simp only [hsplit, hword, hnick, hscan, huuid, hpub, hfree, hfind, Bool.and_self, if_true,
      Bool.not_true, Bool.or_self, Option.isSome_none, Bool.false_eq_true, if_false]
    exact ht
  -- no room: the bot is not there
  by_cases hroom : s.bots.length < maxBots
  case neg =>
    rw [if_neg hroom] at hadded
    subst t
    refine iff_of_false ?_ fun hc => hroom hc.1
    rintro ⟨b, hb, -⟩
    rw [hfind] at hb
    cases hb
  rw [if_pos hroom] at hadded
  have hlive := hadded.liveAt huuid hfree hfind
  have hbot : (botFind t uuid).bind (t.bots[·]?)
      = some { newBot uuid with entries := addedEntries nick pubKey clk.now } := by
    rw [hlive.find, Option.bind_some, hlive.get]
  have hlen : trunc pubKey 1024 = pubKey := by
    rw [pubOk, Bool.and_eq_true, decide_eq_true_eq] at hpub
    refine trunc_of_lt ?_
    rw [hpub.1]
    decide
  by_cases hnickOk : nickTaken nick = true
  · -- the store took the nick: the entries are nick, key and `seen`
    have hcond : fieldOk nick false = true ∧ utf8Len nick < maxNick := by
      rwa [nickTaken, Bool.and_eq_true, decide_eq_true_eq] at hnickOk
    have hshort : trunc nick 1024 = nick := trunc_of_lt (Nat.lt_trans hcond.2 (by decide))
    refine iff_of_true ⟨_, hbot, rfl, ?_, ?_⟩ ⟨hroom, hcond⟩
    · simp [BotConfig.entry, addedEntries, hnickOk, botEntry, hshort]
    · simp [BotConfig.entry, addedEntries, hnickOk, botEntry, hlen]
  -- the store did not take the nick, so it is not the nick that was answered
  · refine iff_of_false ?_ fun hc => hnickOk ?_
    · rintro ⟨b, hb, -, hn, -⟩
      rw [hbot] at hb
      cases hb
      simp [BotConfig.entry, addedEntries, hnickOk, botEntry] at hn
    · rw [nickTaken, Bool.and_eq_true, decide_eq_true_eq]
      exact hc.2

end Bots

/-! ### All answers -/

/-- The uuid a `user add` draws is in no table. -/
def FreshDraw (s : HubState) : HubOp → Prop
  | .userAdd _ _ random => UnusedUuid s (genUuidV4 random)
  | _ => True

/-- `bot add` answers that a bot was added, or not at all. -/
private theorem createBotReply_kind {s : HubState} {payload : Str} {r : AdminReply}
    (h : createBotReply s payload = some r) :
    ∃ uuid nick pubKey, r = .botAdded uuid nick pubKey := by
  unfold createBotReply at h
  split at h
  case h_2 => cases h
  split at h
  case h_2 => cases h
  split at h
  · cases h
  · cases h
    exact ⟨_, _, _, rfl⟩

/-- `channel add` answers that a channel was added. -/
private theorem addChannelReply_kind {payload : Str} {r : AdminReply}
    (h : addChannelReply payload = some r) :
    ∃ name key, r = .channelAdded name key := by
  unfold addChannelReply at h
  simp only [Option.ite_none_left_eq_some, Option.some.injEq] at h
  exact ⟨_, _, h.2.symm⟩

/-- `channel del` answers that the named channel was removed. -/
private theorem delChannelReply_kind {payload : Str} {r : AdminReply}
    (h : delChannelReply payload = some r) :
    payload ≠ [] ∧ r = .channelRemoved payload := by
  unfold delChannelReply at h
  simp only [Option.ite_none_left_eq_some, Option.some.injEq, List.isEmpty_iff] at h
  exact ⟨h.1, h.2.symm⟩

/-- `user add` answers that a user was added. -/
private theorem addUserReply_kind {clk : Clock} {s : HubState} {payload uuid : Str} {typ : Char}
    {r : AdminReply} (h : addUserReply clk s payload typ uuid = some r) :
    ∃ name pubKey mask access, r = .userAdded name typ pubKey mask access := by
  unfold addUserReply at h
  split at h
  · cases h
  split at h
  · cases h
  · simp only [Option.ite_none_left_eq_some, Option.some.injEq] at h
    exact ⟨_, _, _, _, h.2.symm⟩

/-- In every state a hub reaches, a success answer is true exactly under its condition.

`hdraw`: the uuid a `user add` draws at random is in no table. `hclk`: the clock is one whose
bound on stamps is a number of 64 bits. The cases are the commands, each with its own
equivalence. -/
theorem truthful_iff {es : List HubEvent} {s : HubState} (hrun : runHub es = some s)
    (e : HubEvent) (hclk : SaneClock e.clock) (hdraw : FreshDraw s e.op) {r : AdminReply}
    (hreply : e.op.reply e.clock s = some r) :
    ∃ t, e.op.run e.clock s = some t ∧ (Truthful t r ↔ ReplyTaken e.clock s r) := by
  have hfits : Fits (fun _ => True) s :=
    fits_runHub (fun _ _ _ => trivial) (.inl fun _ => trivial) hrun
  have hnul : ∀ p : Str, NoNul (untilNul p) := not_mem_untilNul
  generalize hc : e.clock = clk at hclk hreply
  cases hop : e.op with
  | botAdd payload =>
    rw [hop] at hreply
    obtain ⟨uuid, nick, pubKey, rfl⟩ := createBotReply_kind hreply
    exact botAdded_iff (tsAhead_now hclk) hreply
  | chanAdd payload =>
    rw [hop] at hreply
    obtain ⟨name, key, rfl⟩ := addChannelReply_kind hreply
    exact ⟨_, rfl, channelAdded_iff hfits hclk hreply⟩
  | chanDel payload =>
    rw [hop] at hreply
    obtain ⟨hne, rfl⟩ := delChannelReply_kind hreply
    exact ⟨_, rfl, channelRemoved_iff hfits hclk hne (hnul payload)⟩
  | userAdd admin payload random =>
    rw [hop] at hreply hdraw
    obtain ⟨name, pubKey, mask, access, rfl⟩ := addUserReply_kind hreply
    have htyp : (if admin then 'a' else 'o') = 'a' ∨ (if admin then 'a' else 'o') = 'o' := by
      cases admin
      · exact .inr rfl
      · exact .inl rfl
    exact ⟨_, rfl, userAdded_iff hclk (hnul payload) htyp (uuidShape_genUuidV4 random)
      hdraw hreply⟩
  | _ =>
    rw [hop] at hreply
    cases hreply

/-- A command on a new hub. -/
def consoleEvent (op : HubOp) : HubEvent where
  now := ⟨1700000000, inI64_runTime⟩
  op := op

/-- The clock of the examples is a sane one. -/
private theorem saneClock_event (op : HubOp) : SaneClock (consoleEvent op).clock :=
  ⟨rfl, by show (0 : Int) < 1700000000; decide, by
   show (1700000000 : Int) + 3600 < i64Max; decide⟩

/-- A `bot add`, a `channel add` and a `user add`, each on a new hub. -/
def addBot : HubOp :=
  .botAdd ("alpha|11111111-2222-3333-4444-555555555555|".toList
    ++ List.replicate 86 'Q' ++ "==".toList)

def addLobby : HubOp := .chanAdd "#lobby".toList

def addErin : HubOp :=
  .userAdd true ("erin|".toList ++ List.replicate 86 'Q' ++ "==|erin!*@*|+a".toList) fun _ => 7

/-- Each is answered, and the store then holds what the answer says. -/
theorem truthful_lobby :
    (∃ t, addLobby.run (consoleEvent addLobby).clock {} = some t
      ∧ Truthful t (.channelAdded "#lobby".toList []))
    ∧ (∃ t, addBot.run (consoleEvent addBot).clock {} = some t
      ∧ Truthful t (.botAdded "11111111-2222-3333-4444-555555555555".toList "alpha".toList
        (List.replicate 86 'Q' ++ "==".toList)))
    ∧ ∃ t, addErin.run (consoleEvent addErin).clock {} = some t
      ∧ Truthful t (.userAdded "erin".toList 'a' (List.replicate 86 'Q' ++ "==".toList)
        "erin!*@*".toList "a".toList) := by
  have hrun : runHub [] = some {} := rfl
  refine ⟨?_, ?_, ?_⟩
  · have hreply : addLobby.reply (consoleEvent addLobby).clock {}
        = some (.channelAdded "#lobby".toList []) := by decide +kernel
    obtain ⟨t, ht, hiff⟩ := truthful_iff hrun (consoleEvent addLobby) (saneClock_event _) trivial
      hreply
    have hnone : chanEntry {} "#lobby".toList = none := rfl
    refine ⟨t, ht, hiff.mpr (.inl ⟨fun e he => ?_, fun _ => by decide⟩)⟩
    rw [hnone] at he
    cases he
  · have hreply : addBot.reply (consoleEvent addBot).clock {}
        = some (.botAdded "11111111-2222-3333-4444-555555555555".toList "alpha".toList
          (List.replicate 86 'Q' ++ "==".toList)) := by decide +kernel
    obtain ⟨t, ht, hiff⟩ := truthful_iff hrun (consoleEvent addBot) (saneClock_event _) trivial
      hreply
    exact ⟨t, ht, hiff.mpr ⟨by decide, by decide, by decide⟩⟩
  · have hreply : addErin.reply (consoleEvent addErin).clock {}
        = some (.userAdded "erin".toList 'a' (List.replicate 86 'Q' ++ "==".toList)
          "erin!*@*".toList "a".toList) := by decide +kernel
    obtain ⟨t, ht, hiff⟩ := truthful_iff hrun (consoleEvent addErin) (saneClock_event _)
      ⟨fun _ h => (nomatch h), fun _ h => (nomatch h), fun _ h => (nomatch h),
        fun _ h => (nomatch h)⟩ hreply
    exact ⟨t, ht, hiff.mpr ⟨by decide, by decide⟩⟩

/-- A bot whose nick is longer than the store takes. -/
def longNickPayload : Str :=
  List.replicate 32 'x' ++ "|11111111-2222-3333-4444-555555555555|".toList
    ++ List.replicate 86 'Q' ++ "==".toList

/-- `bot add` answers that the bot was added under a nick the hub does not store. -/
theorem not_truthful_longNick :
    ∃ r t, (consoleEvent (.botAdd longNickPayload)).op.reply
      (consoleEvent (.botAdd longNickPayload)).clock {}
        = some r
      ∧ (consoleEvent (.botAdd longNickPayload)).op.run
        (consoleEvent (.botAdd longNickPayload)).clock {} = some t
      ∧ ¬ Truthful t r := by
  have hreply : createBotReply {} (untilNul longNickPayload)
      = some (.botAdded "11111111-2222-3333-4444-555555555555".toList (List.replicate 32 'x')
        (List.replicate 86 'Q' ++ "==".toList)) := by
    decide +kernel
  obtain ⟨t, ht, hiff⟩ :=
    botAdded_iff (tsAhead_now (saneClock_event (.botAdd longNickPayload))) hreply
  refine ⟨_, t, hreply, ht, fun htrue => ?_⟩
  exact absurd (hiff.mp htrue).2.2 (by decide)

end IrcHub.Proofs
