import IrcHub.Proofs.Bots.Revoked

/-!
# `IrcHub.Proofs.Convergence.Bots.Registers`: one write to one bot

One write to one bot. A bot keeps one register per key. The rank of an entry is its stamp, then
its value, and a write is taken exactly if it ranks higher than what its register holds
(`put_of_rank`).

Whether the bot is live is no register of its own. A write of `d` sets it, and after each write
the revoke rules may overrule it: `revokeAfter_rules` says what they leave. A bot that is on the
revoke list is dead. A dead bot joins the list if its uuid is well formed, it has a valid key and
its `d` entry has a positive stamp (`Sealable`).

- `rankIn`, `entryView`: the registers of a bot, and of a hub
- `botOf_set`: a rewrite of one record is seen under its uuid only
- `revokeOf_fold`: what the walk over the entries of a bot finds
- `sealable_iff`: the same, read off the registers
- `AfterRules`: what the rules leave, for the bot and for all others

The record a uuid names is the first one of the table. Two records may share a uuid that was cut,
and the others are then out of reach of every write.
-/

set_option autoImplicit false

namespace IrcHub.Proofs

open IrcHub.Hub Str
open String (utf8Len)

/-! ### Registers -/

/-- Stamp, then value. -/
abbrev EntryRank := Int ×ₗ Str

instance entryRankPreorder : Preorder EntryRank :=
  @Prod.Lex.instPreorder Int Str Int.instLinearOrder.toPreorder List.instLinearOrder.toPreorder

/-- The record a uuid names. -/
def botOf (s : HubState) (uuid : Str) : Option BotConfig := s.bots.find? fun b => b.uuid == uuid

/-- The register of one key of one bot. -/
def rankIn (b : BotConfig) (k : BotKey) : WithBot EntryRank :=
  match b.entry k with
  | some e => (toLex (e.timestamp, e.value) : EntryRank)
  | none => ⊥

/-- The registers of a hub. -/
def entryView (s : HubState) : Str × BotKey → WithBot EntryRank := fun p =>
  match botOf s p.1 with
  | some b => rankIn b p.2
  | none => ⊥

/-- The registers of a bot that the hub has a record of. -/
theorem entryView_of_botOf {s : HubState} {uuid : Str} {b : BotConfig} (h : botOf s uuid = some b)
    (k : BotKey) : entryView s (uuid, k) = rankIn b k := by
  rw [entryView, h]

/-- The record that the search by uuid stops at. -/
theorem botOf_of_botFind {s : HubState} {uuid : Str} {i : Nat} {b : BotConfig}
    (hfind : botFind s uuid = some i) (hget : s.bots[i]? = some b) : botOf s uuid = some b :=
  Table.find?_of_findIdx? hfind hget

/-- The record a uuid names has that uuid. -/
theorem uuid_of_botOf {s : HubState} {uuid : Str} {b : BotConfig} (h : botOf s uuid = some b) :
    b.uuid = uuid := by
  have hp := List.find?_some h
  exact beq_iff_eq.mp hp

/-- A uuid names no record exactly if the search finds none. -/
theorem botOf_eq_none_iff {s : HubState} {uuid : Str} :
    botOf s uuid = none ↔ botFind s uuid = none := by
  simp [botOf, botFind]

/-- A uuid names a record exactly if the search finds one. -/
theorem botOf_isSome_iff {s : HubState} {u : Str} :
    (botFind s u).isSome = true ↔ ∃ b, botOf s u = some b := by
  rw [← Option.isSome_iff_exists, Option.isSome_iff_ne_none, Option.isSome_iff_ne_none, ne_eq,
    ne_eq, botOf_eq_none_iff]

/-- A rewrite of the record a uuid names is the record of that uuid and of no other. -/
theorem botOf_set {s : HubState} {uuid : Str} {i : Nat} {b b' : BotConfig}
    (hfind : botFind s uuid = some i) (hget : s.bots[i]? = some b)
    (hu : b'.uuid = b.uuid) (u : Str) :
    botOf { s with bots := s.bots.set i b' } u = if u = uuid then some b' else botOf s u := by
  have hb := uuid_of_botOf (botOf_of_botFind hfind hget)
  by_cases hne : u = uuid
  · rw [if_pos hne, hne]
    exact Table.find?_set_of_findIdx? hfind (by simp [hu, hb])
  · rw [if_neg hne]
    have hfalse : ∀ a : BotConfig, a.uuid = uuid → (a.uuid == u) = false := by
      intro a ha
      rw [beq_eq_false_iff_ne, ha]
      exact Ne.symm hne
    exact Table.find?_set_of_false hget (hfalse b hb) (hfalse b' (hu.trans hb))

/-! ### One value -/

/-- The length bounds are far below the size of a stored value. -/
private theorem trunc_value {k : BotKey} {v : Str} (h : botValueOk k v = true) :
    trunc v 1024 = v := by
  rw [botValueOk, Bool.and_eq_true, decide_eq_true_eq] at h
  refine trunc_of_lt (Nat.lt_of_le_of_lt h.1 ?_)
  cases k <;> decide

/-- What a stored value leaves of a bot. Its register holds the value, the others what they held.
Only `d` decides whether the bot is live, and a bot that holds each key once goes on doing so. -/
structure PutStored (b b' : BotConfig) (k : BotKey) (v : Str) (ts : Int) : Prop where
  uuid : b'.uuid = b.uuid
  active : b'.isActive = if k = .d then v != ['1'] else b.isActive
  keys : (b.entries.map (·.key)).Nodup → (b'.entries.map (·.key)).Nodup
  rank : ∀ k', rankIn b' k' = if k' = k then ((toLex (ts, v) : EntryRank) : WithBot EntryRank)
    else rankIn b k'

/-- A key without an entry gets one at the end. -/
theorem PutStored.of_new {b : BotConfig} {k : BotKey} (v : Str) (ts : Int)
    (hentry : b.entry k = none) :
    PutStored b (b.write (b.entries ++ [⟨k, v, ts, 0⟩]) k v) k v ts where
  uuid := rfl
  active := rfl
  keys hkeys := by
    show ((b.entries ++ [(⟨k, v, ts, 0⟩ : ConfigEntry BotKey)]).map (·.key)).Nodup
    rw [List.map_append, List.nodup_append]
    -- no other entry has the key
    refine ⟨hkeys, List.pairwise_singleton _ _, fun a ha c hc => ?_⟩
    obtain ⟨e, he, rfl⟩ := List.mem_map.mp ha
    rw [List.map_singleton, List.mem_singleton] at hc
    rw [hc]
    exact fun heq => List.find?_eq_none.mp hentry e he (decide_eq_true heq)
  rank k' := by
    by_cases hk' : k' = k
    · have hnew := Table.find?_append_of_none (a := ⟨k, v, ts, 0⟩) hentry (decide_eq_true rfl)
      rw [if_pos hk', rankIn, BotConfig.entry, BotConfig.write, hk', hnew]
    · have hold := Table.find?_append_of_false (l := b.entries)
        (p := fun e => decide (e.key = k')) (a := ⟨k, v, ts, 0⟩) (decide_eq_false (Ne.symm hk'))
      rw [if_neg hk', rankIn, BotConfig.entry, BotConfig.write, hold, rankIn, BotConfig.entry]

/-- A key with an entry has its value replaced in its place. -/
theorem PutStored.of_entry {b : BotConfig} {k : BotKey} {i : Nat} {e : ConfigEntry BotKey}
    (v : Str) (ts : Int)
    (hfind : b.entries.findIdx? (fun e => decide (e.key = k)) = some i)
    (he : b.entries[i]? = some e) (hke : e.key = k) :
    PutStored b (b.write (b.entries.set i { e with value := v, timestamp := ts }) k v)
      k v ts where
  uuid := rfl
  active := rfl
  keys hnodup := by
    have hsame : (b.entries.map (·.key))[i]? = some e.key := by rw [List.getElem?_map, he]; rfl
    show ((b.entries.set i { e with value := v, timestamp := ts }).map (·.key)).Nodup
    rw [List.map_set, Table.set_of_getElem? hsame]
    exact hnodup
  rank k' := by
    by_cases hk' : k' = k
    · subst hk'
      have hset : (b.entries.set i { e with value := v, timestamp := ts }).find?
          (fun e => decide (e.key = k')) = some { e with value := v, timestamp := ts } :=
        Table.find?_set_of_findIdx? hfind (decide_eq_true hke)
      rw [if_pos rfl, rankIn, BotConfig.entry, BotConfig.write, hset]
    · have hne : decide (e.key = k') = false := decide_eq_false fun h => hk' (h.symm.trans hke)
      have hset : (b.entries.set i { e with value := v, timestamp := ts }).find?
          (fun e => decide (e.key = k')) = b.entries.find? (fun e => decide (e.key = k')) :=
        Table.find?_set_of_false he hne hne
      rw [if_neg hk', rankIn, BotConfig.entry, BotConfig.write, hset, rankIn, BotConfig.entry]

/-- A value of a key that has an entry or room for one is taken exactly if it ranks higher.

The hypotheses are what the hub checks: `hlit` for a host mask, `hval` for the length and the
shape of the value, `hroom` for the number of entries. -/
theorem put_of_rank {b : BotConfig} {k : BotKey} {v : Str} (ts : Int) (hk : k ≠ .t)
    (hlit : k = .h → v.isEmpty = true ∨ hostmaskLiteral v = true) (hval : botValueOk k v = true)
    (hroom : (b.entry k).isSome = true ∨ b.entries.length < maxBotEntries) :
    (¬ rankIn b k < (toLex (ts, v) : EntryRank) ∧ b.put k v ts = none) ∨
      (rankIn b k < (toLex (ts, v) : EntryRank)
      ∧ ∃ b', b.put k v ts = some b' ∧ PutStored b b' k v ts) := by
  have hh : (decide (k = .h) && !v.isEmpty && !hostmaskLiteral v) = false := by
    by_cases h : k = .h
    · rcases hlit h with hv | hv
      · simp [hv]
      · simp [hv]
    · simp [h]
  unfold BotConfig.put
  rw [if_neg hk, if_neg (by rw [hh]; decide)]
  simp only [trunc_value hval]
  cases hfind : b.entries.findIdx? (fun e => decide (e.key = k)) with
  -- a key without an entry gets one, if there is room
  | none =>
    have hentry : b.entry k = none := by
      rw [BotConfig.entry, List.find?_eq_none]
      rw [List.findIdx?_eq_none_iff] at hfind
      simpa using hfind
    have hlen : b.entries.length < maxBotEntries := by
      rcases hroom with h | h
      · rw [hentry] at h
        cases h
      · exact h
    have hrank : rankIn b k = ⊥ := by rw [rankIn, hentry]
    simp only [if_pos hlen]
    exact .inr ⟨by rw [hrank]; exact WithBot.bot_lt_coe _, _, rfl, .of_new v ts hentry⟩
  -- a key with an entry: the two ranks decide
  | some i =>
    obtain ⟨hlt, hkey⟩ : ∃ h : i < b.entries.length, b.entries[i].key = k := by
      obtain ⟨hlt, hp, -⟩ := List.findIdx?_eq_some_iff_getElem.mp hfind
      exact ⟨hlt, of_decide_eq_true hp⟩
    obtain ⟨e, he⟩ : ∃ e, b.entries[i]? = some e := ⟨_, List.getElem?_eq_getElem hlt⟩
    have hke : e.key = k := by
      rw [List.getElem?_eq_getElem hlt] at he
      cases he
      exact hkey
    have hentry : b.entry k = some e := Table.find?_of_findIdx? hfind he
    have hrank : rankIn b k = (toLex (e.timestamp, e.value) : EntryRank) := by rw [rankIn, hentry]
    have hstored := PutStored.of_entry v ts hfind he hke
    simp only [he]
    rw [hrank, WithBot.coe_lt_coe, Prod.Lex.toLex_lt_toLex]
    simp only []
    -- older, of the same stamp, or newer
    rcases lt_trichotomy ts e.timestamp with hold | heq | hnew
    · rw [if_pos hold]
      refine .inl ⟨?_, rfl⟩
      rintro (h | ⟨h, -⟩)
      · omega
      · omega
    · rw [if_neg (by omega)]
      by_cases hv : e.value < v
      · rw [if_pos (by simp [hv])]
        exact .inr ⟨.inr ⟨heq.symm, hv⟩, _, rfl, hstored⟩
      · rw [if_neg (by simp [heq, hv])]
        refine .inl ⟨?_, rfl⟩
        rintro (h | ⟨-, h⟩)
        · omega
        · exact hv h
    · rw [if_neg (by omega), if_pos (by simp [hnew])]
      exact .inr ⟨.inl hnew, _, rfl, hstored⟩

/-! ### The revoke list -/

/-- A merge that drops nothing puts its own uuid on the list. `hroom`: the uuid is there already,
or the list is not full. -/
theorem isRevoked_merge_of_room {s : HubState} {inp : Revoked}
    (hroom : isRevoked s inp.uuid = true ∨ s.revoked.length < maxRevoked) (u : Str) :
    isRevoked (revokeMerge s inp).1 u = true ↔ isRevoked s u = true ∨ u = inp.uuid := by
  unfold revokeMerge
  cases hfind : revokeFind s inp.uuid with
  | none =>
    have hlen : ¬ s.revoked.length ≥ maxRevoked := by
      rcases hroom with h | h
      · rw [isRevoked, hfind] at h
        cases h
      · exact Nat.not_le.mpr h
    have hin : ¬ revokeRefused s inp = true := by
      rw [revokeRefused, decide_eq_false hlen]
      exact Bool.false_ne_true
    simp only [revokeNew, if_neg hin, if_neg hlen, isRevoked_iff]
    simp [or_and_right, exists_or, eq_comm]
  | some i =>
    obtain ⟨hlt, -, -⟩ := List.findIdx?_eq_some_iff_getElem.mp hfind
    have hon : isRevoked s inp.uuid = true := by rw [isRevoked, hfind]; rfl
    simp only [List.getElem?_eq_getElem hlt]
    -- the slot keeps its uuid, so the list names the same bots
    have hsame : ∀ v, isRevoked
        { s with revoked := s.revoked.set i (revokeJoin s.revoked[i] inp) } v
        = isRevoked s v := by
      intro v
      rw [isRevoked, isRevoked, revokeFind, revokeFind]
      exact congrArg Option.isSome (Table.findIdx?_set_of_eq (List.getElem?_eq_getElem hlt) rfl)
    rw [hsame]
    constructor
    · exact .inl
    · rintro (h | rfl)
      · exact h
      · exact hon

/-- What the revoke list asks of a deleted bot: a well-formed uuid, a valid key on file, and a `d`
entry with a positive stamp. -/
def Sealable (b : BotConfig) : Prop :=
  uuidShape b.uuid = true ∧ (revokeOf b).2 = true ∧ 0 < (revokeOf b).1.delTs

/-- The walk over the entries finds a valid key if one of them is, and takes the stamp of `d`. The
induction is on the entries, from any record and flag. -/
private theorem revokeOf_fold (es : List (ConfigEntry BotKey)) (hkeys : (es.map (·.key)).Nodup)
    (p : Revoked × Bool) :
    let q := es.foldl (fun p e =>
      match e.key with
      | .pub => if pubOk e.value then
          ({ p.1 with pubKey := e.value, pubTs := e.timestamp }, true) else p
      | .n => ({ p.1 with nick := nickClean e.value }, p.2)
      | .d => ({ p.1 with delTs := e.timestamp }, p.2)
      | _ => p) p
    (q.2 = true ↔ p.2 = true ∨ ∃ e, es.find? (fun e => e.key = .pub) = some e
    ∧ pubOk e.value = true)
      ∧ q.1.delTs = ((es.find? fun e => e.key = .d).map (·.timestamp)).getD p.1.delTs := by
  induction es generalizing p with
  | nil => simp
  | cons e es ih =>
    rw [List.map_cons, List.nodup_cons] at hkeys
    -- a key that the first entry has is not among the others
    have hrest : es.find? (fun a => a.key = e.key) = none := by
      rw [List.find?_eq_none]
      intro a ha heq
      exact hkeys.1 (List.mem_map.mpr ⟨a, ha, of_decide_eq_true heq⟩)
    rw [List.foldl_cons]
    cases hk : e.key with
    | pub =>
      rw [hk] at hrest
      by_cases hok : pubOk e.value = true
      · have h := ih hkeys.2 ({ p.1 with pubKey := e.value, pubTs := e.timestamp }, true)
        simp [hk, hok, hrest] at h ⊢
        exact h
      · have h := ih hkeys.2 p
        simp [hk, hok, hrest] at h ⊢
        exact h
    | d =>
      rw [hk] at hrest
      have h := ih hkeys.2 ({ p.1 with delTs := e.timestamp }, p.2)
      simp [hk, hrest] at h ⊢
      exact h
    | n =>
      have h := ih hkeys.2 ({ p.1 with nick := nickClean e.value }, p.2)
      simp [hk] at h ⊢
      exact h
    | _ =>
      have h := ih hkeys.2 p
      simp [hk] at h ⊢
      exact h

/-- What the list asks of a deleted bot, read off its registers. `hkeys`: the bot holds each key
once, as every bot does whose entries came by writes. -/
theorem sealable_iff {b : BotConfig} (hkeys : (b.entries.map (·.key)).Nodup) :
    Sealable b ↔ uuidShape b.uuid = true
      ∧ (∃ (ts : Int) (v : Str), 0 < ts ∧ rankIn b .d = (toLex (ts, v) : EntryRank))
      ∧ ∃ (ts : Int) (v : Str), pubOk v = true ∧ rankIn b .pub = (toLex (ts, v) : EntryRank) := by
  obtain ⟨hpub, hdel⟩ : ((revokeOf b).2 = true ↔ false = true
        ∨ ∃ e, b.entries.find? (fun e => e.key = .pub) = some e ∧ pubOk e.value = true)
      ∧ (revokeOf b).1.delTs = ((b.entries.find? fun e => e.key = .d).map (·.timestamp)).getD 0 :=
    revokeOf_fold b.entries hkeys
      ({ uuid := b.uuid, pubKey := [], pubTs := 0, nick := [], wipedTs := 0, delTs := 0 }, false)
  have hd : 0 < (revokeOf b).1.delTs ↔
      ∃ (ts : Int) (v : Str), 0 < ts ∧ rankIn b .d = (toLex (ts, v) : EntryRank) := by
    rw [hdel, rankIn, BotConfig.entry]
    cases b.entries.find? fun e => e.key = .d with
    | none => simp
    | some e =>
      constructor
      · intro h
        exact ⟨e.timestamp, e.value, h, rfl⟩
      · rintro ⟨ts, v, hts, heq⟩
        have hrank := toLex_inj.mp (WithBot.coe_inj.mp heq)
        rw [Option.map_some, Option.getD_some, (Prod.mk.inj hrank).1]
        exact hts
  have hp : (revokeOf b).2 = true ↔
      ∃ (ts : Int) (v : Str), pubOk v = true ∧ rankIn b .pub = (toLex (ts, v) : EntryRank) := by
    rw [hpub, rankIn, BotConfig.entry]
    simp only [Bool.false_eq_true, false_or]
    cases b.entries.find? fun e => e.key = .pub with
    | none => simp
    | some e =>
      constructor
      · rintro ⟨e', he, hok⟩
        rw [Option.some.injEq] at he
        exact ⟨e.timestamp, e.value, he ▸ hok, rfl⟩
      · rintro ⟨ts, v, hok, heq⟩
        have hrank := toLex_inj.mp (WithBot.coe_inj.mp heq)
        refine ⟨e, rfl, ?_⟩
        rw [(Prod.mk.inj hrank).2]
        exact hok
  rw [Sealable, hd, hp]
  exact and_congr_right fun _ => and_comm

/-- What the revoke rules leave of a bot `b` that a write under `key` was stored in. It is dead if
it is on the list. It joins the list only if it is dead and `Sealable`, and then does so after
every write of its `d`, its key or its nick. -/
structure AfterRules (s t : HubState) (uuid key : Str) (b : BotConfig) : Prop where
  bots : ∀ u, botOf t u
    = if u = uuid then some { b with isActive := b.isActive && !isRevoked s uuid } else botOf s u
  others : ∀ u, u ≠ uuid → isRevoked t u = isRevoked s u
  keeps : isRevoked s uuid = true → isRevoked t uuid = true
  joins : isRevoked t uuid = true → isRevoked s uuid = true ∨ (b.isActive = false ∧ Sealable b)
  seals : [BotKey.d, .pub, .n].any (fun k => k.name == key) = true → b.isActive = false →
    Sealable b → isRevoked t uuid = true

/-- The revoke rules after a stored write. `hroom`: the list has room, or the bot is on it. The
cases are a bot on the list, a dead bot that may join it, and any other. -/
theorem revokeAfter_rules {s : HubState} {uuid key : Str} {i : Nat} {b : BotConfig}
    (hfind : botFind s uuid = some i) (hget : s.bots[i]? = some b)
    (hroom : isRevoked s uuid = true ∨ s.revoked.length < maxRevoked) :
    AfterRules s (revokeAfter s uuid key) uuid key b := by
  have hb := uuid_of_botOf (botOf_of_botFind hfind hget)
  have hlt : i < s.bots.length := (List.getElem?_eq_some_iff.mp hget).1
  -- the bot after the first rule, which makes it dead if it is on the list
  obtain ⟨b1, hb1⟩ :
    ∃ b1 : BotConfig, b1 = { b with isActive := b.isActive && !isRevoked s uuid } :=
    ⟨_, rfl⟩
  obtain ⟨s1, hs1, hrev1, hget1, hbots1⟩ : ∃ s1, s1 =
      (if isRevoked s uuid
      then { s with bots := s.bots.modify i fun b => { b with isActive := false } }
        else s) ∧ s1.revoked = s.revoked
      ∧ s1.bots[i]? = some b1 ∧ ∀ u, botOf s1 u = if u = uuid then some b1 else botOf s u := by
    refine ⟨_, rfl, ?_⟩
    by_cases hr : isRevoked s uuid = true
    · have hset : s.bots.modify i (fun b => { b with isActive := false }) = s.bots.set i b1 := by
        rw [List.modify_eq_set_getElem?, hget, hb1, hr]
        simp
      rw [if_pos hr, hset]
      exact ⟨rfl, List.getElem?_set_self hlt, botOf_set hfind hget (by rw [hb1])⟩
    · have hkeep : b1 = b := by
        rw [Bool.not_eq_true] at hr
        rw [hb1, hr]
        simp
      rw [if_neg hr, hkeep]
      refine ⟨rfl, hget, fun u => ?_⟩
      split
      · rename_i hu
        rw [hu]
        exact botOf_of_botFind hfind hget
      · rfl
  have hsame : ∀ u, isRevoked s1 u = isRevoked s u := isRevoked_congr hrev1
  have hsealable : Sealable b1 ↔ Sealable b := by rw [hb1]; rfl
  -- a bot that is live on no list is what it was
  have hlive : isRevoked s uuid = false → b1.isActive = b.isActive := by
    intro hr
    rw [hb1, hr]
    simp
  -- the state of a bot that the second rule leaves alone
  have hstay : ([BotKey.d, .pub, .n].any (fun k => k.name == key) = true → b1.isActive = false →
      ¬ Sealable b1) → AfterRules s s1 uuid key b := by
    intro hno
    refine ⟨hb1 ▸ hbots1, fun u _ => hsame u, fun h => by rw [hsame]; exact h,
      fun h => .inl (by rwa [hsame] at h), fun hkey hdead hs => ?_⟩
    refine absurd (hsealable.mpr hs) (hno hkey ?_)
    rw [hb1, hdead]
    rfl
  -- the first rule is done; the second asks for a dead bot and one of the three keys
  unfold revokeAfter
  rw [hfind]
  simp only [← hs1, hget1]
  split
  swap
  · rename_i hguard
    refine hstay fun hkey hdead _ => hguard ?_
    rw [hdead, hkey]
    rfl
  rename_i hdead
  rw [Bool.and_eq_true, Bool.not_eq_true'] at hdead
  -- it also asks for a uuid of the right shape
  unfold revokeFromBot
  split
  · rename_i hshape
    refine hstay fun _ _ hs => ?_
    rw [hdead.1, hs.1] at hshape
    exact Bool.false_ne_true hshape
  rename_i hshape
  simp only []
  -- and for a key that is still known
  split
  · rename_i hkey
    refine hstay fun _ _ hs => ?_
    have hpos : ¬ (revokeOf b1).1.delTs ≤ 0 := not_le.mpr hs.2.2
    rw [hs.2.1, decide_eq_false hpos] at hkey
    exact Bool.false_ne_true hkey
  rename_i hkey
  -- the bot is dead and has a key: it joins the list
  have hs : Sealable b1 := by
    simp only [Bool.or_eq_true, Bool.not_eq_true', decide_eq_true_eq, not_or, Bool.not_eq_false,
      not_le] at hshape hkey
    exact ⟨hshape.2, hkey.1, hkey.2⟩
  have hru : (revokeOf b1).1.uuid = uuid := by
    rw [revokeOf_uuid, hb1]
    exact hb
  have hroom1 : isRevoked s1 (revokeOf b1).1.uuid = true ∨ s1.revoked.length < maxRevoked := by
    rw [hsame, hru, hrev1]
    exact hroom
  have hmerge := isRevoked_merge_of_room hroom1
  generalize (revokeOf b1).1 = r at hru hmerge
  refine ⟨?_, ?_, ?_, ?_, ?_⟩
  · intro u
    rw [botOf, revokeMerge_bots, ← hb1]
    exact hbots1 u
  · intro u hu
    rw [Bool.eq_iff_iff, hmerge, hru, hsame]
    simp [hu]
  · intro h
    rw [hmerge, hsame]
    exact .inl h
  · intro _
    cases hold : isRevoked s uuid with
    | true => exact .inl rfl
    | false => exact .inr ⟨(hlive hold).symm.trans hdead.1, hsealable.mp hs⟩
  · intro _ _ _
    rw [hmerge, hru]
    exact .inr rfl

end IrcHub.Proofs
