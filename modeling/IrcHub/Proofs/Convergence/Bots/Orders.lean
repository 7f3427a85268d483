import IrcHub.Proofs.Bots.Own
import IrcHub.Proofs.Convergence.Bots.Registers
import Mathlib.Data.List.Perm.Subperm

/-!
# `IrcHub.Proofs.Convergence.Bots.Orders`: the entries of the bots are a join

The entries of the bots are a join. A write is joined into its register, so a run of writes leaves
the greatest stamp and value in every register, whatever their order and however often each comes.

Whether a bot is live does depend on the order. A bot that is deleted while it has a valid key
joins the revoke list, and from then on it is dead whatever its `d` entry says. `Tracks` is the
invariant that says so for the bots that are written to.

- `BotWrite.Shaped`, `BotWrite.Fair`: what the hub accepts, and that nothing else stands against a
  write
- `Tracks.put`: a write joins its rank into its register and keeps `Tracks`
- `Reached`: a register never holds anything but what it started with or a greater write, and a
  bot is on the list only if its registers could have been those of a deleted bot with a key
  (`Revocable`)
- `exists_revoking`: for such a bot there is an order that puts it on the list
- `botWrites_converge`: the registers in every order, which bots are dead, and when the `d` entry
  alone says it in every order

The condition for the last part is about the writes and the start, and not about the order.
`Revocable` says that some order brings the registers to where the list takes the bot; `Reached`
says that no order puts it there otherwise.
-/

set_option autoImplicit false

namespace IrcHub.Proofs

open IrcHub.Hub Str
open String (utf8Len)

/-! ### Writes -/

/-- A per-bot write under some clock. -/
structure BotWrite where
  clk : Clock
  uuid : Str
  key : BotKey
  value : Str
  ts : Int
  deriving DecidableEq

/-- The hub takes the write, or leaves it. -/
def BotWrite.put (s : HubState) (w : BotWrite) : Option HubState :=
  (updateEntry w.clk s w.uuid w.key.name w.value [] [] w.ts).map (·.1)

/-- The rank a write offers. -/
def BotWrite.rank (w : BotWrite) : EntryRank := toLex (w.ts, w.value)

/-- A write of a shape the hub accepts. -/
structure BotWrite.Shaped (w : BotWrite) : Prop where
  key : w.key ≠ .t
  uuid : fieldOk w.uuid false = true
  short : utf8Len w.uuid < 64
  named : uuidReserved w.uuid = false
  field : fieldOk w.value false = true
  bounded : botValueOk w.key w.value = true
  literal : w.key = .h → w.value.isEmpty = true ∨ hostmaskLiteral w.value = true

/-- A write that no clock, purge floor or table ceiling stands against. -/
structure BotWrite.Fair (s : HubState) (w : BotWrite) : Prop where
  notAhead : tsAhead w.clk w.ts = false
  noFloor : purgeFloorBlocks w.clk s w.ts = false
  roomBot : (botFind s w.uuid).isSome = true ∨ s.bots.length < maxBots
  roomEntry : ∀ b, botOf s w.uuid = some b →
    (b.entry w.key).isSome = true ∨ b.entries.length < maxBotEntries
  roomRevoked : isRevoked s w.uuid = true ∨ s.revoked.length < maxRevoked

/-- The state a write finds its bot in. -/
def opened (s : HubState) (uuid : Str) : HubState :=
  if (botFind s uuid).isSome then s else registered s uuid

/-- The whitelist and the revoke rules of a write that nothing stands against: the value goes to
its bot, which is registered first if need be. `hthere` says that a revoked bot has its record. -/
private theorem put_eq_opened {s : HubState} {w : BotWrite} (hw : w.Shaped) (hf : w.Fair s)
    (hthere : isRevoked s w.uuid = true → (botFind s w.uuid).isSome = true) :
    w.put s = (updateBot (opened s w.uuid) w.uuid w.key.name w.value w.ts).map fun q =>
      if q.2 && revokeGuards w.key.name then revokeAfter q.1 w.uuid w.key.name else q.1 := by
  have hrefused : updateRefused w.clk s w.uuid w.key.name w.value w.ts = false := by
    rw [updateRefused, hf.noFloor, Bool.and_false, Bool.false_and, Bool.or_false]
    cases hr : isRevoked s w.uuid with
    | false => simp
    | true =>
      obtain ⟨i, hi⟩ := Option.isSome_iff_exists.mp (hthere hr)
      simp [hi]
  have hfields : updateFieldsOk w.uuid w.key.name w.value [] [] = true := by
    have hname : fieldOk w.key.name false = true := by cases w.key <;> decide
    have hbar : ([GlobalKey.c, .m, .o].any fun k => [k.tag] == w.key.name) = false := by
      cases w.key <;> decide
    simp only [updateFieldsOk, hbar, hw.uuid, hname, hw.field, Bool.true_and]
    rfl
  have hopen : getOrCreateBot s w.uuid = some (opened s w.uuid) := by
    unfold getOrCreateBot opened
    cases hfind : botFind s w.uuid with
    | some i => rfl
    | none =>
      have hlen : s.bots.length < maxBots := by
        rcases hf.roomBot with h | h
        · rw [hfind] at h
          cases h
        · exact h
      simp only [Option.isSome_none, Bool.false_eq_true, if_false, if_pos hlen]
      rfl
  have hinner : updateEntryInner w.clk s w.uuid w.key.name w.value [] [] w.ts
      = updateBot (opened s w.uuid) w.uuid w.key.name w.value w.ts := by
    unfold updateEntryInner
    rw [if_neg (by rw [hfields, hf.notAhead]; decide)]
    rw [globalKeyOf_of_botKeyOf (botKeyOf_name w.key)]
    simp only []
    rw [if_neg (by rw [hw.named]; decide), hopen]
  unfold BotWrite.put updateEntry
  rw [if_neg (by rw [hrefused]; decide), hinner]
  cases updateBot (opened s w.uuid) w.uuid w.key.name w.value w.ts with
  | none => rfl
  | some q => rfl

/-! ### The invariant -/

/-- Registers of a deleted bot with a key: the uuid is well formed, the `d` entry says `1` with a
positive stamp, and the key is valid. Such a bot is put on the revoke list. -/
def DeletedKeyed (v : Str × BotKey → WithBot EntryRank) (u : Str) : Prop :=
  uuidShape u = true ∧ (∃ ts : Int, 0 < ts ∧ v (u, .d) = (toLex (ts, ['1']) : EntryRank))
    ∧ ∃ (ts : Int) (key : Str), pubOk key = true ∧ v (u, .pub) = (toLex (ts, key) : EntryRank)

/-- What holds of a bot before the writes and after each one. It has each key once. It is dead
exactly if its `d` entry says so or it is revoked. A revoked bot has its record, and a deleted bot
with a key is revoked. -/
structure TracksBot (s : HubState) (u : Str) : Prop where
  there : isRevoked s u = true → (botFind s u).isSome = true
  keys : ∀ b, botOf s u = some b → (b.entries.map (·.key)).Nodup
  follows : ∀ b, botOf s u = some b →
    (b.isActive = false ↔
      (∃ ts : Int, rankIn b .d = (toLex (ts, ['1']) : EntryRank)) ∨ isRevoked s u = true)
  sealed : DeletedKeyed (entryView s) u → isRevoked s u = true

/-- The invariant for the uuids `U`. -/
def Tracks (U : Str → Prop) (s : HubState) : Prop := ∀ u, U u → TracksBot s u

variable {U : Str → Prop} {s t : HubState} {w : BotWrite} {u : Str}

/-- A bot that no step touched is what it was. -/
theorem TracksBot.congr (h : TracksBot s u) (hbot : botOf t u = botOf s u)
    (hrev : isRevoked t u = isRevoked s u) : TracksBot t u := by
  have hview : ∀ k, entryView t (u, k) = entryView s (u, k) := by
    intro k
    rw [entryView, entryView, hbot]
  refine ⟨?_, ?_, ?_, ?_⟩
  · rw [hrev, botOf_isSome_iff, hbot, ← botOf_isSome_iff]
    exact h.there
  · rw [hbot]
    exact h.keys
  · rw [hbot, hrev]
    exact h.follows
  · rw [DeletedKeyed, hview, hview, hrev]
    exact h.sealed

/-- A registration adds an empty live bot and changes no register. The register of a key without
an entry is the bottom, for a bot that is there and for one that is not. -/
theorem Tracks.opened (h : Tracks U s) {uuid : Str} (hshort : utf8Len uuid < 64) :
    Tracks U (Proofs.opened s uuid) ∧ entryView (Proofs.opened s uuid) = entryView s
      ∧ (Proofs.opened s uuid).revoked = s.revoked
      ∧ (∃ i b, botFind (Proofs.opened s uuid) uuid = some i
        ∧ (Proofs.opened s uuid).bots[i]? = some b
        ∧ (botOf s uuid = some b ∨ b = newBot uuid)) := by
  unfold Proofs.opened
  cases hfind : botFind s uuid with
  -- the bot is there already
  | some i =>
    obtain ⟨hlt, -⟩ := List.findIdx?_eq_some_iff_getElem.mp hfind
    have hget := List.getElem?_eq_getElem hlt
    exact ⟨h, rfl, rfl, i, _, hfind, hget, .inl (botOf_of_botFind hfind hget)⟩
  | none =>
    simp only [Option.isSome_none, Bool.false_eq_true, if_false]
    -- the bots after the registration
    have hbot : ∀ u, botOf (registered s uuid) u
        = if u = uuid then some (newBot uuid) else botOf s u := by
      intro u
      have hnew : (newBot uuid).uuid = uuid := trunc_of_lt hshort
      split
      · rename_i hu
        rw [hu]
        exact Table.find?_append_of_none (botOf_eq_none_iff.mpr hfind) (by simp [hnew])
      · rename_i hu
        exact Table.find?_append_of_false (by simp [hnew, Ne.symm hu])
    have hnone := botOf_eq_none_iff.mpr hfind
    -- the lists and the registers are what they were
    have hrev : ∀ u, isRevoked (registered s uuid) u = isRevoked s u := isRevoked_congr rfl
    have hview : entryView (registered s uuid) = entryView s := by
      funext p
      rw [entryView, entryView, hbot]
      by_cases hp : p.1 = uuid
      · rw [if_pos hp, hp, hnone]
        rfl
      · rw [if_neg hp]
    refine ⟨fun u hu => ?_, hview, rfl, s.bots.length, newBot uuid,
      ?_, by simp [registered], .inr rfl⟩
    · by_cases heq : u = uuid
      · subst heq
        -- a bot without a record is not revoked
        have hlive : isRevoked s u = false := by
          rw [Bool.eq_false_iff]
          intro hr
          have := (h u hu).there hr
          rw [hfind] at this
          cases this
        have hrec : botOf (registered s u) u = some (newBot u) := by rw [hbot, if_pos rfl]
        refine ⟨fun _ => botOf_isSome_iff.mpr ⟨_, hrec⟩, ?_, ?_, ?_⟩
        · intro b hb
          cases hrec.symm.trans hb
          exact .nil
        · intro b hb
          cases hrec.symm.trans hb
          constructor
          · intro hdead
            cases hdead
          · rintro (⟨ts, hd⟩ | hr)
            · cases hd
            · rw [hrev, hlive] at hr
              cases hr
        · rw [hview, hrev]
          exact (h u hu).sealed
      · exact (h u hu).congr (by rw [hbot, if_neg heq]) (hrev u)
    · rw [botFind_registered hfind, if_pos hshort]

/-- What one write does: it joins its rank into its register and keeps the invariant. No bot
leaves the revoke list, and one joins it only as a deleted bot with a key. -/
structure WriteJoins (U : Str → Prop) (s : HubState) (w : BotWrite) (t : HubState) : Prop where
  tracks : Tracks U t
  view : entryView t = entryView s ⊔ Lww.single (w.uuid, w.key) w.rank
  keeps : ∀ u, isRevoked s u = true → isRevoked t u = true
  joins : ∀ u, isRevoked t u = true → isRevoked s u = true ∨ DeletedKeyed (entryView t) u

/-- A value stored in its bot, and the revoke rules after it. `hlt` is that the value won, `hput`
what it left of the bot, `ht` what the rules left. The four parts of the invariant
are shown one after the other. -/
private theorem Tracks.rules (h : Tracks U s) {i : Nat} {b b' : BotConfig} {t : HubState}
    (hfind : botFind s w.uuid = some i) (hget : s.bots[i]? = some b)
    (hput : PutStored b b' w.key w.value w.ts) (hlt : rankIn b w.key < w.rank) (hU : U w.uuid)
    (ht : AfterRules { s with bots := s.bots.set i b' } t w.uuid w.key.name b') :
    WriteJoins U s w t := by
  obtain ⟨hu, hact, hkeys, hrank⟩ := hput
  have hb := botOf_of_botFind hfind hget
  have hbu := uuid_of_botOf hb
  have hbot := h w.uuid hU
  have hkeys' := hkeys (hbot.keys b hb)
  -- only the written bot changes, and it is dead if it is revoked
  have hbots : ∀ u, botOf t u = if u = w.uuid then
      some { b' with isActive := b'.isActive && !isRevoked s w.uuid } else botOf s u := by
    intro u
    rw [ht.bots, botOf_set hfind hget hu]
    split
    · rfl
    · rfl
  have hown : botOf t w.uuid
      = some { b' with isActive := b'.isActive && !isRevoked s w.uuid } := by
    rw [hbots, if_pos rfl]
  -- the registers of the written bot, and all registers
  have hreg : ∀ k, entryView t (w.uuid, k) = rankIn b' k := by
    intro k
    rw [entryView, hown]
    rfl
  have hview : entryView t = entryView s ⊔ Lww.single (w.uuid, w.key) w.rank := by
    funext p
    obtain ⟨u, k⟩ := p
    rw [Pi.sup_apply, Lww.single]
    by_cases hne : u = w.uuid
    · subst hne
      rw [hreg, hrank, entryView_of_botOf hb]
      by_cases hk : k = w.key
      · rw [if_pos hk, if_pos (by rw [hk]), hk]
        exact (sup_eq_right.mpr hlt.le).symm
      · rw [if_neg hk, if_neg fun heq => hk (congrArg Prod.snd heq), sup_bot_eq]
    · rw [if_neg fun heq => hne (congrArg Prod.fst heq), sup_bot_eq, entryView, hbots, if_neg hne]
      rfl
  -- the new `d` entry says what the write says, any other key leaves it alone
  have hd : (b'.isActive = false ∨ isRevoked s w.uuid = true) ↔
      (∃ ts : Int, rankIn b' .d = (toLex (ts, ['1']) : EntryRank))
      ∨ isRevoked s w.uuid = true := by
    rw [hact, hrank]
    by_cases hk : w.key = .d
    · rw [if_pos hk, if_pos hk.symm]
      refine or_congr_left ?_
      simp
    · rw [if_neg hk, if_neg (Ne.symm hk), hbot.follows b hb, or_assoc, or_self]
  -- what seals a bot, read off its registers
  have hseal := sealable_iff hkeys'
  rw [hu, hbu] at hseal
  -- a bot that the rules revoke is deleted and has a key
  have hjoins : isRevoked t w.uuid = true →
      isRevoked s w.uuid = true ∨ DeletedKeyed (entryView t) w.uuid := by
    intro hrev
    rcases ht.joins hrev with hold | ⟨hdead, hs⟩
    · exact .inl hold
    rcases hd.mp (.inl hdead) with ⟨ts, hone⟩ | hold
    · obtain ⟨hshape, ⟨ts', v, hpos, hdel⟩, ts'', key, hok, hpub⟩ := hseal.mp hs
      have hsame := toLex_inj.mp (WithBot.coe_inj.mp (hone.symm.trans hdel))
      refine .inr ⟨hshape, ⟨ts, ?_, by rw [hreg, hone]⟩, ts'', key, hok, by rw [hreg, hpub]⟩
      rw [(Prod.mk.inj hsame).1]
      exact hpos
    · exact .inl hold
  -- and one that is deleted and has a key they have revoked
  have hsealed : DeletedKeyed (entryView t) w.uuid → isRevoked t w.uuid = true := by
    rintro ⟨hshape, ⟨ts, hpos, hone⟩, ts', key, hok, hpub⟩
    rw [hreg] at hone hpub
    -- if it was revoked before, it still is; else one of the three keys decides
    by_cases hold : isRevoked s w.uuid = true
    · exact ht.keeps hold
    by_cases hk : [BotKey.d, .pub, .n].any (fun k => k.name == w.key.name) = true
    · have hdead : b'.isActive = false := by
        rcases hd.mpr (.inl ⟨ts, hone⟩) with hdead | hrev
        · exact hdead
        · exact absurd hrev hold
      exact ht.seals hk hdead (hseal.mpr ⟨hshape, ⟨ts, _, hpos, hone⟩, ts', key, hok, hpub⟩)
    · -- neither the `d` entry nor the key changed
      have hne : BotKey.d ≠ w.key ∧ BotKey.pub ≠ w.key := by
        constructor
        · intro heq
          exact hk (heq ▸ by decide)
        · intro heq
          exact hk (heq ▸ by decide)
      rw [hrank, if_neg hne.1] at hone
      rw [hrank, if_neg hne.2] at hpub
      refine ht.keeps (hbot.sealed ⟨hshape, ⟨ts, hpos, ?_⟩, ts', key, hok, ?_⟩)
      · rw [entryView_of_botOf hb, hone]
      · rw [entryView_of_botOf hb, hpub]
  -- the four parts: every bot as it should be, the registers, and the two about the revoke list
  refine ⟨fun u hUu => ?_, hview, fun u hrev => ?_, fun u hrev => ?_⟩
  · by_cases heq : u = w.uuid
    · subst heq
      refine ⟨fun _ => botOf_isSome_iff.mpr ⟨_, hown⟩, fun a ha => ?_, fun a ha => ?_, hsealed⟩
      · cases hown.symm.trans ha
        exact hkeys'
      · cases hown.symm.trans ha
        have hdead : (b'.isActive && !isRevoked s w.uuid) = false ↔
            b'.isActive = false ∨ isRevoked s w.uuid = true := by
          cases b'.isActive <;> simp
        show (b'.isActive && !isRevoked s w.uuid) = false ↔
          (∃ ts : Int, rankIn b' .d = (toLex (ts, ['1']) : EntryRank)) ∨ isRevoked t w.uuid = true
        rw [hdead]
        constructor
        · intro hl
          exact (hd.mp hl).imp id ht.keeps
        · rintro (hone | hrev)
          · exact hd.mpr (.inl hone)
          · exact (ht.joins hrev).elim .inr fun hnow => .inl hnow.1
    · exact (h u hUu).congr (by rw [hbots, if_neg heq]) (ht.others u heq)
  · by_cases heq : u = w.uuid
    · subst heq
      exact ht.keeps hrev
    · rw [ht.others u heq]
      exact hrev
  · by_cases heq : u = w.uuid
    · subst heq
      exact hjoins hrev
    · exact .inl ((ht.others u heq).symm.trans hrev)

/-- A write that the hub takes: it is stored or refused, and the hub goes on. A refused write
ranks no higher than its register, so the join with it changes nothing. -/
theorem Tracks.put (h : Tracks U s) (hU : U w.uuid) (hw : w.Shaped) (hf : w.Fair s) :
    ∃ t, w.put s = some t ∧ WriteJoins U s w t := by
  -- the bot is looked up, or made blank first
  rw [put_eq_opened hw hf (h w.uuid hU).there]
  obtain ⟨h0, hview0, hrev0, i, b, hfind, hget, hold⟩ := h.opened hw.short
  generalize Proofs.opened s w.uuid = s0 at h0 hview0 hrev0 hfind hget ⊢
  have hroom : (b.entry w.key).isSome = true ∨ b.entries.length < maxBotEntries := by
    rcases hold with hb | hb
    · exact hf.roomEntry b hb
    · rw [hb]
      exact .inr (Nat.zero_lt_succ _)
  have hcur : entryView s (w.uuid, w.key) = rankIn b w.key := by
    rw [← hview0]
    exact entryView_of_botOf (botOf_of_botFind hfind hget) _
  have hsame : ∀ u, isRevoked s0 u = isRevoked s u := isRevoked_congr hrev0
  unfold updateBot
  rw [botKeyOf_name]
  simp only [hw.bounded, Bool.not_true, Bool.false_eq_true, if_false, hfind, hget]
  -- the entry decides: the write ranks higher than its register or not
  rcases put_of_rank w.ts hw.key hw.literal hw.bounded hroom with
    ⟨hle, hput⟩ | ⟨hlt, b', hput, hstored⟩
  · -- refused: the register already holds as much
    rw [hput]
    refine ⟨s0, rfl, h0, ?_, fun u hrev => (hsame u).trans hrev, fun u hrev =>
      .inl ((hsame u).symm.trans hrev)⟩
    rw [hview0, eq_comm, sup_eq_left]
    intro p
    rw [Lww.single]
    split
    · rename_i hp
      rw [hp, hcur]
      exact not_lt.mp hle
    · exact bot_le
  -- stored: the revoke rules follow where the key is one of theirs
  · rw [hput]
    simp only [Bool.true_and, Option.map_some]
    have hu := hstored.uuid
    have hlt' : i < s0.bots.length := (List.getElem?_eq_some_iff.mp hget).1
    have hfind' : botFind { s0 with bots := s0.bots.set i b' } w.uuid = some i := by
      rw [← hfind]
      exact Table.findIdx?_set_of_eq hget (by rw [hu])
    have hget' : (s0.bots.set i b')[i]? = some b' := List.getElem?_set_self hlt'
    have hrules : AfterRules { s0 with bots := s0.bots.set i b' }
        (if revokeGuards w.key.name then
            revokeAfter { s0 with bots := s0.bots.set i b' } w.uuid w.key.name
          else { s0 with bots := s0.bots.set i b' }) w.uuid w.key.name b' := by
      split
      · have hlist : isRevoked s0 w.uuid = true ∨ s0.revoked.length < maxRevoked := by
          rw [hsame, hrev0]
          exact hf.roomRevoked
        exact revokeAfter_rules hfind' hget' hlist
      · rename_i hguard
        -- the hub list is outside the rules: a revoked bot was dead before
        have hhl : w.key ≠ .d := by
          intro hk
          rw [hk] at hguard
          exact hguard (by decide)
        have hown : ({ b' with isActive := b'.isActive && !isRevoked s0 w.uuid } : BotConfig)
          = b' := by
          cases hrev : isRevoked s0 w.uuid with
          | false => simp
          | true =>
            have hdead : b'.isActive = false := by
              rw [hstored.active, if_neg hhl]
              exact ((h0 w.uuid hU).follows b (botOf_of_botFind hfind hget)).mpr (.inr hrev)
            rw [Bool.not_true, Bool.and_false, ← hdead]
        have hrev : isRevoked { s0 with bots := s0.bots.set i b' } w.uuid = isRevoked s0 w.uuid :=
          rfl
        refine ⟨fun u => ?_, fun u _ => rfl, id, .inl, fun hkey => absurd ?_ hguard⟩
        · rw [hrev, hown, botOf_set hfind hget hu]
          split
          · rfl
          · rfl
        · revert hkey
          cases w.key <;> decide
    obtain ⟨ht, hview, hkeeps, hjoins⟩ := h0.rules hfind hget hstored hlt hU hrules
    refine ⟨_, rfl, ht, by rw [hview, hview0], fun u hrev => hkeeps u ((hsame u).trans hrev),
      fun u hrev => (hjoins u hrev).imp (fun hold => (hsame u).symm.trans hold) id⟩

/-! ### Runs -/

/-- The ranks that were written to one register of a hub, and the one it started with. -/
def offered (s : HubState) (l : List BotWrite) (uuid : Str) (k : BotKey) : Set EntryRank :=
  { r | entryView s (uuid, k) = r ∨ ∃ w ∈ l, (w.uuid, w.key) = (uuid, k) ∧ w.rank = r }

/-- What a register can hold in some order of the writes: what it started with, or a write that
ranks above that. -/
def Holdable (s : HubState) (l : List BotWrite) (uuid : Str) (k : BotKey)
    (r : EntryRank) : Prop :=
  entryView s (uuid, k) = r
    ∨ ∃ w ∈ l, (w.uuid, w.key) = (uuid, k) ∧ w.rank = r ∧ entryView s (uuid, k) < r

/-- The writes can put the bot on the revoke list. The uuid is well formed, and in some order the
`d` entry says `1` with a positive stamp while the key is valid. -/
def Revocable (s : HubState) (l : List BotWrite) (u : Str) : Prop :=
  uuidShape u = true ∧ (∃ ts : Int, 0 < ts ∧ Holdable s l u .d (toLex (ts, ['1'])))
    ∧ ∃ (ts : Int) (key : Str), pubOk key = true ∧ Holdable s l u .pub (toLex (ts, key))

/-- The `d` entry of a bot says that the bot is deleted. -/
def DeadByEntry (s : HubState) (u : Str) : Prop :=
  ∃ ts : Int, entryView s (u, .d) = (toLex (ts, ['1']) : EntryRank)

/-- The same writes, in another order or with other repetitions. -/
def SameWrites (m l : List BotWrite) : Prop := ∀ w, w ∈ m ↔ w ∈ l

/-- Where writes of `l` lead from `s0`: no register below its start, none with a value that it
cannot hold, and no bot on the revoke list that the writes cannot put there. -/
structure Reached (U : Str → Prop) (s0 : HubState) (l : List BotWrite) (s : HubState) : Prop where
  tracks : Tracks U s
  above : entryView s0 ≤ entryView s
  held : ∀ u k (r : EntryRank), entryView s (u, k) = r → Holdable s0 l u k r
  listed : ∀ u, isRevoked s u = true → isRevoked s0 u = true ∨ Revocable s0 l u

variable {s0 : HubState} {l m : List BotWrite}

/-- Registers of a deleted bot with a key are registers that the writes can bring about. -/
theorem Revocable.of_held {s : HubState} (h : DeletedKeyed (entryView s) u)
    (hheld : ∀ u k (r : EntryRank), entryView s (u, k) = r → Holdable s0 l u k r) :
    Revocable s0 l u := by
  obtain ⟨hshape, ⟨ts, hpos, hone⟩, ts', key, hok, hpub⟩ := h
  exact ⟨hshape, ⟨ts, hpos, hheld _ _ _ hone⟩, ts', key, hok, hheld _ _ _ hpub⟩

/-- One write. What it leaves in its register is what was there or the write itself, so a register
holds nothing that it cannot hold. -/
theorem Reached.put (h : Reached U s0 l s) (hw : w ∈ l) (hU : U w.uuid) (hshape : w.Shaped)
    (hf : w.Fair s) : ∃ t, w.put s = some t ∧ Reached U s0 l t
      ∧ entryView t = entryView s ⊔ Lww.single (w.uuid, w.key) w.rank := by
  obtain ⟨t, hput, ht⟩ := h.tracks.put hU hshape hf
  have hheld : ∀ u k (r : EntryRank), entryView t (u, k) = r → Holdable s0 l u k r := by
    intro u k r hr
    rw [ht.view, Pi.sup_apply, Lww.single] at hr
    split at hr
    · rename_i hp
      -- the register of the write: it kept what it had, or took the write
      rcases le_total (w.rank : WithBot EntryRank) (entryView s (u, k)) with hle | hle
      · rw [sup_eq_left.mpr hle] at hr
        exact h.held u k r hr
      · by_cases heq : entryView s (u, k) = r
        · exact h.held u k r heq
        · rw [sup_eq_right.mpr hle] at hr
          refine .inr ⟨w, hw, hp.symm, WithBot.coe_inj.mp hr, ?_⟩
          exact (h.above (u, k)).trans_lt (lt_of_le_of_ne (hr ▸ hle) heq)
    · rw [sup_bot_eq] at hr
      exact h.held u k r hr
  refine ⟨t, hput, ⟨ht.tracks, ?_, hheld, fun u hrev => ?_⟩, ht.view⟩
  · rw [ht.view]
    exact h.above.trans le_sup_left
  · rcases ht.joins u hrev with hold | hnow
    · exact h.listed u hold
    · exact .inr (.of_held hnow hheld)

/-- A run of writes of `l`, in any order. `hs`: the invariant holds of the bots at the start. `hm`
and `hfair`: all are writes of `l`, and nothing stands against any of them. -/
theorem reached_run (hs : Tracks U s0) (hU : ∀ w ∈ l, U w.uuid) (hshape : ∀ w ∈ l, w.Shaped)
    (hm : ∀ w ∈ m, w ∈ l) (hfair : Lww.AlongM (fun s w => BotWrite.Fair s w) BotWrite.put s0 m) :
    ∃ t, m.foldlM BotWrite.put s0 = some t ∧ Reached U s0 l t
      ∧ entryView t = Lww.joinAll (fun w => Lww.single (w.uuid, w.key) w.rank) (entryView s0) m :=
  Lww.view_runM (Q := fun w => w ∈ l)
    (fun _ w hr hw hf => hr.put hw (hU w hw) (hshape w hw) hf)
    ⟨hs, le_rfl, fun _ _ _ hr => .inl hr, fun _ hr => .inl hr⟩ hm hfair

/-- What a run of writes leaves in a register: the greatest of what it was offered. -/
theorem joinAll_eq_coe_iff (hm : SameWrites m l) (p : Str × BotKey) (r : EntryRank) :
    Lww.joinAll (fun w : BotWrite => Lww.single (w.uuid, w.key) w.rank) (entryView s0) m p = r
      ↔ IsGreatest (offered s0 l p.1 p.2) r := by
  rw [Lww.joinAll_single_eq_coe_iff (fun w : BotWrite => (w.uuid, w.key)) BotWrite.rank]
  have hset : { r' : EntryRank | entryView s0 p = r' ∨ ∃ x ∈ m, (x.uuid, x.key) = p
    ∧ x.rank = r' }
      = offered s0 l p.1 p.2 := by
    ext r'
    simp only [offered, Set.mem_ofPred_eq, hm _]
  rw [hset]

/-- A register can be brought to hold what it can hold by at most one write. -/
theorem Holdable.exists_writes {k : BotKey} {r : EntryRank} (h : Holdable s0 l u k r) :
    ∃ p : List BotWrite, (∀ w ∈ p, w ∈ l ∧ (w.uuid, w.key) = (u, k))
      ∧ IsGreatest (offered s0 p u k) r := by
  rcases h with hstart | ⟨w, hw, hk, hr, hlt⟩
  · refine ⟨[], fun w hw => absurd hw List.not_mem_nil, .inl hstart, ?_⟩
    rintro r' (hr' | ⟨w, hw, -⟩)
    · exact (WithBot.coe_inj.mp (hr'.symm.trans hstart)).le
    · exact absurd hw List.not_mem_nil
  · refine ⟨[w], fun x hx => ?_, .inr ⟨w, List.mem_singleton_self w, hk, hr⟩, ?_⟩
    · rw [List.mem_singleton] at hx
      exact hx ▸ ⟨hw, hk⟩
    · rintro r' (hr' | ⟨x, hx, -, rfl⟩)
      · rw [hr'] at hlt
        exact (WithBot.coe_lt_coe.mp hlt).le
      · rw [List.mem_singleton] at hx
        rw [hx, hr]

/-- For a bot that can be put on the revoke list, there is an order that does so: first the delete
and the key, then all writes. It contains the writes of `l` and no others, and nobody leaves the
list again. -/
theorem exists_revoking (hs : Tracks U s0) (hU : ∀ w ∈ l, U w.uuid) (hshape : ∀ w ∈ l, w.Shaped)
    (hfair : ∀ m, SameWrites m l →
      Lww.AlongM (fun s w => BotWrite.Fair s w) BotWrite.put s0 m)
    (hu : U u) (hrev : Revocable s0 l u) :
    ∃ m t, SameWrites m l ∧ m.foldlM BotWrite.put s0 = some t ∧ isRevoked t u = true := by
  obtain ⟨huuid, ⟨ts, hpos, hone⟩, ts', key, hok, hpub⟩ := hrev
  obtain ⟨pd, hpd, hgd⟩ := hone.exists_writes
  obtain ⟨pk, hpk, hgk⟩ := hpub.exists_writes
  have hpl : ∀ w ∈ pd ++ pk, w ∈ l := by
    intro w hw
    rcases List.mem_append.mp hw with h | h
    · exact (hpd w h).1
    · exact (hpk w h).1
  have hsame : SameWrites (pd ++ pk ++ l) l := by
    -- the writes in front are writes of the list, so the whole is of the same ones
    intro w
    rw [List.mem_append]
    exact ⟨fun h => h.elim (hpl w) id, .inr⟩
  have hall := hfair _ hsame
  -- nothing stands against the front part
  have hfront : Lww.AlongM (fun s w => BotWrite.Fair s w) BotWrite.put s0 (pd ++ pk) := by
    have h := hall.take (pd ++ pk).length
    rwa [List.take_left] at h
  obtain ⟨t, hrun, ht, hview⟩ := reached_run hs hU hshape hpl hfront
  -- the writes of the one key are no writes of the other
  have hd : offered s0 (pd ++ pk) u .d = offered s0 pd u .d := by
    ext r
    simp only [offered, Set.mem_ofPred_eq, List.mem_append]
    refine or_congr_right ⟨?_, fun ⟨w, hw, hk⟩ => ⟨w, .inl hw, hk⟩⟩
    rintro ⟨w, hw | hw, hk, hr⟩
    · exact ⟨w, hw, hk, hr⟩
    · have hne : BotKey.d = .pub := congrArg Prod.snd (hk.symm.trans (hpk w hw).2)
      exact absurd hne (by decide)
  -- the same for the key
  have hk : offered s0 (pd ++ pk) u .pub = offered s0 pk u .pub := by
    ext r
    simp only [offered, Set.mem_ofPred_eq, List.mem_append]
    refine or_congr_right ⟨?_, fun ⟨w, hw, hk⟩ => ⟨w, .inr hw, hk⟩⟩
    rintro ⟨w, hw | hw, hk, hr⟩
    · have hne : BotKey.pub = .d := congrArg Prod.snd (hk.symm.trans (hpd w hw).2)
      exact absurd hne (by decide)
    · exact ⟨w, hw, hk, hr⟩
  have hrefl : SameWrites (pd ++ pk) (pd ++ pk) := fun _ => Iff.rfl
  have hdeleted : DeletedKeyed (entryView t) u := by
    refine ⟨huuid, ⟨ts, hpos, ?_⟩, ts', key, hok, ?_⟩
    · rw [hview]
      exact (joinAll_eq_coe_iff hrefl (u, .d) _).mpr (hd ▸ hgd)
    · rw [hview]
      exact (joinAll_eq_coe_iff hrefl (u, .pub) _).mpr (hk ▸ hgk)
  -- after the front part the bot is on the list
  have hlisted := (ht.tracks u hu).sealed hdeleted
  -- from here on nothing takes the bot off the list
  have hrest := hall.of_append hrun
  obtain ⟨t', hrun', ht'⟩ : ∃ t', l.foldlM BotWrite.put t = some t' ∧ isRevoked t' u = true := by
    have hstep : ∀ s w, (Tracks U s ∧ isRevoked s u = true) → w ∈ l → w.Fair s →
        ∃ t, w.put s = some t ∧ (Tracks U t ∧ isRevoked t u = true)
          ∧ entryView t = entryView s ⊔ Lww.single (w.uuid, w.key) w.rank := by
      rintro s w ⟨hs, hr⟩ hw hf
      obtain ⟨t, hput, ht⟩ := hs.put (hU w hw) (hshape w hw) hf
      exact ⟨t, hput, ⟨ht.tracks, ht.keeps u hr⟩, ht.view⟩
    obtain ⟨t', hrun', ht', -⟩ := Lww.view_runM hstep ⟨ht.tracks, hlisted⟩ (fun w hw => hw) hrest
    exact ⟨t', hrun', ht'.2⟩
  refine ⟨pd ++ pk ++ l, t', hsame, ?_, ht'⟩
  rw [List.foldlM_append, hrun]
  exact hrun'

/-! ### Convergence -/

/-- Writes to the bots of a hub, in any order and with any repetition.

The hub takes all of them and ends with the greatest stamp and value in every register. A bot is
then dead exactly if its `d` entry says so or it is on the revoke list. The `d` entry alone says
it in every order exactly if the bot is not `Revocable` or its `d` entry says `1` in the end.

`hshape` is what the hub accepts. `hfair`: in no order a table is full, a stamp is ahead or a
purge floor stands against a write. `hrev` and `hstart`: no written bot is revoked at the start,
and each is unknown there or has been kept by writes. -/
theorem botWrites_converge (hshape : ∀ w ∈ l, w.Shaped)
    (hfair : ∀ m, SameWrites m l →
      Lww.AlongM (fun s w => BotWrite.Fair s w) BotWrite.put s0 m)
    (hrev : ∀ w ∈ l, isRevoked s0 w.uuid = false) (hstart : ∀ w ∈ l, TracksBot s0 w.uuid) :
    (∀ m, SameWrites m l → ∃ t, m.foldlM BotWrite.put s0 = some t
      ∧ (∀ uuid k (r : EntryRank),
        entryView t (uuid, k) = r ↔ IsGreatest (offered s0 l uuid k) r)
      ∧ ∀ w ∈ l, ∀ b, botOf t w.uuid = some b →
        (b.isActive = false ↔ DeadByEntry t w.uuid ∨ isRevoked t w.uuid = true))
    ∧ ∀ w ∈ l,
      (∀ m t, SameWrites m l → m.foldlM BotWrite.put s0 = some t → ∀ b, botOf t w.uuid = some b →
        (b.isActive = false ↔ DeadByEntry t w.uuid))
      ↔ (Revocable s0 l w.uuid →
        ∃ ts : Int, IsGreatest (offered s0 l w.uuid .d) (toLex (ts, ['1']))) := by
  have hs : Tracks (fun u => ∃ w ∈ l, w.uuid = u) s0 := by
    rintro u ⟨w, hw, rfl⟩
    exact hstart w hw
  have hU : ∀ w ∈ l, ∃ x ∈ l, x.uuid = w.uuid := fun w hw => ⟨w, hw, rfl⟩
  -- one order
  have hrun : ∀ m, SameWrites m l → ∃ t, m.foldlM BotWrite.put s0 = some t
      ∧ Reached (fun u => ∃ w ∈ l, w.uuid = u) s0 l t
      ∧ ∀ uuid k (r : EntryRank), entryView t (uuid, k) = r
        ↔ IsGreatest (offered s0 l uuid k) r := by
    intro m hm
    obtain ⟨t, hrun, ht, hview⟩ :=
      reached_run hs hU hshape (fun w hw => (hm w).mp hw) (hfair m hm)
    refine ⟨t, hrun, ht, fun uuid k r => ?_⟩
    rw [hview]
    exact joinAll_eq_coe_iff hm (uuid, k) r
  -- the bot is dead by its entry or by the list
  have hdead : ∀ {t}, Reached (fun u => ∃ w ∈ l, w.uuid = u) s0 l t → ∀ w ∈ l, ∀ b,
      botOf t w.uuid = some b →
      (b.isActive = false ↔ DeadByEntry t w.uuid ∨ isRevoked t w.uuid = true) := by
    intro t ht w hw b hb
    rw [(ht.tracks w.uuid ⟨w, hw, rfl⟩).follows b hb, DeadByEntry, entryView_of_botOf hb]
  refine ⟨fun m hm => ?_, fun w hw =>
    ⟨fun halways hrevocable => ?_, fun hwins m t hm hmt b hb => ?_⟩⟩
  · obtain ⟨t, hrun, ht, hregisters⟩ := hrun m hm
    exact ⟨t, hrun, hregisters, hdead ht⟩
  -- the order that puts it on the list: the entry has to say so there
  · obtain ⟨m, t, hm, hmt, hlisted⟩ := exists_revoking hs hU hshape hfair ⟨w, hw, rfl⟩ hrevocable
    obtain ⟨t', hrun, ht, hregisters⟩ := hrun m hm
    cases hmt.symm.trans hrun
    obtain ⟨b, hb⟩ := botOf_isSome_iff.mp ((ht.tracks w.uuid ⟨w, hw, rfl⟩).there hlisted)
    obtain ⟨ts, hone⟩ := (halways m t hm hmt b hb).mp ((hdead ht w hw b hb).mpr (.inr hlisted))
    exact ⟨ts, (hregisters _ _ _).mp hone⟩
  -- every order: if it is on the list the entry says so too
  · obtain ⟨t', hrun, ht, hregisters⟩ := hrun m hm
    cases hmt.symm.trans hrun
    rw [hdead ht w hw b hb]
    refine ⟨fun h => ?_, .inl⟩
    rcases h with hone | hlisted
    · exact hone
    · rcases ht.listed w.uuid hlisted with hold | hrevocable
      · rw [hrev w hw] at hold
        cases hold
      · obtain ⟨ts, hgreatest⟩ := hwins hrevocable
        exact ⟨ts, (hregisters _ _ _).mpr hgreatest⟩

/-! ### A key, a delete and its opposite -/

/-- A bot that the hub has never heard of is kept by writes so far. -/
theorem tracksBot_of_unknown (hbot : botOf s u = none) (hrev : isRevoked s u = false) :
    TracksBot s u := by
  refine ⟨fun h => ?_, fun b hb => ?_, fun b hb => ?_, ?_⟩
  · rw [hrev] at h
    cases h
  · rw [hbot] at hb
    cases hb
  · rw [hbot] at hb
    cases hb
  · rintro ⟨-, ⟨ts, -, hone⟩, -⟩
    rw [entryView, hbot] at hone
    cases hone

/-- Nothing stands against writes to one bot of an empty hub, in any order. `hahead`: no stamp is
ahead of its clock, and no clock stands before the epoch. -/
theorem fair_of_alone (uuid : Str) (hown : ∀ w ∈ l, w.uuid = uuid) (hshape : ∀ w ∈ l, w.Shaped)
    (hahead : ∀ w ∈ l, tsAhead w.clk w.ts = false ∧ 0 ≤ w.clk.now) (hm : ∀ w ∈ m, w ∈ l) :
    Lww.AlongM (fun s w => BotWrite.Fair s w) BotWrite.put {} m := by
  -- of the bots only this one is there, so there is room for it
  have hroomBot : ∀ s : HubState, otherBots uuid s = [] →
      (botFind s uuid).isSome = true ∨ s.bots.length < maxBots := by
    intro s hothers
    cases hfind : botFind s uuid with
    | some i => exact .inl rfl
    | none =>
      have hall : ∀ b ∈ s.bots, (b.uuid != uuid) = true := by
        intro b hb
        have hne := List.findIdx?_eq_none_iff.mp hfind b hb
        simpa using hne
      rw [otherBots, List.filter_eq_self.mpr hall] at hothers
      exact .inr (by rw [hothers]; decide)
  -- and of the revoked ones too
  have hroomRevoked : ∀ s : HubState, otherRevoked uuid s = [] → NoteRoom s uuid := by
    intro s hothers
    cases hlisted : isRevoked s uuid with
    | true => exact .inl hlisted
    | false =>
      have hall : ∀ r ∈ s.revoked, (r.uuid != uuid) = true := by
        intro r hr
        rw [isRevoked, revokeFind, Option.isSome_eq_false_iff, Option.isNone_iff_eq_none,
          List.findIdx?_eq_none_iff] at hlisted
        simpa using hlisted r hr
      rw [otherRevoked, List.filter_eq_self.mpr hall] at hothers
      exact .inr (by rw [hothers]; decide)
  -- a bot that has each key once has far fewer entries than fit
  have hroomEntry : ∀ b : BotConfig, (b.entries.map (·.key)).Nodup →
      b.entries.length < maxBotEntries := by
    intro b hkeys
    have hsub : b.entries.map (·.key) ⊆ [BotKey.t, .n, .h, .pub, .seen, .d, .hl] := by
      intro k _
      cases k <;> decide
    have hlen := (List.subperm_of_subset hkeys hsub).length_le
    rw [List.length_map] at hlen
    exact Nat.lt_of_le_of_lt hlen (by decide)
  -- so nothing stands against a write as long as only this bot is there
  have hfair : ∀ (s : HubState) (w : BotWrite), (Tracks (· = uuid) s ∧ otherBots uuid s = []
      ∧ otherRevoked uuid s = [] ∧ sharedPart s = sharedPart {}) → w ∈ l → w.Fair s := by
    rintro s w ⟨htracks, hbots, hrevoked, hshared⟩ hw
    obtain ⟨hts, hclock⟩ := hahead w hw
    have hfloor : s.purgeFloorUntil = 0 := congrArg HubState.purgeFloorUntil hshared
    refine ⟨hts, ?_, hown w hw ▸ hroomBot s hbots, fun b hb => ?_,
      hown w hw ▸ hroomRevoked s hrevoked⟩
    · have hpast : ¬ s.purgeFloorUntil > w.clk.now := by
        rw [hfloor]
        exact not_lt.mpr hclock
      rw [purgeFloorBlocks, decide_eq_false hpast, Bool.false_and]
    · exact .inr (hroomEntry b ((htracks w.uuid (hown w hw)).keys b hb))
  -- which every write leaves so
  refine Lww.alongM_of_inv (Q := fun w => w ∈ l) hfair ?_ ⟨?_, rfl, rfl, rfl⟩ hm
  · rintro s w t ⟨htracks, hbots, hrevoked, hshared⟩ hw hput
    have hf := hfair s w ⟨htracks, hbots, hrevoked, hshared⟩ hw
    obtain ⟨t', hput', ht⟩ := htracks.put (hown w hw) (hshape w hw) hf
    cases hput.symm.trans hput'
    obtain ⟨q, hq, rfl⟩ := Option.map_eq_some_iff.mp hput
    have hper : perBotKey w.key.name := by cases w.key <;> exact ⟨by decide, by decide, by decide⟩
    have howned : OwnWrites w.uuid (fun _ => true) s q.1 :=
      ownWrites_updateEntry (hshape w hw).short hper (fun _ _ => rfl) hq
    rw [hown w hw] at howned
    exact ⟨ht.tracks, howned.others.trans hbots,
      (howned.noted (hroomRevoked s hrevoked)).2.trans hrevoked, howned.shared.trans hshared⟩
  · rintro u rfl
    exact tracksBot_of_unknown rfl rfl

/-- The shape of a write can be checked. -/
instance (w : BotWrite) : Decidable w.Shaped :=
  decidable_of_iff
    (w.key ≠ .t ∧ fieldOk w.uuid false = true ∧ utf8Len w.uuid < 64 ∧ uuidReserved w.uuid = false
      ∧ fieldOk w.value false = true ∧ botValueOk w.key w.value = true
      ∧ (w.key = .h → w.value.isEmpty = true ∨ hostmaskLiteral w.value = true))
    ⟨fun ⟨h1, h2, h3, h4, h5, h6, h7⟩ => ⟨h1, h2, h3, h4, h5, h6, h7⟩,
      fun ⟨h1, h2, h3, h4, h5, h6, h7⟩ => ⟨h1, h2, h3, h4, h5, h6, h7⟩⟩

/-- A key of the right shape, a delete, and its opposite a little later. -/
def revivedWrites : List BotWrite :=
  let u := "11111111-2222-3333-4444-555555555555".toList
  [⟨⟨1000, false⟩, u, .pub, List.replicate 86 'B' ++ "==".toList, 100⟩,
    ⟨⟨1000, false⟩, u, .d, ['1'], 500⟩, ⟨⟨1000, false⟩, u, .d, ['0'], 600⟩]

/-- Whether the bot is live and whether its `d` entry says so, at the end of a run. -/
def liveAfter (m : List BotWrite) : Option (List Bool × List Str) :=
  (m.foldlM BotWrite.put {}).map fun t => (t.bots.map (·.isActive),
    t.bots.flatMap fun b => (b.entries.filter fun e => e.key = .d).map (·.value))

/-- In the order of their stamps the writes leave the bot dead, and with the delete last they
leave it live. The `d` entry is the same: the later write says that the bot is not deleted. -/
theorem revived_by_order :
    liveAfter revivedWrites = some ([false], [['0']])
      ∧ liveAfter [revivedWrites.get ⟨0, by decide⟩, revivedWrites.get ⟨2, by decide⟩,
          revivedWrites.get ⟨1, by decide⟩] = some ([true], [['0']]) :=
  ⟨by decide +kernel, by decide +kernel⟩

/-- A bot without a key, its delete, and the opposite of the delete in the same second. -/
def botWritePair : List BotWrite :=
  [⟨⟨1000, false⟩, "bot-1".toList, .n, "nick".toList, 100⟩,
    ⟨⟨1000, false⟩, "bot-1".toList, .d, ['1'], 500⟩,
    ⟨⟨1010, false⟩, "bot-1".toList, .d, ['0'], 500⟩]

/-- The theorem at the two lists. The first bot is in some order not what its `d` entry says. Of
the second the `d` entry says it in every order, and it is dead. -/
theorem botWrites_converge_revived :
    (¬ ∀ m t, SameWrites m revivedWrites → m.foldlM BotWrite.put {} = some t →
      ∀ b, botOf t "11111111-2222-3333-4444-555555555555".toList = some b →
        (b.isActive = false ↔ DeadByEntry t "11111111-2222-3333-4444-555555555555".toList))
    ∧ ∀ m, SameWrites m botWritePair → ∃ t, m.foldlM BotWrite.put {} = some t
      ∧ ∀ b, botOf t "bot-1".toList = some b → b.isActive = false := by
  constructor
  · have hshape : ∀ w ∈ revivedWrites, w.Shaped := by decide +kernel
    have hfair : ∀ m, SameWrites m revivedWrites →
        Lww.AlongM (fun s w => BotWrite.Fair s w) BotWrite.put {} m := fun m hm =>
      fair_of_alone "11111111-2222-3333-4444-555555555555".toList (by decide) hshape (by decide)
        fun w hw => (hm w).mp hw
    obtain ⟨-, hiff⟩ := botWrites_converge hshape hfair
      (fun _ _ => rfl) (fun _ _ => tracksBot_of_unknown rfl rfl)
    have hbot := (hiff _ List.mem_cons_self).not
    refine hbot.mpr fun hwins => ?_
    have hrevocable : Revocable {} revivedWrites "11111111-2222-3333-4444-555555555555".toList :=
      ⟨by decide, ⟨500, by decide, .inr ⟨_, .tail _ (.head _), rfl, rfl, WithBot.bot_lt_coe _⟩⟩,
        100, _, by decide, .inr ⟨_, .head _, rfl, rfl, WithBot.bot_lt_coe _⟩⟩
    obtain ⟨ts, hin, hgreatest⟩ := hwins hrevocable
    have hle := hgreatest (.inr ⟨_, .tail _ (.tail _ (.head _)), rfl, rfl⟩)
    rcases hin with hstart | ⟨w, hw, hk, hr⟩
    · cases hstart
    · have honly : ∀ w ∈ revivedWrites, w.value = ['1'] → w.ts = 500 := by decide
      obtain ⟨hts, hvalue⟩ := Prod.mk.inj (toLex_inj.mp hr)
      rw [← hts, honly w hw hvalue] at hle
      rcases Prod.Lex.toLex_le_toLex.mp hle with hlt | ⟨heq, -⟩
      · exact absurd hlt (by decide)
      · exact absurd heq (by decide)
  · have hshape : ∀ w ∈ botWritePair, w.Shaped := by decide +kernel
    have hfair : ∀ m, SameWrites m botWritePair →
        Lww.AlongM (fun s w => BotWrite.Fair s w) BotWrite.put {} m := fun m hm =>
      fair_of_alone "bot-1".toList (by decide) hshape (by decide) fun w hw => (hm w).mp hw
    obtain ⟨hall, -⟩ := botWrites_converge hshape hfair
      (fun _ _ => rfl) (fun _ _ => tracksBot_of_unknown rfl rfl)
    intro m hm
    obtain ⟨t, hrun, hregisters, hdead⟩ := hall m hm
    have hwin : entryView t ("bot-1".toList, .d) = (toLex (500, ['1']) : EntryRank) := by
      refine (hregisters _ _ _).mpr ⟨.inr ⟨_, .tail _ (.head _), rfl, rfl⟩, ?_⟩
      rintro r (hr | ⟨w, hw, hk, rfl⟩)
      · cases hr
      · revert hk
        revert w
        decide +kernel
    exact ⟨t, hrun, fun b hb => (hdead _ (.head _) b hb).mpr (.inl ⟨500, hwin⟩)⟩

end IrcHub.Proofs
