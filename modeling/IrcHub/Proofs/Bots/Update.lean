import IrcHub.Hub.Bots
import IrcHub.Proofs.Global.Frame

/-!
# `IrcHub.Proofs.Bots.Update`: what an update does to the bots

What an update does to the bots. `updateEntry` either leaves the bots and the revoke list alone,
registers a bot and then refuses the value, or stores a value in one bot and applies the revoke
rules (`UpdateEntry`). A registration is described by the state it is made in (`Registers`).

- `botKeyOf_name`, `globalKeyOf_of_botKeyOf`: the names of keys, and that no name is a key of both
  kinds
- `Registers`: the checks an update passes before a bot is registered
- `botFind_registered`: the bot is found again exactly if its uuid was not cut. If it was, the hub
  crashes
- `put_spec`: what a value does to the record it is stored in
- `UpdateEntry`: the outcomes, and `updateEntry_outcome`: there are no others

This is the inversion of the function. The proofs about bots go through these outcomes and do not
unfold it again.
-/

set_option autoImplicit false

namespace IrcHub.Proofs

open IrcHub.Hub Str
open String (utf8Len)

/-! ### Keys -/

/-- A key of a bot is read from its name. -/
theorem botKeyOf_name (k : BotKey) : botKeyOf k.name = some k := by
  cases k <;> decide

/-- And has the name it was read from. -/
theorem name_of_botKeyOf {key : Str} {k : BotKey} (h : botKeyOf key = some k) : key = k.name := by
  have := List.find?_some h
  exact (beq_iff_eq.mp this).symm

/-- The revoke rules name every per-bot key but the hub list. -/
theorem revokeGuards_of_botKeyOf {key : Str} {k : BotKey} (h : botKeyOf key = some k) :
    revokeGuards key = decide (k ≠ .hl) := by
  rw [name_of_botKeyOf h]
  cases k <;> decide

/-- A kind of entry is named by its tag. -/
theorem name_of_globalKeyOf {key : Str} {k : GlobalKey} (h : globalKeyOf key = some k) :
    key = [k.tag] := by
  have := List.find?_some h
  exact (beq_iff_eq.mp this).symm

/-- No name is that of both a bot's key and a kind of entry. -/
theorem globalKeyOf_of_botKeyOf {key : Str} {k : BotKey} (h : botKeyOf key = some k) :
    globalKeyOf key = none := by
  rw [name_of_botKeyOf h]
  cases k <;> decide

/-! ### Registration -/

/-- The update registers a bot: it passes every check before the registration, the bot is not
there yet, and there is room. -/
structure Registers (clk : Clock) (s : HubState) (uuid key value extra op : Str) (ts : Int) :
    Prop where
  allowed : updateRefused clk s uuid key value ts = false
  fields : updateFieldsOk uuid key value extra op = true
  now : tsAhead clk ts = false
  perBot : globalKeyOf key = none
  named : uuidReserved uuid = false
  absent : botFind s uuid = none
  room : s.bots.length < maxBots

/-- A new bot: live, with no entries. -/
def newBot (uuid : Str) : BotConfig := { uuid := trunc uuid 64, isActive := true }

/-- The state after the registration. -/
def registered (s : HubState) (uuid : Str) : HubState :=
  { s with bots := s.bots ++ [newBot uuid] }

/-- A bot is found again exactly if its uuid was not cut. -/
theorem botFind_registered {s : HubState} {uuid : Str} (h : botFind s uuid = none) :
    botFind (registered s uuid) uuid = if utf8Len uuid < 64 then some s.bots.length
      else none := by
  unfold botFind at h ⊢
  rw [registered]
  by_cases hlen : utf8Len uuid < 64
  · rw [if_pos hlen]
    exact Table.findIdx?_append_of_none h (by simp [newBot, trunc_of_lt hlen])
  · rw [if_neg hlen, List.findIdx?_append, h]
    have hne : ¬ (trunc uuid 64 = uuid) := by
      intro heq
      have := utf8Len_trunc_lt uuid (show 0 < 64 by decide)
      rw [heq] at this
      exact hlen this
    simp [newBot, hne]

/-! ### One value -/

/-- A bot that takes a value keeps its uuid, and only `d` decides whether it is live. -/
theorem put_spec {b b' : BotConfig} {k : BotKey} {v : Str} {ts : Int}
    (h : b.put k v ts = some b') :
    b'.uuid = b.uuid ∧ (k ≠ .d → b'.isActive = b.isActive) := by
  unfold BotConfig.put at h
  split at h
  · split at h
    · cases h
      exact ⟨rfl, fun _ => rfl⟩
    · cases h
  split at h
  · cases h
  simp only [] at h
  have hwrite : ∀ es, b' = b.write es k v →
      b'.uuid = b.uuid ∧ (k ≠ .d → b'.isActive = b.isActive) := by
    rintro es rfl
    exact ⟨rfl, fun hk => if_neg hk⟩
  split at h
  · split at h
    · cases h
    split at h
    · cases h
    split at h
    · exact hwrite _ (Option.some.inj h).symm
    · cases h
  · split at h
    · exact hwrite _ (Option.some.inj h).symm
    · cases h

/-- A new bot takes every delete entry. -/
theorem put_newBot_d (uuid v : Str) (ts : Int) :
    ((newBot uuid).put .d v ts).isSome = true := rfl

/-! ### The outcomes -/

/-- The outcomes of `updateEntry`, as far as bots and revoke list go. -/
inductive UpdateEntry (clk : Clock) (s : HubState) (uuid key value extra op : Str) (ts : Int) :
    Option (HubState × Bool) → Prop
  /-- Refused, or a global entry. -/
  | same (t : HubState) (ok : Bool) (hbots : t.bots = s.bots) (hrevoked : t.revoked = s.revoked)
      (hno : ¬ Registers clk s uuid key value extra op ts) :
      UpdateEntry clk s uuid key value extra op ts (some (t, ok))
  /-- A bot was registered, and then its value was refused. -/
  | onlyNew (hnew : Registers clk s uuid key value extra op ts)
      (hval : ∀ k, botKeyOf key = some k → botValueOk k value = true →
        utf8Len uuid < 64 ∧ (newBot uuid).put k value ts = none) :
      UpdateEntry clk s uuid key value extra op ts (some (registered s uuid, false))
  /-- A bot was registered under a cut uuid, and then not found. -/
  | crash (hnew : Registers clk s uuid key value extra op ts) (k : BotKey)
      (hkey : botKeyOf key = some k) (hval : botValueOk k value = true)
      (hlong : 64 ≤ utf8Len uuid) : UpdateEntry clk s uuid key value extra op ts none
  /-- A new bot took the value. -/
  | new (hnew : Registers clk s uuid key value extra op ts) (k : BotKey)
      (hkey : botKeyOf key = some k) (hval : botValueOk k value = true)
      (hshort : utf8Len uuid < 64) (b : BotConfig)
      (hput : (newBot uuid).put k value ts = some b) :
      UpdateEntry clk s uuid key value extra op ts
        (some (if revokeGuards key then
            revokeAfter { s with bots := (s.bots ++ [newBot uuid]).set s.bots.length b } uuid key
          else { s with bots := (s.bots ++ [newBot uuid]).set s.bots.length b }, true))
  /-- A bot that was there took the value. -/
  | held (k : BotKey) (hkey : botKeyOf key = some k) (hval : botValueOk k value = true) (i : Nat)
      (hfind : botFind s uuid = some i) (b b' : BotConfig) (hget : s.bots[i]? = some b)
      (hput : b.put k value ts = some b') :
      UpdateEntry clk s uuid key value extra op ts
        (some (if revokeGuards key then revokeAfter { s with bots := s.bots.set i b' } uuid key
          else { s with bots := s.bots.set i b' }, true))

/-- The outcome on a bot that is there: the value is stored or refused, and then the revoke rules
follow or do not. -/
private theorem updateBot_held (clk : Clock) {s : HubState} {uuid : Str}
    (key value extra op : Str) (ts : Int) {i : Nat} (hfind : botFind s uuid = some i) :
    ∃ q, updateBot s uuid key value ts = some q ∧
      UpdateEntry clk s uuid key value extra op ts
        (some (if q.2 && revokeGuards key then revokeAfter q.1 uuid key else q.1, q.2)) := by
  have hno : ¬ Registers clk s uuid key value extra op ts := by
    intro h
    rw [h.absent] at hfind
    cases hfind
  have hget : ∃ b, s.bots[i]? = some b := by
    obtain ⟨hlt, -⟩ := List.findIdx?_eq_some_iff_findIdx_eq.mp hfind
    exact ⟨s.bots[i], List.getElem?_eq_getElem hlt⟩
  obtain ⟨b, hget⟩ := hget
  unfold updateBot
  cases hkey : botKeyOf key with
  | none => exact ⟨_, rfl, .same s false rfl rfl hno⟩
  | some k =>
    simp only []
    split
    · exact ⟨_, rfl, .same s false rfl rfl hno⟩
    rename_i hval
    rw [Bool.not_eq_true', Bool.not_eq_false] at hval
    rw [hfind]
    simp only [hget]
    cases hput : b.put k value ts with
    | none => exact ⟨_, rfl, .same s false rfl rfl hno⟩
    | some b' => exact ⟨_, rfl, .held k hkey hval i hfind b b' hget hput⟩

/-- The outcome on a bot that was just registered. A uuid that was cut is not found, and that is
the crash. -/
private theorem updateBot_registered {clk : Clock} {s : HubState} {uuid key value extra op : Str}
    {ts : Int} (hnew : Registers clk s uuid key value extra op ts) :
    UpdateEntry clk s uuid key value extra op ts
      (match updateBot (registered s uuid) uuid key value ts with
        | none => none
        | some (t, ok) =>
            some (if ok && revokeGuards key then revokeAfter t uuid key else t, ok)) := by
  unfold updateBot
  cases hkey : botKeyOf key with
  | none => exact .onlyNew hnew fun k hk => absurd (hkey.symm.trans hk) (by simp)
  | some k =>
    simp only []
    by_cases hval : botValueOk k value = true
    case neg =>
      rw [Bool.not_eq_true] at hval
      simp only [hval, Bool.not_false, if_true]
      refine .onlyNew hnew fun k' hk' hval' => ?_
      cases hkey.symm.trans hk'
      rw [hval] at hval'
      cases hval'
    simp only [hval, Bool.not_true, Bool.false_eq_true, if_false]
    rw [botFind_registered hnew.absent]
    by_cases hlen : utf8Len uuid < 64
    · have hget : (registered s uuid).bots[s.bots.length]? = some (newBot uuid) := by
        simp [registered]
      rw [if_pos hlen]
      simp only [hget]
      cases hput : (newBot uuid).put k value ts with
      | none =>
        refine .onlyNew hnew fun k' hk' _ => ?_
        cases hkey.symm.trans hk'
        exact ⟨hlen, hput⟩
      | some b => exact .new hnew k hkey hval hlen b hput
    · rw [if_neg hlen]
      exact .crash hnew k hkey hval (Nat.le_of_not_lt hlen)

/-- What a line about a bot can do: nothing, or a value on a bot that is there, or on one made for
it. The cases follow the checks of the function, in their order. -/
theorem updateEntry_outcome (clk : Clock) (s : HubState) (uuid key value extra op : Str)
    (ts : Int) :
    UpdateEntry clk s uuid key value extra op ts
      (updateEntry clk s uuid key value extra op ts) := by
  unfold updateEntry
  by_cases hrefused : updateRefused clk s uuid key value ts = true
  · rw [if_pos hrefused]
    refine .same s false rfl rfl fun h => ?_
    rw [h.allowed] at hrefused
    cases hrefused
  rw [if_neg hrefused]
  rw [Bool.not_eq_true] at hrefused
  unfold updateEntryInner
  by_cases hguard : (!updateFieldsOk uuid key value extra op || tsAhead clk ts) = true
  · rw [if_pos hguard]
    refine .same s false rfl rfl fun h => ?_
    rw [h.fields, h.now] at hguard
    cases hguard
  rw [if_neg hguard]
  simp only [Bool.or_eq_true, Bool.not_eq_true', not_or, Bool.not_eq_false, Bool.not_eq_true]
    at hguard
  obtain ⟨hfields, hnow⟩ := hguard
  have hglobal : ∀ k, globalKeyOf key = some k →
    ¬ Registers clk s uuid key value extra op ts := by
    intro k hk h
    rw [h.perBot] at hk
    cases hk
  -- a global key is never a key the revoke rules name
  have hplain : ∀ k, globalKeyOf key = some k → revokeGuards key = false := by
    intro k hk
    rw [name_of_globalKeyOf hk]
    cases k <;> decide
  -- a write to a global table leaves bots and revoke list alone
  have hstore : ∀ k, globalKeyOf key = some k → ∀ p : HubState × Bool, offStore p.1 = offStore s →
      UpdateEntry clk s uuid key value extra op ts
        (some (if p.2 && revokeGuards key then revokeAfter p.1 uuid key else p.1, p.2)) := by
    intro k hk p hp
    rw [hplain k hk, Bool.and_false]
    have hbots : (offStore p.1).bots = (offStore s).bots := by rw [hp]
    have hrevoked : (offStore p.1).revoked = (offStore s).revoked := by rw [hp]
    exact .same p.1 p.2 hbots hrevoked (hglobal k hk)
  cases hk : globalKeyOf key with
  | some k =>
    have hrefuse := hstore k hk (s, false) rfl
    cases k with
    | c => exact hstore _ hk _ (offStore_updateGlobalEntry clk s .c value extra op ts)
    | m => exact hstore _ hk _ (offStore_updateGlobalEntry clk s .m value extra op ts)
    | o => exact hstore _ hk _ (offStore_updateGlobalEntry clk s .o value extra op ts)
    | _ => exact hrefuse
  | none =>
    simp only []
    -- a reserved uuid is refused
    by_cases hres : uuidReserved uuid = true
    · rw [if_pos hres]
      refine .same s false rfl rfl fun h => ?_
      rw [h.named] at hres
      cases hres
    rw [if_neg hres]
    rw [Bool.not_eq_true] at hres
    unfold getOrCreateBot
    cases hfind : botFind s uuid with
    -- the bot is there
    | some i =>
      obtain ⟨q, hq, hout⟩ := updateBot_held clk key value extra op ts hfind
      simp only [Option.isSome_some, if_true, hq]
      exact hout
    -- the bot is not there: it is made, if there is room
    | none =>
      by_cases hroom : s.bots.length < maxBots
      · simp only [Option.isSome_none, Bool.false_eq_true, if_false, if_pos hroom]
        exact updateBot_registered ⟨hrefused, hfields, hnow, hk, hres, hfind, hroom⟩
      · simp only [Option.isSome_none, Bool.false_eq_true, if_false, if_neg hroom]
        exact .same s false rfl rfl fun h => hroom h.room

end IrcHub.Proofs
