import IrcHub.Lib.Lww
import IrcHub.Proofs.Bots.Update

/-!
# `IrcHub.Proofs.Bots.Revoked`: a revoked bot and its record

A revoked bot and its record. No live record of a revoked bot (`NoneRevokedLive`) is what the
store is for. A step keeps it exactly when it meets `RevokeSafe`: a registration of a revoked uuid
must be the uuid's own delete entry (or crash the hub), and an entry merged into the revoke list
must not name a live bot.

- `isRevoked_of_merge`, `isRevoked_merge`: what a merge does to the list
- `UuidsUnique`: no two records share a uuid that fits. It makes the record that is found the only
  one
- `updateSafe_new`, `noneRevokedLive_held`: an update on a bot that was just registered, and on
  one that is there
- `updateEntry_noneRevokedLive`, `revokeMerge_noneRevokedLive`: the exact conditions for the two
  writes
- `Settled.run` and `revokeSafe_of_quiet`: the two directions for one step
- `revoked_never_live`: both for every run from the empty hub

A full revoke list may drop an entry, and then the bot is not revoked any more. That is no
exception to the statement, which is about the list as it is.
-/

set_option autoImplicit false

namespace IrcHub.Proofs

open IrcHub.Hub Str
open String (utf8Len)

/-! ### The revoke list -/

/-- A uuid is revoked when an entry of the list has it. -/
theorem isRevoked_iff {s : HubState} {u : Str} :
    isRevoked s u = true ↔ ∃ r ∈ s.revoked, r.uuid = u := by
  simp [isRevoked, revokeFind]

/-- So it depends on the list alone. -/
theorem isRevoked_congr {s t : HubState} (h : t.revoked = s.revoked) (u : Str) :
    isRevoked t u = isRevoked s u := by
  rw [isRevoked, isRevoked, revokeFind, revokeFind, h]

/-- A revocation that is merged touches no bot. -/
@[simp] theorem revokeMerge_bots (s : HubState) (inp : Revoked) :
    (revokeMerge s inp).1.bots = s.bots := by
  unfold revokeMerge revokeNew
  split
  · split
    · rfl
    split
    · split <;> rfl
    · rfl
  · split <;> rfl

/-- A merge adds its own uuid and no other. It may drop one, when the list is full. -/
theorem isRevoked_of_merge {s : HubState} {inp : Revoked} {u : Str}
    (h : isRevoked (revokeMerge s inp).1 u = true) :
    isRevoked s u = true ∨
      (u = inp.uuid ∧ isRevoked s inp.uuid = false ∧ revokeRefused s inp = false) := by
  rw [isRevoked_iff] at h ⊢
  obtain ⟨r, hr, rfl⟩ := h
  unfold revokeMerge at hr
  cases hfind : revokeFind s inp.uuid with
  | none =>
    rw [hfind] at hr
    have hnot : isRevoked s inp.uuid = false := by rw [isRevoked, hfind]; rfl
    simp only [] at hr
    unfold revokeNew at hr
    split at hr
    · exact .inl ⟨r, hr, rfl⟩
    rename_i hroom
    rw [Bool.not_eq_true] at hroom
    split at hr
    · split at hr
      · exact .inl ⟨r, hr, rfl⟩
      · rcases List.mem_append.mp hr with hr | hr
        · exact .inl ⟨r, Table.mem_of_mem_swapRemove hr, rfl⟩
        · rw [List.mem_singleton] at hr
          exact .inr ⟨by rw [hr], hnot, hroom⟩
    · rcases List.mem_append.mp hr with hr | hr
      · exact .inl ⟨r, hr, rfl⟩
      · rw [List.mem_singleton] at hr
        exact .inr ⟨by rw [hr], hnot, hroom⟩
  | some i =>
    rw [hfind] at hr
    simp only [] at hr
    cases hget : s.revoked[i]? with
    | none =>
      rw [hget] at hr
      exact .inl ⟨r, hr, rfl⟩
    | some r0 =>
      rw [hget] at hr
      rcases List.mem_or_eq_of_mem_set hr with hr | rfl
      · exact .inl ⟨r, hr, rfl⟩
      · exact .inl ⟨r0, List.mem_of_getElem? hget, rfl⟩

/-- An entry that is not on the list and not refused is on it after the merge. -/
theorem isRevoked_merge {s : HubState} {inp : Revoked} (hnot : isRevoked s inp.uuid = false)
    (hroom : revokeRefused s inp = false) : isRevoked (revokeMerge s inp).1 inp.uuid = true := by
  have hfind : revokeFind s inp.uuid = none := by simpa [isRevoked] using hnot
  rw [isRevoked_iff]
  refine ⟨inp, ?_, rfl⟩
  unfold revokeMerge
  rw [hfind]
  simp only []
  unfold revokeNew
  rw [if_neg (by rw [hroom]; decide)]
  split
  · rename_i hfull
    cases hold : oldestRevoked s.revoked with
    | none =>
      rw [revokeRefused, hold, decide_eq_true hfull] at hroom
      cases hroom
    | some p => simp
  · simp

/-- An entry that is marked as wiped stays on the list, and no other comes. -/
theorem isRevoked_markWiped (s : HubState) (uuid u : Str) (now : Int) :
    isRevoked (revokeMarkWiped s uuid now) u = isRevoked s u := by
  rw [Bool.eq_iff_iff, isRevoked_iff, isRevoked_iff]
  unfold revokeMarkWiped
  split
  · rfl
  · rename_i i hi
    simp only [List.modify_eq_set_getElem?]
    cases hget : s.revoked[i]? with
    | none => simp
    | some r =>
      simp only [Option.map_eq_map, Option.map_some, Option.getD_some]
      constructor
      · rintro ⟨r', hr', rfl⟩
        rcases List.mem_or_eq_of_mem_set hr' with hr' | rfl
        · exact ⟨r', hr', rfl⟩
        · exact ⟨r, List.mem_of_getElem? hget, rfl⟩
      · rintro ⟨r', hr', rfl⟩
        obtain ⟨j, hj⟩ := List.mem_iff_getElem?.mp hr'
        by_cases hij : i = j
        · subst hij
          cases hget.symm.trans hj
          refine ⟨_, List.mem_of_getElem? (i := i) (List.getElem?_set_self ?_), rfl⟩
          exact (List.getElem?_eq_some_iff.mp hget).1
        · exact ⟨r', List.mem_of_getElem? ((List.getElem?_set_ne hij).trans hj), rfl⟩

/-! ### The records stay in place -/

/-- The uuids of the bots, in table order. -/
def botUuids (s : HubState) : List Str := s.bots.map (·.uuid)

/-- No bot is found when no bot has the uuid. -/
theorem botFind_eq_none_iff {s : HubState} {uuid : Str} :
    botFind s uuid = none ↔ uuid ∉ botUuids s := by
  simp [botFind, botUuids]

/-- A bot whose values change keeps its uuid. -/
theorem botUuids_set {s : HubState} {i : Nat} {b b' : BotConfig} (hget : s.bots[i]? = some b)
    (hu : b'.uuid = b.uuid) : botUuids { s with bots := s.bots.set i b' } = botUuids s := by
  show (s.bots.set i b').map (·.uuid) = s.bots.map (·.uuid)
  rw [List.map_set, hu]
  exact Table.set_of_getElem? (by rw [List.getElem?_map, hget]; rfl)

/-- A bot that goes on the list is not touched by that. -/
theorem revokeFromBot_bots (s : HubState) (b : BotConfig) :
    (revokeFromBot s b).1.bots = s.bots := by
  unfold revokeFromBot
  split
  · rfl
  simp only []
  split
  · rfl
  · exact revokeMerge_bots _ _

/-- Nor are the uuids changed by a revocation that is brought up to date. -/
theorem botUuids_revokeAfter (s : HubState) (uuid key : Str) :
    botUuids (revokeAfter s uuid key) = botUuids s := by
  unfold revokeAfter
  split
  · rfl
  rename_i i hi
  simp only []
  have hset : botUuids (if isRevoked s uuid then
      { s with bots := s.bots.modify i fun b => { b with isActive := false } } else s)
      = botUuids s := by
    split
    · show (s.bots.modify i _).map (·.uuid) = s.bots.map (·.uuid)
      rw [List.modify_eq_set_getElem?]
      cases hget : s.bots[i]? with
      | none => rfl
      | some b => exact botUuids_set (s := s) hget rfl
    · rfl
  split
  · exact hset
  split
  · rw [botUuids, revokeFromBot_bots]
    exact hset
  · exact hset

/-- An update keeps the records in place, or adds one at the end. -/
theorem botUuids_updateEntry {clk : Clock} {s : HubState}
    {uuid key value extra op : Str} {ts : Int} {q : HubState × Bool}
    (h : updateEntry clk s uuid key value extra op ts = some q) :
    botUuids q.1 = botUuids s ∨
      (uuid ∉ botUuids s ∧ botUuids q.1 = botUuids s ++ [trunc uuid 64]) := by
  have hout := updateEntry_outcome clk s uuid key value extra op ts
  rw [h] at hout
  generalize hq : some q = o at hout
  cases hout with
  | same t ok hbots hrevoked hno =>
    cases hq
    exact .inl (by rw [botUuids, hbots, botUuids])
  | onlyNew hnew hval =>
    cases hq
    exact .inr ⟨botFind_eq_none_iff.mp hnew.absent, by simp [botUuids, registered, newBot]⟩
  | crash hnew k hkey hval hlong => cases hq
  | new hnew k hkey hval hshort b hput =>
    have hset : botUuids { s with bots := (s.bots ++ [newBot uuid]).set s.bots.length b }
        = botUuids s ++ [trunc uuid 64] := by
      simp [botUuids, (put_spec hput).1, newBot]
    cases hq
    refine .inr ⟨botFind_eq_none_iff.mp hnew.absent, ?_⟩
    split
    · rw [botUuids_revokeAfter, hset]
    · exact hset
  | held k hkey hval i hfind b b' hget hput =>
    have hset := botUuids_set hget (put_spec hput).1
    cases hq
    refine .inl ?_
    split
    · rw [botUuids_revokeAfter, hset]
    · exact hset

/-- Two bots do not share a uuid. A uuid that was cut to fit may be there twice; it has 60 bytes
or more, a well-formed one 36. -/
def UuidsUnique (us : List Str) : Prop := us.Pairwise fun u v => utf8Len u < 60 → u ≠ v

/-- A bot that is not there is registered. -/
theorem UuidsUnique.append {s : HubState} {uuid : Str} (hs : UuidsUnique (botUuids s))
    (hno : botFind s uuid = none) : UuidsUnique (botUuids s ++ [trunc uuid 64]) := by
  rw [botFind_eq_none_iff] at hno
  rw [UuidsUnique, List.pairwise_append]
  refine ⟨hs, List.pairwise_singleton _ _, ?_⟩
  intro u hu v hv hshort huv
  rw [List.mem_singleton] at hv
  subst hv
  by_cases hlen : utf8Len uuid < 64
  · rw [trunc_of_lt hlen] at huv
    exact hno (huv ▸ hu)
  · have hcut : 63 ≤ utf8Len (trunc uuid 64) + 3 :=
      le_utf8Len_takeBytes (Nat.le_of_lt (Nat.lt_of_lt_of_le (by decide) (Nat.le_of_not_lt hlen)))
    rw [huv] at hshort
    omega

/-- A line about a bot adds a bot only under a new uuid. -/
theorem UuidsUnique.updateEntry {clk : Clock} {s : HubState}
    {uuid key value extra op : Str} {ts : Int} {q : HubState × Bool}
    (hs : UuidsUnique (botUuids s)) (h : updateEntry clk s uuid key value extra op ts = some q) :
    UuidsUnique (botUuids q.1) := by
  rcases botUuids_updateEntry h with heq | ⟨hno, heq⟩
  · rwa [heq]
  rw [heq]
  exact hs.append (botFind_eq_none_iff.mpr hno)

/-- Positions of one well-formed uuid are the same. -/
theorem UuidsUnique.index_eq {s : HubState} (hs : UuidsUnique (botUuids s)) {i j : Nat}
    {a b : BotConfig} (hi : s.bots[i]? = some a) (hj : s.bots[j]? = some b)
    (hshort : utf8Len a.uuid < 60) (hab : a.uuid = b.uuid) : i = j := by
  rw [UuidsUnique, botUuids, List.pairwise_map, List.pairwise_iff_getElem] at hs
  obtain ⟨hli, rfl⟩ := List.getElem?_eq_some_iff.mp hi
  obtain ⟨hlj, rfl⟩ := List.getElem?_eq_some_iff.mp hj
  rcases Nat.lt_trichotomy i j with hlt | heq | hlt
  · exact absurd hab (hs i j hli hlj hlt hshort)
  · exact heq
  · exact absurd hab.symm (hs j i hlj hli hlt (hab ▸ hshort))

/-- A uuid takes 36 bytes. -/
theorem utf8Len_of_uuidShape {u : Str} (h : uuidShape u = true) : utf8Len u = 36 := by
  simp only [uuidShape, Bool.and_eq_true, beq_iff_eq, List.all_eq_true] at h
  obtain ⟨hlen, hall⟩ := h
  rw [utf8Len_eq_length, hlen]
  intro c hc
  obtain ⟨i, hi⟩ := List.mem_iff_getElem?.mp hc
  have := hall (c, i) (List.mem_zipIdx_iff_getElem?.mpr hi)
  split at this
  · have hdash : c = '-' := beq_iff_eq.mp this
    rw [hdash]
    decide
  · simp only [isHexDigit, Char.isDigit, Bool.or_eq_true, Bool.and_eq_true, decide_eq_true_eq]
      at this
    rcases this with (⟨-, hle⟩ | ⟨-, hle⟩) | ⟨-, hle⟩
    · exact Nat.lt_of_le_of_lt hle (by decide)
    · exact Nat.lt_of_le_of_lt hle (by decide)
    · exact Nat.lt_of_le_of_lt hle (by decide)

/-! ### One step -/

/-- No record of a revoked bot is live. -/
def NoneRevokedLive (s : HubState) : Prop :=
  ∀ b ∈ s.bots, isRevoked s b.uuid = true → b.isActive = false

/-- The revocation of a bot has the bot's uuid. -/
theorem revokeOf_uuid (b : BotConfig) : (revokeOf b).1.uuid = b.uuid := by
  unfold revokeOf
  refine List.foldlRecOn
    (motive := fun p : Revoked × Bool => p.1.uuid = b.uuid) b.entries _ rfl ?_
  intro p hp e _
  split
  · split
    · exact hp
    · exact hp
  all_goals exact hp

/-- A deleted bot joins the list without leaving a live record of its uuid. `hs` makes its record
the only one. -/
theorem noneRevokedLive_fromBot {s : HubState} (hs : UuidsUnique (botUuids s))
    (hq : NoneRevokedLive s) {i : Nat} {b : BotConfig} (hget : s.bots[i]? = some b)
    (hdead : b.isActive = false) : NoneRevokedLive (revokeFromBot s b).1 := by
  intro c hc hrev
  rw [revokeFromBot_bots] at hc
  unfold revokeFromBot at hrev
  split at hrev
  · exact hq c hc hrev
  rename_i hguard
  simp only [hdead, Bool.false_or, Bool.not_eq_true', Bool.not_eq_false] at hguard
  simp only [] at hrev
  split at hrev
  · exact hq c hc hrev
  rcases isRevoked_of_merge hrev with hold | ⟨hu, -, -⟩
  · exact hq c hc hold
  · rw [revokeOf_uuid] at hu
    obtain ⟨j, hj⟩ := List.mem_iff_getElem?.mp hc
    have hshort : utf8Len b.uuid < 60 := by
      rw [utf8Len_of_uuidShape hguard]
      decide
    cases hs.index_eq hget hj hshort hu.symm
    cases hget.symm.trans hj
    exact hdead

/-- After the revoke rules no record of a revoked bot is live, if none was among the others. The
bot itself may be live and revoked before: the rules then put it out of use. -/
theorem noneRevokedLive_revokeAfter {s : HubState} (hs : UuidsUnique (botUuids s))
    {uuid key : Str} {i : Nat} {b : BotConfig} (hfind : botFind s uuid = some i)
    (hget : s.bots[i]? = some b) (hu : b.uuid = uuid)
    (hothers : ∀ j c, j ≠ i → s.bots[j]? = some c → isRevoked s c.uuid = true →
    c.isActive = false) :
    NoneRevokedLive (revokeAfter s uuid key) := by
  unfold revokeAfter
  rw [hfind]
  simp only []
  -- the bot is revoked: it is put out of use, and then none is live
  by_cases hrev : isRevoked s uuid = true
  · have hlt : i < s.bots.length := (List.getElem?_eq_some_iff.mp hget).1
    have hmod : s.bots.modify i (fun b => { b with isActive := false })
        = s.bots.set i { b with isActive := false } := by
      rw [List.modify_eq_set_getElem?, hget]
      rfl
    have hat : (s.bots.set i { b with isActive := false })[i]? = some
      { b with isActive := false } :=
      List.getElem?_set_self hlt
    have hquiet : NoneRevokedLive
      { s with bots := s.bots.set i { b with isActive := false } } := by
      intro c hc hcrev
      obtain ⟨j, hj⟩ := List.mem_iff_getElem?.mp hc
      by_cases hji : j = i
      · subst hji
        cases hat.symm.trans hj
        rfl
      · exact hothers j c hji ((List.getElem?_set_ne (Ne.symm hji)).symm.trans hj) hcrev
    have hsame : botUuids { s with bots := s.bots.set i { b with isActive := false } }
      = botUuids s :=
      botUuids_set hget rfl
    have huniq : UuidsUnique
      (botUuids { s with bots := s.bots.set i { b with isActive := false } }) := by
      rwa [hsame]
    rw [if_pos hrev, hmod]
    simp only [hat]
    split
    · exact noneRevokedLive_fromBot huniq hquiet hat rfl
    · exact hquiet
  -- it is not revoked: none was live before
  · have hquiet : NoneRevokedLive s := by
      intro c hc hcrev
      obtain ⟨j, hj⟩ := List.mem_iff_getElem?.mp hc
      by_cases hji : j = i
      · subst hji
        cases hget.symm.trans hj
        rw [hu] at hcrev
        exact absurd hcrev hrev
      · exact hothers j c hji hj hcrev
    rw [if_neg hrev]
    simp only [hget]
    split
    -- it is dead, and joins the list if it can
    · rename_i hdead
      simp only [Bool.and_eq_true, Bool.not_eq_true'] at hdead
      exact noneRevokedLive_fromBot hs hquiet hget hdead.1
    · exact hquiet

/-- The update does not bring a revoked bot back: if it registers one, it is the delete entry of
that bot, or the uuid is too long and the hub crashes. -/
def UpdateSafe (clk : Clock) (s : HubState) (uuid key value extra op : Str) (ts : Int) : Prop :=
  Registers clk s uuid key value extra op ts → isRevoked s (trunc uuid 64) = true →
    ∃ k, botKeyOf key = some k ∧ botValueOk k value = true ∧ (k = .d ∨ 64 ≤ utf8Len uuid)

/-- A live record is added: it must not be that of a revoked bot, and nothing else is asked. -/
theorem noneRevokedLive_append {s : HubState} (hq : NoneRevokedLive s) {b : BotConfig}
    (hlive : b.isActive = true) :
    NoneRevokedLive { s with bots := s.bots ++ [b] } ↔ isRevoked s b.uuid = false := by
  constructor
  · intro h
    rw [← Bool.not_eq_true]
    intro hrev
    have := h b (List.mem_append_right _ (List.mem_singleton.mpr rfl)) hrev
    rw [hlive] at this
    cases this
  · intro hno c hc hrev
    rcases List.mem_append.mp hc with hc | hc
    · exact hq c hc hrev
    · rw [List.mem_singleton] at hc
      subst hc
      have hrev' : isRevoked s c.uuid = true := hrev
      rw [hno] at hrev'
      cases hrev'

/-- A record at its place takes a value that is not `d`. -/
theorem noneRevokedLive_set {s : HubState} (hq : NoneRevokedLive s) {i : Nat} {b b' : BotConfig}
    (hget : s.bots[i]? = some b) (hu : b'.uuid = b.uuid) (hact : b'.isActive = b.isActive) :
    NoneRevokedLive { s with bots := s.bots.set i b' } := by
  intro c hc hrev
  rcases List.mem_or_eq_of_mem_set hc with hc | rfl
  · exact hq c hc hrev
  · rw [hact]
    rw [hu] at hrev
    exact hq b (List.mem_of_getElem? hget) hrev

/-- A new bot with a value of a key the revoke rules do not name is live. -/
private theorem new_unguarded {uuid key value : Str} {ts : Int} {k : BotKey} {b : BotConfig}
    (hkey : botKeyOf key = some k) (hguard : revokeGuards key = false)
    (hput : (newBot uuid).put k value ts = some b) : k = .hl ∧ b.isActive = true := by
  rw [revokeGuards_of_botKeyOf hkey, decide_eq_false_iff_not, not_not] at hguard
  subst hguard
  exact ⟨rfl, (put_spec hput).2 (by decide)⟩

/-- A new bot took a value: no live record of a revoked bot exactly if the update is safe. The
keys that have the revoke rules follow them put the record out of use; the others leave it
live. -/
private theorem updateSafe_new {clk : Clock} {s : HubState}
    {uuid key value extra op : Str} {ts : Int} (hs : UuidsUnique (botUuids s))
    (hq : NoneRevokedLive s) (hnew : Registers clk s uuid key value extra op ts) {k : BotKey}
    (hkey : botKeyOf key = some k) (hval : botValueOk k value = true) (hshort : utf8Len uuid < 64)
    {b : BotConfig} (hput : (newBot uuid).put k value ts = some b) :
    NoneRevokedLive (if revokeGuards key
      then revokeAfter { s with bots := s.bots ++ [b] } uuid key
      else { s with bots := s.bots ++ [b] }) ↔ UpdateSafe clk s uuid key value extra op ts := by
  have htrunc : trunc uuid 64 = uuid := trunc_of_lt hshort
  have hbu : b.uuid = uuid := (put_spec hput).1.trans htrunc
  by_cases hguard : revokeGuards key = true
  · -- a guarded key of a revoked bot that is not there can only be `d`
    have hsafe : UpdateSafe clk s uuid key value extra op ts := by
      intro _ hrev
      rw [htrunc] at hrev
      refine ⟨k, hkey, hval, .inl ?_⟩
      by_contra hk
      have hname : (key != BotKey.d.name) = true := by
        rw [name_of_botKeyOf hkey, bne_iff_ne]
        cases k <;> first | exact absurd rfl hk | decide
      have hallowed := hnew.allowed
      rw [updateRefused, hguard, hrev, hname, hnew.absent] at hallowed
      cases hallowed
    refine iff_of_true ?_ hsafe
    -- the uuids are still distinct, and the new bot is the last one
    have huniq : UuidsUnique (botUuids { s with bots := s.bots ++ [b] }) := by
      have happ : botUuids { s with bots := s.bots ++ [b] } = botUuids s ++ [trunc uuid 64] := by
        simp [botUuids, hbu, htrunc]
      rw [happ]
      exact hs.append hnew.absent
    have hfind : botFind { s with bots := s.bots ++ [b] } uuid = some s.bots.length := by
      have := hnew.absent
      unfold botFind at this ⊢
      exact Table.findIdx?_append_of_none this (beq_iff_eq.mpr hbu)
    rw [if_pos hguard]
    refine noneRevokedLive_revokeAfter huniq hfind (by simp) hbu ?_
    intro j c hj hget hrev
    have hlt : j < s.bots.length := by
      have := (List.getElem?_eq_some_iff.mp hget).1
      simp only [List.length_append, List.length_singleton] at this
      omega
    rw [List.getElem?_append_left hlt] at hget
    exact hq c (List.mem_of_getElem? hget) hrev
  -- the key has no rules: the new bot stays live
  · rw [if_neg hguard]
    rw [Bool.not_eq_true] at hguard
    obtain ⟨rfl, hlive⟩ := new_unguarded hkey hguard hput
    rw [noneRevokedLive_append hq hlive, hbu]
    constructor
    · intro hno _ hrev
      rw [htrunc, hno] at hrev
      cases hrev
    · intro hsafe
      rw [← Bool.not_eq_true]
      intro hrev
      obtain ⟨k, hkey', -, hk⟩ := hsafe hnew (by rw [htrunc]; exact hrev)
      cases hkey.symm.trans hkey'
      rcases hk with hk | hlong
      · cases hk
      · omega

/-- A bot that was there took a value. Either the revoke rules follow, or the key cannot make it
live. -/
private theorem noneRevokedLive_held {s : HubState} {uuid key value : Str} {ts : Int}
    (hs : UuidsUnique (botUuids s)) (hq : NoneRevokedLive s) {k : BotKey}
    (hkey : botKeyOf key = some k) {i : Nat} (hfind : botFind s uuid = some i) {b b' : BotConfig}
    (hget : s.bots[i]? = some b) (hput : b.put k value ts = some b') :
    NoneRevokedLive (if revokeGuards key
      then revokeAfter { s with bots := s.bots.set i b' } uuid key
      else { s with bots := s.bots.set i b' }) := by
  obtain ⟨hu, hact⟩ := put_spec hput
  by_cases hguard : revokeGuards key = true
  · have hsame := botUuids_set hget hu
    have hfind' : botFind { s with bots := s.bots.set i b' } uuid = some i := by
      unfold botFind at hfind ⊢
      show (s.bots.set i b').findIdx? (fun c => c.uuid == uuid) = some i
      rw [Table.findIdx?_set_of_eq hget (by rw [hu]), hfind]
    have hbu : b.uuid = uuid := by
      have := List.find?_some (Table.find?_of_findIdx? hfind hget)
      exact beq_iff_eq.mp this
    rw [if_pos hguard]
    refine noneRevokedLive_revokeAfter (by rwa [hsame]) hfind'
      (List.getElem?_set_self (List.getElem?_eq_some_iff.mp hget).1) (hu.trans hbu) ?_
    intro j c hj hgetj hrev
    rw [List.getElem?_set_ne (Ne.symm hj)] at hgetj
    exact hq c (List.mem_of_getElem? hgetj) hrev
  · rw [if_neg hguard]
    rw [Bool.not_eq_true, revokeGuards_of_botKeyOf hkey, decide_eq_false_iff_not, not_not]
      at hguard
    subst hguard
    exact noneRevokedLive_set hq hget hu (hact (by decide))

/-- The exact condition for an update. The cases are the outcomes of `UpdateEntry`. -/
theorem updateEntry_noneRevokedLive {s : HubState} (hs : UuidsUnique (botUuids s))
    (hq : NoneRevokedLive s) (clk : Clock) (uuid key value extra op : Str) (ts : Int) :
    (∀ q, updateEntry clk s uuid key value extra op ts = some q → NoneRevokedLive q.1) ↔
      UpdateSafe clk s uuid key value extra op ts := by
  have hout := updateEntry_outcome clk s uuid key value extra op ts
  generalize updateEntry clk s uuid key value extra op ts = o at hout ⊢
  cases hout with
  | same t ok hbots hrevoked hno =>
    refine ⟨fun _ hnew => absurd hnew hno, fun _ q hq' => ?_⟩
    cases hq'
    intro b hb hrev
    rw [hbots] at hb
    rw [isRevoked_congr hrevoked] at hrev
    exact hq b hb hrev
  | onlyNew hnew hval =>
    have happ := noneRevokedLive_append hq (b := newBot uuid) rfl
    constructor
    · intro h _ hrev
      have := happ.mp (h _ rfl)
      rw [show (newBot uuid).uuid = trunc uuid 64 from rfl, hrev] at this
      cases this
    · intro hsafe q hq'
      cases hq'
      refine happ.mpr ?_
      rw [← Bool.not_eq_true]
      intro hrev
      obtain ⟨k, hkey, hok, hk⟩ := hsafe hnew hrev
      obtain ⟨hshort, hput⟩ := hval k hkey hok
      rcases hk with rfl | hlong
      · have := put_newBot_d uuid value ts
        rw [hput] at this
        cases this
      · omega
  | crash hnew k hkey hval hlong =>
    exact ⟨fun _ _ _ => ⟨k, hkey, hval, .inr hlong⟩, fun _ q hq' => by cases hq'⟩
  | new hnew k hkey hval hshort b hput =>
    have hset : (s.bots ++ [newBot uuid]).set s.bots.length b = s.bots ++ [b] := by simp
    rw [hset, ← updateSafe_new hs hq hnew hkey hval hshort hput]
    exact ⟨fun h => h _ rfl, fun h q hq' => by cases hq'; exact h⟩
  | held k hkey hval i hfind b b' hget hput =>
    have hno : ¬ Registers clk s uuid key value extra op ts := by
      intro h
      rw [h.absent] at hfind
      cases hfind
    refine ⟨fun _ hnew => absurd hnew hno, fun _ q hq' => ?_⟩
    cases hq'
    exact noneRevokedLive_held hs hq hkey hfind hget hput

/-- The exact condition for a merge into the revoke list: an entry that is new there and is taken
must not name a live bot. -/
theorem revokeMerge_noneRevokedLive {s : HubState} (hq : NoneRevokedLive s) (inp : Revoked) :
    NoneRevokedLive (revokeMerge s inp).1 ↔
      (isRevoked s inp.uuid = false → revokeRefused s inp = false →
        ∀ b ∈ s.bots, b.uuid = inp.uuid → b.isActive = false) := by
  constructor
  · intro h hnot hroom b hb hu
    refine h b (by rwa [revokeMerge_bots]) ?_
    rw [hu]
    exact isRevoked_merge hnot hroom
  · intro h b hb hrev
    rw [revokeMerge_bots] at hb
    rcases isRevoked_of_merge hrev with hold | ⟨hu, hnot, hroom⟩
    · exact hq b hb hold
    · exact h hnot hroom b hb hu

/-! ### Every step -/

/-- A step that brings no revoked bot back. -/
def RevokeSafe (clk : Clock) (s : HubState) : BotOp → Prop
  | .update uuid key value extra op ts => UpdateSafe clk s uuid key value extra op ts
  | .merge inp =>
    isRevoked s inp.uuid = false → revokeRefused s inp = false →
      ∀ b ∈ s.bots, b.uuid = inp.uuid → b.isActive = false
  | _ => True

/-- An update of a bot that is there is safe. -/
theorem updateSafe_of_held {s : HubState} {uuid : Str} (h : uuid ∈ botUuids s) (clk : Clock)
    (key value extra op : Str) (ts : Int) : UpdateSafe clk s uuid key value extra op ts :=
  fun hnew => absurd h (botFind_eq_none_iff.mp hnew.absent)

/-- What the bots satisfy at every moment of a safe run. -/
structure Settled (s : HubState) : Prop where
  unique : UuidsUnique (botUuids s)
  quiet : NoneRevokedLive s

/-- An update of a bot that is there keeps the bots settled and the bot in place. -/
theorem Settled.updateHeld {s : HubState} (hs : Settled s) {uuid : Str}
    (hheld : uuid ∈ botUuids s) {clk : Clock} {key value extra op : Str} {ts : Int}
    {q : HubState × Bool} (h : updateEntry clk s uuid key value extra op ts = some q) :
    Settled q.1 ∧ uuid ∈ botUuids q.1 := by
  have hquiet := (updateEntry_noneRevokedLive hs.unique hs.quiet clk uuid key value
    extra op ts).mpr (updateSafe_of_held hheld clk key value extra op ts) q h
  refine ⟨⟨hs.unique.updateEntry h, hquiet⟩, ?_⟩
  rcases botUuids_updateEntry h with heq | ⟨-, heq⟩
  · rwa [heq]
  · rw [heq]
    exact List.mem_append_left _ hheld

/-- A new registration starts from a uuid that is neither revoked nor there. -/
theorem Settled.createBot {clk : Clock} {s t : HubState} (hs : Settled s) {nick uuid pubKey : Str}
    (h : createBot clk s nick uuid pubKey = some t) : Settled t := by
  unfold Hub.createBot at h
  split at h
  · cases h
    exact hs
  rename_i hguard
  simp only [Bool.or_eq_true, Bool.not_eq_true', not_or, Bool.not_eq_false, Bool.not_eq_true,
    Option.isSome_eq_false_iff, Option.isNone_iff_eq_none] at hguard
  obtain ⟨⟨⟨hshape, -⟩, hrev⟩, habsent⟩ := hguard
  unfold addBotMemory at h
  split at h
  · cases h
    exact hs
  have htrunc : trunc uuid 64 = uuid :=
    trunc_of_lt (by rw [utf8Len_of_uuidShape hshape]; decide)
  have huuids : botUuids (registered s uuid) = botUuids s ++ [trunc uuid 64] := by
    simp [botUuids, registered, newBot]
  have hnew : Settled (registered s uuid) := by
    refine ⟨?_, (noneRevokedLive_append hs.quiet (b := newBot uuid) rfl).mpr ?_⟩
    · rw [huuids]
      exact hs.unique.append habsent
    · rw [show (newBot uuid).uuid = trunc uuid 64 from rfl, htrunc]
      exact hrev
  have hheld : uuid ∈ botUuids (registered s uuid) := by
    rw [huuids, htrunc]
    exact List.mem_append_right _ (List.mem_singleton.mpr rfl)
  simp only [Option.bind_eq_bind, Option.bind_eq_some_iff] at h
  obtain ⟨p, hp, q, hq, r, hr, hrt⟩ := h
  obtain ⟨h1, hheld1⟩ := hnew.updateHeld hheld hp
  obtain ⟨h2, hheld2⟩ := h1.updateHeld hheld1 hq
  cases hrt
  exact (h2.updateHeld hheld2 hr).1

/-- Dropping records keeps the bots settled. -/
theorem Settled.sublist {s t : HubState} (hs : Settled s) (hbots : t.bots.Sublist s.bots)
    (hrevoked : t.revoked = s.revoked) : Settled t := by
  refine ⟨List.Pairwise.sublist (hbots.map _) hs.unique, ?_⟩
  intro b hb hrev
  rw [isRevoked_congr hrevoked] at hrev
  exact hs.quiet b (hbots.subset hb) hrev

/-- A purge takes bots out. -/
theorem Settled.executePurge {s : HubState} (hs : Settled s) (clk : Clock) (cutoff : Int) :
    Settled (executePurge clk s cutoff) := by
  obtain ⟨hbots, hrevoked⟩ := executePurge_bots clk s cutoff
  refine hs.sublist ?_ hrevoked
  rw [hbots]
  exact (List.take_sublist _ _).trans List.filter_sublist

/-- A revocation that is marked touches no bot. -/
theorem revokeMarkWiped_bots (s : HubState) (uuid : Str) (now : Int) :
    (revokeMarkWiped s uuid now).bots = s.bots := by
  unfold revokeMarkWiped
  split <;> rfl

/-- And revokes nobody. -/
theorem Settled.markWiped {s : HubState} (hs : Settled s) (uuid : Str) (now : Int) :
    Settled (revokeMarkWiped s uuid now) := by
  refine ⟨?_, ?_⟩
  · rw [botUuids, revokeMarkWiped_bots]
    exact hs.unique
  · intro b hb hrev
    rw [revokeMarkWiped_bots] at hb
    rw [isRevoked_markWiped] at hrev
    exact hs.quiet b hb hrev

/-- A safe step keeps the bots settled. The cases are the operations of `BotOp`. -/
theorem Settled.run {clk : Clock} {s t : HubState} (hs : Settled s) {op : BotOp}
    (hsafe : RevokeSafe clk s op) (h : op.run clk s = some t) : Settled t := by
  cases op with
  | update uuid key value extra op ts =>
    obtain ⟨q, hq, rfl⟩ := Option.map_eq_some_iff.mp h
    exact ⟨hs.unique.updateEntry hq,
      (updateEntry_noneRevokedLive hs.unique hs.quiet clk uuid key value extra op ts).mpr hsafe q
      hq⟩
  | merge inp =>
    cases h
    refine ⟨?_, (revokeMerge_noneRevokedLive hs.quiet inp).mpr hsafe⟩
    rw [botUuids, revokeMerge_bots]
    exact hs.unique
  | create nick uuid pubKey => exact hs.createBot h
  | wiped uuid now =>
    cases h
    exact hs.markWiped uuid now
  | purge cutoff =>
    cases h
    exact hs.executePurge clk cutoff
  | elsewhere t =>
    cases h
    exact hs.sublist (List.Sublist.refl _) rfl

/-- A step after which no record of a revoked bot is live was safe. -/
theorem revokeSafe_of_quiet {clk : Clock} {s : HubState} (hs : Settled s) {op : BotOp}
    (h : ∀ t, op.run clk s = some t → NoneRevokedLive t) : RevokeSafe clk s op := by
  cases op with
  | update uuid key value extra op ts =>
    refine (updateEntry_noneRevokedLive hs.unique hs.quiet clk uuid key value extra op ts).mp ?_
    intro q hq
    exact h q.1 (Option.map_eq_some_iff.mpr ⟨q, hq, rfl⟩)
  | merge inp => exact (revokeMerge_noneRevokedLive hs.quiet inp).mp (h _ rfl)
  | _ => trivial

/-! ### Every run -/

/-- A property of the hub, as long as it runs. -/
def WhileUp (P : HubState → Prop) : Option HubState → Prop
  | some s => P s
  | none => True

/-- The condition of `RevokeSafe` on one step of a run. A crashed hub takes no steps. -/
def StepSafe : Option HubState → Clock × BotOp → Prop
  | some s, (clk, op) => RevokeSafe clk s op
  | none, _ => True

/-- Every step of the run meets `RevokeSafe` in the state it is taken in. -/
def RunSafe (ops : List (Clock × BotOp)) : Prop := Lww.Along StepSafe botStep (some {}) ops

/-- In the states of a run no record of a revoked bot is live, exactly if every step of the run is
safe. A hub that crashed has no states any more. Nothing is assumed of the operations or their
times. -/
theorem revoked_never_live (ops : List (Clock × BotOp)) :
    (∀ n, WhileUp NoneRevokedLive (runBots (ops.take n))) ↔ RunSafe ops := by
  refine Lww.forall_take_iff_along (I := WhileUp Settled) ?_ ?_ ?_ ?_ ops
  · rintro (_ | s) ⟨clk, op⟩ hs - hok
    · trivial
    · show WhileUp Settled (op.run clk s)
      cases hrun : op.run clk s with
      | none => trivial
      | some t => exact hs.run hok hrun
  · rintro (_ | s) ⟨clk, op⟩ hs -
    · exact Iff.rfl
    · show WhileUp NoneRevokedLive (op.run clk s) ↔ RevokeSafe clk s op
      constructor
      · intro h
        refine revokeSafe_of_quiet hs fun t ht => ?_
        rwa [ht] at h
      · intro hok
        cases hrun : op.run clk s with
        | none => trivial
        | some t => exact (hs.run hok hrun).quiet
  · exact ⟨.nil, fun b hb => (List.not_mem_nil hb).elim⟩
  · exact fun b hb => (List.not_mem_nil hb).elim

/-- A peer sends an `rv` line and then the hub list of the same bot: the record is live. -/
theorem revoked_live_after_hublist :
    ∃ ops, ∃ s, runBots ops = some s ∧ ¬ NoneRevokedLive s := by
  let u : Str := "11111111-2222-3333-4444-555555555555".toList
  let r : Revoked :=
    { uuid := u, pubKey := List.replicate 86 'B' ++ "==".toList, pubTs := 5, nick := [],
      wipedTs := 0, delTs := 9 }
  let b : BotConfig :=
    { uuid := u, entries := [{ key := .hl, value := [], timestamp := 10, lastUsed := 0 }],
      isActive := true }
  refine ⟨[({ now := 10 }, .merge r), ({ now := 10 }, .update u "hl".toList [] [] [] 10)],
    { revoked := [r], bots := [b] }, rfl, ?_⟩
  intro h
  have hdead := h b (List.mem_singleton.mpr rfl) rfl
  cases hdead

end IrcHub.Proofs
