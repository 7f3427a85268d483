import IrcHub.Proofs.Purge.Keyed
import IrcHub.Proofs.Purge.Rights
import IrcHub.Proofs.Sync.Runs
import Mathlib.Data.List.Nodup

/-!
# `IrcHub.Proofs.Purge.Exact`: what a purge removes

`entryGone`, `userGone`, `maskGone`, `bindGone` and `botGone` say of a record of the state before
a purge whether it goes: a tombstone old enough, or an orphan. `Purged` is the state without those
records, in order, with the index rebuilt and everything else as it was.

* `purged_executePurge`: a purge leaves `Purged`
* `purgeCount_eq`: it counts what it removed, tombstones and orphans (`removedCount`)
* `Purged.again`: it finds nothing more the next time
* `executePurge_exact`: the three together, in every reachable state
* `executePurge_keeps_unstamped`: a deleted bot counts as a tombstone from a stamp past zero on,
  whatever the cutoff; only a purge of everything removes one stamped zero or less

A purge runs step by step over the tables, and a step may look at a table that an earlier one has
filtered. The lemmas named after the steps say that this makes no difference: what the step drops
can be read off the state before the purge. For that the state has to be in order (`PurgeReady`),
as every state of a run is.
-/

set_option autoImplicit false

namespace IrcHub.Proofs

open IrcHub.Hub Str
open String (utf8Len)

/-! ### What goes -/

/-- A live setting, or a live ban of one channel, of a channel that is not managed. Network-wide
bans have no channel to lose. -/
def entryOrphan (s : HubState) (e : GlobalEntry) : Bool :=
  (decide (e.key = .C) || decide (e.key = .B)) && entryActive e
    && !(decide (e.key = .B) && firstField e.value == ['*'])
    && !chanManaged s.globalEntries (firstField e.value)

/-- An entry of the global table that a purge removes. -/
def entryGone (s : HubState) (cutoff : Int) (e : GlobalEntry) : Bool :=
  (isTombstone e && belowCutoff cutoff e.timestamp) || entryOrphan s e

/-- No user of this uuid is left after a purge. -/
def userGone (s : HubState) (cutoff : Int) (uuid : Str) : Bool :=
  !s.userRecords.any fun u => u.uuid == uuid && !purgeUser cutoff u

/-- A usermask that a purge removes. -/
def maskGone (s : HubState) (cutoff : Int) (m : MaskRecord) : Bool :=
  userGone s cutoff m.uuid || (!m.isActive && belowCutoff cutoff m.timestamp)

/-- A live user has this uuid. -/
def userLive (s : HubState) (uuid : Str) : Bool := s.userRecords.any fun u =>
  u.isActive && u.uuid == uuid

/-- A binding tombstone that is old enough, or a live binding to a channel that is not managed.
The `"*"` tombstone of a live user stays, since it is what keeps an oper from becoming global. -/
def bindDropped (s : HubState) (cutoff : Int) (r : UchanRecord) : Bool :=
  (r.isActive && r.chan != ['*'] && !chanManaged s.globalEntries r.chan)
    || (!r.isActive && belowCutoff cutoff r.timestamp && !(userLive s r.uuid && r.chan == ['*']))

/-- A binding that a purge removes. -/
def bindGone (s : HubState) (cutoff : Int) (r : UchanRecord) : Bool :=
  userGone s cutoff r.uuid || bindDropped s cutoff r

/-- A bot whose delete is old enough. -/
def botGone (cutoff : Int) (b : BotConfig) : Bool :=
  b.entries.any fun e => decide (e.key = .d) && e.value == ['1']
    && (decide (cutoff = 0) || (decide (0 < e.timestamp) && decide (e.timestamp < cutoff)))

/-- `t` is `s` without what a purge removes. The index follows the table, and the floor for late
syncs is set. -/
structure Purged (cutoff : Int) (s t : HubState) : Prop where
  entries : t.globalEntries = s.globalEntries.filter fun e => !entryGone s cutoff e
  index : t.globalIdx = reindexed t.globalEntries
  learned : t.chanLearned = s.chanLearned.filter fun l => chanManaged s.globalEntries l.chan
  users : t.userRecords = s.userRecords.filter fun u => !purgeUser cutoff u
  masks : t.maskRecords = s.maskRecords.filter fun m => !maskGone s cutoff m
  flags : t.uflagRecords = s.uflagRecords.filter fun r => !userGone s cutoff r.uuid
  binds : t.uchanRecords = s.uchanRecords.filter fun r => !bindGone s cutoff r
  bots : t.bots = s.bots.filter fun b => !botGone cutoff b
  rest : t = { s with
    globalEntries := t.globalEntries
    globalIdx := t.globalIdx
    chanLearned := t.chanLearned
    userRecords := t.userRecords
    maskRecords := t.maskRecords
    uflagRecords := t.uflagRecords
    uchanRecords := t.uchanRecords
    bots := t.bots
    purgeFloor := t.purgeFloor
    purgeFloorUntil := t.purgeFloorUntil }

/-- The tombstones that are old enough, and the orphans of channels and of usermasks. -/
def removedCount (s : HubState) (cutoff : Int) : Nat :=
  s.globalEntries.countP (entryGone s cutoff)
    + s.chanLearned.countP (fun l => !chanManaged s.globalEntries l.chan)
    + s.userRecords.countP (purgeUser cutoff) + s.maskRecords.countP (maskGone s cutoff)
    + s.uchanRecords.countP (bindDropped s cutoff) + s.bots.countP (botGone cutoff)

/-! ### The global table -/

section Steps

variable {s : HubState} {clk : Clock} {cutoff : Int}

/-- The live channels of a table without other entries. -/
theorem chanManaged_filter {es : List GlobalEntry} {p : GlobalEntry → Bool}
    (hp : ∀ e, e.key = .c → globalValueActive e.value = true → p e = true) (chan : Str) :
    chanManaged (es.filter p) chan = chanManaged es chan := by
  rw [Bool.eq_iff_iff, chanManaged_iff, chanManaged_iff]
  constructor
  · rintro ⟨e, he, hrest⟩
    exact ⟨e, (List.mem_filter.mp he).1, hrest⟩
  · rintro ⟨e, he, hc, hact, hname⟩
    exact ⟨e, List.mem_filter.mpr ⟨he, hp e hc hact⟩, hc, hact, hname⟩

/-- The channel of a stored setting or ban fits its buffer. -/
theorem firstField_lt_of_modes {e : GlobalEntry} (h : EntryOk e)
    (hkey : e.key = .C ∨ e.key = .B) :
    utf8Len (firstField e.value) < maxChan := by
  rcases hkey with hC | hB
  · have hv := (h.modes (by rw [hC]; rfl)).1
    rw [hC] at hv
    obtain ⟨f, hf⟩ := recordValid_chanset_iff.mp hv
    rw [hf, firstField_chanset]
    exact Nat.lt_succ_of_le (utf8Len_le_of_recChanOk f.chanOk)
  · exact firstField_lt_of_entryOk h hB

/-- After the tombstones went, an orphan is what has no live channel in the table. The source asks
the index, which is right for names that fit. -/
theorem isOrphan_eq (h : ChansKeyed s) {e : GlobalEntry} (he : e ∈ s.globalEntries) :
    isOrphan s e = entryOrphan s e := by
  unfold isOrphan entryOrphan
  simp only []
  by_cases hkey : e.key = .C ∨ e.key = .B
  · have hlen := firstField_lt_of_modes (h.store.entryOk e he) hkey
    have hlive := h.chanLive hlen (bar_notMem_firstField e.value)
    have hfits : decide (utf8Len (firstField e.value) ≥ maxChan) = false := by
      simpa using hlen
    rw [hfits, ← hlive]
    cases hsome : chanLive s (firstField e.value) with
    | none => simp
    | some name => simp
  · have hno : (decide (e.key = .C) || decide (e.key = .B)) = false := by
      simpa using hkey
    rw [hno]
    simp

/-- No slot of what the bots saw goes: every slot is of a managed channel. -/
theorem learnedSweep_eq (h : ChansKeyed s) (fuel i : Nat) : learnedSweep fuel i s = s := by
  induction fuel generalizing i with
  | zero => rfl
  | succ fuel ih =>
    unfold learnedSweep
    split
    · rfl
    rename_i l hget
    obtain ⟨hlen, hm⟩ := h.learned l (List.mem_of_getElem? hget)
    have hbar : '|' ∉ l.chan := by
      obtain ⟨e, -, -, -, hname⟩ := chanManaged_iff.mp hm
      intro hmem
      have hcount := congrArg (List.count '|') hname
      rw [count_bar_lower, count_bar_lower,
        List.count_eq_zero_of_not_mem (bar_notMem_firstField _)] at hcount
      exact absurd (List.count_pos_iff.mpr hmem) (by omega)
    rw [if_pos (by rw [h.chanLive hlen hbar, hm]), ih]

/-- A state with another global table, indexed. -/
def withTable (s : HubState) (es : List GlobalEntry) : HubState :=
  { s with
    globalEntries := es
    globalIdx := reindexed es }

/-- The sweep of old tombstones is a filter of the table, with the index built anew. -/
theorem purgeGlobals_eq (cutoff : Int) (s : HubState) : purgeGlobals cutoff s
    = withTable s (s.globalEntries.filter fun e =>
      !(isTombstone e && belowCutoff cutoff e.timestamp)) := by
  unfold purgeGlobals
  rw [globalReindex_eq]
  rfl

/-- The orphans go from the global table, and nothing else changes. -/
theorem purgeChanOrphans_eq {es : List GlobalEntry} (h : ChansKeyed (withTable s es)) :
    purgeChanOrphans (withTable s es)
      = withTable s (es.filter fun e => !entryOrphan (withTable s es) e) := by
  have hsame : (es.filter fun e => !isOrphan (withTable s es) e)
      = es.filter fun e => !entryOrphan (withTable s es) e :=
    List.filter_congr fun e he => by rw [isOrphan_eq h he]
  have hkept : ChansKeyed (withTable s (es.filter fun e => !entryOrphan (withTable s es) e)) := by
    have hfilter := h.filter (fun e => !entryOrphan (withTable s es) e) fun e hc _ => by
      simp [entryOrphan, hc]
    rwa [globalReindex_eq] at hfilter
  have htable : (if (es.filter fun e => !isOrphan (withTable s es) e).length < es.length then
      globalReindex { withTable s es with
        globalEntries := es.filter fun e => !isOrphan (withTable s es) e } else withTable s es)
      = withTable s (es.filter fun e => !entryOrphan (withTable s es) e) := by
    rw [hsame]
    split
    · rw [globalReindex_eq]
      rfl
    · rename_i hlen
      have hsub : (es.filter fun e => !entryOrphan (withTable s es) e).Sublist es :=
        List.filter_sublist
      rw [hsub.eq_of_length_le (Nat.le_of_not_lt hlen)]
  have hsweep : ∀ x, x = withTable s (es.filter fun e => !entryOrphan (withTable s es) e) →
      learnedSweep x.chanLearned.length 0 x = x := by
    rintro x rfl
    exact learnedSweep_eq hkept _ _
  exact (hsweep _ htable).trans htable

/-- Whether an entry is orphaned depends on which channels are managed. -/
theorem entryOrphan_congr {t : HubState} (h : ∀ chan, chanManaged t.globalEntries chan
    = chanManaged s.globalEntries chan) (e : GlobalEntry) :
      entryOrphan t e = entryOrphan s e := by
  unfold entryOrphan
  rw [h]

/-- The two steps on the global table remove what goes. -/
theorem purgeEntries_eq (h : ChansKeyed s) (cutoff : Int) :
    purgeChanOrphans (purgeGlobals cutoff s)
      = withTable s (s.globalEntries.filter fun e => !entryGone s cutoff e) := by
  have hglobals := h.purgeGlobals cutoff
  rw [purgeGlobals_eq] at hglobals ⊢
  rw [purgeChanOrphans_eq hglobals, List.filter_filter]
  congr 1
  refine List.filter_congr fun e _ => ?_
  -- a live channel record is no tombstone
  rw [entryOrphan_congr fun chan =>
    chanManaged_filter (fun e hc hact => by simp [isTombstone, hact]) chan]
  unfold entryGone
  rw [Bool.not_or, Bool.and_comm]

/-! ### The other tables -/

/-- The sweep of the users is a filter. It walks the table down from its ceiling, so the table has
to be within it. -/
theorem purgeUsers_eq (hlen : s.userRecords.length ≤ maxHubUserRecords) (cutoff : Int) :
    purgeUsers cutoff s = { s with userRecords := s.userRecords.filter fun u =>
                                   !purgeUser cutoff u } := by
  unfold purgeUsers
  rw [List.take_of_length_le ((List.length_filter_le _ _).trans hlen)]

/-- So is the sweep of the masks. -/
theorem purgeMasks_eq (hlen : s.maskRecords.length ≤ maxHubUserMasks) (cutoff : Int) :
    purgeMasks cutoff s = { s with maskRecords := s.maskRecords.filter fun m =>
                                   !purgeMask s cutoff m } := by
  unfold purgeMasks
  rw [List.take_of_length_le ((List.length_filter_le _ _).trans hlen)]

/-- So is the sweep of the bots. -/
theorem purgeBots_eq (hlen : s.bots.length ≤ maxBots) (cutoff : Int) :
    purgeBots cutoff s = { s with bots := s.bots.filter fun b => !purgeBot cutoff b } := by
  unfold purgeBots
  rw [List.take_of_length_le ((List.length_filter_le _ _).trans hlen)]

/-- A uuid is among those of the users when a user has it. -/
theorem contains_uuids (us : List UserRecord) (uuid : Str) :
    (us.map (·.uuid)).contains uuid = us.any fun u => u.uuid == uuid := by
  rw [List.contains_eq_any_beq, List.any_map]
  refine List.any_congr rfl fun u => ?_
  exact Bool.beq_comm

/-- The records without a user go, and no others. -/
theorem accessPrune_eq (h : RightsKeyed s) : accessPrune s = { s with
    uflagRecords := s.uflagRecords.filter fun r => s.userRecords.any fun u => u.uuid == r.uuid
    uchanRecords := s.uchanRecords.filter fun r => s.userRecords.any fun u =>
      u.uuid == r.uuid } := by
  have hflags : s.uflagRecords.Pairwise fun a b => (a.uuid == b.uuid) = false :=
    h.flags.imp fun hab => beq_eq_false_iff_ne.mpr hab
  have hbinds : s.uchanRecords.Pairwise fun a b =>
    (a.uuid == b.uuid && eqIc a.chan b.chan) = false :=
    h.binds.imp fun hab => by simpa using hab
  unfold accessPrune
  simp only []
  rw [keepFirst_eq_filter hflags, keepFirst_eq_filter hbinds]
  simp only [contains_uuids]

/-- What is left of the users. -/
theorem userGone_eq (s : HubState) (cutoff : Int) (uuid : Str) :
    ((s.userRecords.filter fun u => !purgeUser cutoff u).any fun u => u.uuid == uuid)
      = !userGone s cutoff uuid := by
  rw [List.any_filter]
  unfold userGone
  simp only [Bool.and_comm, Bool.not_not]

/-- Live users are not purged. -/
theorem userLive_eq (s : HubState) (cutoff : Int) (uuid : Str) :
    ((s.userRecords.filter fun u => !purgeUser cutoff u).any fun u =>
    u.isActive && u.uuid == uuid)
      = userLive s uuid := by
  rw [List.any_filter]
  unfold userLive purgeUser
  refine List.any_congr rfl fun u => ?_
  cases u.isActive <;> simp

/-- The channel of a usable binding, `"*"` apart, fits its buffer. -/
theorem chan_of_uchanNameOk {chan : Str} (h : uchanNameOk chan = true) (hstar : chan ≠ ['*']) :
    utf8Len chan < maxChan ∧ '|' ∉ chan := by
  unfold uchanNameOk at h
  simp only [Bool.or_eq_true, beq_iff_eq, Bool.and_eq_true, decide_eq_true_eq, List.all_eq_true,
    bne_iff_ne] at h
  obtain hbad | ⟨⟨⟨-, hlen⟩, -⟩, hchars⟩ := h
  · exact absurd hbad hstar
  · exact ⟨hlen, fun hbar => (hchars '|' hbar).1.2 rfl⟩

/-- A binding goes by the table of channels and by the live users. -/
theorem bindingGone_eq (h : ChansKeyed s) {r : UchanRecord} (hname : uchanNameOk r.chan = true) :
    bindingGone s cutoff r = bindDropped s cutoff r := by
  have hlive : ((s.userRecords.filter (·.isActive)).map (·.uuid)).contains r.uuid
    = userLive s r.uuid := by
    rw [contains_uuids, List.any_filter]
    rfl
  unfold bindingGone bindDropped
  simp only []
  rw [hlive]
  by_cases hstar : r.chan = ['*']
  · simp [hstar, belowCutoff]
  · obtain ⟨hlen, hbar⟩ := chan_of_uchanNameOk hname hstar
    rw [← h.chanLive hlen hbar]
    cases hsome : chanLive s r.chan with
    | none => simp [belowCutoff]
    | some name => simp [belowCutoff]

/-- A bot has one delete entry, so the first that is found is the only one. -/
theorem purgeBot_eq {b : BotConfig} (h : (b.entries.map (·.key)).Nodup) (cutoff : Int) :
    purgeBot cutoff b = botGone cutoff b := by
  unfold purgeBot botGone
  cases hfind : b.entries.find? fun e => e.key = .d && e.value = ['1'] with
  | none =>
    rw [eq_comm, List.any_eq_false]
    intro e he
    have hno : ¬ (e.key = .d ∧ e.value = ['1']) := by simpa using List.find?_eq_none.mp hfind e he
    simp only [Bool.and_eq_true, decide_eq_true_eq, beq_iff_eq]
    exact fun hold => hno hold.1
  | some e =>
    have he := List.mem_of_find?_eq_some hfind
    have hkey : e.key = .d ∧ e.value = ['1'] := by simpa using List.find?_some hfind
    simp only []
    rw [Bool.eq_iff_iff, List.any_eq_true]
    constructor
    · intro hold
      exact ⟨e, he, by simpa [hkey] using hold⟩
    · rintro ⟨e', he', hold⟩
      simp only [Bool.and_eq_true, decide_eq_true_eq, beq_iff_eq] at hold
      have heq : e' = e := List.inj_on_of_nodup_map h he' he (hold.1.1.trans hkey.1.symm)
      rw [heq] at hold
      simpa using hold.2

/-- Whether a mask goes is decided on the users that are left. -/
theorem purgeMask_eq (s : HubState) (cutoff : Int) (m : MaskRecord) :
    purgeMask { s with userRecords := s.userRecords.filter fun u => !purgeUser cutoff u } cutoff m
      = maskGone s cutoff m := by
  unfold purgeMask maskGone
  rw [userGone_eq, Bool.not_not]

/-- The bindings that are dropped go, and then the records without a user. -/
theorem accessPurge_eq (h : ChansKeyed s) (hr : RightsKeyed s) (cutoff : Int) :
    accessPurge s cutoff = { s with
      uflagRecords := s.uflagRecords.filter fun r => s.userRecords.any fun u => u.uuid == r.uuid
      uchanRecords := s.uchanRecords.filter fun r =>
        (s.userRecords.any fun u => u.uuid == r.uuid) && !bindDropped s cutoff r } := by
  have hdropped : (s.uchanRecords.filter fun r => !bindingGone s cutoff r)
      = s.uchanRecords.filter fun r => !bindDropped s cutoff r :=
    List.filter_congr fun r hmem => by rw [bindingGone_eq h (hr.names r hmem)]
  have hkept : RightsKeyed { s with
      uchanRecords := s.uchanRecords.filter fun r => !bindDropped s cutoff r } :=
    hr.of_sublist (List.Sublist.refl _) List.filter_sublist
  unfold accessPurge
  rw [hdropped, accessPrune_eq hkept]
  simp only [List.filter_filter]

/-- Whether a binding is dropped depends on the managed channels and on who is live. -/
theorem bindDropped_congr {t : HubState}
    (hchans : ∀ chan, chanManaged t.globalEntries chan = chanManaged s.globalEntries chan)
    (hlive : ∀ uuid, userLive t uuid = userLive s uuid) (r : UchanRecord) :
    bindDropped t cutoff r = bindDropped s cutoff r := by
  unfold bindDropped
  rw [hchans, hlive]

/-- The channels that are managed stay so. -/
theorem chanManaged_kept (s : HubState) (cutoff : Int) (chan : Str) :
    chanManaged (s.globalEntries.filter fun e => !entryGone s cutoff e) chan
      = chanManaged s.globalEntries chan := by
  refine chanManaged_filter (fun e hc hact => ?_) chan
  simp [entryGone, entryOrphan, isTombstone, hc, hact]

/-! ### The whole purge -/

/-- The state is in order for a purge. -/
structure PurgeReady (s : HubState) : Prop where
  chans : ChansKeyed s
  rights : RightsKeyed s
  fits : Fits (fun _ => True) s

/-- Every reachable state is ready for a purge. -/
theorem purgeReady_runHub {es : List HubEvent} (hrun : runHub es = some s) : PurgeReady s :=
  ⟨chansKeyed_runHub hrun, rightsKeyed_runHub hrun,
   fits_runHub (fun _ _ _ => trivial) (.inl fun _ => trivial) hrun⟩

/-- And so is the state after one, so that purges can follow each other. -/
theorem PurgeReady.executePurge (h : PurgeReady s) (clk : Clock) (cutoff : Int) :
    PurgeReady (executePurge clk s cutoff) :=
  ⟨h.chans.executePurge clk cutoff, h.rights.executePurge clk cutoff, h.fits.executePurge cutoff⟩

/-- A purge when it comes to the bindings. -/
def peoplePurged (clk : Clock) (s : HubState) (cutoff : Int) : HubState :=
  { withTable (purgeFloorSet clk s cutoff) (s.globalEntries.filter fun e => !entryGone s cutoff e)
  with
    userRecords := s.userRecords.filter fun u => !purgeUser cutoff u
    maskRecords := s.maskRecords.filter fun m => !maskGone s cutoff m }

/-- The first steps: the global table, the old users, the old masks and those whose user went. -/
theorem peoplePurged_eq (h : PurgeReady s) (clk : Clock) (cutoff : Int) :
    purgeChanOrphans (purgeGlobals cutoff (purgeFloorSet clk s cutoff))
        = withTable (purgeFloorSet clk s cutoff)
          (s.globalEntries.filter fun e => !entryGone s cutoff e)
      ∧ purgeMasks cutoff (purgeUsers cutoff
          (purgeChanOrphans (purgeGlobals cutoff (purgeFloorSet clk s cutoff))))
          = peoplePurged clk s cutoff := by
  have hfloor : ChansKeyed (purgeFloorSet clk s cutoff) := h.chans.of_same ⟨rfl, rfl⟩ rfl
  have htable : purgeChanOrphans (purgeGlobals cutoff (purgeFloorSet clk s cutoff))
      = withTable (purgeFloorSet clk s cutoff)
        (s.globalEntries.filter fun e => !entryGone s cutoff e) :=
    purgeEntries_eq hfloor cutoff
  refine ⟨htable, ?_⟩
  have husers : s.userRecords.length ≤ maxHubUserRecords := h.fits.users.len
  have hmasks : s.maskRecords.length ≤ maxHubUserMasks := h.fits.masks.len
  rw [htable, purgeUsers_eq (by exact husers), purgeMasks_eq (by exact hmasks)]
  simp only [purgeMask_eq]
  rfl

/-- The state is in order there. -/
theorem PurgeReady.peoplePurged (h : PurgeReady s) (clk : Clock) (cutoff : Int) :
    ChansKeyed (peoplePurged clk s cutoff) ∧ RightsKeyed (peoplePurged clk s cutoff) := by
  have hfloor : ChansKeyed (purgeFloorSet clk s cutoff) := h.chans.of_same ⟨rfl, rfl⟩ rfl
  have hchans := (hfloor.purgeGlobals cutoff).purgeChanOrphans
  rw [(peoplePurged_eq h clk cutoff).1] at hchans
  exact ⟨hchans.of_same ⟨rfl, rfl⟩ rfl, h.rights.of_eq rfl rfl⟩

/-- Which bindings go is as it was at the start. -/
theorem bindDropped_peoplePurged (clk : Clock) (s : HubState) (cutoff : Int) (r : UchanRecord) :
    bindDropped (peoplePurged clk s cutoff) cutoff r = bindDropped s cutoff r :=
  bindDropped_congr (s := s) (t := peoplePurged clk s cutoff) (chanManaged_kept s cutoff)
    (userLive_eq s cutoff) r

/-- What a purge leaves, by one lemma for each step. -/
theorem purged_executePurge (h : PurgeReady s) (clk : Clock) (cutoff : Int) :
    Purged cutoff s (executePurge clk s cutoff) := by
  obtain ⟨hchans, hrights⟩ := h.peoplePurged clk cutoff
  have hbots : ∀ b ∈ s.bots, (!purgeBot cutoff b) = !botGone cutoff b := by
    intro b hb
    rw [purgeBot_eq (h.fits.bots.all b hb).keys]
  have hlen : s.bots.length ≤ maxBots := h.fits.bots.len
  have heq : executePurge clk s cutoff = purgeBots cutoff
    (accessPurge (peoplePurged clk s cutoff) cutoff) := by
    rw [← (peoplePurged_eq h clk cutoff).2]
    rfl
  rw [heq, accessPurge_eq hchans hrights, purgeBots_eq (by exact hlen)]
  simp only [bindDropped_peoplePurged]
  refine ⟨rfl, rfl, ?_, rfl, rfl, ?_, ?_, ?_, rfl⟩
  · exact (List.filter_eq_self.mpr fun l hl => (h.chans.learned l hl).2).symm
  · exact List.filter_congr fun r _ => userGone_eq s cutoff r.uuid
  · refine List.filter_congr fun r _ => ?_
    rw [bindGone, Bool.not_or]
    exact congrArg (· && _) (userGone_eq s cutoff r.uuid)
  · exact List.filter_congr hbots

/-- What went is what there was less what is left. -/
private theorem length_sub_filter {α : Type} (xs : List α) (p : α → Bool) :
    xs.length - (xs.filter fun x => !p x).length = xs.countP p := by
  have hsum := List.length_eq_countP_add_countP p (l := xs)
  rw [← List.countP_eq_length_filter]
  simp only [Bool.not_eq_true, Bool.decide_eq_false] at hsum
  omega

/-- A purge counts what it removed: the sizes of the tables before and after differ by it. -/
theorem purgeCount_eq (h : PurgeReady s) (clk : Clock) (cutoff : Int) :
    purgeCount clk s cutoff = removedCount s cutoff := by
  obtain ⟨hchans, hrights⟩ := h.peoplePurged clk cutoff
  obtain ⟨htable, hpeople⟩ := peoplePurged_eq h clk cutoff
  have husers : s.userRecords.length ≤ maxHubUserRecords := h.fits.users.len
  have hentries := length_sub_filter s.globalEntries (entryGone s cutoff)
  have hlearned : s.chanLearned.countP (fun l => !chanManaged s.globalEntries l.chan) = 0 :=
    List.countP_eq_zero.mpr fun l hl => by simp [(h.chans.learned l hl).2]
  have hmasks : (purgeUsers cutoff (withTable (purgeFloorSet clk s cutoff)
      (s.globalEntries.filter fun e => !entryGone s cutoff e))).maskRecords.countP
        (purgeMask (purgeUsers cutoff (withTable (purgeFloorSet clk s cutoff)
          (s.globalEntries.filter fun e => !entryGone s cutoff e))) cutoff)
      = s.maskRecords.countP (maskGone s cutoff) := by
    rw [purgeUsers_eq (by exact husers)]
    exact List.countP_congr fun m _ => by rw [purgeMask_eq]; rfl
  have hbinds : (peoplePurged clk s cutoff).uchanRecords.countP
    (bindingGone (peoplePurged clk s cutoff) cutoff)
      = s.uchanRecords.countP (bindDropped s cutoff) :=
    List.countP_congr fun r hr => by
      rw [bindingGone_eq hchans (hrights.names r hr), bindDropped_peoplePurged]
  have hbots : s.bots.countP (purgeBot cutoff) = s.bots.countP (botGone cutoff) :=
    List.countP_congr fun b hb => by rw [purgeBot_eq (h.fits.bots.all b hb).keys]
  unfold purgeCount removedCount
  simp only []
  rw [hpeople, htable, hmasks, hbinds, hlearned]
  show s.globalEntries.length - (s.globalEntries.filter fun e => !entryGone s cutoff e).length
    + (s.chanLearned.length - s.chanLearned.length) + s.userRecords.countP (purgeUser cutoff)
    + s.maskRecords.countP (maskGone s cutoff) + s.uchanRecords.countP (bindDropped s cutoff)
    + s.bots.countP (purgeBot cutoff) = _
  rw [hentries, hbots, Nat.sub_self]

/-! ### A second purge -/

section Again

variable {t : HubState} (hp : Purged cutoff s t)

include hp

/-- A purge leaves the managed channels: a live channel is no tombstone. -/
theorem Purged.chanManaged_eq (chan : Str) :
    chanManaged t.globalEntries chan = chanManaged s.globalEntries chan := by
  rw [hp.entries, chanManaged_kept]

/-- It leaves who is to go, since whoever was to go is gone. -/
theorem Purged.userGone_eq (uuid : Str) : userGone t cutoff uuid = userGone s cutoff uuid := by
  unfold userGone
  rw [hp.users, List.any_filter]
  refine congrArg (!·) (List.any_congr rfl fun u => ?_)
  cases purgeUser cutoff u <;> simp

/-- It leaves which entries are to go. -/
theorem Purged.entryGone_eq (e : GlobalEntry) : entryGone t cutoff e = entryGone s cutoff e := by
  unfold entryGone
  rw [entryOrphan_congr hp.chanManaged_eq]

/-- It leaves which masks are to go. -/
theorem Purged.maskGone_eq (m : MaskRecord) : maskGone t cutoff m = maskGone s cutoff m := by
  unfold maskGone
  rw [hp.userGone_eq]

/-- It leaves which bindings are dropped with their users or channels. -/
theorem Purged.bindDropped_eq (r : UchanRecord) :
    bindDropped t cutoff r = bindDropped s cutoff r := by
  refine bindDropped_congr hp.chanManaged_eq (fun uuid => ?_) r
  rw [← userLive_eq s cutoff, userLive, hp.users]

/-- It leaves which bindings are to go. -/
theorem Purged.bindGone_eq (r : UchanRecord) : bindGone t cutoff r = bindGone s cutoff r := by
  unfold bindGone
  rw [hp.userGone_eq, hp.bindDropped_eq]

/-- Nothing is left to remove. A channel that is managed before the purge is managed after it, so
no new orphan comes about. -/
theorem Purged.removedCount_eq : removedCount t cutoff = 0 := by
  have hnone : ∀ {α : Type} (xs : List α) (p : α → Bool), (xs.filter fun x => !p x).countP p
    = 0 :=
    fun xs p => List.countP_eq_zero.mpr fun x hx => by simpa using (List.mem_filter.mp hx).2
  have hbinds : t.uchanRecords.countP (bindDropped s cutoff) = 0 := by
    rw [hp.binds]
    refine List.countP_eq_zero.mpr fun r hr => ?_
    have hkept := (List.mem_filter.mp hr).2
    rw [bindGone, Bool.not_or, Bool.and_eq_true] at hkept
    simpa using hkept.2
  have hlearned : t.chanLearned.countP (fun l => !chanManaged s.globalEntries l.chan) = 0 := by
    rw [hp.learned]
    exact List.countP_eq_zero.mpr fun l hl => by simpa using (List.mem_filter.mp hl).2
  unfold removedCount
  simp only [funext hp.entryGone_eq, funext hp.maskGone_eq, funext hp.bindDropped_eq,
    hp.chanManaged_eq]
  rw [hbinds, hlearned, hp.entries, hp.users, hp.masks, hp.bots, hnone, hnone, hnone, hnone]

/-- A second purge changes only the floor. -/
theorem Purged.again {u : HubState} (hu : Purged cutoff t u) :
    u = { t with
      purgeFloor := u.purgeFloor
      purgeFloorUntil := u.purgeFloorUntil } := by
  have hsame : ∀ {α : Type} (xs : List α) (p : α → Bool),
      (xs.filter fun x => !p x).filter (fun x => !p x) = xs.filter fun x => !p x :=
    fun xs p => List.filter_eq_self.mpr fun x hx => (List.mem_filter.mp hx).2
  have hentries : u.globalEntries = t.globalEntries := by
    rw [hu.entries, funext hp.entryGone_eq, hp.entries, hsame]
  have hlearned : u.chanLearned = t.chanLearned := by
    rw [hu.learned, hp.learned]
    simp only [hp.chanManaged_eq]
    exact List.filter_eq_self.mpr fun l hl => (List.mem_filter.mp hl).2
  have husers : u.userRecords = t.userRecords := by rw [hu.users, hp.users, hsame]
  have hmasks : u.maskRecords = t.maskRecords := by
    rw [hu.masks, funext hp.maskGone_eq, hp.masks, hsame]
  have hflags : u.uflagRecords = t.uflagRecords := by
    rw [hu.flags, hp.flags]
    simp only [hp.userGone_eq]
    exact hsame _ _
  have hbinds : u.uchanRecords = t.uchanRecords := by
    rw [hu.binds, funext hp.bindGone_eq, hp.binds, hsame]
  have hbots : u.bots = t.bots := by rw [hu.bots, hp.bots, hsame]
  have hidx : u.globalIdx = t.globalIdx := by rw [hu.index, hp.index, hentries]
  have hrest := hu.rest
  rw [hentries, hlearned, husers, hmasks, hflags, hbinds, hbots, hidx] at hrest
  exact hrest

end Again

end Steps

/-- In every reachable state, a purge removes what is old and the orphans, keeps every other
record as it is and in order, and says how many tombstones and orphans went. With the same cutoff
it then finds nothing, whatever the clock says. -/
theorem executePurge_exact {es : List HubEvent} {s : HubState} (hrun : runHub es = some s)
    (clk clk' : Clock) (cutoff : Int) :
    Purged cutoff s (executePurge clk s cutoff) ∧ purgeCount clk s cutoff = removedCount s cutoff
      ∧ executePurge clk' (executePurge clk s cutoff) cutoff = { executePurge clk s cutoff with
          purgeFloor := (executePurge clk' (executePurge clk s cutoff) cutoff).purgeFloor
          purgeFloorUntil := (executePurge clk' (executePurge clk s cutoff)
            cutoff).purgeFloorUntil }
      ∧ purgeCount clk' (executePurge clk s cutoff) cutoff = 0 := by
  have h := purgeReady_runHub hrun
  have hagain := h.executePurge clk cutoff
  have hpurged := purged_executePurge h clk cutoff
  refine ⟨hpurged, purgeCount_eq h clk cutoff,
    hpurged.again (purged_executePurge hagain clk' cutoff), ?_⟩
  rw [purgeCount_eq hagain, hpurged.removedCount_eq]

/-- A deleted channel, a deleted user with a mask, a deleted bot, and a user. -/
def purgeFrameEvent : HubEvent where
  now := ⟨1700000000, inI64_runTime⟩
  op := .peerSync ("c|#old|del|1699999998\n".toList
    ++ "o|0a0a0a0a-0000-4000-8000-000000000001|eve||del|0|1699999998|\n".toList
    ++ "m|0a0a0a0a-0000-4000-8000-000000000001|*!*@host|add|0|1699999998\n".toList
    ++ "a|0a0a0a0a-0000-4000-8000-000000000002|adam||add|0|1699999999|\n".toList
    ++ "b|0a0a0a0a-0000-4000-8000-000000000003|d|1|1699999998\n".toList)

/-- The theorem at such a state: four records go, and nothing is left for a second purge. -/
theorem executePurge_exact_frame :
    ∃ s, runHub [purgeFrameEvent] = some s ∧ s.bots.length = 1 ∧ s.userRecords.length = 2
      ∧ purgeCount purgeFrameEvent.clock s 1699999999 = 4
      ∧ Purged 1699999999 s (executePurge purgeFrameEvent.clock s 1699999999)
      ∧ purgeCount purgeFrameEvent.clock (executePurge purgeFrameEvent.clock s 1699999999)
        1699999999 = 0 := by
  have hrun : ((runHub [purgeFrameEvent]).any fun s => decide (s.bots.length = 1
      ∧ s.userRecords.length = 2 ∧ purgeCount purgeFrameEvent.clock s 1699999999 = 4))
        = true := by
    decide +kernel
  obtain ⟨s, hs, hcount⟩ := (Option.any_eq_true _ _).mp hrun
  obtain ⟨hbots, husers, hfour⟩ := of_decide_eq_true hcount
  have hexact := executePurge_exact hs purgeFrameEvent.clock purgeFrameEvent.clock 1699999999
  exact ⟨s, hs, hbots, husers, hfour, hexact.1, hexact.2.2.2⟩

/-- A peer sends a bot delete stamped zero. -/
def unstampedDeleteEvent : HubEvent where
  now := ⟨1700000000, inI64_runTime⟩
  op := .peerSync "b|0a0a0a0a-0000-4000-8000-000000000003|d|1|0\n".toList

/-- The delete is older than the cutoff, and the purge keeps it. -/
theorem executePurge_keeps_unstamped :
    ∃ s, runHub [unstampedDeleteEvent] = some s
      ∧ ∃ b ∈ s.bots, (∃ e ∈ b.entries, e.key = .d ∧ e.value = ['1'] ∧ e.timestamp < 1700000000)
        ∧ b ∈ (executePurge unstampedDeleteEvent.clock s 1700000000).bots := by
  have hrun : ((runHub [unstampedDeleteEvent]).any fun s => decide (∃ b ∈ s.bots,
      (∃ e ∈ b.entries, e.key = .d ∧ e.value = ['1'] ∧ e.timestamp < 1700000000)
        ∧ b ∈ (executePurge unstampedDeleteEvent.clock s 1700000000).bots)) = true := by
    decide +kernel
  obtain ⟨s, hs, hkept⟩ := (Option.any_eq_true _ _).mp hrun
  exact ⟨s, hs, of_decide_eq_true hkept⟩

end IrcHub.Proofs
