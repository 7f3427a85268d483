import IrcHub.Lib.Trace
import IrcHub.Proofs.Upgrade.Table

/-!
# `IrcHub.Proofs.Upgrade.Commits`: who is told to commit, and when

A COMMIT tells a node to install. The driver sends it by the state of the row of the node alone,
so the question when it is sent is one about the table.

* `InOrder`: what holds of a COMMIT at the moment it is sent: its row is ready, no node failed,
  bots go by waves, and hubs after all bots, this one last
* `tick_spec`: the COMMITs of one tick are in order, one for each row, and use up the turn of the
  row
* `step_outcome`: what an event can do: send COMMITs, take an answer, or start a run
* `DriverInv`: what holds after some events; `driverInv_run` by induction on the events
* `failed_stops`: once a node failed, the run sends nothing more
* `upgrade_lifecycle`: the COMMITs of every run of the driver

Events are frames of nodes in any order, ticks at any time and starts. What the nodes do is not
modelled: their frames are events with any content.
-/

set_option autoImplicit false

namespace IrcHub.Proofs

open IrcHub.Hub Str

/-! ### One COMMIT -/

/-- Row `i` had its turn. -/
def SpentRow (u : PendingUpgrade) (i : Nat) (m : UpgradeNode) : Prop :=
  ∃ n, u.nodes[i]? = some n ∧ Spent n.state ∧ n.uuid = m.uuid ∧ n.kind = m.kind

/-- A row that was spent stays spent while rows stay what they are. -/
theorem SpentRow.stays {u u' : PendingUpgrade} {i : Nat} {m : UpgradeNode} (h : SpentRow u i m)
    (hstays : Stays u u') : SpentRow u' i m := by
  obtain ⟨n, hn, hspent, huuid, hkind⟩ := h
  obtain ⟨n', hn', huuid', hkind', hspent', -⟩ := hstays.row hn
  exact ⟨n', hn', hspent' hspent, huuid'.trans huuid, hkind'.trans hkind⟩

/-- A change that spends a row leaves the spent row behind. -/
theorem spentRow_modifyNode {u : PendingUpgrade} {i : Nat} {n : UpgradeNode}
    (hn : u.nodes[i]? = some n) {f : UpgradeNode → UpgradeNode} (hf : RowKept n (f n))
    (hspent : Spent (f n).state) :
    SpentRow (u.modifyNode i f) i n := by
  refine ⟨f n, ?_, hspent, hf.uuid, hf.kind⟩
  rw [getElem?_modifyNode, if_pos rfl, hn]
  rfl

/-- A row is committed. From `failed` there is no way back, so that state is excluded. -/
theorem rowKept_commit (now : Int) {n : UpgradeNode} (h : n.state ≠ .failed) :
    RowKept n (n.commit now) := .of_spent rfl rfl spent_committed h

/-- A row fails, from whatever state. -/
theorem rowKept_fail (reason : Str) (n : UpgradeNode) : RowKept n (n.fail reason) :=
  ⟨rfl, rfl, fun h => absurd spent_failed h, fun _ => rfl⟩

/-- This hub could not prepare itself: its own row fails. -/
theorem commitSelfFailed_kept (env : TickEnv) (u : PendingUpgrade) (ni : Nat) (e : Str) :
    Kept u (commitSelfFailed env u ni e) :=
  (kept_modifyNode fun n _ => rowKept_fail e n).of_nodes rfl rfl

/-- This hub commits itself: its row was ready and is spent after, whether it went well or not. -/
theorem commitSelf_kept (env : TickEnv) {u : PendingUpgrade} {ni : Nat} {n : UpgradeNode}
    (hn : u.nodes[ni]? = some n) (hready : n.state = .ready) :
    Kept u (commitSelf env u ni) ∧ SpentRow (commitSelf env u ni) ni n := by
  have hcommit : RowKept n (n.commit env.clock) := rowKept_commit _ (by rw [hready]; decide)
  have hkept : Kept u (u.modifyNode ni (UpgradeNode.commit env.clock)) := by
    refine kept_modifyNode fun m hm => ?_
    cases hn.symm.trans hm
    exact hcommit
  have hspent := spentRow_modifyNode hn hcommit spent_committed
  unfold commitSelf
  simp only []
  split
  · exact ⟨hkept.trans (finish_kept _ .done _), hspent⟩
  · rename_i e _
    exact ⟨(hkept.trans (finish_kept _ .done _)).trans (commitSelfFailed_kept env _ ni e),
      hspent.stays ((finish_kept _ .done _).trans (commitSelfFailed_kept env _ ni e)).stays⟩

/-- Committing a ready row uses up its turn, whether or not a COMMIT goes out. -/
theorem commitNode_kept (env : TickEnv) {u : PendingUpgrade} {ni : Nat} {n : UpgradeNode}
    (hn : u.nodes[ni]? = some n) (hready : n.state = .ready) :
    Kept u (commitNode env u ni n).1 ∧ SpentRow (commitNode env u ni n).1 ni n := by
  have hok : n.state ≠ .failed := by
    rw [hready]
    decide
  have hrow : ∀ {f : UpgradeNode → UpgradeNode}, RowKept n (f n) → Spent (f n).state →
      Kept u (u.modifyNode ni f) ∧ SpentRow (u.modifyNode ni f) ni n := by
    intro f hf hspent
    refine ⟨kept_modifyNode fun m hm => ?_, spentRow_modifyNode hn hf hspent⟩
    cases hn.symm.trans hm
    exact hf
  unfold commitNode
  split
  · exact hrow (rowKept_leave _ hok) spent_unable
  split
  · exact commitSelf_kept env hn hready
  split
  · exact hrow (rowKept_commit _ hok) spent_committed
  · exact hrow (rowKept_leave _ hok) spent_unable

/-- The count of a state that a row was not in goes up by one if the change puts it there. -/
theorem count_modifyNode {u : PendingUpgrade} {i : Nat} {n : UpgradeNode}
    (hn : u.nodes[i]? = some n) {f : UpgradeNode → UpgradeNode} {st : UpgradeNodeState}
    (hst : n.state ≠ st) :
    count (u.modifyNode i f) st none = count u st none + if (f n).state = st then 1 else 0 := by
  obtain ⟨hlt, hget⟩ := List.getElem?_eq_some_iff.mp hn
  have hmod : u.nodes.modify i f = u.nodes.set i (f n) := by
    rw [List.modify_eq_set_getElem?, hn]
    rfl
  show (u.nodes.modify i f).countP _ = u.nodes.countP _ + _
  rw [hmod, List.countP_set hlt, hget]
  simp [hst]

/-- A bot that is committed is one more node in flight. -/
theorem commitNode_count (env : TickEnv) {u : PendingUpgrade} {ni : Nat} {n : UpgradeNode}
    (hn : u.nodes[ni]? = some n) (hready : n.state = .ready) (hbot : n.kind = .bot) :
    count (commitNode env u ni n).1 .committed none
        = count u .committed none + (if (commitNode env u ni n).2 then 1 else 0) ∧
      count (commitNode env u ni n).1 .failed none = count u .failed none := by
  have hc : n.state ≠ .committed := by rw [hready]; decide
  have hf : n.state ≠ .failed := by rw [hready]; decide
  unfold commitNode
  rw [hbot]
  split
  · exact ⟨count_modifyNode hn hc, count_modifyNode hn hf⟩
  rw [if_neg (by decide)]
  split
  · exact ⟨count_modifyNode hn hc, count_modifyNode hn hf⟩
  · exact ⟨count_modifyNode hn hc, count_modifyNode hn hf⟩

/-! ### A wave of bots -/

/-- What holds of a COMMIT at the moment it is sent. -/
structure InOrder (c : Commit) : Prop where
  row : c.before.nodes[c.row]? = some c.node
  ready : c.node.state = .ready
  noneFailed : ∀ n ∈ c.before.nodes, n.state ≠ .failed
  /-- A bot only while there is room in the wave. -/
  wave : c.node.kind = .bot → count c.before .committed none < waveSize c.wave
  /-- A hub only when no bot waits for its turn and no node is on its way. -/
  hub : c.node.kind ≠ .bot →
    (∀ n ∈ c.before.nodes, n.kind = .bot → n.state ≠ .ready) ∧
      ∀ n ∈ c.before.nodes, n.state ≠ .committed
  /-- This hub when every other hub is done or does not take part. -/
  last : c.node.kind = .selfHub →
    ∀ n ∈ c.before.nodes, n.kind = .peerHub → n.state = .done ∨ n.state = .unable

/-- No row is in a state. -/
theorem count_eq_zero {u : PendingUpgrade} {st : UpgradeNodeState} :
    count u st none = 0 ↔ ∀ n ∈ u.nodes, n.state ≠ st := by
  rw [count, List.countP_eq_zero]
  refine forall₂_congr fun n _ => ?_
  simp

/-- No row of a kind is in a state. -/
theorem count_kind_eq_zero {u : PendingUpgrade} {st : UpgradeNodeState} {kind : UpgradeNodeKind} :
    count u st (some kind) = 0 ↔ ∀ n ∈ u.nodes, n.kind = kind → n.state ≠ st := by
  rw [count, List.countP_eq_zero]
  refine forall₂_congr fun n _ => ?_
  simp only [Bool.and_eq_true, beq_iff_eq, Option.all_some, not_and]
  exact ⟨fun h hk hs => h hs hk, fun h hs hk => h hk hs⟩

/-- The COMMITs sent from a table so far: in order, one for each row, each the turn of its row. -/
structure Sent (u v : PendingUpgrade) (cs : List Commit) : Prop where
  kept : Kept u v
  inOrder : ∀ c ∈ cs, InOrder c ∧ Kept u c.before ∧ SpentRow v c.row c.node
  rows : (cs.map (·.row)).Nodup

/-- A step that commits nothing. -/
theorem Sent.nil {u v : PendingUpgrade} (h : Kept u v) : Sent u v [] :=
  ⟨h, fun _ hc => (List.not_mem_nil hc).elim, .nil⟩

/-- A step without a COMMIT. -/
theorem Sent.kept_after {u v w : PendingUpgrade} {cs : List Commit} (h : Sent u v cs)
    (hkept : Kept v w) :
    Sent u w cs :=
  ⟨h.kept.trans hkept,
    fun c hc => ⟨(h.inOrder c hc).1, (h.inOrder c hc).2.1,
      (h.inOrder c hc).2.2.stays hkept.stays⟩, h.rows⟩

/-- One more COMMIT, to a row that is ready: it was not sent one before, since a row is spent by
that. -/
theorem Sent.concat {u v w : PendingUpgrade} {cs : List Commit} (h : Sent u v cs)
    (hkept : Kept v w) {c : Commit} (hbefore : c.before = v) (hc : InOrder c)
    (hspent : SpentRow w c.row c.node) :
    Sent u w (cs ++ [c]) := by
  refine ⟨h.kept.trans hkept, fun c' hc' => ?_, ?_⟩
  · rcases List.mem_append.mp hc' with hc' | hc'
    · exact (h.kept_after hkept).inOrder c' hc'
    · rw [List.mem_singleton.mp hc']
      exact ⟨hc, hbefore ▸ h.kept, hspent⟩
  · rw [List.map_append, List.map_singleton, List.nodup_append]
    refine ⟨h.rows, List.pairwise_singleton _ _, ?_⟩
    rintro _ hr _ hrow rfl
    rw [List.mem_singleton] at hrow
    obtain ⟨c', hc', heq⟩ := List.mem_map.mp hr
    obtain ⟨n, hn, hs, -⟩ := (h.inOrder c' hc').2.2
    have hrow' := hc.row
    rw [hbefore, ← hrow, ← heq, hn] at hrow'
    cases hrow'
    exact hs.2 hc.ready

/-- A wave on its way through the table: what was sent, and how many nodes are in flight. -/
structure WaveInv (u : PendingUpgrade) (w : Wave) : Prop where
  sent : Sent u w.upgrade w.commits
  phase : w.upgrade.phase = u.phase
  flight : w.inFlight = count w.upgrade .committed none
  noneFailed : count w.upgrade .failed none = 0

/-- A commit of a bot leaves the phase. A commit of this hub may end the run, so the kind matters.
-/
theorem commitNode_bot_phase (env : TickEnv) (u : PendingUpgrade) (ni : Nat) {n : UpgradeNode}
    (h : n.kind = .bot) : (commitNode env u ni n).1.phase = u.phase := by
  unfold commitNode
  rw [h]
  split
  · rfl
  rw [if_neg (by decide)]
  split <;> rfl

/-- One row of the wave. If the row is ready and the wave has room the row is committed, and was
not before because it was ready; else nothing changes. -/
theorem WaveInv.step {env : TickEnv} {u : PendingUpgrade} {w : Wave} (hw : WaveInv u w)
    (ni : Nat) :
    WaveInv u (waveStep env u w ni) := by
  unfold waveStep
  split
  · exact hw
  rename_i hroom
  split
  · exact hw
  rename_i n hn
  split
  · exact hw
  rename_i hturn
  simp only [Bool.or_eq_true, decide_eq_true_eq, not_or, ne_eq, not_not] at hturn
  obtain ⟨hready, hbot⟩ := hturn
  obtain ⟨hkept, hspent⟩ := commitNode_kept env hn hready
  obtain ⟨hflight, hfailed⟩ := commitNode_count env hn hready hbot
  have hphase := (commitNode_bot_phase env w.upgrade ni hbot).trans hw.phase
  rw [hw.noneFailed] at hfailed
  simp only []
  split
  · rename_i hsent
    rw [hsent, if_pos rfl, ← hw.flight] at hflight
    refine ⟨hw.sent.concat hkept rfl ⟨hn, hready, count_eq_zero.mp hw.noneFailed, fun _ => ?_,
      fun h => ?_, fun h => ?_⟩ hspent, hphase, hflight.symm, hfailed⟩
    · show count w.upgrade .committed none < waveSize u
      rw [← hw.flight]
      omega
    · exact absurd hbot h
    · rw [hbot] at h
      cases h
  · rename_i hsent
    rw [if_neg hsent, ← hw.flight] at hflight
    exact ⟨hw.sent.kept_after hkept, hphase, hflight.symm, hfailed⟩

/-- A whole wave, by induction on its rows. It is only entered with no failed row, which is what
`InOrder` asks of each commit. -/
theorem wave_inv (env : TickEnv) {u : PendingUpgrade} (hfailed : count u .failed none = 0) :
    WaveInv u (wave env u) := by
  refine List.foldlRecOn (motive := WaveInv u) (List.range u.nodes.length) _ ?_ ?_
  · exact ⟨.nil (.refl u), rfl, rfl, hfailed⟩
  · intro w hw ni _
    exact hw.step ni

/-! ### The hubs -/

/-- A peer hub that waits for its turn. -/
def ReadyPeer (n : UpgradeNode) : Prop := n.state = .ready ∧ n.kind = .peerHub

/-- The peer picked last is one of the ready ones. The induction carries it for the best so
far. -/
theorem latestReady_some {nodes : List UpgradeNode} {best : Option (Nat × Nat)}
    (hbest : ∀ b ∈ best, ∃ n, nodes[b.1]? = some n ∧ ReadyPeer n) {p : UpgradeNode × Nat}
    (hp : nodes[p.2]? = some p.1) : ∀ b ∈ latestReady best p, ∃ n, nodes[b.1]? = some n
    ∧ ReadyPeer n := by
  intro b hb
  unfold latestReady at hb
  split at hb
  · rename_i hturn
    simp only [Bool.and_eq_true, decide_eq_true_eq] at hturn
    split at hb
    · split at hb
      · cases hb
        exact ⟨p.1, hp, hturn⟩
      · exact hbest b hb
    · cases hb
      exact ⟨p.1, hp, hturn⟩
  · exact hbest b hb

/-- If no row was chosen, no peer hub waits. -/
theorem latestReady_none {l : List (UpgradeNode × Nat)} {best : Option (Nat × Nat)}
    (h : l.foldl latestReady best = none) : best = none ∧ ∀ p ∈ l, ¬ ReadyPeer p.1 := by
  induction l generalizing best with
  | nil => exact ⟨h, fun p hp => (List.not_mem_nil hp).elim⟩
  | cons q l ih =>
    obtain ⟨hq, hrest⟩ := ih h
    unfold latestReady at hq
    split at hq
    · split at hq
      · split at hq
        · cases hq
        · cases hq
      · cases hq
    · rename_i hturn
      refine ⟨hq, fun p hp => ?_⟩
      rcases List.mem_cons.mp hp with rfl | hp
      · simpa [ReadyPeer] using hturn
      · exact hrest p hp

/-- The next hub waits for its turn, and this one only when no other does. -/
theorem nextHub_spec {u : PendingUpgrade} {ni : Nat} (h : nextHub u = some ni) :
    ∃ n, u.nodes[ni]? = some n ∧ n.state = .ready ∧ n.kind ≠ .bot ∧
      (n.kind = .selfHub → ∀ m ∈ u.nodes, ¬ ReadyPeer m) := by
  unfold nextHub at h
  split at h
  · rename_i b hb
    cases h
    have hall : ∀ b ∈ u.nodes.zipIdx.foldl latestReady none, ∃ n, u.nodes[b.1]? = some n
      ∧ ReadyPeer n := by
      refine List.foldlRecOn (motive := fun best : Option (Nat × Nat) =>
        ∀ b ∈ best, ∃ n, u.nodes[b.1]? = some n ∧ ReadyPeer n) u.nodes.zipIdx _ ?_ ?_
      · intro b hb
        cases hb
      · intro best hbest p hp
        exact latestReady_some hbest (List.mem_zipIdx_iff_getElem?.mp hp)
    obtain ⟨n, hn, hready, hkind⟩ := hall b hb
    refine ⟨n, hn, hready, by rw [hkind]; decide, fun hself => ?_⟩
    rw [hkind] at hself
    cases hself
  · rename_i hnone
    obtain ⟨hlt, hp, -⟩ := List.findIdx?_eq_some_iff_getElem.mp h
    simp only [Bool.and_eq_true, beq_iff_eq] at hp
    refine ⟨_, List.getElem?_eq_getElem hlt, hp.1, by rw [hp.2]; decide, fun _ m hm => ?_⟩
    obtain ⟨i, hi⟩ := List.mem_iff_getElem?.mp hm
    exact (latestReady_none hnone).2 (m, i) (List.mem_zipIdx_iff_getElem?.mpr hi)

/-! ### One tick -/

/-- COMMITs counted from an earlier table. -/
theorem Sent.from_earlier {t u v : PendingUpgrade} {cs : List Commit} (h : Sent u v cs)
    (hkept : Kept t u) :
    Sent t v cs :=
  ⟨hkept.trans h.kept, fun c hc =>
   ⟨(h.inOrder c hc).1, hkept.trans (h.inOrder c hc).2.1, (h.inOrder c hc).2.2⟩,
    h.rows⟩

/-- A hub whose turn it is: no bot is ready any more and none is in flight. -/
theorem commitHub_sent (env : TickEnv) {u : PendingUpgrade} (hu : Table u)
    (hroll : u.phase = .rolling) (hfailed : count u .failed none = 0)
    (hbots : count u .ready (some .bot) = 0) (hflight : count u .committed none = 0) {ni : Nat}
    (h : nextHub u = some ni) :
    Sent u (commitHub env u ni).1 (commitHub env u ni).2 := by
  obtain ⟨n, hn, hready, hkind, hlast⟩ := nextHub_spec h
  obtain ⟨hkept, hspent⟩ := commitNode_kept env hn hready
  have hnone := count_eq_zero.mp hfailed
  have hidle := count_eq_zero.mp hflight
  unfold commitHub
  rw [hn]
  simp only []
  split
  · refine (Sent.nil (.refl u)).concat hkept rfl
      ⟨hn, hready, hnone, fun hbot => absurd hbot hkind, fun _ =>
      ⟨count_kind_eq_zero.mp hbots, hidle⟩, fun hself m hm hpeer => ?_⟩ hspent
    -- a peer hub of a rolling run is not pending, not ready, not on its way and not failed
    have hturn : m.state ≠ .ready := fun hr => hlast hself m hm ⟨hr, hpeer⟩
    obtain ⟨i, hi⟩ := List.mem_iff_getElem?.mp hm
    have hpend := hu.fixed hroll hi
    have hcommitted := hidle m hm
    have hfail := hnone m hm
    cases hst : m.state with
    | pending => exact absurd hst hpend
    | ready => exact absurd hst hturn
    | unable => exact .inr rfl
    | committed => exact absurd hst hcommitted
    | done => exact .inl rfl
    | failed => exact absurd hst hfail
  · exact .nil hkept

/-- What the rolling part of a tick does: it commits in order, and nothing at all once a row has
failed. -/
theorem roll_sent (env : TickEnv) (now : Int) {u : PendingUpgrade} (hu : Table u)
    (hroll : u.phase = .rolling) :
    Sent u (roll env now u).1 (roll env now u).2 ∧
      ((∃ n ∈ u.nodes, n.state = .failed) → (roll env now u).2 = []) := by
  unfold roll
  split
  · exact ⟨.nil ((kept_modifyNode fun n _ => rowKept_fail _ n).trans (finish_kept _ .aborted _)),
      fun _ => rfl⟩
  split
  · exact ⟨.nil (finish_kept u .aborted _), fun _ => rfl⟩
  rename_i hfailed
  have hzero : count u .failed none = 0 := Nat.eq_zero_of_not_pos hfailed
  have hnone : ¬ ∃ n ∈ u.nodes, n.state = .failed := by
    rintro ⟨n, hn, hst⟩
    exact count_eq_zero.mp hzero n hn hst
  split
  · exact ⟨(wave_inv env hzero).sent, fun h => absurd h hnone⟩
  rename_i hbots
  split
  · exact ⟨.nil (.refl u), fun _ => rfl⟩
  rename_i hflight
  split
  · rename_i ni hni
    exact ⟨commitHub_sent env hu hroll hzero (Nat.eq_zero_of_not_pos hbots)
      (Nat.eq_zero_of_not_pos hflight) hni, fun h => absurd h hnone⟩
  · exact ⟨.nil (finish_kept u .done _), fun _ => rfl⟩

/-- Every COMMIT of a wave is counted on the table the wave began with. -/
theorem wave_counted (env : TickEnv) (u : PendingUpgrade) :
    ∀ c ∈ (wave env u).commits, c.wave = u := by
  refine List.foldlRecOn (motive := fun w : Wave => ∀ c ∈ w.commits, c.wave = u)
    (List.range u.nodes.length) _ (fun _ hc => (List.not_mem_nil hc).elim) ?_
  intro w hw ni _ c hc
  unfold waveStep at hc
  split at hc
  · exact hw c hc
  split at hc
  · exact hw c hc
  split at hc
  · exact hw c hc
  simp only [] at hc
  split at hc
  · rcases List.mem_append.mp hc with hc | hc
    · exact hw c hc
    · rw [List.mem_singleton.mp hc]
  · exact hw c hc

/-- Each commit of a tick is counted against the wave as it was when the tick began. -/
theorem roll_counted (env : TickEnv) (now : Int) (u : PendingUpgrade) :
    ∀ c ∈ (roll env now u).2, c.wave = u := by
  intro c hc
  unfold roll at hc
  split at hc
  · cases hc
  split at hc
  · cases hc
  split at hc
  · exact wave_counted env u c hc
  split at hc
  · cases hc
  split at hc
  · unfold commitHub at hc
    split at hc
    · cases hc
    simp only [] at hc
    split at hc
    · rw [List.mem_singleton.mp hc]
    · cases hc
  · cases hc

/-- The same for a whole tick, which starts by giving up on rows that were committed too long ago.
-/
theorem tick_counted (env : TickEnv) (now : Int) (u : PendingUpgrade) :
    ∀ c ∈ (tick env now u).2, c.wave = opsGrace now u := by
  intro c hc
  unfold tick at hc
  split at hc
  · cases hc
  split at hc
  · cases hc
  · exact roll_counted env now _ c hc
  · cases hc

/-- The COMMITs of a tick, and that there are none once a node failed. -/
theorem tick_spec (env : TickEnv) (now : Int) {u : PendingUpgrade} (hu : Table u) :
    Sent u (tick env now u).1 (tick env now u).2 ∧ Table (tick env now u).1 ∧
      ((∃ n ∈ u.nodes, n.state = .failed) → (tick env now u).2 = []) := by
  unfold tick
  split
  · exact ⟨.nil (.refl u), hu, fun _ => rfl⟩
  split
  · split
    · exact ⟨.nil (.refl u), hu, fun _ => rfl⟩
    · obtain ⟨hkept, htable⟩ := closePrepare_table now hu
      exact ⟨.nil hkept, htable, fun _ => rfl⟩
  · rename_i hroll
    have hgrace := opsGrace_kept now u
    obtain ⟨hsent, hfailed⟩ := roll_sent env now (hu.kept hgrace fun _ => hroll) hroll
    refine ⟨hsent.from_earlier hgrace, hu.kept (hgrace.trans hsent.kept) fun _ => hroll, ?_⟩
    rintro ⟨n, hn, hst⟩
    refine hfailed ?_
    obtain ⟨i, hi⟩ := List.mem_iff_getElem?.mp hn
    obtain ⟨n', hn', -, -, -, hst'⟩ := hgrace.stays.row hi
    exact ⟨n', List.mem_of_getElem? hn', hst' hst⟩
  · exact ⟨.nil (.refl u), hu, fun _ => rfl⟩

/-! ### One event -/

/-- What an event can do: send COMMITs and use up turns, take an answer, or start a run. -/
inductive StepOutcome (d : Driver) : UpgradeEvent → Driver → List (Nat × Commit) → Prop
  | sent {ev : UpgradeEvent} {d' : Driver} {cs : List Commit} (hruns : d'.runs = d.runs)
      (hsent : Sent d.upgrade d'.upgrade cs) (htable : Table d'.upgrade)
      (hfailed : (∃ n ∈ d.upgrade.nodes, n.state = .failed) → cs = [])
      (hcounted : ∀ c ∈ cs, ∃ env now, ev = .tick env now ∧ c.wave = opsGrace now d.upgrade) :
      StepOutcome d ev d' (cs.map fun c => (d.runs, c))
  | answer {now : Int} {rollup : Option Str} {payload : Str} {fromPeer : Option Str} {d' : Driver}
      (hup : d.replaced = false) (hruns : d'.runs = d.runs)
      (hnote : noteReady now rollup d.upgrade payload fromPeer = d'.upgrade)
      (htable : Table d'.upgrade) : StepOutcome d (.ready now rollup payload fromPeer) d' []
  | start {env : StartEnv} {a : StartArgs} {d' : Driver} (hup : d.replaced = false)
      (hruns : d'.runs = d.runs + 1) (hstart : start env d.upgrade a = some d'.upgrade) :
      StepOutcome d (.start env a) d' []

/-- An event that sends nothing. -/
theorem StepOutcome.quiet {d d' : Driver} {ev : UpgradeEvent} (hu : Table d.upgrade)
    (hruns : d'.runs = d.runs) (hkept : Kept d.upgrade d'.upgrade)
    (hphase : d'.upgrade.phase = .rolling → d.upgrade.phase = .rolling) :
    StepOutcome d ev d' [] := by
  have hnone : Sent d.upgrade d'.upgrade [] := .nil hkept
  exact .sent hruns hnone (hu.kept hkept hphase) (fun _ => rfl)
    fun _ hc => (List.not_mem_nil hc).elim

/-- A result changes rows, not the phase. -/
theorem noteResult_phase (now : Int) (rollup : Option Str) (u : PendingUpgrade) (payload : Str) :
    (noteResult now rollup u payload).phase = u.phase := by
  unfold noteResult
  simp only []
  split
  · rfl
  split
  · rfl
  split
  · rfl
  split
  · rfl
  split <;> rfl

/-- Nor does a node that is seen again. -/
theorem notePresence_phase (now : Int) (u : PendingUpgrade) (uuid version variant : Str) :
    (notePresence now u uuid version variant).phase = u.phase := by
  unfold notePresence
  split
  · rfl
  split <;> rfl

/-- What an event can do to the driver: it sends commits, takes an answer of a node, or starts a
run. This is the one place where the step function is unfolded. -/
theorem step_outcome {d : Driver} (hu : Table d.upgrade) (ev : UpgradeEvent) :
    StepOutcome d ev (d.step ev).1 (d.step ev).2 := by
  unfold Driver.step
  split
  · exact .quiet hu rfl (.refl _) id
  rename_i hup
  rw [Bool.not_eq_true] at hup
  cases ev with
  | start env a =>
    simp only []
    split
    · exact .quiet hu rfl (.refl _) id
    · rename_i u' hu'
      exact .start hup rfl hu'
  | ready now rollup payload fromPeer => exact .answer hup rfl rfl (noteReady_table hu)
  | result now rollup payload =>
    exact .quiet hu rfl (noteResult_kept now rollup _ payload)
      fun h => (noteResult_phase now rollup _ payload) ▸ h
  | presence now uuid version variant =>
    exact .quiet hu rfl (notePresence_kept now _ uuid version variant)
      fun h => (notePresence_phase now _ uuid version variant) ▸ h
  | tick env now =>
    obtain ⟨hsent, htable, hfailed⟩ := tick_spec env now hu
    exact .sent rfl hsent htable hfailed fun c hc => ⟨env, now, rfl, tick_counted env now _ c hc⟩
  | abort reason => exact .quiet hu rfl (finish_kept _ .aborted reason) fun h => by cases h

/-! ### Runs -/

/-- The driver after some events, and the COMMITs it sent with the numbers of their runs. -/
def driverRun (evs : List UpgradeEvent) : Driver × List (Nat × Commit) :=
  Trace.run Driver.step {} evs

/-- The event is the ready answer of row `i` while the run prepares: a READY frame, or for this
hub the start of the run. -/
inductive AnswersReady (d : Driver) : UpgradeEvent → Nat → Prop
  | node {now : Int} {rollup : Option Str} {payload : Str} {fromPeer : Option Str} {i : Nat}
      {n : UpgradeNode}
      (hrow : (noteReady now rollup d.upgrade payload fromPeer).nodes[i]? = some n)
      (hanswer : Answer d.upgrade (noteReady now rollup d.upgrade payload fromPeer) payload i n) :
      AnswersReady d (.ready now rollup payload fromPeer) i
  | hub {env : StartEnv} {a : StartArgs} {u : PendingUpgrade} {i : Nat} {want : Str}
      (hstart : start env d.upgrade a = some u) (hphase : u.phase = .prepare)
      (hrow : u.nodes[i]? = some (selfNode env u))
      (hselected : selected u env.hubUuid = some want)
      (hcan : env.canTake u.hubVer (if want.isEmpty then u.variant else want) u.minFrom
      = .ok ()) :
      AnswersReady d (.start env a) i

/-- Among the events is the ready answer of row `i` in run number `run`. -/
def Answered (evs : List UpgradeEvent) (run i : Nat) : Prop :=
  ∃ pre ev suf, evs = pre ++ ev :: suf ∧ AnswersReady (driverRun pre).1 ev i ∧
    ((driverRun pre).1.step ev).1.runs = run

/-- A node that has answered has answered in the longer run too. -/
theorem Answered.concat {evs : List UpgradeEvent} {run i : Nat} (h : Answered evs run i)
    (ev : UpgradeEvent) : Answered (evs ++ [ev]) run i := by
  obtain ⟨pre, e, suf, rfl, hans, hrun⟩ := h
  exact ⟨pre, e, suf ++ [ev], by simp, hans, hrun⟩

/-- Two COMMITs go to two nodes: of different runs, or to different rows, and of these no two have
one uuid, this hub and nodes without a uuid apart. -/
def OtherNode (x y : Nat × Commit) : Prop :=
  x.1 = y.1 → x.2.row ≠ y.2.row ∧
    (x.2.node.kind ≠ .selfHub → y.2.node.kind ≠ .selfHub → x.2.node.uuid ≠ [] →
      x.2.node.uuid ≠ y.2.node.uuid)

/-- The turn of the row is used up, and it is the first row of its uuid. -/
def Taken (u : PendingUpgrade) (c : Commit) : Prop :=
  SpentRow u c.row c.node ∧
    (c.node.kind ≠ .selfHub → c.node.uuid ≠ [] → FirstOf u c.row c.node.uuid)

/-- A row that a commit has spent stays spent. -/
theorem Taken.stays {u u' : PendingUpgrade} {c : Commit} (h : Taken u c) (hstays : Stays u u') :
    Taken u' c := by
  refine ⟨h.1.stays hstays, fun hkind huuid => ?_⟩
  obtain ⟨n, hn, -⟩ := h.1
  exact (h.2 hkind huuid).stays hstays (List.getElem?_eq_some_iff.mp hn).1.le

/-- Two commits that spent different rows went to different nodes: the first row of a uuid is the
one that is asked. -/
theorem Taken.otherNode {u : PendingUpgrade} {x y : Nat × Commit} (hx : Taken u x.2)
    (hy : Taken u y.2) (hrow : x.2.row ≠ y.2.row) : OtherNode x y := by
  refine fun _ => ⟨hrow, fun hkx hky hne heq => ?_⟩
  obtain ⟨n, hn, -, hnu, -⟩ := hx.1
  obtain ⟨m, hm, -, hmu, -⟩ := hy.1
  rcases Nat.lt_or_gt_of_ne hrow with hlt | hlt
  · exact hy.2 hky (heq ▸ hne) _ hlt n hn (hnu.trans heq)
  · exact hx.2 hkx hne _ hlt m hm (hmu.trans heq.symm)

/-- A COMMIT of a run: in order, for a node that is selected and answered ready in time, and sent
by a tick of the run that counted the wave. -/
structure Rightful (evs : List UpgradeEvent) (x : Nat × Commit) : Prop where
  inOrder : InOrder x.2
  selected : (selected x.2.before x.2.node.uuid).isSome = true
  answered : Answered evs x.1 x.2.row
  counted : ∃ pre env now suf, evs = pre ++ .tick env now :: suf ∧ (driverRun pre).1.runs = x.1 ∧
    x.2.wave = opsGrace now (driverRun pre).1.upgrade

/-- A rightful commit is one in the longer run too. -/
theorem Rightful.concat {evs : List UpgradeEvent} {x : Nat × Commit} (h : Rightful evs x)
    (ev : UpgradeEvent) : Rightful (evs ++ [ev]) x := by
  obtain ⟨pre, env, now, suf, rfl, hrun, hwave⟩ := h.counted
  exact ⟨h.inOrder, h.selected, h.answered.concat ev, pre, env, now, suf ++ [ev], by simp,
    hrun, hwave⟩

/-- What holds after some events, of the driver and of the COMMITs it sent. -/
structure DriverInv (evs : List UpgradeEvent) (p : Driver × List (Nat × Commit)) : Prop where
  table : Table p.1.upgrade
  answered : ∀ {i : Nat} {n : UpgradeNode}, p.1.upgrade.nodes[i]? = some n → n.state = .ready →
    Answered evs p.1.runs i
  past : ∀ x ∈ p.2, x.1 ≤ p.1.runs
  taken : ∀ x ∈ p.2, x.1 = p.1.runs → Taken p.1.upgrade x.2
  once : p.2.Pairwise OtherNode
  rightful : ∀ x ∈ p.2, Rightful evs x

/-- The COMMITs of an event, beside those there were. -/
theorem Sent.taken {u u' : PendingUpgrade} {cs : List Commit} (h : Sent u u' cs) (hu : Table u)
    {c : Commit} (hc : c ∈ cs) : Taken u' c ∧ (selected c.before c.node.uuid).isSome = true ∧
      ∃ n, u.nodes[c.row]? = some n ∧ n.state = .ready := by
  obtain ⟨horder, hkept, hspent⟩ := h.inOrder c hc
  obtain ⟨n, hn, hready, huuid, hkind⟩ := hkept.ready horder.row horder.ready
  refine ⟨⟨hspent, fun hk hne => ?_⟩,
    (hu.toReadyRows.kept hkept).selected horder.row horder.ready, n, hn, hready⟩
  have hfirst := hu.first hn hready (hkind ▸ hk) (huuid ▸ hne)
  rw [huuid]
  exact hfirst.stays h.kept.stays (List.getElem?_eq_some_iff.mp hn).1.le

/-- An event that sends commits. They are rightful, they go to rows not spent before, and the rows
they go to are spent after. -/
theorem DriverInv.sent {evs : List UpgradeEvent} {d d' : Driver} {log : List (Nat × Commit)}
    {cs : List Commit} (h : DriverInv evs (d, log)) (hd : (driverRun evs).1 = d)
    (ev : UpgradeEvent) (hruns : d'.runs = d.runs) (hsent : Sent d.upgrade d'.upgrade cs)
    (htable : Table d'.upgrade)
    (hcounted : ∀ c ∈ cs, ∃ env now, ev = .tick env now ∧ c.wave = opsGrace now d.upgrade) :
    DriverInv (evs ++ [ev]) (d', log ++ cs.map fun c => (d.runs, c)) := by
  have hnew : ∀ x ∈ cs.map (fun c => (d.runs, c)), x.1 = d.runs ∧ x.2 ∈ cs := by
    intro x hx
    obtain ⟨c, hc, rfl⟩ := List.mem_map.mp hx
    exact ⟨rfl, hc⟩
  refine ⟨htable, fun hn hready => ?_, fun x hx => ?_, fun x hx hrun => ?_, ?_, fun x hx => ?_⟩
  · obtain ⟨n, hn', hready', -⟩ := hsent.kept.ready hn hready
    exact hruns ▸ (h.answered hn' hready').concat ev
  · rcases List.mem_append.mp hx with hx | hx
    · exact hruns ▸ h.past x hx
    · exact ((hnew x hx).1.trans hruns.symm).le
  · rcases List.mem_append.mp hx with hx | hx
    · exact (h.taken x hx (hrun.trans hruns)).stays hsent.kept.stays
    · exact (hsent.taken h.table (hnew x hx).2).1
  · rw [List.pairwise_append]
    refine ⟨h.once, ?_, fun x hx y hy hrun => ?_⟩
    · rw [List.pairwise_map]
      have hrows : cs.Pairwise fun c c' => c.row ≠ c'.row := List.pairwise_map.mp hsent.rows
      refine hrows.imp_of_mem fun {c c'} hc hc' hrow => ?_
      exact Taken.otherNode (x := (d.runs, c)) (y := (d.runs, c')) (hsent.taken h.table hc).1
        (hsent.taken h.table hc').1 hrow
    · -- an earlier COMMIT used up the turn of its row, a new one is the turn of its row
      have hx' := h.taken x hx (hrun.trans (hnew y hy).1)
      obtain ⟨hy', -, n, hn, hready⟩ := hsent.taken h.table (hnew y hy).2
      refine (hx'.stays hsent.kept.stays).otherNode hy' (fun hrow => ?_) hrun
      obtain ⟨m, hm, hspent, -⟩ := hx'.1
      rw [hrow, hn] at hm
      cases hm
      exact hspent.2 hready
  · rcases List.mem_append.mp hx with hx | hx
    · exact (h.rightful x hx).concat ev
    · obtain ⟨hrun, hc⟩ := hnew x hx
      obtain ⟨-, hsel, n, hn, hready⟩ := hsent.taken h.table hc
      obtain ⟨env, now, rfl, hwave⟩ := hcounted x.2 hc
      exact ⟨(hsent.inOrder x.2 hc).1, hsel, hrun ▸ (h.answered hn hready).concat _,
        evs, env, now, [], rfl, by rw [hd, hrun], by rw [hd, hwave]⟩

/-- An answer makes a row ready in the run it belongs to, and the answer is in the events. -/
theorem DriverInv.answer {evs : List UpgradeEvent} {d d' : Driver} {log : List (Nat × Commit)}
    (h : DriverInv evs (d, log)) (hd : (driverRun evs).1 = d) {now : Int} {rollup : Option Str}
    {payload : Str} {fromPeer : Option Str}
    (hstep : (d.step (.ready now rollup payload fromPeer)).1 = d') (hruns : d'.runs = d.runs)
    (hnote : noteReady now rollup d.upgrade payload fromPeer = d'.upgrade)
    (htable : Table d'.upgrade) :
    DriverInv (evs ++ [.ready now rollup payload fromPeer]) (d', log) := by
  obtain ⟨hstays, -, hrows⟩ := noteReady_spec now rollup d.upgrade payload fromPeer hnote
  refine ⟨htable, fun {i n} hn hready => ?_, fun x hx => hruns ▸ h.past x hx,
    fun x hx hrun => (h.taken x hx (hrun.trans hruns)).stays hstays, h.once,
    fun x hx => (h.rightful x hx).concat _⟩
  · rcases hrows hn (fun hs => hs.2 hready) with ⟨m, hm, hst⟩ | ⟨-, hans⟩
    · exact hruns ▸ (h.answered hm (hst ▸ hready)).concat _
    · refine ⟨evs, _, [], rfl, ?_, by rw [hd, hstep]⟩
      rw [hd]
      rw [← hnote] at hn hans
      exact .node hn hans

/-- A new run begins with rows of its own, so commits of it are to other rows than those
before. -/
theorem DriverInv.start {evs : List UpgradeEvent} {d d' : Driver} {log : List (Nat × Commit)}
    (h : DriverInv evs (d, log)) (hd : (driverRun evs).1 = d) {env : StartEnv} {a : StartArgs}
    (hstep : (d.step (.start env a)).1 = d') (hruns : d'.runs = d.runs + 1)
    (hstart : start env d.upgrade a = some d'.upgrade) :
    DriverInv (evs ++ [.start env a]) (d', log) := by
  obtain ⟨-, hphase, hself⟩ := start_spec hstart
  refine ⟨start_table hstart, fun {i n} hn hready => ?_, fun x hx => ?_,
    fun x hx hrun => ?_, h.once, fun x hx => (h.rightful x hx).concat _⟩
  · have hn' := hself n (List.mem_of_getElem? hn) hready
    rw [hn'] at hn hready
    obtain ⟨want, hsel, hcan⟩ := selfAnswer_ready hready
    refine ⟨evs, _, [], rfl, ?_, by rw [hd, hstep]⟩
    rw [hd]
    exact .hub hstart hphase hn hsel hcan
  · exact (h.past x hx).trans (by rw [hruns]; exact Nat.le_succ _)
  · have hpast : x.1 ≤ d.runs := h.past x hx
    have hrun' : x.1 = d'.runs := hrun
    omega

/-- The invariant holds after every list of events, by induction from the end. -/
theorem driverInv_run (evs : List UpgradeEvent) : DriverInv evs (driverRun evs) := by
  have hall : DriverInv evs (driverRun evs) ∧ driverRun evs = driverRun evs := by
    refine Trace.run_induction Driver.step
      (P := fun evs p => DriverInv evs p ∧ driverRun evs = p) ?_ ?_ evs
    · refine ⟨⟨⟨⟨fun hn => ?_, fun hn => ?_⟩, fun _ {i n} hn => ?_⟩, fun hn => ?_, fun x hx => ?_,
        fun x hx => ?_, .nil, fun x hx => ?_⟩, rfl⟩
      all_goals first | cases hn | exact (List.not_mem_nil hx).elim
    · rintro evs ⟨d, log⟩ ev ⟨h, hd⟩
      have hd' : (driverRun evs).1 = d := by rw [hd]
      refine ⟨?_, by rw [driverRun, Trace.run_concat, ← driverRun, hd]⟩
      have hout := step_outcome h.table ev
      unfold Trace.more
      generalize hstep : (d.step ev).1 = d' at hout
      generalize (d.step ev).2 = cs at hout
      cases hout with
      | sent hruns hsent htable _ hcounted => exact h.sent hd' ev hruns hsent htable hcounted
      | answer _ hruns hnote htable =>
        rw [List.append_nil]
        exact h.answer hd' hstep hruns hnote htable
      | start _ hruns hstart =>
        rw [List.append_nil]
        exact h.start hd' hstep hruns hstart
  exact hall.1

/-- A failed node stays failed for the rest of its run, and the run sends no COMMIT any more. -/
theorem failed_stops {d : Driver} (hu : Table d.upgrade)
    (hfailed : ∃ n ∈ d.upgrade.nodes, n.state = .failed) (suf : List UpgradeEvent) :
    ∀ x ∈ (Trace.run Driver.step d suf).2, x.1 ≠ d.runs := by
  have hall : Table (Trace.run Driver.step d suf).1.upgrade ∧
      d.runs ≤ (Trace.run Driver.step d suf).1.runs ∧
      ((Trace.run Driver.step d suf).1.runs = d.runs →
        ∃ n ∈ (Trace.run Driver.step d suf).1.upgrade.nodes, n.state = .failed) ∧
      ∀ x ∈ (Trace.run Driver.step d suf).2, x.1 ≠ d.runs := by
    refine Trace.run_induction Driver.step (P := fun _ p => Table p.1.upgrade
      ∧ d.runs ≤ p.1.runs ∧
      (p.1.runs = d.runs → ∃ n ∈ p.1.upgrade.nodes, n.state = .failed) ∧ ∀ x ∈ p.2, x.1 ≠ d.runs)
      ⟨hu, Nat.le_refl _, fun _ => hfailed, fun x hx => (List.not_mem_nil hx).elim⟩ ?_ suf
    rintro - ⟨e, log⟩ ev ⟨htable, hle, hfail, hlog⟩
    have hout := step_outcome htable ev
    unfold Trace.more
    generalize (e.step ev).1 = e' at hout
    generalize (e.step ev).2 = cs at hout
    -- a failed row of the run is still there and failed
    have hstay : Stays e.upgrade e'.upgrade → e.runs = d.runs →
        ∃ n ∈ e'.upgrade.nodes, n.state = .failed := by
      intro hstays hrun
      obtain ⟨n, hn, hst⟩ := hfail hrun
      obtain ⟨i, hi⟩ := List.mem_iff_getElem?.mp hn
      obtain ⟨n', hn', -, -, -, hst'⟩ := hstays.row hi
      exact ⟨n', List.mem_of_getElem? hn', hst' hst⟩
    cases hout with
    | sent hruns hsent htable' hnone =>
      refine ⟨htable', hruns ▸ hle, fun hrun => hstay hsent.kept.stays (hruns ▸ hrun),
        fun x hx => ?_⟩
      rcases List.mem_append.mp hx with hx | hx
      · exact hlog x hx
      · intro hrun
        obtain ⟨c, hc, rfl⟩ := List.mem_map.mp hx
        rw [hnone (hfail hrun)] at hc
        exact (List.not_mem_nil hc).elim
    | answer _ hruns hnote htable' =>
      have hstays := (noteReady_spec _ _ e.upgrade _ _ hnote).1
      rw [List.append_nil]
      exact ⟨htable', hruns ▸ hle, fun hrun => hstay hstays (hruns ▸ hrun), hlog⟩
    | start _ hruns hstart =>
      have hle' : d.runs ≤ e.runs := hle
      rw [List.append_nil]
      refine ⟨start_table hstart, ?_, fun hrun => ?_, hlog⟩
      · show d.runs ≤ e'.runs
        omega
      · have hrun' : e'.runs = d.runs := hrun
        omega
  exact hall.2.2.2

/-- The life of a node in every run of the driver, whatever frames arrive and in whatever order.
No node is sent two COMMITs, every COMMIT is rightful, and once a node of a run failed the run
sends no more. -/
theorem upgrade_lifecycle (evs : List UpgradeEvent) :
    (driverRun evs).2.Pairwise OtherNode ∧ (∀ x ∈ (driverRun evs).2, Rightful evs x) ∧
      ∀ pre suf, evs = pre ++ suf → (∃ n ∈ (driverRun pre).1.upgrade.nodes, n.state = .failed) →
        ∀ x ∈ (driverRun evs).2, x.1 = (driverRun pre).1.runs → x ∈ (driverRun pre).2 := by
  have hinv := driverInv_run evs
  refine ⟨hinv.once, hinv.rightful, ?_⟩
  rintro pre suf rfl hfailed x hx hrun
  rw [driverRun, Trace.run_append, ← driverRun] at hx
  rcases List.mem_append.mp hx with hx | hx
  · exact hx
  · exact absurd hrun (failed_stops (driverInv_run pre).table hfailed suf x hx)

end IrcHub.Proofs
