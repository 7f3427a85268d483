import IrcHub.Hub.Upgrade

/-!
# `IrcHub.Proofs.Upgrade.Table`: what the steps of a run do to its table

Rows are never removed, and a row keeps its uuid and its kind. A row that had its turn does not
get another one, and a failed row stays failed (`Stays`). Only the start of a run and an answer
while the run prepares make a row ready; every other step leaves the rows whose turn is still to
come as they are (`Kept`).

* `Table`: what the table of a run satisfies at every moment
* `start_table`, `noteReady_spec`: the two steps that make rows ready
* `noteResult_kept`, `notePresence_kept`, `opsGrace_kept`: the others
* `closePrepare_table`: the end of the time for answers, after which nobody is waited for

A node is known by its uuid, and of several rows of one uuid the first is the one that is asked
(`FirstOf`). Nodes without a uuid are apart, since an answer cannot name them.
-/

set_option autoImplicit false

namespace IrcHub.Proofs

open IrcHub.Hub Str
open String (utf8Len)

/-! ### Rows -/

/-- The node had its turn, or does not take part. -/
def Spent (st : UpgradeNodeState) : Prop := st ≠ .pending ∧ st ≠ .ready

/-- A row that cannot be upgraded is spent. -/
theorem spent_unable : Spent .unable := ⟨by decide, by decide⟩
/-- So is one that was told to go ahead. -/
theorem spent_committed : Spent .committed := ⟨by decide, by decide⟩
/-- So is one that is done. -/
theorem spent_done : Spent .done := ⟨by decide, by decide⟩
/-- So is one that failed. -/
theorem spent_failed : Spent .failed := ⟨by decide, by decide⟩

/-- What a row may become without an answer. -/
structure RowKept (n n' : UpgradeNode) : Prop where
  uuid : n'.uuid = n.uuid
  kind : n'.kind = n.kind
  unspent : ¬ Spent n'.state → n' = n
  failed : n.state = .failed → n'.state = .failed

/-- A row that does not change is kept. -/
theorem RowKept.refl (n : UpgradeNode) : RowKept n n := ⟨rfl, rfl, fun _ => rfl, id⟩

/-- A row that moves on. -/
theorem RowKept.of_spent {n n' : UpgradeNode} (huuid : n'.uuid = n.uuid)
    (hkind : n'.kind = n.kind) (hspent : Spent n'.state) (hfailed : n.state ≠ .failed) :
    RowKept n n' :=
  ⟨huuid, hkind, fun h => absurd hspent h, fun h => absurd h hfailed⟩

/-- The rows of a table stay, and their turns are used up once. -/
structure Stays (u u' : PendingUpgrade) : Prop where
  select : u'.select = u.select
  row : ∀ {i : Nat} {n : UpgradeNode}, u.nodes[i]? = some n →
    ∃ n', u'.nodes[i]? = some n' ∧ n'.uuid = n.uuid ∧ n'.kind = n.kind ∧
      (Spent n.state → Spent n'.state) ∧ (n.state = .failed → n'.state = .failed)

/-- The rows stay, and no turn is added. -/
structure Kept (u u' : PendingUpgrade) : Prop where
  stays : Stays u u'
  length : u'.nodes.length = u.nodes.length
  unspent : ∀ {i : Nat} {n' : UpgradeNode}, u'.nodes[i]? = some n' → ¬ Spent n'.state →
    u.nodes[i]? = some n'

/-- A table that does not change stays. -/
theorem Stays.refl (u : PendingUpgrade) : Stays u u := ⟨rfl, fun h => ⟨_, h, rfl, rfl, id, id⟩⟩

/-- Steps under which rows stay compose. -/
theorem Stays.trans {u v w : PendingUpgrade} (h : Stays u v) (h' : Stays v w) : Stays u w := by
  refine ⟨h'.select.trans h.select, fun hn => ?_⟩
  obtain ⟨m, hm, huuid, hkind, hspent, hfailed⟩ := h.row hn
  obtain ⟨k, hk, huuid', hkind', hspent', hfailed'⟩ := h'.row hm
  exact ⟨k, hk, huuid'.trans huuid, hkind'.trans hkind, fun hs => hspent' (hspent hs),
    fun hf => hfailed' (hfailed hf)⟩

/-- A table that does not change is kept. -/
theorem Kept.refl (u : PendingUpgrade) : Kept u u := ⟨.refl u, rfl, fun h _ => h⟩

/-- Steps that keep the table compose: a row that is not spent after both was not spent between
them. -/
theorem Kept.trans {u v w : PendingUpgrade} (h : Kept u v) (h' : Kept v w) : Kept u w := by
  refine ⟨h.stays.trans h'.stays, h'.length.trans h.length, fun hn hun => ?_⟩
  exact h.unspent (h'.unspent hn hun) hun

/-- Fields outside the table do not matter. -/
theorem Kept.of_nodes {u v w : PendingUpgrade} (h : Kept u v) (hnodes : w.nodes = v.nodes)
    (hselect : w.select = v.select) : Kept u w := by
  refine ⟨⟨hselect.trans h.stays.select, fun hn => ?_⟩, ?_, fun hn hun => ?_⟩
  · rw [hnodes]
    exact h.stays.row hn
  · rw [hnodes]
    exact h.length
  · rw [hnodes] at hn
    exact h.unspent hn hun

/-- Rows rewritten in place. -/
theorem kept_of_rows {u u' : PendingUpgrade} (hselect : u'.select = u.select)
    (hlen : u'.nodes.length = u.nodes.length)
    (hrow : ∀ (i : Nat) n n', u.nodes[i]? = some n → u'.nodes[i]? = some n' → RowKept n n') :
    Kept u u' := by
  refine ⟨⟨hselect, fun {i n} hn => ?_⟩, hlen, fun {i n'} hn' hun => ?_⟩
  · have hlt : i < u'.nodes.length := hlen ▸ (List.getElem?_eq_some_iff.mp hn).1
    have hkept := hrow i n _ hn (List.getElem?_eq_getElem hlt)
    refine ⟨_, List.getElem?_eq_getElem hlt, hkept.uuid, hkept.kind, fun hs => ?_, hkept.failed⟩
    by_contra hun
    rw [hkept.unspent hun] at hun
    exact hun hs
  · have hlt : i < u.nodes.length := hlen ▸ (List.getElem?_eq_some_iff.mp hn').1
    have heq := (hrow i _ n' (List.getElem?_eq_getElem hlt) hn').unspent hun
    rw [heq]
    exact List.getElem?_eq_getElem hlt

/-- The rows once one of them was changed, by position. -/
theorem getElem?_modifyNode (u : PendingUpgrade) (i : Nat)
    (f : UpgradeNode → UpgradeNode) (j : Nat) :
    (u.modifyNode i f).nodes[j]? = if i = j then (u.nodes[j]?).map f else u.nodes[j]? := by
  show (u.nodes.modify i f)[j]? = _
  rw [List.getElem?_modify]
  split
  · rfl
  · simp

/-- One row rewritten. -/
theorem kept_modifyNode {u : PendingUpgrade} {i : Nat} {f : UpgradeNode → UpgradeNode}
    (hf : ∀ n, u.nodes[i]? = some n → RowKept n (f n)) : Kept u (u.modifyNode i f) := by
  refine kept_of_rows rfl (List.length_modify ..) fun j n n' hn hn' => ?_
  rw [getElem?_modifyNode] at hn'
  split at hn'
  · rename_i hij
    subst hij
    rw [hn, Option.map_some, Option.some.injEq] at hn'
    exact hn' ▸ hf n hn
  · rw [hn, Option.some.injEq] at hn'
    exact hn' ▸ .refl n

/-- Every row rewritten. -/
theorem kept_map {u : PendingUpgrade} {f : UpgradeNode → UpgradeNode}
    (hf : ∀ n, RowKept n (f n)) :
    Kept u { u with nodes := u.nodes.map f } := by
  refine kept_of_rows rfl (List.length_map ..) fun j n n' hn hn' => ?_
  rw [List.getElem?_map, hn, Option.map_some, Option.some.injEq] at hn'
  exact hn' ▸ hf n

/-! ### The table -/

/-- No row before row `i` has the uuid. -/
def FirstOf (u : PendingUpgrade) (i : Nat) (uuid : Str) : Prop :=
  ∀ j < i, ∀ m, u.nodes[j]? = some m → m.uuid ≠ uuid

/-- The first row of a uuid stays the first. It has to be a place of the table already, as rows
are only added behind. -/
theorem FirstOf.stays {u u' : PendingUpgrade} (h : Stays u u') {i : Nat} {uuid : Str}
    (hi : i ≤ u.nodes.length) (hfirst : FirstOf u i uuid) : FirstOf u' i uuid := by
  intro j hj m hm
  have hlt : j < u.nodes.length := by omega
  obtain ⟨m', hm', huuid, -⟩ := h.row (List.getElem?_eq_getElem hlt)
  cases hm.symm.trans hm'
  rw [huuid]
  exact hfirst j hj _ (List.getElem?_eq_getElem hlt)

/-- What the ready rows of a run satisfy. -/
structure ReadyRows (u : PendingUpgrade) : Prop where
  /-- Of the rows of one uuid the first is asked. This hub asks itself. -/
  first : ∀ {i : Nat} {n : UpgradeNode}, u.nodes[i]? = some n → n.state = .ready →
    n.kind ≠ .selfHub → n.uuid ≠ [] → FirstOf u i n.uuid
  selected : ∀ {i : Nat} {n : UpgradeNode}, u.nodes[i]? = some n → n.state = .ready →
    (selected u n.uuid).isSome = true

/-- What the table of a run satisfies: when it rolls, nobody is waited for. -/
structure Table (u : PendingUpgrade) : Prop extends ReadyRows u where
  fixed : u.phase = .rolling → ∀ {i : Nat} {n : UpgradeNode}, u.nodes[i]? = some n →
    n.state ≠ .pending

/-- Who is selected depends on the selection alone. -/
theorem selected_congr {u u' : PendingUpgrade} (h : u'.select = u.select) (uuid : Str) :
    Hub.selected u' uuid = Hub.selected u uuid := by
  rw [Hub.selected, Hub.selected, h]

/-- A ready row was ready before. -/
theorem Kept.ready {u u' : PendingUpgrade} (h : Kept u u') {i : Nat} {n' : UpgradeNode}
    (hn' : u'.nodes[i]? = some n') (hready : n'.state = .ready) :
    ∃ n, u.nodes[i]? = some n ∧ n.state = .ready ∧ n'.uuid = n.uuid ∧ n'.kind = n.kind := by
  exact ⟨n', h.unspent hn' (fun hs => hs.2 hready), hready, rfl, rfl⟩

/-- What is known of ready rows survives a step that keeps the table: a row that is ready after
was the same row before. -/
theorem ReadyRows.kept {u u' : PendingUpgrade} (hu : ReadyRows u) (h : Kept u u') :
    ReadyRows u' := by
  refine ⟨fun {i n'} hn' hready hkind huuid => ?_, fun {i n'} hn' hready => ?_⟩
  · obtain ⟨n, hn, hready', huuid', hkind'⟩ := h.ready hn' hready
    have hi := (List.getElem?_eq_some_iff.mp hn).1
    rw [huuid']
    exact (hu.first hn hready' (hkind' ▸ hkind) (huuid' ▸ huuid)).stays h.stays hi.le
  · obtain ⟨n, hn, hready', huuid', -⟩ := h.ready hn' hready
    rw [selected_congr h.stays.select, huuid']
    exact hu.selected hn hready'

/-- A step that adds no turn keeps the table. -/
theorem Table.kept {u u' : PendingUpgrade} (hu : Table u) (h : Kept u u')
    (hphase : u'.phase = .rolling → u.phase = .rolling) : Table u' := by
  refine ⟨hu.toReadyRows.kept h, fun hroll i n' hn' hpend => ?_⟩
  exact hu.fixed (hphase hroll) (h.unspent hn' (fun hs => hs.1 hpend)) hpend

/-! ### Results, presence and time -/

/-- Whatever a result says, its row is spent. -/
theorem spent_resultState (status : Str) : Spent (resultState status) := by
  unfold resultState
  split
  · exact spent_done
  split
  · exact spent_unable
  · exact spent_failed

/-- A node that was committed comes back. -/
theorem rowKept_back (now : Int) {n : UpgradeNode} (h : n.state = .committed) :
    RowKept n (n.back now) := by
  unfold UpgradeNode.back
  split
  · refine .of_spent rfl rfl ?_ ?_
    · show Spent n.state
      rw [h]
      exact spent_committed
    · rw [h]
      decide
  · exact .refl n

/-- A result keeps the table: it can only spend a row. -/
theorem noteResult_kept (now : Int) (rollup : Option Str) (u : PendingUpgrade) (payload : Str) :
    Kept u (noteResult now rollup u payload) := by
  unfold noteResult
  simp only []
  split
  · exact .refl u
  split
  · exact .refl u
  split
  · exact .refl u
  rename_i m hm
  split
  · exact .refl u
  rename_i hcommitted
  rw [ne_eq, not_not] at hcommitted
  split
  · refine kept_modifyNode fun n hn => rowKept_back now ?_
    cases hm.symm.trans hn
    exact hcommitted
  · refine kept_modifyNode fun n hn => .of_spent rfl rfl (spent_resultState _) ?_
    cases hm.symm.trans hn
    rw [hcommitted]
    decide

/-- A node is seen again, with the version it has now. -/
theorem rowKept_seen (u : PendingUpgrade) (now : Int) (version variant : Str) (n : UpgradeNode) :
    RowKept n (n.seen u now version variant) := by
  unfold UpgradeNode.seen
  simp only []
  split
  · rename_i hdone
    split
    · exact .of_spent rfl rfl spent_failed (by rw [hdone]; decide)
    · exact .refl n
  split
  · exact .refl n
  rename_i hstate
  simp only [Bool.or_eq_true, decide_eq_true_eq, not_or, ne_eq, not_not] at hstate
  split
  · exact .refl n
  split
  · exact rowKept_back now hstate.1
  · exact .of_spent rfl rfl spent_done (by rw [hstate.1]; decide)

/-- A node that is seen keeps the table. -/
theorem notePresence_kept (now : Int) (u : PendingUpgrade) (uuid version variant : Str) :
    Kept u (notePresence now u uuid version variant) := by
  unfold notePresence
  split
  · exact .refl u
  split
  · exact .refl u
  · exact kept_modifyNode fun n _ => rowKept_seen u now version variant n

/-- So does giving up on rows that were committed too long ago. -/
theorem opsGrace_kept (now : Int) (u : PendingUpgrade) : Kept u (opsGrace now u) := by
  refine kept_map fun n => ?_
  unfold UpgradeNode.grace
  split
  · rename_i hcommitted
    simp only [Bool.and_eq_true, decide_eq_true_eq] at hcommitted
    exact .of_spent rfl rfl spent_done (by rw [hcommitted.1.1]; decide)
  · exact .refl n

/-- So does the end of a run. -/
theorem finish_kept (u : PendingUpgrade) (phase : UpgradePhase) (summary : Str) :
    Kept u (finish u phase summary) := (Kept.refl u).of_nodes rfl rfl

/-- A node leaves the run. -/
theorem rowKept_leave (reason : Str) {n : UpgradeNode} (h : n.state ≠ .failed) :
    RowKept n (n.leave reason) := .of_spent rfl rfl spent_unable h

/-- Nodes that never answered are marked as such: none of them was ready. -/
theorem silent_kept (u : PendingUpgrade) :
    Kept u { u with nodes := u.nodes.map UpgradeNode.silent } := by
  refine kept_map fun n => ?_
  unfold UpgradeNode.silent
  split
  · rename_i hpend
    exact rowKept_leave _ (by rw [hpend]; decide)
  · exact .refl n

/-- When the plan is fixed nobody is waited for. -/
theorem closePrepare_table {u : PendingUpgrade} (now : Int) (hu : Table u) :
    Kept u (closePrepare now u) ∧ Table (closePrepare now u) := by
  have hsilent := silent_kept u
  have hnone : ∀ {i : Nat} {n : UpgradeNode},
      (u.nodes.map UpgradeNode.silent)[i]? = some n → n.state ≠ .pending := by
    intro i n hn hpend
    rw [List.getElem?_map, Option.map_eq_some_iff] at hn
    obtain ⟨m, -, rfl⟩ := hn
    unfold UpgradeNode.silent at hpend
    split at hpend
    · cases hpend
    · rename_i hne
      exact hne hpend
  unfold closePrepare
  simp only []
  split
  · have hkept := hsilent.trans (finish_kept _ .done "no node needed the upgrade".toList)
    exact ⟨hkept, hu.kept hkept (fun h => by cases h)⟩
  · have hkept := hsilent.of_nodes
      (w := { u with nodes := u.nodes.map UpgradeNode.silent, phase := .rolling,
                     phaseStarted := now })
      rfl rfl
    exact ⟨hkept, hu.toReadyRows.kept hkept, fun _ _ _ hn => hnone hn⟩

/-! ### The start -/

/-- The run as it began, with the rows added so far. This hub is the only one that may be
ready. -/
def Begun (env : StartEnv) (e u : PendingUpgrade) : Prop :=
  (∃ ns t, u = { e with nodes := ns, lastAdded := t }) ∧
    ∀ n ∈ u.nodes, n.state = .ready → n = selfNode env e

/-- A row is added to a run that begins. The only one that may be ready is that of this hub. -/
theorem Begun.push {env : StartEnv} {e u : PendingUpgrade} (h : Begun env e u) (now : Int)
    {n : UpgradeNode} (hn : n.state = .ready → n = selfNode env e) :
    Begun env e (u.push now n) := by
  obtain ⟨⟨ns, t, rfl⟩, hrows⟩ := h
  refine ⟨⟨_, _, rfl⟩, fun m hm => ?_⟩
  rcases List.mem_append.mp hm with hm | hm
  · exact hrows m hm
  · rw [List.mem_singleton.mp hm]
    exact hn

/-- A node that was asked is not ready. -/
theorem asked_not_ready {n : UpgradeNode} (delivered : Bool) (h : n.state = .pending) :
    (n.asked delivered).state ≠ .ready := by
  unfold UpgradeNode.asked
  split
  · rw [h]
    decide
  · exact spent_unable.2

/-- The row of a client of the roster. -/
theorem Begun.startRow {env : StartEnv} {e u : PendingUpgrade} (h : Begun env e u)
    (r : RosterClient) :
    Begun env e (startRow env u r) := by
  unfold Hub.startRow
  split
  · exact h
  split
  · split
    · exact h
    · exact h.push env.now fun hready => absurd hready (asked_not_ready _ rfl)
  · split
    · exact h
    · exact h.push env.now fun hready => absurd hready (asked_not_ready _ rfl)
  · exact h

/-- The row of a pick. -/
theorem Begun.seedPick {env : StartEnv} {e u : PendingUpgrade} (h : Begun env e u) (p : Pick) :
    Begun env e (seedPick env u p) := by
  unfold Hub.seedPick
  split
  · exact h
  · exact h.push env.now fun hready => by cases hready

/-- This hub answers ready if it is selected and can take the build. -/
theorem selfAnswer_ready {env : StartEnv} {u : PendingUpgrade}
    (h : (selfAnswer env u).1 = .ready) :
    ∃ want, selected u env.hubUuid = some want ∧
      env.canTake u.hubVer (if want.isEmpty then u.variant else want) u.minFrom = .ok () := by
  unfold selfAnswer at h
  split at h
  · cases h
  rename_i want hsel
  split at h
  · cases h
  split at h
  · rename_i hcan
    exact ⟨want, hsel, hcan⟩
  · cases h

/-- A run is the empty run with rows in its table. -/
theorem beginRun_begun (env : StartEnv) (a : StartArgs) (picks : List Pick) :
    Begun env (emptyRun env a picks) (beginRun env a picks) := by
  unfold beginRun
  simp only []
  generalize hv : env.roster.foldl (startRow env) (emptyRun env a picks) = v
  have hbegun : Begun env (emptyRun env a picks) v := by
    rw [← hv]
    refine List.foldlRecOn (motive := Begun env (emptyRun env a picks)) env.roster _ ?_ ?_
    · exact ⟨⟨_, _, rfl⟩, fun n hn => (List.not_mem_nil hn).elim⟩
    · intro u hu r _
      exact hu.startRow r
  have hself : selfNode env v = selfNode env (emptyRun env a picks) := by
    obtain ⟨⟨ns, t, rfl⟩, -⟩ := hbegun
    rfl
  refine List.foldlRecOn (motive := Begun env (emptyRun env a picks)) picks _ ?_ ?_
  · exact hbegun.push env.now fun _ => hself
  · intro u hu p _
    exact hu.seedPick p

/-- A start that is not refused. -/
theorem start_begun {env : StartEnv} {u u' : PendingUpgrade} {a : StartArgs}
    (h : start env u a = some u') :
    startRefused env u a = false ∧
      ∃ picks, startPicks env a = some picks ∧ Begun env (emptyRun env a picks) u' := by
  unfold start at h
  split at h
  · cases h
  rename_i hrefused
  obtain ⟨picks, hpicks, rfl⟩ := Option.map_eq_some_iff.mp h
  exact ⟨Bool.not_eq_true _ ▸ hrefused, picks, hpicks, beginRun_begun env a picks⟩

/-- A run begins with this hub as the only node that may be ready. -/
theorem start_spec {env : StartEnv} {u u' : PendingUpgrade} {a : StartArgs}
    (h : start env u a = some u') :
    u'.active = true ∧ u'.phase = .prepare ∧
      ∀ n ∈ u'.nodes, n.state = .ready → n = selfNode env u' := by
  obtain ⟨-, picks, -, ⟨ns, t, heq⟩, hrows⟩ := start_begun h
  refine ⟨by rw [heq]; rfl, by rw [heq]; rfl, fun n hn hready => ?_⟩
  rw [hrows n hn hready, heq]
  rfl

/-- A run that begins has a well-formed table: no row is ready but that of this hub. -/
theorem start_table {env : StartEnv} {u u' : PendingUpgrade} {a : StartArgs}
    (h : start env u a = some u') : Table u' := by
  obtain ⟨-, hphase, hready⟩ := start_spec h
  refine ⟨⟨fun hn hst hkind => ?_, fun hn hst => ?_⟩, fun hroll => ?_⟩
  · rw [hready _ (List.mem_of_getElem? hn) hst] at hkind
    exact absurd rfl hkind
  · have hself := hready _ (List.mem_of_getElem? hn) hst
    rw [hself] at hst
    obtain ⟨want, hsel, -⟩ := selfAnswer_ready hst
    rw [hself]
    show (selected u' env.hubUuid).isSome = true
    rw [hsel]
    rfl
  · rw [hphase] at hroll
    cases hroll

/-! ### Answers -/

/-- The row an answer is for: the first of its uuid, or a new one. All else is as it was. -/
structure RowFound (u v : PendingUpgrade) (uuid : Str) (ni : Nat) : Prop where
  same : v.select = u.select ∧ v.phase = u.phase ∧ v.active = u.active
  old : ∀ {i : Nat} {n : UpgradeNode}, u.nodes[i]? = some n →
    ∃ n', v.nodes[i]? = some n' ∧ n'.uuid = n.uuid ∧ n'.kind = n.kind ∧ n'.state = n.state
  new : ∀ {i : Nat} {n' : UpgradeNode}, v.nodes[i]? = some n' → i ≠ ni →
    ∃ n, u.nodes[i]? = some n ∧ n'.state = n.state
  row : ∃ m, v.nodes[ni]? = some m ∧ m.uuid = uuid ∧
    (m.state = .pending ∨ ∃ n, u.nodes[ni]? = some n ∧ m.state = n.state)
  first : uuid ≠ [] → FirstOf v ni uuid

/-- The row that is found is the first of its uuid. -/
theorem findNode_spec {u : PendingUpgrade} {uuid : Str} {ni : Nat}
    (h : findNode u uuid = some ni) :
    FirstOf u ni uuid ∧ ∃ m, u.nodes[ni]? = some m ∧ m.uuid = uuid := by
  unfold findNode at h
  split at h
  · cases h
  obtain ⟨hlt, hp, hbefore⟩ := List.findIdx?_eq_some_iff_getElem.mp h
  refine ⟨fun j hj m hm => ?_, _, List.getElem?_eq_getElem hlt, beq_iff_eq.mp hp⟩
  have hno := hbefore j hj
  rw [List.getElem?_eq_getElem (hj.trans hlt), Option.some.injEq] at hm
  rw [hm] at hno
  simpa using hno

/-- Nobody has a uuid that is not found. -/
theorem firstOf_of_findNode_none {u : PendingUpgrade} {uuid : Str} (h : findNode u uuid = none)
    (hne : uuid ≠ []) (i : Nat) : FirstOf u i uuid := by
  intro j _ m hm hu
  unfold findNode at h
  rw [if_neg (by simpa using hne), List.findIdx?_eq_none_iff] at h
  have := h m (List.mem_of_getElem? hm)
  rw [hu] at this
  simp at this

/-- Where answers of a row go through is none of what the table is about. -/
theorem route_same (via : Str) (n : UpgradeNode) :
    (n.route via).uuid = n.uuid ∧ (n.route via).kind = n.kind
    ∧ (n.route via).state = n.state := by
  unfold UpgradeNode.route
  split
  · exact ⟨rfl, rfl, rfl⟩
  · exact ⟨rfl, rfl, rfl⟩

/-- The row an answer is for: the first of its uuid, made when there is none. -/
theorem readyRow_spec {now : Int} {u v : PendingUpgrade} {f : List Str}
    {fromPeer : Option Str} {ni : Nat} (h : readyRow now u f fromPeer = some (v, ni)) :
    RowFound u v (f.getD 1 []) ni := by
  unfold readyRow at h
  split at h
  · rename_i hfind
    cases h
    obtain ⟨hfirst, m, hm, hu⟩ := findNode_spec hfind
    exact ⟨⟨rfl, rfl, rfl⟩, fun hn => ⟨_, hn, rfl, rfl, rfl⟩, fun hn _ => ⟨_, hn, rfl⟩,
      ⟨m, hm, hu, .inr ⟨m, hm, rfl⟩⟩, fun _ => hfirst⟩
  · rename_i via hfind
    cases h
    obtain ⟨hfirst, m, hm, hu⟩ := findNode_spec hfind
    -- only the way to the node is noted
    have hat : ∀ {i : Nat} {n : UpgradeNode}, u.nodes[i]? = some n →
        ∃ n', (u.modifyNode ni (UpgradeNode.route via)).nodes[i]? = some n' ∧
          n'.uuid = n.uuid ∧ n'.kind = n.kind ∧ n'.state = n.state := by
      intro i n hn
      rw [getElem?_modifyNode, hn]
      split
      · exact ⟨_, rfl, route_same via n⟩
      · exact ⟨n, rfl, rfl, rfl, rfl⟩
    have hstays : Stays u (u.modifyNode ni (UpgradeNode.route via)) := by
      refine ⟨rfl, fun hn => ?_⟩
      obtain ⟨n', hn', hu, hk, hs⟩ := hat hn
      exact ⟨n', hn', hu, hk, fun hsp => hs ▸ hsp, fun hf => hs.trans hf⟩
    refine ⟨⟨rfl, rfl, rfl⟩, hat, fun {i n'} hn' hne => ?_, ?_, fun _ => ?_⟩
    · rw [getElem?_modifyNode, if_neg (Ne.symm hne)] at hn'
      exact ⟨n', hn', rfl⟩
    · obtain ⟨m', hm', huuid, -, hstate⟩ := hat hm
      exact ⟨m', hm', huuid.trans hu, .inr ⟨m, hm, hstate⟩⟩
    · exact hfirst.stays hstays (List.getElem?_eq_some_iff.mp hm).1.le
  · cases h
  · rename_i via hfind
    split at h
    · cases h
    cases h
    refine ⟨⟨rfl, rfl, rfl⟩, fun {i n} hn => ?_, fun {i n'} hn' hne => ?_, ?_,
      fun hne j hj m hm => ?_⟩
    · have hlt := (List.getElem?_eq_some_iff.mp hn).1
      exact ⟨n, (List.getElem?_append_left hlt).trans hn, rfl, rfl, rfl⟩
    · have hlt : i < u.nodes.length := by
        have := (List.getElem?_eq_some_iff.mp hn').1
        simp only [PendingUpgrade.push, List.length_append, List.length_singleton] at this
        omega
      exact ⟨n', (List.getElem?_append_left hlt).symm.trans hn', rfl⟩
    · refine ⟨_, List.getElem?_concat_length, rfl, .inl rfl⟩
    · exact firstOf_of_findNode_none hfind hne u.nodes.length j hj m
        ((List.getElem?_append_left hj).symm.trans hm)

/-- A ready answer while the run prepares, for row `i` of the table after it. -/
structure Answer (u u' : PendingUpgrade) (payload : Str) (i : Nat) (n' : UpgradeNode) : Prop where
  active : u.active = true
  phase : u.phase = .prepare
  id : (readyFields payload).getD 0 [] = u.id
  uuid : (readyFields payload).getD 1 [] = n'.uuid
  said : (readyFields payload).getD 6 [] = ['1']
  selected : (selected u n'.uuid).isSome = true
  first : n'.uuid ≠ [] → FirstOf u' i n'.uuid

/-- An answer leaves its row unspent only by making it ready: in the prepare phase, from a node
that was selected and says it can. -/
theorem answerState_unspent {u : PendingUpgrade} {f : List Str}
    (h : ¬ Spent (answerState u f).1) :
    (answerState u f).1 = .ready ∧ (selected u (f.getD 1 [])).isSome = true
    ∧ f.getD 6 [] = ['1'] ∧
      u.phase = .prepare := by
  unfold answerState at h ⊢
  split
  · rename_i hsel
    rw [if_pos hsel] at h
    exact absurd spent_unable h
  rename_i hsel
  rw [if_neg hsel] at h
  split
  · rename_i hsaid
    rw [if_pos hsaid] at h
    exact absurd spent_unable h
  rename_i hsaid
  rw [if_neg hsaid] at h
  split
  · rename_i hphase
    rw [if_pos hphase] at h
    exact absurd spent_unable h
  · rename_i hphase
    refine ⟨rfl, ?_, by simpa using hsaid, by simpa using hphase⟩
    simpa [Option.isSome_iff_ne_none] using hsel

/-- The answer of a row that was found, and what every other row is after it. -/
theorem answerRow_spec {u v : PendingUpgrade} {f : List Str} {ni : Nat}
    (h : RowFound u v (f.getD 1 []) ni) :
    Stays u (answerRow v f ni) ∧ ∀ {i : Nat} {n' : UpgradeNode},
      (answerRow v f ni).nodes[i]? = some n' → ¬ Spent n'.state →
        (∃ n, u.nodes[i]? = some n ∧ n'.state = n.state) ∨
          (i = ni ∧ n'.state = .ready ∧ n'.uuid = f.getD 1 [] ∧
            (selected u (f.getD 1 [])).isSome = true ∧ f.getD 6 [] = ['1'] ∧ u.phase = .prepare ∧
            (f.getD 1 [] ≠ [] → FirstOf (answerRow v f ni) ni (f.getD 1 []))) := by
  obtain ⟨m, hm, huuid, hstate⟩ := h.row
  unfold answerRow
  rw [hm]
  simp only []
  split
  · -- the row has its answer, so it is not a new one
    rename_i hpend
    have hold := hstate.resolve_left hpend
    refine ⟨⟨h.same.1, fun hn => ?_⟩, fun {i n'} hn' hun => .inl ?_⟩
    · obtain ⟨n', hn', hu, hk, hs⟩ := h.old hn
      exact ⟨n', hn', hu, hk, fun hsp => hs ▸ hsp, fun hf => hs.trans hf⟩
    · by_cases hi : i = ni
      · subst hi
        cases hm.symm.trans hn'
        exact hold
      · exact h.new hn' hi
  -- the row was pending: it takes the answer
  · rename_i hpend
    rw [ne_eq, not_not] at hpend
    generalize (if m.readySeq = 0 then v.readySeqNext + 1 else v.readySeqNext) = seq
    have hget : ∀ j : Nat, (v.withAnswer f ni seq).nodes[j]?
        = if ni = j then (v.nodes[j]?).map (UpgradeNode.answer v f) else v.nodes[j]? :=
      getElem?_modifyNode v ni _
    -- the rows that were spent stay so
    have hstays : Stays u (v.withAnswer f ni seq) := by
      refine ⟨h.same.1, fun {i n} hn => ?_⟩
      obtain ⟨n', hn', hu, hk, hs⟩ := h.old hn
      rw [hget, hn']
      split
      · rename_i hi
        subst hi
        cases hm.symm.trans hn'
        rw [hpend] at hs
        exact ⟨_, rfl, hu, hk, fun hsp => absurd hs.symm hsp.1,
          fun hf => by rw [hf] at hs; cases hs⟩
      · exact ⟨n', rfl, hu, hk, fun hsp => hs ▸ hsp, fun hf => hs.trans hf⟩
    refine ⟨hstays, fun {i n'} hn' hun => ?_⟩
    rw [hget] at hn'
    -- the row that answered
    split at hn'
    · rename_i hi
      subst hi
      rw [hm, Option.map_some, Option.some.injEq] at hn'
      subst hn'
      obtain ⟨hready, hsel, hsaid, hphase⟩ := answerState_unspent hun
      refine .inr ⟨rfl, hready, huuid, ?_, hsaid, h.same.2.1 ▸ hphase, fun hne j hj k hk => ?_⟩
      · rwa [selected_congr h.same.1] at hsel
      · rw [hget, if_neg (by omega)] at hk
        exact h.first hne j hj k hk
    -- any other row
    · rename_i hi
      exact .inl (h.new hn' (Ne.symm hi))

/-- A READY: rows stay, and a turn is added only by a ready answer while the run prepares. -/
theorem noteReady_spec (now : Int) (rollup : Option Str) (u : PendingUpgrade) (payload : Str)
    (fromPeer : Option Str) {u' : PendingUpgrade}
    (h : noteReady now rollup u payload fromPeer = u') :
    Stays u u' ∧ u'.phase = u.phase ∧ ∀ {i : Nat} {n' : UpgradeNode}, u'.nodes[i]? = some n' →
      ¬ Spent n'.state → (∃ n, u.nodes[i]? = some n ∧ n'.state = n.state) ∨
        (n'.state = .ready ∧ Answer u u' payload i n') := by
  have hsame : u' = u → Stays u u' ∧ u'.phase = u.phase ∧ ∀ {i : Nat} {n' : UpgradeNode},
      u'.nodes[i]? = some n' → ¬ Spent n'.state →
        (∃ n, u.nodes[i]? = some n ∧ n'.state = n.state) ∨
          (n'.state = .ready ∧ Answer u u' payload i n') := by
    rintro rfl
    exact ⟨.refl _, rfl, fun hn _ => .inl ⟨_, hn, rfl⟩⟩
  unfold noteReady at h
  simp only [] at h
  split at h
  · exact hsame h.symm
  rename_i hguard
  simp only [Bool.or_eq_true, decide_eq_true_eq, Bool.not_eq_true', not_or,
    Bool.not_eq_false, ne_eq, not_not] at hguard
  obtain ⟨⟨-, hactive⟩, hid⟩ := hguard
  split at h
  · exact hsame h.symm
  · rename_i v ni hrow
    have hfound := readyRow_spec hrow
    obtain ⟨hstays, hrows⟩ := answerRow_spec hfound
    rw [h] at hstays hrows
    refine ⟨hstays, ?_, fun {i n'} hn' hun => ?_⟩
    · rw [← h, ← hfound.same.2.1]
      unfold answerRow
      split
      · rfl
      · split <;> rfl
    · rcases hrows hn' hun with hold | ⟨rfl, hready, huuid, hsel, hsaid, hphase, hfirst⟩
      · exact .inl hold
      · refine .inr ⟨hready, hactive, hphase, hid.symm, huuid.symm, hsaid, huuid ▸ hsel,
          fun hne => ?_⟩
        rw [huuid] at hne ⊢
        exact hfirst hne

/-- Answers keep the table, whatever they say. -/
theorem noteReady_table {now : Int} {rollup : Option Str} {u : PendingUpgrade} {payload : Str}
    {fromPeer : Option Str} (hu : Table u) : Table (noteReady now rollup u payload fromPeer) := by
  obtain ⟨hstays, hphase, hrows⟩ := noteReady_spec now rollup u payload fromPeer rfl
  refine ⟨⟨fun {i n'} hn' hready hkind huuid => ?_, fun {i n'} hn' hready => ?_⟩,
    fun hroll i n' hn' hpend => ?_⟩
  · rcases hrows hn' (fun hs => hs.2 hready) with ⟨n, hn, hstate⟩ | ⟨-, hans⟩
    · obtain ⟨m, hm, hu', hk', -⟩ := hstays.row hn
      cases hn'.symm.trans hm
      rw [hu']
      exact (hu.first hn (hstate ▸ hready) (hk' ▸ hkind) (hu' ▸ huuid)).stays hstays
        (List.getElem?_eq_some_iff.mp hn).1.le
    · exact hans.first huuid
  · rw [selected_congr hstays.select]
    rcases hrows hn' (fun hs => hs.2 hready) with ⟨n, hn, hstate⟩ | ⟨-, hans⟩
    · obtain ⟨m, hm, hu', -⟩ := hstays.row hn
      cases hn'.symm.trans hm
      rw [hu']
      exact hu.selected hn (hstate ▸ hready)
    · exact hans.selected
  · rw [hphase] at hroll
    rcases hrows hn' (fun hs => hs.1 hpend) with ⟨n, hn, hstate⟩ | ⟨hready, -⟩
    · exact hu.fixed hroll hn (hstate ▸ hpend)
    · rw [hpend] at hready
      cases hready

end IrcHub.Proofs
