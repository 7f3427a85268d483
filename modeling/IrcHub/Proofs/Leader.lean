import IrcHub.Hub.Leader
import Mathlib.Logic.Relation

/-!
# `IrcHub.Proofs.Leader`: who leads the scheduled purge

The question a hub asks compares the names of its links with its own uuid, and a name is not a
uuid. So which hubs lead depends on how the hubs call each other.

* `mem_linkNames` and `leads_iff`: a hub leads when no linked hub has a name before its uuid
* `electsSmallest_iff`: when the hub with the smallest uuid leads, and no other
* `namesTell_of_uuids`: with uuids for names it would lead alone where every hub sees a smaller
  one
* `not_electsSmallest`: two hubs that call each other by name both lead

A hub only knows the hubs it has a link to. In a mesh that is connected but not full a hub may see
no smaller one and lead beside the smallest, whatever the names are; that is why `NamesTell` asks
every other hub for a link with a name before its own uuid.
-/

set_option autoImplicit false

namespace IrcHub.Proofs

open Hub Str

/-- The names a hub has for its links: for a link it dialled what its list of peers calls the
other end, for one it accepted what its list calls the uuid of the other end, or what the other
end says it is called. -/
def linkNames (m : PurgeMesh) (hub : Str) : List Str :=
  (m.links.filter fun l => l.dialer = hub).map (fun l => dialedId l.dialerKnows)
    ++ (m.links.filter fun l => l.acceptor = hub).map fun l =>
      acceptedId l.acceptorKnows l.helloName

/-- A mesh: the hubs have different uuids, links are between hubs, every peer link is up and known
by its two ends, and the links reach from any hub to any other. Other connections of a hub, those
of bots and consoles, are not of hubs. -/
structure PeerMeshed (m : PurgeMesh) : Prop where
  distinct : m.hubs.Nodup
  ends : ∀ l ∈ m.links, l.dialer ∈ m.hubs ∧ l.acceptor ∈ m.hubs
  others : ∀ hub, ∀ c ∈ m.others hub, c.typ ≠ .hub
  connected : ∀ a ∈ m.hubs, ∀ b ∈ m.hubs,
    Relation.ReflTransGen (fun x y => ∃ l ∈ m.links, (l.dialer = x ∧ l.acceptor = y)
      ∨ (l.dialer = y ∧ l.acceptor = x)) a b

/-- A hub without a smaller one. -/
def Smallest (m : PurgeMesh) (hub : Str) : Prop := ∀ other ∈ m.hubs, ¬ other < hub

/-- The hub with the smallest uuid leads, and no other. -/
def ElectsSmallest (m : PurgeMesh) : Prop := ∀ hub ∈ m.hubs, m.leads hub = true ↔ Smallest m hub

/-! ### One hub -/

variable {m : PurgeMesh} {hub name : Str}

/-- The names of the links are the ids of the connections to hubs. A connection gets its id from
the handshake and keeps it. -/
theorem mem_linkNames (h : PeerMeshed m) :
    name ∈ linkNames m hub ↔ ∃ c ∈ m.clients hub, c.typ = .hub ∧ c.authenticated = true
      ∧ c.id = name := by
  simp only [linkNames, PurgeMesh.clients, linkEnds, List.mem_append, List.mem_map,
    List.mem_filter, List.mem_flatMap, decide_eq_true_eq]
  constructor
  · rintro (⟨l, ⟨hl, hend⟩, hname⟩ | ⟨l, ⟨hl, hend⟩, hname⟩)
    · refine ⟨⟨.hub, true, dialedId l.dialerKnows⟩, .inr ⟨l, hl, .inl ?_⟩, rfl, rfl, hname⟩
      rw [if_pos hend]
      exact List.mem_singleton_self _
    · refine ⟨⟨.hub, true, acceptedId l.acceptorKnows l.helloName⟩, .inr ⟨l, hl, .inr ?_⟩,
        rfl, rfl, hname⟩
      rw [if_pos hend]
      exact List.mem_singleton_self _
  · rintro ⟨c, hc | ⟨l, hl, hc | hc⟩, htyp, -, hname⟩
    · exact absurd htyp (h.others hub c hc)
    · split at hc
      · rename_i hend
        rw [List.mem_singleton.mp hc] at hname
        exact .inl ⟨l, ⟨hl, hend⟩, hname⟩
      · exact absurd hc List.not_mem_nil
    · split at hc
      · rename_i hend
        rw [List.mem_singleton.mp hc] at hname
        exact .inr ⟨l, ⟨hl, hend⟩, hname⟩
      · exact absurd hc List.not_mem_nil

/-- A hub leads when none of its names is before its uuid. -/
theorem leads_iff (h : PeerMeshed m) : m.leads hub = true
    ↔ ∀ name ∈ linkNames m hub, ¬ name < hub := by
  unfold PurgeMesh.leads shouldInitiateScheduledPurge
  rw [Bool.not_eq_true', ← Bool.not_eq_true, List.any_eq_true]
  constructor
  · intro hnone name hname hlt
    obtain ⟨c, hc, htyp, hauth, rfl⟩ := (mem_linkNames h).mp hname
    exact hnone ⟨c, hc, by simp [htyp, hauth, hlt]⟩
  · rintro hnames ⟨c, hc, hcond⟩
    simp only [Bool.and_eq_true, decide_eq_true_eq] at hcond
    exact hnames c.id ((mem_linkNames h).mpr ⟨c, hc, hcond.1.1, hcond.1.2, rfl⟩) hcond.2

/-! ### The mesh -/

/-- The names show the order of the uuids. This is a condition on the names the handshakes set,
and says nothing of what the leader test returns. -/
structure NamesTell (m : PurgeMesh) : Prop where
  /-- The smallest hub calls no linked hub by a name before its uuid. -/
  smallest : ∀ hub ∈ m.hubs, Smallest m hub → ∀ name ∈ linkNames m hub, ¬ name < hub
  /-- Every other hub calls one so. -/
  larger : ∀ hub ∈ m.hubs, ¬ Smallest m hub → ∃ name ∈ linkNames m hub, name < hub

/-- The smallest hub leads alone exactly where the names show it. -/
theorem electsSmallest_iff (h : PeerMeshed m) : ElectsSmallest m ↔ NamesTell m := by
  constructor
  · intro helect
    refine ⟨fun hub hhub hsmall => (leads_iff h).mp ((helect hub hhub).mpr hsmall), ?_⟩
    intro hub hhub hlarge
    have hnot : ¬ ∀ name ∈ linkNames m hub, ¬ name < hub := fun hnames =>
      hlarge ((helect hub hhub).mp ((leads_iff h).mpr hnames))
    simpa only [not_forall, not_not, exists_prop] using hnot
  · intro htell hub hhub
    rw [leads_iff h]
    constructor
    · intro hnames
      by_contra hlarge
      obtain ⟨name, hname, hlt⟩ := htell.larger hub hhub hlarge
      exact hnames name hname hlt
    · exact htell.smallest hub hhub

/-- Links named by the uuid of their other end, at both ends. -/
def NamedByUuid (m : PurgeMesh) : Prop :=
  ∀ l ∈ m.links, dialedId l.dialerKnows = l.acceptor
    ∧ acceptedId l.acceptorKnows l.helloName = l.dialer

/-- Such names tell the order where every hub but the smallest is linked to a smaller one
(`hnear`). In a full mesh every hub is. -/
theorem namesTell_of_uuids (h : PeerMeshed m) (hnamed : NamedByUuid m)
    (hnear : ∀ hub ∈ m.hubs, ¬ Smallest m hub → ∃ l ∈ m.links,
      (l.dialer = hub ∧ l.acceptor < hub) ∨ (l.acceptor = hub ∧ l.dialer < hub)) :
      NamesTell m := by
  have hof : ∀ hub name, name ∈ linkNames m hub ↔ ∃ l ∈ m.links,
      (l.dialer = hub ∧ l.acceptor = name) ∨ (l.acceptor = hub ∧ l.dialer = name) := by
    intro hub name
    simp only [linkNames, List.mem_append, List.mem_map, List.mem_filter, decide_eq_true_eq]
    constructor
    · rintro (⟨l, ⟨hl, hend⟩, hname⟩ | ⟨l, ⟨hl, hend⟩, hname⟩)
      · exact ⟨l, hl, .inl ⟨hend, (hnamed l hl).1 ▸ hname⟩⟩
      · exact ⟨l, hl, .inr ⟨hend, (hnamed l hl).2 ▸ hname⟩⟩
    · rintro ⟨l, hl, ⟨hend, hname⟩ | ⟨hend, hname⟩⟩
      · exact .inl ⟨l, ⟨hl, hend⟩, (hnamed l hl).1.trans hname⟩
      · exact .inr ⟨l, ⟨hl, hend⟩, (hnamed l hl).2.trans hname⟩
  constructor
  · intro hub _ hsmall name hname
    obtain ⟨l, hl, ⟨-, rfl⟩ | ⟨-, rfl⟩⟩ := (hof hub name).mp hname
    · exact hsmall _ (h.ends l hl).2
    · exact hsmall _ (h.ends l hl).1
  · intro hub hhub hlarge
    obtain ⟨l, hl, ⟨hend, hlt⟩ | ⟨hend, hlt⟩⟩ := hnear hub hhub hlarge
    · exact ⟨l.acceptor, (hof hub _).mpr ⟨l, hl, .inl ⟨hend, rfl⟩⟩, hlt⟩
    · exact ⟨l.dialer, (hof hub _).mpr ⟨l, hl, .inr ⟨hend, rfl⟩⟩, hlt⟩

/-! ### A mesh without one leader -/

/-- Two linked hubs, the first of which is called `a` and the second `b`. -/
def namedPair (a b : Str) : PurgeMesh where
  hubs := ["10000000-0000-4000-8000-000000000001".toList,
    "20000000-0000-4000-8000-000000000002".toList]
  links := [{
    dialer := "10000000-0000-4000-8000-000000000001".toList,
    acceptor := "20000000-0000-4000-8000-000000000002".toList,
    dialerKnows := b, acceptorKnows := a, helloName := a }]
  others := fun _ => []

/-- Two hubs and the link between them are a mesh, whatever they are called. -/
theorem peerMeshed_namedPair (a b : Str) : PeerMeshed (namedPair a b) where
  distinct := by
    show ["10000000-0000-4000-8000-000000000001".toList,
      "20000000-0000-4000-8000-000000000002".toList].Nodup
    decide
  ends := by
    intro l hl
    rw [List.mem_singleton.mp hl]
    exact ⟨List.mem_cons_self, List.mem_cons_of_mem _ List.mem_cons_self⟩
  others := fun _ c hc => absurd hc List.not_mem_nil
  connected := by
    intro x hx y hy
    have hlink := List.mem_singleton_self ({
      dialer := "10000000-0000-4000-8000-000000000001".toList,
      acceptor := "20000000-0000-4000-8000-000000000002".toList,
      dialerKnows := b, acceptorKnows := a, helloName := a } : PeerLink)
    rcases List.mem_pair.mp hx with rfl | rfl <;> rcases List.mem_pair.mp hy with rfl | rfl
    · exact .refl
    · exact .single ⟨_, hlink, .inl ⟨rfl, rfl⟩⟩
    · exact .single ⟨_, hlink, .inr ⟨rfl, rfl⟩⟩
    · exact .refl

/-- Both hubs of a pair lead: each calls the other by a name that starts with a letter, which
sorts behind the digits of a uuid. -/
theorem not_electsSmallest : ¬ ∀ m, PeerMeshed m → ElectsSmallest m := by
  intro hall
  have h := hall _ (peerMeshed_namedPair "north".toList "south".toList)
  have hsmall := (h "20000000-0000-4000-8000-000000000002".toList
    (List.mem_cons_of_mem _ List.mem_cons_self)).mp (by decide +kernel)
  exact hsmall "10000000-0000-4000-8000-000000000001".toList List.mem_cons_self
    (by decide +kernel)

/-- The theorem on a pair whose larger hub calls the smaller one by a name that sorts before. -/
theorem electsSmallest_pair :
    PeerMeshed (namedPair "1-north".toList "south".toList) ∧
      (ElectsSmallest (namedPair "1-north".toList "south".toList)
        ↔ NamesTell (namedPair "1-north".toList "south".toList)) :=
  ⟨peerMeshed_namedPair _ _, electsSmallest_iff (peerMeshed_namedPair _ _)⟩

end IrcHub.Proofs
