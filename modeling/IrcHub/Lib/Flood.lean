import Mathlib.Algebra.GroupWithZero.Nat
import Mathlib.Algebra.Order.BigOperators.Group.List
import Mathlib.Algebra.Order.Group.Nat
import Mathlib.Data.List.ProdSigma
import Mathlib.Logic.Relation
import Mathlib.Tactic.Common

/-!
# `IrcHub.Lib.Flood`: flooding a graph, with hints who was served

One node of a graph starts a message. A node that gets its first copy passes it on, to every
neighbour but the one it came from, and it may also leave out the neighbours of that one, which it
takes to be served already. Copies wait on the links as long as they like, and a copy that gets to
a node which has the message is dropped.

* `State`: who holds the message, the copies that wait, and those each link ever carried
* `Step`: a copy arrives
* `Inv`: a node that holds the message has only neighbours that hold it or have a copy on its way
* `Inv.start`, `Step.inv`: the start has the invariant, and an arrival keeps it
* `Inv.all_hold`: when no copy waits, every node the graph reaches holds the message

The point of the invariant is the clause for a neighbour that was left out. The node that gave the
message served that neighbour itself, so some copy is on its way there, from whichever node.

The spread comes to an end. Each link brings one copy at most, so the links that brought none yet
are fewer after each arrival (`Step.owed_lt`). A run in which copies go on arriving as long as one
waits therefore leaves none waiting from some point on (`eventually_quiet`).

The graph stays as it is while the message spreads. Links that come and go need a second mechanism
that brings what was missed, and none is modelled here.
-/

set_option autoImplicit false

namespace Flood

variable {V : Type}

/-- The spread of one message. -/
structure State (V : Type) where
  holds : V → Prop
  /-- Copies that wait on a link. -/
  queue : V → V → Nat
  /-- Copies put on a link so far. -/
  sent : V → V → Nat
  /-- Copies that arrived over a link so far. -/
  arrived : V → V → Nat

/-- What every spread keeps. `onLink`, `sender`, `once` and `kept` are the books of the links, and
`covered` is the clause that gives the result: who holds the message has no neighbour that was
forgotten. -/
structure Inv (linked : V → V → Prop) (origin : V) (s : State V) : Prop where
  origin : s.holds origin
  onLink : ∀ a b, 0 < s.sent a b → linked a b
  /-- Only who holds the message sends it. -/
  sender : ∀ a b, 0 < s.sent a b → s.holds a
  once : ∀ a b, s.sent a b ≤ 1
  /-- No copy is lost. -/
  kept : ∀ a b, s.arrived a b + s.queue a b = s.sent a b
  /-- The neighbours of who holds the message are served. -/
  covered : ∀ a b, s.holds a → linked a b → s.holds b ∨ ∃ z, 0 < s.queue z b

variable {linked : V → V → Prop} {origin a b : V} {s s' : State V}

/-- A copy that waits is one that was sent. -/
theorem Inv.sent_of_queue (h : Inv linked origin s) (hwaits : 0 < s.queue a b) :
    0 < s.sent a b := by
  have := h.kept a b
  omega

/-- No copy waits: every node the graph reaches holds the message. The induction is on the path
from the origin, and `covered` takes it from one node to the next. -/
theorem Inv.all_hold (h : Inv linked origin s) (hquiet : ∀ x y, s.queue x y = 0) {v : V}
    (hreach : Relation.ReflTransGen linked origin v) : s.holds v := by
  induction hreach with
  | refl => exact h.origin
  | tail _ hlink ih =>
    rcases h.covered _ _ ih hlink with hold | ⟨z, hz⟩
    · exact hold
    · rw [hquiet] at hz
      exact absurd hz (Nat.lt_irrefl 0)

/-- Every link brings one copy at most. -/
theorem Inv.arrived_le (h : Inv linked origin s) (x y : V) : s.arrived x y ≤ 1 := by
  have hkept := h.kept x y
  have honce := h.once x y
  omega

/-! ### Steps -/

variable [DecidableEq V]

/-- A copy on the way from `b` to each node of `out`. -/
def State.send (s : State V) (b : V) (out : V → Bool) : State V :=
  { s with
    queue := fun x y => s.queue x y + if x = b ∧ out y then 1 else 0
    sent := fun x y => s.sent x y + if x = b ∧ out y then 1 else 0 }

/-- A copy from `a` arrives at `b`. -/
def State.pop (s : State V) (a b : V) : State V :=
  { s with
    queue := fun x y => s.queue x y - if x = a ∧ y = b then 1 else 0
    arrived := fun x y => s.arrived x y + if x = a ∧ y = b then 1 else 0 }

/-- `b` holds the message as well. -/
def State.hold (s : State V) (b : V) : State V := { s with holds := fun x => s.holds x ∨ x = b }

/-- A copy arrives: a node that holds the message drops it, any other one keeps it and serves its
neighbours, but for the sender and some of the neighbours of the sender. -/
inductive Step (linked : V → V → Prop) (s : State V) (a b : V) : State V → Prop
  | dropped (hwaits : 0 < s.queue a b) (hheld : s.holds b) : Step linked s a b (s.pop a b)
  | taken (out : V → Bool) (hwaits : 0 < s.queue a b) (hnew : ¬ s.holds b)
      (hout : ∀ x, out x = true → linked b x)
      (hserved : ∀ x, linked b x → x = a ∨ linked a x ∨ out x = true) :
      Step linked s a b (((s.pop a b).hold b).send b out)

/-- The start: one node holds the message, and a copy is on its way to each of its neighbours.
`hout` says that all of them are served, `hempty` that no link was used before. -/
theorem Inv.start {out : V → Bool} (hout : ∀ x, out x = true ↔ linked origin x)
    (hholds : ∀ x, s.holds x ↔ x = origin)
    (hempty : ∀ x y, s.queue x y = 0 ∧ s.sent x y = 0 ∧ s.arrived x y = 0) :
    Inv linked origin (s.send origin out) where
  origin := (hholds origin).mpr rfl
  onLink := by
    intro x y h
    simp only [State.send, (hempty x y).2.1] at h
    split at h
    · rename_i hx
      exact hx.1 ▸ (hout y).mp hx.2
    · omega
  sender := by
    intro x y h
    simp only [State.send, (hempty x y).2.1] at h
    split at h
    · rename_i hx
      exact (hholds x).mpr hx.1
    · omega
  once := by
    intro x y
    simp only [State.send, (hempty x y).2.1]
    split <;> omega
  kept := by
    intro x y
    simp only [State.send, (hempty x y).1, (hempty x y).2.1, (hempty x y).2.2]
    omega
  covered := by
    intro x y hx hlink
    obtain rfl := (hholds x).mp hx
    refine .inr ⟨x, ?_⟩
    simp only [State.send, (hout y).mpr hlink, and_self, if_true]
    omega

/-- Taking a copy from a link leaves the others waiting. -/
theorem queue_pop_of_ne {z x : V} (hne : x ≠ b) : (s.pop a b).queue z x = s.queue z x := by
  simp only [State.pop, hne, and_false, if_false]
  omega

/-- One arrival keeps the invariant. A copy that is dropped changes only the books of its link,
since the node it came to held the message. A first copy makes a holder, and the nodes it does not
serve are the neighbours of the one it came from, which that one served. -/
theorem Step.inv (hstep : Step linked s a b s') (h : Inv linked origin s) :
    Inv linked origin s' := by
  cases hstep with
  -- a copy that is dropped: the node held the message already
  | dropped hwaits hheld =>
    refine ⟨h.origin, h.onLink, h.sender, h.once, ?_, ?_⟩
    · intro x y
      have hkept := h.kept x y
      simp only [State.pop]
      split
      · rename_i hxy
        obtain ⟨rfl, rfl⟩ := hxy
        omega
      · omega
    -- who was waiting for this copy holds the message
    · intro x y hx hlink
      by_cases hy : y = b
      · exact .inl (hy ▸ hheld)
      · rcases h.covered x y hx hlink with hold | ⟨z, hz⟩
        · exact .inl hold
        · exact .inr ⟨z, (queue_pop_of_ne hy).symm ▸ hz⟩
  -- a first copy: the node holds the message from now on
  | taken out hwaits hnew hout hserved =>
    -- a node that does not hold the message has sent none
    have hsilent : ∀ y, s.sent b y = 0 := fun y =>
      Nat.eq_zero_of_not_pos fun hpos => hnew (h.sender b y hpos)
    -- who was served before still is
    have hcover : ∀ x y, s.holds x → linked x y →
        (s.holds y ∨ y = b) ∨ ∃ z, 0 < (((s.pop a b).hold b).send b out).queue z y := by
      intro x y hx hlink
      by_cases hy : y = b
      · exact .inl (.inr hy)
      · rcases h.covered x y hx hlink with hold | ⟨z, hz⟩
        · exact .inl (.inl hold)
        · refine .inr ⟨z, Nat.lt_of_lt_of_le hz ?_⟩
          show s.queue z y ≤ (s.pop a b).queue z y + _
          rw [queue_pop_of_ne hy]
          exact Nat.le_add_right _ _
    refine ⟨.inl h.origin, ?_, ?_, ?_, ?_, ?_⟩
    · intro x y hpos
      simp only [State.send, State.hold, State.pop] at hpos
      split at hpos
      · rename_i hx
        exact hx.1 ▸ hout y hx.2
      · exact h.onLink x y hpos
    · intro x y hpos
      simp only [State.send, State.hold, State.pop] at hpos
      split at hpos
      · rename_i hx
        exact .inr hx.1
      · exact .inl (h.sender x y hpos)
    · intro x y
      simp only [State.send, State.hold, State.pop]
      split
      · rename_i hx
        have hzero : s.sent x y = 0 := hx.1 ▸ hsilent y
        omega
      · exact h.once x y
    · intro x y
      have hkept := h.kept x y
      simp only [State.send, State.hold, State.pop]
      by_cases hxy : x = a ∧ y = b
      · obtain ⟨rfl, rfl⟩ := hxy
        simp only [and_self, if_true]
        omega
      · simp only [hxy, if_false]
        omega
    -- the new holder: whom it does not serve, the sender of its copy has served
    · intro x y hx hlink
      rcases hx with hx | rfl
      · exact hcover x y hx hlink
      · rcases hserved y hlink with rfl | hnear | hsent
        · exact .inl (.inl (h.sender y x (h.sent_of_queue hwaits)))
        · exact hcover a y (h.sender a x (h.sent_of_queue hwaits)) hnear
        · refine .inr ⟨x, ?_⟩
          simp only [State.send, hsent, and_self, if_true]
          omega

/-! ### The end of the spread -/

/-- How many links between the nodes have brought no copy yet. -/
def State.owed (nodes : List V) (s : State V) : Nat :=
  ((nodes ×ˢ nodes).map fun p => 1 - s.arrived p.1 p.2).sum

/-- An arrival counts on its link, and on no other. -/
theorem Step.arrived_eq (hstep : Step linked s a b s') (x y : V) :
    s'.arrived x y = s.arrived x y + if x = a ∧ y = b then 1 else 0 := by
  cases hstep with
  | dropped => rfl
  | taken => rfl

/-- Each arrival is the first over its link, so one link less owes a copy. This is the measure
that ends the spread. `hends`: the nodes listed are all the ends of links. -/
theorem Step.owed_lt (hstep : Step linked s a b s') (h : Inv linked origin s) {nodes : List V}
    (hends : ∀ x y, linked x y → x ∈ nodes ∧ y ∈ nodes) : s'.owed nodes < s.owed nodes := by
  have hwaits : 0 < s.queue a b := by
    cases hstep with
    | dropped hwaits => exact hwaits
    | taken _ hwaits => exact hwaits
  have hlink := h.onLink a b (h.sent_of_queue hwaits)
  have hfirst : s.arrived a b = 0 := by
    have hkept := h.kept a b
    have honce := h.once a b
    omega
  refine List.sum_lt_sum _ _ (fun p _ => ?_) ⟨(a, b), ?_, ?_⟩
  · rw [hstep.arrived_eq]
    omega
  · exact List.mem_product.mpr (hends a b hlink)
  · rw [hstep.arrived_eq, if_pos ⟨rfl, rfl⟩, hfirst]
    omega

/-- No copy can arrive when none waits. -/
theorem Step.not_of_quiet (hstep : Step linked s a b s') (hquiet : ∀ x y, s.queue x y = 0) :
    False := by
  cases hstep with
  | dropped hwaits =>
    rw [hquiet] at hwaits
    exact Nat.lt_irrefl 0 hwaits
  | taken _ hwaits =>
    rw [hquiet] at hwaits
    exact Nat.lt_irrefl 0 hwaits

/-- A run in which copies arrive as long as one waits comes to a point from which none waits.

`hnext`: each moment one copy arrives, or nothing happens. `hfair`: as long as a copy waits, some
copy arrives later; which one is left open. The induction is on the links that owe a copy, which
`Step.owed_lt` makes fewer. -/
theorem eventually_quiet (run : Nat → State V) (hinv : ∀ n, Inv linked origin (run n))
    (hnext : ∀ n, run (n + 1) = run n ∨ ∃ a b, Step linked (run n) a b (run (n + 1)))
    (hfair : ∀ n, (∃ a b, 0 < (run n).queue a b) →
      ∃ k, n ≤ k ∧ ∃ a b, Step linked (run k) a b (run (k + 1)))
    {nodes : List V} (hends : ∀ x y, linked x y → x ∈ nodes ∧ y ∈ nodes) :
    ∃ n, ∀ k, n ≤ k → ∀ x y, (run k).queue x y = 0 := by
  have hmono : ∀ n k, n ≤ k → (run k).owed nodes ≤ (run n).owed nodes := by
    intro n k hle
    induction hle with
    | refl => exact le_rfl
    | step _ ih =>
      refine le_trans ?_ ih
      rcases hnext _ with heq | ⟨a, b, hstep⟩
      · rw [heq]
      · exact (hstep.owed_lt (hinv _) hends).le
  have hreach : ∀ c n, (run n).owed nodes = c → ∃ k, ∀ x y, (run k).queue x y = 0 := by
    intro c
    induction c using Nat.strong_induction_on with
    | h c ih =>
      intro n hn
      by_cases hwaits : ∃ a b, 0 < (run n).queue a b
      · obtain ⟨k, hle, a, b, hstep⟩ := hfair n hwaits
        have hlt := hstep.owed_lt (hinv k) hends
        exact ih _ (hn ▸ hlt.trans_le (hmono n k hle)) (k + 1) rfl
      · refine ⟨n, fun x y => Nat.eq_zero_of_not_pos fun hpos => hwaits ⟨x, y, hpos⟩⟩
  obtain ⟨n, hquiet⟩ := hreach _ 0 rfl
  -- once quiet, nothing happens any more
  refine ⟨n, fun k hle => ?_⟩
  induction hle with
  | refl => exact hquiet
  | step _ ih =>
    rcases hnext _ with heq | ⟨a, b, hstep⟩
    · rw [heq]
      exact ih
    · exact (hstep.not_of_quiet ih).elim

end Flood
