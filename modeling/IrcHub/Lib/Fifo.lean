import Mathlib.Data.List.Forall2
import Mathlib.Logic.Relation

/-!
# `IrcHub.Lib.Fifo`: a first-in first-out queue whose items change in place

A queue takes items in at one end and lets them out at the other. An item that waits may be
replaced in place, as a queue does that merges a new item into one of the same key. `Run` is a
history of such a queue, from empty.

What has come out and what still waits are, in order, the items that were put in, each as the
replacements of the history left it (`Run.served`). So nothing is lost, nothing comes out twice
and nothing overtakes; only what an item says may be newer than when it was put in.

* `Ev`, `Step`, `Run`: what can happen, one event, and a history
* `pushes`, `pops`: what went in and what came out over a history, in order
* `Became`: what the replacements of a history may have made of an item
* `Run.clear`: a queue that is emptied at its end

The relation `Became` is all that a replacement is held to. A program that replaces only items of
one key gives that as the relation of its replacements and gets it back for the whole history.
-/

set_option autoImplicit false

namespace Fifo

variable {α : Type}

/-- What happens to a queue. -/
inductive Ev (α : Type)
  | push (x : α)
  | replace (x y : α)
  | pop (x : α)

/-- What an event does: the first item is the only one that comes out. -/
inductive Step : List α → Ev α → List α → Prop
  | push (q : List α) (x : α) : Step q (.push x) (q ++ [x])
  | replace (l : List α) (x y : α) (m : List α) : Step (l ++ x :: m) (.replace x y) (l ++ y :: m)
  | pop (x : α) (q : List α) : Step (x :: q) (.pop x) q

/-- A history from the empty queue. -/
inductive Run : List (Ev α) → List α → Prop
  | nil : Run [] []
  | snoc {es : List (Ev α)} {q q' : List α} {e : Ev α} : Run es q → Step q e q' →
      Run (es ++ [e]) q'

/-- The item that goes in. -/
def Ev.pushed : Ev α → Option α
  | .push x => some x
  | _ => none

/-- The item that comes out. -/
def Ev.popped : Ev α → Option α
  | .pop x => some x
  | _ => none

def pushes (es : List (Ev α)) : List α := es.filterMap Ev.pushed

def pops (es : List (Ev α)) : List α := es.filterMap Ev.popped

/-- What replacements of a history may have made of an item. -/
def Became (es : List (Ev α)) : α → α → Prop := Relation.ReflTransGen fun x y =>
  Ev.replace x y ∈ es

/-- What became of an entry stays so with more events. -/
theorem Became.mono {es es' : List (Ev α)} (h : es ⊆ es') {x y : α} (hxy : Became es x y) :
    Became es' x y :=
  Relation.ReflTransGen.mono (fun _ _ hmem => h hmem) x y hxy

/-- One more event: what it pushed is last. -/
theorem pushes_concat (es : List (Ev α)) (e : Ev α) :
    pushes (es ++ [e]) = pushes es ++ e.pushed.toList := by
  cases h : e.pushed <;> simp [pushes, List.filterMap_append, h]

/-- One more event: what it popped is last. -/
theorem pops_concat (es : List (Ev α)) (e : Ev α) :
    pops (es ++ [e]) = pops es ++ e.popped.toList := by
  cases h : e.popped <;> simp [pops, List.filterMap_append, h]

/-- An item that is replaced keeps its place. -/
theorem forall₂_replace {R : α → α → Prop} {x y : α} (hxy : ∀ u, R u x → R u y) {l a m : List α}
    (h : List.Forall₂ R l (a ++ x :: m)) : List.Forall₂ R l (a ++ y :: m) := by
  induction a generalizing l with
  | nil =>
    obtain ⟨u, us, hu, hus, rfl⟩ := List.forall₂_cons_right_iff.mp h
    exact List.Forall₂.cons (hxy u hu) hus
  | cons z a ih =>
    obtain ⟨u, us, hu, hus, rfl⟩ := List.forall₂_cons_right_iff.mp h
    exact List.Forall₂.cons hu (ih hus)

/-- Items are let out in the order they were put in: what came out, followed by what waits,
matches what went in place by place. `Became` says how far an item may differ from the one that
was put in. The induction is on the history, and a replacement changes one place of the second
list. -/
theorem Run.served {es : List (Ev α)} {q : List α} (h : Run es q) :
    List.Forall₂ (Became es) (pushes es) (pops es ++ q) := by
  induction h with
  | nil => exact List.Forall₂.nil
  | @snoc es q q' e _ hstep ih =>
    have hgrow : List.Forall₂ (Became (es ++ [e])) (pushes es) (pops es ++ q) :=
      ih.imp fun _ _ => Became.mono (List.subset_append_left es [e])
    rw [pushes_concat, pops_concat]
    cases hstep with
    | push q x =>
      show List.Forall₂ _ (pushes es ++ [x]) (pops es ++ [] ++ (q ++ [x]))
      rw [List.append_nil, ← List.append_assoc]
      exact List.rel_append hgrow (List.Forall₂.cons Relation.ReflTransGen.refl List.Forall₂.nil)
    | replace l x y m =>
      show List.Forall₂ _ (pushes es ++ []) (pops es ++ [] ++ (l ++ y :: m))
      rw [List.append_nil, List.append_nil, ← List.append_assoc]
      rw [← List.append_assoc] at hgrow
      have hmem : Ev.replace x y ∈ es ++ [Ev.replace x y] :=
        List.mem_append_right _ List.mem_cons_self
      exact forall₂_replace (fun u hu => Relation.ReflTransGen.tail hu hmem) hgrow
    | pop x q =>
      show List.Forall₂ _ (pushes es ++ []) (pops es ++ [x] ++ q')
      rw [List.append_nil, List.append_assoc]
      exact hgrow

/-- A queue that is emptied lets out all that waits. -/
theorem Run.clear {es : List (Ev α)} {q : List α} (h : Run es q) :
    Run (es ++ q.map Ev.pop) [] := by
  induction q generalizing es with
  | nil => rwa [List.map_nil, List.append_nil]
  | cons x q ih =>
    have hnext := ih (.snoc h (.pop x q))
    rwa [List.append_assoc, List.singleton_append] at hnext

end Fifo
