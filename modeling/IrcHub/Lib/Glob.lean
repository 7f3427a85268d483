import Mathlib.Data.List.Basic

/-!
# `IrcHub.Lib.Glob`: patterns with wildcards

A pattern is a list of tokens: any run of letters, any one letter, or one letter up to a folding.
`Matches` is its language, as a relation, with a rule for each token. The alphabet and the folding
are arbitrary, so the same facts serve patterns over bytes and over characters.

- `matches_star_iff`, `Matches.absorb`: what a star can do. It takes nothing or one letter more
- `matches_append_iff`, `Matches.split_at`: patterns in parts
- `Matches.congr`, `matches_fold_iff`: only the folded letters count, and both sides may be folded
  first
- `matches_literal_iff`, `overlap_literal_iff`: a text taken as a pattern
- `Overlap`: two patterns have a text in common

Overlap is a statement about all texts, and still it can be decided from the ends of the patterns:
`overlap_star_cons` and `overlap_cons_cons` take it from two patterns to shorter ones, and
`overlap_nil_nil`, `overlap_star_nil` and `overlap_cons_nil` end the recursion. A table over the
two lengths filled by these rules is therefore exact.
-/

set_option autoImplicit false

namespace Glob

/-- One token of a pattern. -/
inductive Tok (α : Type)
  | star | any | lit (a : α)
  deriving Repr, DecidableEq

/-- A token with its letter folded. -/
def Tok.fold {α β : Type} (f : α → β) : Tok α → Tok β
  | .star => .star
  | .any => .any
  | .lit a => .lit (f a)

section Language

variable {α β : Type} {f : α → β} {p q : List (Tok α)} {s t : List α} {c : α}

/-- The texts of a pattern, with letters folded by `f`. -/
def Matches (f : α → β) : List (Tok α) → List α → Prop
  | [], s => s = []
  | .star :: p, s => ∃ run t, s = run ++ t ∧ Matches f p t
  | .any :: p, s => ∃ c t, s = c :: t ∧ Matches f p t
  | .lit a :: p, s => ∃ c t, s = c :: t ∧ f a = f c ∧ Matches f p t

/-- The empty pattern matches the empty text only. -/
theorem matches_nil_iff : Matches f [] s ↔ s = [] := Iff.rfl

/-- A star takes nothing, or one letter more. -/
theorem matches_star_iff :
    Matches f (.star :: p) s ↔ Matches f p s ∨ ∃ c t, s = c :: t ∧ Matches f (.star :: p) t := by
  constructor
  · rintro ⟨run, t, rfl, h⟩
    cases run with
    | nil => exact .inl h
    | cons c run => exact .inr ⟨c, run ++ t, rfl, run, t, rfl, h⟩
  · rintro (h | ⟨c, t, rfl, run, u, rfl, h⟩)
    · exact ⟨[], s, rfl, h⟩
    · exact ⟨c :: run, u, rfl, h⟩

/-- At the end of the text a star can only match nothing. -/
theorem matches_star_nil : Matches f (.star :: p) [] ↔ Matches f p [] := by
  rw [matches_star_iff]
  refine or_iff_left ?_
  rintro ⟨c, t, hno, -⟩
  cases hno

/-- A star matches nothing here, or one character more. -/
theorem matches_star_cons :
    Matches f (.star :: p) (c :: s) ↔ Matches f p (c :: s) ∨ Matches f (.star :: p) s := by
  rw [matches_star_iff]
  refine or_congr_right ⟨?_, fun h => ⟨c, s, rfl, h⟩⟩
  rintro ⟨d, t, heq, h⟩
  cases heq
  exact h

/-- A question mark matches one character, whichever it is. -/
theorem matches_any_cons : Matches f (.any :: p) (c :: s) ↔ Matches f p s := by
  constructor
  · rintro ⟨d, t, heq, h⟩
    cases heq
    exact h
  · exact fun h => ⟨c, s, rfl, h⟩

/-- A character matches itself, up to folding. -/
theorem matches_lit_cons {a : α} : Matches f (.lit a :: p) (c :: s) ↔ f a = f c
    ∧ Matches f p s := by
  constructor
  · rintro ⟨d, t, heq, hsame, h⟩
    cases heq
    exact ⟨hsame, h⟩
  · exact fun h => ⟨c, s, rfl, h.1, h.2⟩

/-- A star that can take a text can take any text that ends with it. -/
theorem Matches.absorb (h : Matches f (.star :: p) t) (run : List α) :
    Matches f (.star :: p) (run ++ t) := by
  obtain ⟨run', u, rfl, h⟩ := h
  exact ⟨run ++ run', u, (List.append_assoc ..).symm, h⟩

/-- The text of a pattern in two parts is a text of each. The cut of the text is not given by the
cut of the pattern: where the first part ends in a star there may be many. -/
theorem matches_append_iff : Matches f (p ++ q) s ↔ ∃ u t, s = u ++ t ∧ Matches f p u
    ∧ Matches f q t := by
  induction p generalizing s with
  | nil =>
      exact ⟨fun h => ⟨[], s, rfl, rfl, h⟩,
      fun ⟨u, t, hs, hu, h⟩ => by rw [hs, matches_nil_iff.mp hu]; exact h⟩
  | cons x p ih =>
    cases x with
    | star =>
      constructor
      · rintro ⟨run, t, rfl, h⟩
        obtain ⟨u, v, rfl, hu, hv⟩ := ih.mp h
        exact ⟨run ++ u, v, (List.append_assoc ..).symm, ⟨run, u, rfl, hu⟩, hv⟩
      · rintro ⟨w, v, rfl, ⟨run, u, rfl, hu⟩, hv⟩
        exact ⟨run, u ++ v, List.append_assoc .., ih.mpr ⟨u, v, rfl, hu, hv⟩⟩
    | any =>
      constructor
      · rintro ⟨c, t, rfl, h⟩
        obtain ⟨u, v, rfl, hu, hv⟩ := ih.mp h
        exact ⟨c :: u, v, rfl, ⟨c, u, rfl, hu⟩, hv⟩
      · rintro ⟨w, v, rfl, ⟨c, u, rfl, hu⟩, hv⟩
        exact ⟨c, u ++ v, rfl, ih.mpr ⟨u, v, rfl, hu, hv⟩⟩
    | lit a =>
      constructor
      · rintro ⟨c, t, rfl, hsame, h⟩
        obtain ⟨u, v, rfl, hu, hv⟩ := ih.mp h
        exact ⟨c :: u, v, rfl, ⟨c, u, rfl, hsame, hu⟩, hv⟩
      · rintro ⟨w, v, rfl, ⟨c, u, rfl, hsame, hu⟩, hv⟩
        exact ⟨c, u ++ v, rfl, hsame, ih.mpr ⟨u, v, rfl, hu, hv⟩⟩

/-- Tokens other than stars take one letter each. -/
theorem Matches.length_eq (h : Matches f p s) (hseg : .star ∉ p) : s.length = p.length := by
  induction p generalizing s with
  | nil => rw [matches_nil_iff.mp h]; rfl
  | cons x p ih =>
    have htail : ∃ c t, s = c :: t ∧ Matches f p t := by
      cases x with
      | star => exact absurd List.mem_cons_self hseg
      | any => exact h
      | lit a =>
        obtain ⟨c, t, heq, -, ht⟩ := h
        exact ⟨c, t, heq, ht⟩
    obtain ⟨c, t, rfl, ht⟩ := htail
    rw [List.length_cons, List.length_cons, ih ht fun hmem => hseg (List.mem_cons_of_mem _ hmem)]

/-- A letter that stands only for itself, and is only once in the text, splits pattern and text
alike. -/
theorem Matches.split_at {a : α} (hself : ∀ c, f a = f c → c = a) (hs : a ∉ s) (ht : a ∉ t)
    (h : Matches f (p ++ .lit a :: q) (s ++ a :: t)) : Matches f p s ∧ Matches f q t := by
  obtain ⟨u, v, heq, hu, c, w, rfl, hc, hw⟩ := matches_append_iff.mp h
  rw [hself c hc] at heq
  obtain ⟨rfl, -, rfl⟩ := (List.append_cons_inj_of_notMem hs ht).mp heq
  exact ⟨hu, hw⟩

/-- A letter of a pattern is in each of its texts, up to the folding. It is how a pattern with a
letter that no text of a kind has is seen to match none of them. -/
theorem Matches.lit_mem {a : α} (h : Matches f p s) (ha : .lit a ∈ p) : ∃ c ∈ s, f a = f c := by
  induction p generalizing s with
  | nil => exact absurd ha List.not_mem_nil
  | cons x p ih =>
    cases x with
    | star =>
      obtain ⟨run, t, rfl, ht⟩ := h
      obtain ⟨c, hc, hsame⟩ := ih ht ((List.mem_cons.mp ha).resolve_left fun hno => nomatch hno)
      exact ⟨c, List.mem_append_right _ hc, hsame⟩
    | any =>
      obtain ⟨d, t, rfl, ht⟩ := h
      obtain ⟨c, hc, hsame⟩ := ih ht ((List.mem_cons.mp ha).resolve_left fun hno => nomatch hno)
      exact ⟨c, List.mem_cons_of_mem _ hc, hsame⟩
    | lit b =>
      obtain ⟨d, t, rfl, hd, ht⟩ := h
      rcases List.mem_cons.mp ha with heq | hmem
      · cases heq
        exact ⟨d, List.mem_cons_self, hd⟩
      · obtain ⟨c, hc, hsame⟩ := ih ht hmem
        exact ⟨c, List.mem_cons_of_mem _ hc, hsame⟩

/-- The empty text is a text of stars. -/
theorem matches_empty_iff : Matches f p [] ↔ ∀ x ∈ p, x = .star := by
  induction p with
  | nil => exact ⟨fun _ x hx => (List.not_mem_nil hx).elim, fun _ => rfl⟩
  | cons x p ih =>
    cases x with
    | star =>
      rw [matches_star_nil, ih, List.forall_mem_cons]
      exact (and_iff_right rfl).symm
    | any =>
      refine ⟨fun ⟨c, t, hno, _⟩ => (nomatch hno), fun hall => ?_⟩
      cases hall _ List.mem_cons_self
    | lit a =>
      refine ⟨fun ⟨c, t, hno, _⟩ => (nomatch hno), fun hall => ?_⟩
      cases hall _ List.mem_cons_self

/-- Only the folded letters count: a text that folds to the same letters matches as well. -/
theorem Matches.congr (h : Matches f p s) (hfold : t.map f = s.map f) : Matches f p t := by
  induction p generalizing s t with
  | nil =>
    rw [matches_nil_iff] at h
    subst h
    exact List.map_eq_nil_iff.mp hfold
  | cons x p ih =>
    cases x with
    | star =>
      obtain ⟨run, u, rfl, h⟩ := h
      rw [List.map_append] at hfold
      obtain ⟨run', u', rfl, -, hu⟩ := List.map_eq_append_iff.mp hfold
      exact ⟨run', u', rfl, ih h hu⟩
    | any =>
      obtain ⟨c, u, rfl, h⟩ := h
      rw [List.map_cons] at hfold
      obtain ⟨c', u', rfl, -, hu⟩ := List.map_eq_cons_iff.mp hfold
      exact ⟨c', u', rfl, ih h hu⟩
    | lit a =>
      obtain ⟨c, u, rfl, hsame, h⟩ := h
      rw [List.map_cons] at hfold
      obtain ⟨c', u', rfl, hc, hu⟩ := List.map_eq_cons_iff.mp hfold
      exact ⟨c', u', rfl, hsame.trans hc.symm, ih h hu⟩

/-- A pattern and a text may be folded first. After that no folding is left (`id`), so a matcher
may compare letters as they are. -/
theorem matches_fold_iff : Matches f p s ↔ Matches id (p.map (Tok.fold f)) (s.map f) := by
  induction p generalizing s with
  | nil => exact List.map_eq_nil_iff.symm
  | cons x p ih =>
    cases x with
    | star =>
      constructor
      · rintro ⟨run, t, rfl, h⟩
        exact ⟨run.map f, t.map f, List.map_append, ih.mp h⟩
      · rintro ⟨run, t, heq, h⟩
        obtain ⟨run', t', rfl, rfl, rfl⟩ := List.map_eq_append_iff.mp heq
        exact ⟨run', t', rfl, ih.mpr h⟩
    | any =>
      constructor
      · rintro ⟨c, t, rfl, h⟩
        exact ⟨f c, t.map f, rfl, ih.mp h⟩
      · rintro ⟨c, t, heq, h⟩
        obtain ⟨c', t', rfl, rfl, rfl⟩ := List.map_eq_cons_iff.mp heq
        exact ⟨c', t', rfl, ih.mpr h⟩
    | lit a =>
      constructor
      · rintro ⟨c, t, rfl, hsame, h⟩
        exact ⟨f c, t.map f, rfl, hsame, ih.mp h⟩
      · rintro ⟨c, t, heq, hsame, h⟩
        obtain ⟨c', t', rfl, rfl, rfl⟩ := List.map_eq_cons_iff.mp heq
        exact ⟨c', t', rfl, hsame, ih.mpr h⟩

/-- A text, taken as a pattern, stands for the texts that fold to the same. -/
theorem matches_literal_iff : Matches f (t.map .lit) s ↔ s.map f = t.map f := by
  induction t generalizing s with
  | nil => exact List.map_eq_nil_iff.symm
  | cons a t ih =>
    cases s with
    | nil =>
      refine ⟨fun ⟨c, u, hno, _⟩ => (nomatch hno), fun hno => (nomatch hno)⟩
    | cons c s =>
      rw [List.map_cons, matches_lit_cons, ih, List.map_cons, List.map_cons, List.cons.injEq,
        eq_comm (a := f c)]

end Language

/-! ### Overlap -/

section Overlap

variable {α β : Type} {f : α → β} {p q : List (Tok α)} {x y : Tok α} {t : List α}

/-- Two patterns have a text in common. -/
def Overlap (f : α → β) (p q : List (Tok α)) : Prop := ∃ s, Matches f p s ∧ Matches f q s

/-- Two tokens that each take one letter have a letter in common. -/
def Meets (f : α → β) : Tok α → Tok α → Prop
  | .any, _ => True
  | _, .any => True
  | .lit a, .lit b => f a = f b
  | _, _ => False

/-- Two patterns overlap in either order. -/
theorem overlap_comm : Overlap f p q ↔ Overlap f q p := exists_congr fun _ => and_comm

/-- Two empty patterns share the empty text. -/
theorem overlap_nil_nil : Overlap f ([] : List (Tok α)) [] := ⟨[], rfl, rfl⟩

/-- A pattern overlaps the empty one when it matches the empty text. -/
theorem overlap_nil_right : Overlap f p [] ↔ Matches f p [] := by
  constructor
  · rintro ⟨s, hp, rfl⟩
    exact hp
  · exact fun h => ⟨[], h, rfl⟩

/-- A star gives way to the empty pattern. -/
theorem overlap_star_nil : Overlap f (.star :: p) [] ↔ Overlap f p [] := by
  rw [overlap_nil_right, overlap_nil_right, matches_star_nil]

/-- A letter for every token. -/
theorem matches_one [Nonempty α] (y : Tok α) {s : List α} (h : Matches f q s) :
    ∃ run, Matches f (y :: q) (run ++ s) := by
  cases y with
  | star => exact ⟨[], [], s, rfl, h⟩
  | any =>
    obtain ⟨c⟩ := ‹Nonempty α›
    exact ⟨[c], c, s, rfl, h⟩
  | lit a => exact ⟨[a], a, s, rfl, rfl, h⟩

/-- A star takes nothing, or what the next token of the other pattern takes. The other pattern is
not at its end here; `overlap_star_nil` is that case. `Nonempty` is for an other token that takes
any letter. -/
theorem overlap_star_cons [Nonempty α] :
    Overlap f (.star :: p) (y :: q) ↔ Overlap f p (y :: q) ∨ Overlap f (.star :: p) q := by
  constructor
  · rintro ⟨s, hp, hq⟩
    induction s with
    | nil => exact .inl ⟨[], matches_star_nil.mp hp, hq⟩
    | cons c s ih =>
      rcases matches_star_cons.mp hp with hp' | hp'
      · exact .inl ⟨c :: s, hp', hq⟩
      cases y with
      | star =>
        rcases matches_star_cons.mp hq with hq' | hq'
        · exact .inr ⟨c :: s, hp, hq'⟩
        · exact ih hp' hq'
      | any => exact .inr ⟨s, hp', matches_any_cons.mp hq⟩
      | lit a => exact .inr ⟨s, hp', (matches_lit_cons.mp hq).2⟩
  · rintro (⟨s, hp, hq⟩ | ⟨s, hp, hq⟩)
    · exact ⟨s, matches_star_iff.mpr (.inl hp), hq⟩
    · obtain ⟨run, hrun⟩ := matches_one y hq
      exact ⟨run ++ s, hp.absorb run, hrun⟩

/-- What needs a character shares no text with the empty pattern. -/
theorem overlap_cons_nil (hx : x ≠ .star) : ¬ Overlap f (x :: p) [] := by
  rw [overlap_nil_right, matches_empty_iff]
  exact fun hall => hx (hall x List.mem_cons_self)

/-- Tokens that take one letter take the same one: the two patterns share a text exactly when the
two tokens share a letter and the rests share a text. `hx` and `hy` exclude stars. -/
theorem overlap_cons_cons [Nonempty α] (hx : x ≠ .star) (hy : y ≠ .star) :
    Overlap f (x :: p) (y :: q) ↔ Meets f x y ∧ Overlap f p q := by
  cases x with
  | star => exact absurd rfl hx
  | any =>
    cases y with
    | star => exact absurd rfl hy
    | any =>
      refine ⟨fun ⟨s, hp, hq⟩ => ?_, fun ⟨_, s, hp, hq⟩ => ?_⟩
      · obtain ⟨c, t, rfl, hp⟩ := hp
        exact ⟨trivial, t, hp, matches_any_cons.mp hq⟩
      · obtain ⟨c⟩ := ‹Nonempty α›
        exact ⟨c :: s, ⟨c, s, rfl, hp⟩, c, s, rfl, hq⟩
    | lit b =>
      refine ⟨fun ⟨s, hp, hq⟩ => ?_, fun ⟨_, s, hp, hq⟩ => ?_⟩
      · obtain ⟨c, t, rfl, hp⟩ := hp
        exact ⟨trivial, t, hp, (matches_lit_cons.mp hq).2⟩
      · exact ⟨b :: s, ⟨b, s, rfl, hp⟩, b, s, rfl, rfl, hq⟩
  | lit a =>
    cases y with
    | star => exact absurd rfl hy
    | any =>
      refine ⟨fun ⟨s, hp, hq⟩ => ?_, fun ⟨_, s, hp, hq⟩ => ?_⟩
      · obtain ⟨c, t, rfl, hq⟩ := hq
        exact ⟨trivial, t, (matches_lit_cons.mp hp).2, hq⟩
      · exact ⟨a :: s, ⟨a, s, rfl, rfl, hp⟩, a, s, rfl, hq⟩
    | lit b =>
      refine ⟨fun ⟨s, hp, hq⟩ => ?_, fun ⟨hsame, s, hp, hq⟩ => ?_⟩
      · obtain ⟨c, t, rfl, hac, hp⟩ := hp
        obtain ⟨hbc, hq⟩ := matches_lit_cons.mp hq
        exact ⟨hac.trans hbc.symm, t, hp, hq⟩
      · exact ⟨a :: s, ⟨a, s, rfl, rfl, hp⟩, a, s, rfl, Eq.symm hsame, hq⟩

/-- A pattern and a text taken as a pattern overlap when the text is one of the pattern. -/
theorem overlap_literal_iff : Overlap f p (t.map .lit) ↔ Matches f p t := by
  constructor
  · rintro ⟨s, hp, hs⟩
    exact hp.congr (matches_literal_iff.mp hs).symm
  · exact fun h => ⟨t, h, matches_literal_iff.mpr rfl⟩

end Overlap

end Glob
