import IrcHub.Hub.Glob
import IrcHub.Lib.Glob

/-!
# `IrcHub.Proofs.Glob`: hostmask patterns mean what they say

The language of a pattern is `InGlob`: a star is any run of bytes, a question mark one byte, and
every other byte stands for itself in either case.

* `globLoop_ends`: the matching loop ends, on every pattern and every text
* `globMatch_exact`: it finds out whether the text is one of the pattern
* `globOverlap_exact`: the overlap table finds out whether two patterns have a text in common

The loop of the source goes back to the last star and to no other. That is enough because of what
`LoopGood` keeps: between the last star and the place in the pattern there is no star, and the
text there has been taken byte by byte. If a run of an earlier star has to be longer, then the
last star can take the bytes instead (`rest_of_longer`), so nothing is lost. `globTurn_turned`
says that each turn keeps this and brings `loopRest` down, or returns the right answer.

The overlap table is filled from the ends of the two patterns. `RowOf` says what a row means and
`rowOf_some`, `rowOf_none` make a row from the one under it.
-/

set_option autoImplicit false

namespace IrcHub.Proofs

open IrcHub.Hub

/-- What a byte of a pattern stands for. A literal is compared after folding, so `.lit c` stands
for both cases of a letter. -/
def globTok (c : UInt8) : Glob.Tok UInt8 := if c = globStar then .star else if c = globAny
    then .any else .lit c

/-- The texts of a pattern. -/
def InGlob (p s : List UInt8) : Prop := Glob.Matches gfold (p.map globTok) s

/-- The star is the token for any text. -/
theorem globTok_star : globTok globStar = .star := if_pos rfl

/-- And no other byte is. -/
theorem globTok_eq_star_iff {c : UInt8} : globTok c = .star ↔ c = globStar := by
  unfold globTok
  split
  · rename_i h
    exact ⟨fun _ => h, fun _ => rfl⟩
  · rename_i h
    split
    · exact ⟨fun hno => (nomatch hno), fun hyes => absurd hyes h⟩
    · exact ⟨fun hno => (nomatch hno), fun hyes => absurd hyes h⟩

/-- A byte of a pattern that is no star takes a byte of the text, or does not. -/
theorem inGlob_cons_iff {x c : UInt8} {p s : List UInt8} (hx : x ≠ globStar) :
    InGlob (x :: p) (c :: s) ↔ (x = globAny ∨ gfold x = gfold c) ∧ InGlob p s := by
  unfold InGlob
  rw [List.map_cons, globTok, if_neg hx]
  split
  · rename_i hany
    rw [Glob.matches_any_cons]
    exact (and_iff_right (.inl hany)).symm
  · rename_i hany
    rw [Glob.matches_lit_cons, or_iff_right hany]

/-- A star takes nothing or one byte more. -/
theorem inGlob_star_cons_iff {c : UInt8} {p s : List UInt8} :
    InGlob (globStar :: p) (c :: s) ↔ InGlob p (c :: s) ∨ InGlob (globStar :: p) s := by
  unfold InGlob
  rw [List.map_cons, globTok_star]
  exact Glob.matches_star_cons

/-- A pattern takes the empty text in when it is all stars. -/
theorem inGlob_nil_iff {p : List UInt8} : InGlob p [] ↔ p.all (· == globStar) = true := by
  unfold InGlob
  rw [Glob.matches_empty_iff, List.forall_mem_map, List.all_eq_true]
  exact forall₂_congr fun c _ => by rw [globTok_eq_star_iff, beq_iff_eq]

/-- The empty pattern takes no other text in. -/
theorem not_inGlob_nil_cons {c : UInt8} {s : List UInt8} : ¬ InGlob [] (c :: s) :=
  fun hno => (nomatch hno)

/-! ### The matching loop -/

/-- Where the loop is: in the pattern, in the text, and the last star with the end of its run.
These are the four locals of the source, with no star for `star == -1`. -/
structure GlobState where
  pi : Nat
  si : Nat
  back : Option (Nat × Nat)

/-- The last star takes one byte more, if there was a star. Without one the match has failed. -/
def globRetry (back : Option (Nat × Nat)) : GlobState ⊕ Bool :=
  match back with
  | some (st, mark) => .inl ⟨st + 1, mark + 1, some (st, mark + 1)⟩
  | none => .inr false

/-- One turn of the loop: where it goes on, or its result. The branches are those of the source,
in its order. -/
def globTurn (p s : List UInt8) (g : GlobState) : GlobState ⊕ Bool :=
  match s[g.si]? with
  | none => .inr ((p.drop g.pi).all (· == globStar))
  | some c =>
    match p[g.pi]? with
    | some x =>
      if x == globStar then .inl ⟨g.pi + 1, g.si, some (g.pi, g.si)⟩
      else if x == globAny || gfold x == gfold c then .inl ⟨g.pi + 1, g.si + 1, g.back⟩
      else globRetry g.back
    | none => globRetry g.back

/-- The loop for at most `n` turns. -/
def globLoop (p s : List UInt8) : Nat → GlobState → Option Bool
  | 0, _ => none
  | n + 1, g => (globTurn p s g).elim (globLoop p s n) some

/-- One turn of the loop, then the rest of it. The loop of the model has fuel and its own
recursion; from here on only turns are spoken of. -/
theorem globMatchLoop_succ (p s : List UInt8) (n : Nat) (g : GlobState) :
    globMatchLoop p s (n + 1) g.pi g.si g.back
      = (globTurn p s g).elim (fun g => globMatchLoop p s n g.pi g.si g.back) id := by
  obtain ⟨pi, si, back⟩ := g
  rw [globTurn]
  show globMatchLoop p s (n + 1) pi si back = _
  simp only [globMatchLoop]
  cases s[si]? with
  | none => rfl
  | some c =>
    dsimp only
    cases p[pi]? with
    | none =>
      cases back with
      | none => rfl
      | some b =>
        obtain ⟨st, mark⟩ := b
        rfl
    | some x =>
      dsimp only
      split
      · rfl
      split
      · rfl
      cases back with
      | none => rfl
      | some b =>
        obtain ⟨st, mark⟩ := b
        rfl

/-- What holds of the loop between turns: both places are inside, and since its last star it took
one byte of the text for each byte of the pattern. -/
structure LoopGood (p s : List UInt8) (g : GlobState) : Prop where
  text : g.si ≤ s.length
  pattern : g.pi ≤ p.length
  back : ∀ st mark, g.back = some (st, mark) → p[st]? = some globStar ∧ ∃ seg, globStar ∉ seg
    ∧ p.drop (st + 1) = seg ++ p.drop g.pi ∧ g.si = mark + seg.length

/-- What is left to find: the text goes on as the pattern does, or a longer run of the last star
is needed. -/
def LoopGoal (p s : List UInt8) (g : GlobState) : Prop :=
  InGlob (p.drop g.pi) (s.drop g.si)
    ∨ ∃ st mark, g.back = some (st, mark) ∧ InGlob (p.drop st) (s.drop (mark + 1))

/-- The turns that are left at most. A retry moves the mark forward and may send both places back,
hence the product; a turn without a retry moves one of the two places. -/
def loopRest (p s : List UInt8) (g : GlobState) : Nat :=
  (s.length - (g.back.map (·.2)).getD 0) * (p.length + s.length + 1) + (p.length - g.pi)
  + (s.length - g.si)

variable {p s : List UInt8} {g : GlobState} {st mark : Nat}

/-- What is left starts with the byte at the place. -/
theorem drop_of_getElem? {α : Type} {l : List α} {i : Nat} {a : α} (h : l[i]? = some a) :
    l.drop i = a :: l.drop (i + 1) := by
  obtain ⟨hlt, rfl⟩ := List.getElem?_eq_some_iff.mp h
  exact List.drop_eq_getElem_cons hlt

/-- A longer run of the last star is not needed if the text can go on after any run. What follows
the star is literal up to the place in the pattern, so a text that goes on after a longer run goes
on at a later place of the text. -/
theorem rest_of_longer (hg : LoopGood p s g) (hback : g.back = some (st, mark))
    (hlonger : InGlob (p.drop st) (s.drop (mark + 1))) : ∃ k, g.si ≤ k
    ∧ InGlob (p.drop g.pi) (s.drop k)
      ∧ (mark < s.length → g.si < k ∧ k ≤ s.length) := by
  obtain ⟨hstar, seg, hseg, hdrop, hsi⟩ := hg.back st mark hback
  rw [drop_of_getElem? hstar, hdrop] at hlonger
  obtain ⟨run, t, htext, hrest⟩ : ∃ run t, s.drop (mark + 1) = run ++ t
    ∧ InGlob (seg ++ p.drop g.pi) t := by
    unfold InGlob at hlonger
    rw [List.map_cons, globTok_star] at hlonger
    exact hlonger
  unfold InGlob at hrest
  rw [List.map_append] at hrest
  obtain ⟨u, v, rfl, hu, hv⟩ := Glob.matches_append_iff.mp hrest
  have hnostar : .star ∉ seg.map globTok := by
    intro hmem
    obtain ⟨c, hc, heq⟩ := List.mem_map.mp hmem
    exact hseg (globTok_eq_star_iff.mp heq ▸ hc)
  have hlen := hu.length_eq hnostar
  rw [List.length_map] at hlen
  have hlens := congrArg List.length htext
  simp only [List.length_drop, List.length_append] at hlens
  have hk : s.drop (mark + 1 + (run.length + u.length)) = v := by
    rw [← List.drop_drop, htext, ← List.append_assoc, ← List.length_append, List.drop_left]
  refine ⟨mark + 1 + (run.length + u.length), by omega, ?_, fun hlt => ⟨by omega, by omega⟩⟩
  rw [hk]
  exact hv

/-- The end of the text. Only stars may be left in the pattern, and a longer run of the last star
has nothing to take. -/
theorem loopGoal_ended (hg : LoopGood p s g) (hend : s[g.si]? = none) :
    (p.drop g.pi).all (· == globStar) = true ↔ LoopGoal p s g := by
  have hlen : s.length ≤ g.si := List.getElem?_eq_none_iff.mp hend
  rw [← inGlob_nil_iff]
  constructor
  · intro h
    refine .inl ?_
    rw [List.drop_eq_nil_of_le hlen]
    exact h
  · rintro (h | ⟨st, mark, hback, hlonger⟩)
    · rw [List.drop_eq_nil_of_le hlen] at h
      exact h
    · obtain ⟨k, hk, h, -⟩ := rest_of_longer hg hback hlonger
      rw [List.drop_eq_nil_of_le (hlen.trans hk)] at h
      exact h

variable {x c : UInt8}

/-- A star: its run starts empty, and the stars before it are not needed any more. -/
theorem loopGoal_star (hg : LoopGood p s g) (hc : s[g.si]? = some c)
    (hx : p[g.pi]? = some globStar) :
    LoopGood p s ⟨g.pi + 1, g.si, some (g.pi, g.si)⟩
      ∧ (LoopGoal p s ⟨g.pi + 1, g.si, some (g.pi, g.si)⟩ ↔ LoopGoal p s g) := by
  have hlt := (List.getElem?_eq_some_iff.mp hx).1
  have hsi := (List.getElem?_eq_some_iff.mp hc).1
  refine ⟨⟨hg.text, hlt, fun st mark hback => ?_⟩, ?_⟩
  · cases hback
    exact ⟨hx, [], List.not_mem_nil, rfl, rfl⟩
  have hnew : LoopGoal p s ⟨g.pi + 1, g.si, some (g.pi, g.si)⟩
    ↔ InGlob (p.drop g.pi) (s.drop g.si) := by
    rw [drop_of_getElem? hx, drop_of_getElem? hc, inGlob_star_cons_iff, ← drop_of_getElem? hc,
      ← drop_of_getElem? hx]
    refine or_congr_right ⟨?_, fun h => ⟨_, _, rfl, h⟩⟩
    rintro ⟨st, mark, hback, h⟩
    cases hback
    exact h
  rw [hnew]
  refine ⟨.inl, ?_⟩
  rintro (h | ⟨st, mark, hback, hlonger⟩)
  · exact h
  · obtain ⟨k, hk, h, -⟩ := rest_of_longer hg hback hlonger
    have hsplit : s.drop g.si = (s.drop g.si).take (k - g.si) ++ s.drop k := by
      conv_lhs => rw [← List.take_append_drop (k - g.si) (s.drop g.si)]
      rw [List.drop_drop, Nat.add_sub_cancel' hk]
    rw [drop_of_getElem? hx] at h ⊢
    rw [hsplit]
    unfold InGlob at h ⊢
    rw [List.map_cons, globTok_star] at h ⊢
    exact h.absorb _

/-- A byte of the pattern takes a byte of the text. The invariant about the last star goes along
with both places. -/
theorem loopGoal_step (hg : LoopGood p s g) (hc : s[g.si]? = some c) (hx : p[g.pi]? = some x)
    (hstar : x ≠ globStar) (hsame : x = globAny ∨ gfold x = gfold c) :
    LoopGood p s ⟨g.pi + 1, g.si + 1, g.back⟩
      ∧ (LoopGoal p s ⟨g.pi + 1, g.si + 1, g.back⟩ ↔ LoopGoal p s g) := by
  have hlt := (List.getElem?_eq_some_iff.mp hx).1
  have hsi := (List.getElem?_eq_some_iff.mp hc).1
  refine ⟨⟨hsi, hlt, fun st mark hback => ?_⟩, or_congr_left ?_⟩
  · obtain ⟨hst, seg, hseg, hdrop, hlen⟩ := hg.back st mark hback
    refine ⟨hst, seg ++ [x], ?_, ?_, ?_⟩
    · rw [List.mem_append, List.mem_singleton]
      rintro (hmem | heq)
      · exact hseg hmem
      · exact hstar heq.symm
    · rw [hdrop, drop_of_getElem? hx, List.append_assoc]
      rfl
    · rw [List.length_append, List.length_singleton, ← Nat.add_assoc, ← hlen]
  · rw [drop_of_getElem? hx, drop_of_getElem? hc, inGlob_cons_iff hstar]
    exact (and_iff_right hsame).symm

/-- The last star takes one byte more. The run it had so far did not lead anywhere (`hno`), so the
goal is left with the longer ones. -/
theorem loopGoal_retry (hg : LoopGood p s g) (hc : s[g.si]? = some c)
    (hback : g.back = some (st, mark)) (hno : ¬ InGlob (p.drop g.pi) (s.drop g.si)) :
    LoopGood p s ⟨st + 1, mark + 1, some (st, mark + 1)⟩
      ∧ (LoopGoal p s ⟨st + 1, mark + 1, some (st, mark + 1)⟩ ↔ LoopGoal p s g) := by
  obtain ⟨hst, seg, -, -, hlen⟩ := hg.back st mark hback
  have hlt := (List.getElem?_eq_some_iff.mp hst).1
  have hsi := (List.getElem?_eq_some_iff.mp hc).1
  have htext : mark + 1 ≤ s.length := by omega
  refine ⟨⟨htext, hlt, fun st' mark' hback' => ?_⟩, ?_⟩
  · cases hback'
    exact ⟨hst, [], List.not_mem_nil, rfl, rfl⟩
  have hold : LoopGoal p s g ↔ InGlob (p.drop st) (s.drop (mark + 1)) := by
    refine (or_iff_right hno).trans ⟨?_, fun h => ⟨_, _, hback, h⟩⟩
    rintro ⟨st', mark', hback', h⟩
    rw [hback] at hback'
    cases hback'
    exact h
  have hnew : LoopGoal p s ⟨st + 1, mark + 1, some (st, mark + 1)⟩
      ↔ InGlob (p.drop (st + 1)) (s.drop (mark + 1))
        ∨ InGlob (p.drop st) (s.drop (mark + 1 + 1)) := by
    refine or_congr_right ⟨?_, fun h => ⟨_, _, rfl, h⟩⟩
    rintro ⟨st', mark', hback', h⟩
    cases hback'
    exact h
  rw [hold, hnew]
  cases hd : s[mark + 1]? with
  | some d => rw [drop_of_getElem? hd, drop_of_getElem? hst, inGlob_star_cons_iff]
  | none =>
    -- the run has the whole text already
    have hle : s.length ≤ mark + 1 := List.getElem?_eq_none_iff.mp hd
    rw [List.drop_eq_nil_of_le hle, List.drop_eq_nil_of_le (Nat.le_succ_of_le hle),
      drop_of_getElem? hst, inGlob_nil_iff, inGlob_nil_iff, List.all_cons, beq_self_eq_true,
      Bool.true_and, or_self]

/-- Where the pattern cannot go on, the text cannot either. -/
theorem not_inGlob_of_mismatch (hc : s[g.si]? = some c)
    (hno : ∀ y, p[g.pi]? = some y → y ≠ globStar ∧ ¬ (y = globAny ∨ gfold y = gfold c)) :
    ¬ InGlob (p.drop g.pi) (s.drop g.si) := by
  rw [drop_of_getElem? hc]
  cases hx : p[g.pi]? with
  | none =>
    rw [List.drop_eq_nil_of_le (List.getElem?_eq_none_iff.mp hx)]
    exact not_inGlob_nil_cons
  | some y =>
    obtain ⟨hstar, hdiff⟩ := hno y hx
    rw [drop_of_getElem? hx, inGlob_cons_iff hstar]
    exact fun h => hdiff h.1

/-- What one turn does: it goes on to a state that is good, with the same goal and fewer turns
left, or it settles the question. -/
inductive Turned (p s : List UInt8) (g : GlobState) : GlobState ⊕ Bool → Prop
  | on (g' : GlobState) (good : LoopGood p s g') (goal : LoopGoal p s g' ↔ LoopGoal p s g)
      (less : loopRest p s g' < loopRest p s g) : Turned p s g (.inl g')
  | settles (r : Bool) (goal : r = true ↔ LoopGoal p s g) : Turned p s g (.inr r)

/-- After a mismatch the last star takes one byte more. Nothing is lost: an earlier star need not
take more, because the later one can. -/
theorem turned_retry (hg : LoopGood p s g) (hc : s[g.si]? = some c)
    (hno : ¬ InGlob (p.drop g.pi) (s.drop g.si)) :
    Turned p s g (globRetry g.back) := by
  have hsi := (List.getElem?_eq_some_iff.mp hc).1
  cases hback : g.back with
  | none =>
    refine .settles false ⟨fun h => (nomatch h), ?_⟩
    rintro (h | ⟨st, mark, hsome, -⟩)
    · exact absurd h hno
    · rw [hback] at hsome
      cases hsome
  | some b =>
    obtain ⟨st, mark⟩ := b
    obtain ⟨hgood, hgoal⟩ := loopGoal_retry hg hc hback hno
    refine .on _ hgood hgoal ?_
    obtain ⟨-, seg, -, -, hlen⟩ := hg.back st mark hback
    have hrun : (s.length - mark) * (p.length + s.length + 1)
        = (s.length - (mark + 1)) * (p.length + s.length + 1) + (p.length + s.length + 1) := by
      rw [← Nat.succ_mul]
      congr 1
      omega
    show (s.length - (mark + 1)) * (p.length + s.length + 1) + (p.length - (st + 1))
      + (s.length - (mark + 1)) < _
    rw [loopRest, hback, Option.map_some, Option.getD_some, hrun]
    omega

/-- Each turn keeps the invariant and the goal, and brings the loop nearer its end, or gives the
right answer. The cases are those of `globTurn`. -/
theorem globTurn_turned (hg : LoopGood p s g) : Turned p s g (globTurn p s g) := by
  unfold globTurn
  -- the text is at its end
  cases hc : s[g.si]? with
  | none => exact .settles _ (loopGoal_ended hg hc)
  | some c =>
    have hsi := (List.getElem?_eq_some_iff.mp hc).1
    dsimp only
    -- the pattern is at its end, and the text is not: the loop goes back to the last star
    cases hx : p[g.pi]? with
    | none =>
      refine turned_retry hg hc (not_inGlob_of_mismatch hc fun y hy => ?_)
      rw [hx] at hy
      cases hy
    | some x =>
      have hpi := (List.getElem?_eq_some_iff.mp hx).1
      dsimp only
      -- a star: the loop remembers its place
      split
      · rename_i hstar
        rw [beq_iff_eq] at hstar
        subst hstar
        obtain ⟨hgood, hgoal⟩ := loopGoal_star hg hc hx
        refine .on _ hgood hgoal ?_
        -- the run of a later star starts later
        have hmark : (g.back.map (·.2)).getD 0 ≤ g.si := by
          cases hback : g.back with
          | none => exact Nat.zero_le _
          | some b =>
            obtain ⟨-, seg, -, -, hlen⟩ := hg.back b.1 b.2 hback
            exact hlen ▸ Nat.le_add_right ..
        have hrun := Nat.mul_le_mul_right (p.length + s.length + 1)
          (Nat.sub_le_sub_left hmark s.length)
        show (s.length - g.si) * (p.length + s.length + 1) + (p.length - (g.pi + 1))
          + (s.length - g.si) < loopRest p s g
        rw [loopRest]
        omega
      rename_i hstar
      rw [beq_iff_eq] at hstar
      -- the character fits, and both go one further
      split
      · rename_i hsame
        simp only [Bool.or_eq_true, beq_iff_eq] at hsame
        obtain ⟨hgood, hgoal⟩ := loopGoal_step hg hc hx hstar hsame
        refine .on _ hgood hgoal ?_
        show (s.length - (g.back.map (·.2)).getD 0) * (p.length + s.length + 1)
          + (p.length - (g.pi + 1)) + (s.length - (g.si + 1)) < loopRest p s g
        rw [loopRest]
        omega
      -- it does not fit: the loop goes back to the last star
      · rename_i hdiff
        simp only [Bool.or_eq_true, beq_iff_eq] at hdiff
        refine turned_retry hg hc (not_inGlob_of_mismatch hc fun y hy => ?_)
        rw [hx] at hy
        cases hy
        exact ⟨hstar, hdiff⟩

/-- With as many turns as are left at most, and one more, the loop ends and has found out. -/
theorem globLoop_ends {n : Nat} (hg : LoopGood p s g) (hn : loopRest p s g < n) :
    globLoop p s n g = some (globMatchLoop p s n g.pi g.si g.back)
      ∧ (globMatchLoop p s n g.pi g.si g.back = true ↔ LoopGoal p s g) := by
  induction n generalizing g with
  | zero => exact absurd hn (Nat.not_lt_zero _)
  | succ n ih =>
    have hturn := globTurn_turned hg
    rw [globMatchLoop_succ, globLoop]
    generalize globTurn p s g = r at hturn ⊢
    cases hturn with
    | on g' good goal less =>
      obtain ⟨hends, hiff⟩ := ih good (by omega)
      exact ⟨hends, hiff.trans goal⟩
    | settles r goal => exact ⟨rfl, goal⟩

/-- The invariant holds at the start. -/
theorem loopGood_start (p s : List UInt8) : LoopGood p s ⟨0, 0, none⟩ :=
  ⟨Nat.zero_le _, Nat.zero_le _, fun _ _ hno => (nomatch hno)⟩

/-- What the loop is to decide is whether the pattern takes the text in. -/
theorem loopGoal_start (p s : List UInt8) : LoopGoal p s ⟨0, 0, none⟩ ↔ InGlob p s := by
  refine or_iff_left ?_
  rintro ⟨st, mark, hno, -⟩
  cases hno

/-- The loop is given more turns than it needs. -/
theorem loopRest_start (p s : List UInt8) :
    loopRest p s ⟨0, 0, none⟩ < (s.length + 2) * (s.length + p.length + 2) := by
  show (s.length - 0) * (p.length + s.length + 1) + (p.length - 0) + (s.length - 0) < _
  have hrun : s.length * (p.length + s.length + 1) ≤ s.length * (s.length + p.length + 2) :=
    Nat.mul_le_mul_left _ (by omega)
  rw [Nat.add_mul, Nat.sub_zero, Nat.sub_zero]
  omega

/-- The matcher on strings goes by their bytes. -/
theorem globMatch_iff (pat s : Str) : globMatch pat s = true ↔ InGlob (bytesOf pat) (bytesOf s) :=
  (globLoop_ends (loopGood_start _ _) (loopRest_start _ _)).2.trans (loopGoal_start _ _)

/-! ### The overlap table -/

/-- Two patterns have a text in common. -/
def GlobsMeet (a b : List UInt8) : Prop := ∃ s, InGlob a s ∧ InGlob b s

/-- Two patterns meet in either order. -/
theorem globsMeet_comm {a b : List UInt8} : GlobsMeet a b ↔ GlobsMeet b a := Glob.overlap_comm

/-- Two empty patterns meet in the empty text. -/
theorem globsMeet_nil_nil : GlobsMeet [] [] := Glob.overlap_nil_nil

variable {a b : List UInt8} {y : UInt8}

/-- A star gives way to the empty pattern. -/
theorem globsMeet_star_nil : GlobsMeet (globStar :: a) [] ↔ GlobsMeet a [] := by
  show Glob.Overlap gfold ((globStar :: a).map globTok) [] ↔ Glob.Overlap gfold (a.map globTok) []
  rw [List.map_cons, globTok_star]
  exact Glob.overlap_star_nil

/-- A star takes nothing or one token of the other pattern. -/
theorem globsMeet_star_cons : GlobsMeet (globStar :: a) (y :: b) ↔ GlobsMeet a (y :: b)
    ∨ GlobsMeet (globStar :: a) b := by
  show Glob.Overlap gfold ((globStar :: a).map globTok) ((y :: b).map globTok)
    ↔ Glob.Overlap gfold (a.map globTok) ((y :: b).map globTok)
      ∨ Glob.Overlap gfold ((globStar :: a).map globTok) (b.map globTok)
  rw [List.map_cons, List.map_cons, globTok_star]
  exact Glob.overlap_star_cons

/-- What needs a byte meets no empty pattern. -/
theorem not_globsMeet_cons_nil (hx : x ≠ globStar) : ¬ GlobsMeet (x :: a) [] :=
  Glob.overlap_cons_nil fun hstar => hx (globTok_eq_star_iff.mp hstar)

/-- Two tokens meet in a byte when one takes any, or both are the same up to folding. -/
theorem meets_globTok (hx : x ≠ globStar) (hy : y ≠ globStar) :
    Glob.Meets gfold (globTok x) (globTok y) ↔ x = globAny ∨ y = globAny ∨ gfold x = gfold y := by
  unfold globTok
  rw [if_neg hx, if_neg hy]
  by_cases hxa : x = globAny
  · rw [if_pos hxa]
    exact ⟨fun _ => .inl hxa, fun _ => trivial⟩
  · rw [if_neg hxa, or_iff_right hxa]
    by_cases hya : y = globAny
    · rw [if_pos hya]
      exact ⟨fun _ => .inl hya, fun _ => trivial⟩
    · rw [if_neg hya, or_iff_right hya]
      exact Iff.rfl

/-- Two patterns that start with no star meet when their first tokens and their rests do. -/
theorem globsMeet_cons_cons (hx : x ≠ globStar) (hy : y ≠ globStar) :
    GlobsMeet (x :: a) (y :: b) ↔ (x = globAny ∨ y = globAny ∨ gfold x = gfold y)
      ∧ GlobsMeet a b := by
  rw [← meets_globTok hx hy]
  exact Glob.overlap_cons_cons (fun h => hx (globTok_eq_star_iff.mp h)) fun h =>
    hy (globTok_eq_star_iff.mp h)

/-- A row of the table: for every suffix of `b`, whether it overlaps `a`. The row has one place
more than `b` has bytes, for the empty suffix. -/
def RowOf (a : List UInt8) : List UInt8 → List Bool → Prop
  | [], row => row.headD false = true ↔ GlobsMeet a []
  | y :: b, row => (row.headD false = true ↔ GlobsMeet a (y :: b)) ∧ RowOf a b row.tail

/-- The first cell of a row is about the whole pattern. -/
theorem RowOf.head {row : List Bool} (h : RowOf a b row) : row.headD false = true
    ↔ GlobsMeet a b := by
  cases b with
  | nil => exact h
  | cons y b => exact h.1

/-- The row under the last one. -/
theorem rowOf_none (b : List UInt8) (next : List Bool) : RowOf [] b (overlapRow none b next) := by
  induction b generalizing next with
  | nil => exact ⟨fun _ => globsMeet_nil_nil, fun _ => rfl⟩
  | cons y b ih =>
    have hright := (ih next.tail).head
    refine ⟨?_, ih next.tail⟩
    rw [overlapRow]
    simp only [List.headD_cons]
    by_cases hy : y = globStar
    · subst hy
      rw [globsMeet_comm, globsMeet_star_nil, globsMeet_comm, ← hright]
      simp
    · have hno : ¬ GlobsMeet [] (y :: b) :=
        fun h => not_globsMeet_cons_nil hy (globsMeet_comm.mp h)
      simp [hy, hno]

/-- Each row is made from the one under it. A cell looks at the cell to its right, the one under
it and the one across, which are the three ways a shared text can begin. -/
theorem rowOf_some {next : List Bool} (h : RowOf a b next) (x : UInt8) :
    RowOf (x :: a) b (overlapRow (some x) b next) := by
  induction b generalizing next with
  | nil =>
    show (x == globStar && next.headD false) = true ↔ GlobsMeet (x :: a) []
    by_cases hx : x = globStar
    · subst hx
      rw [globsMeet_star_nil, ← h.head, beq_self_eq_true, Bool.true_and]
    · simp [hx, not_globsMeet_cons_nil hx]
  | cons y b ih =>
    have hrow := ih h.2
    have hright := hrow.head
    have hbelow := h.1
    have hdiag := h.2.head
    refine ⟨?_, hrow⟩
    rw [overlapRow]
    simp only [List.headD_cons]
    by_cases hx : x = globStar
    · subst hx
      rw [globsMeet_star_cons, ← hright, ← hbelow]
      simp only [beq_self_eq_true, Bool.true_and, Bool.not_true, Bool.false_and, Bool.or_false,
        Option.isSome_some, Bool.or_eq_true, Bool.and_eq_true]
      tauto
    · by_cases hy : y = globStar
      · subst hy
        rw [globsMeet_comm, globsMeet_star_cons, globsMeet_comm (a := b), globsMeet_comm (b := a),
          ← hright, ← hbelow]
        simp [hx]
      · rw [globsMeet_cons_cons hx hy, ← hdiag]
        simp [hx, hy, or_assoc]

/-- The rows of the table are right, by induction from the end of the first pattern. -/
theorem rowOf_table (a b : List UInt8) :
    RowOf a b (a.foldr (fun c next => overlapRow (some c) b next) (overlapRow none b [])) := by
  induction a with
  | nil => exact rowOf_none b []
  | cons c a ih => exact rowOf_some ih c

/-- The test answers yes for patterns that are too long, and else whether the two meet. -/
theorem globOverlap_iff (a b : List UInt8) :
    globOverlap a b = true ↔ (globOverlapMax < a.length ∨ globOverlapMax < b.length)
      ∨ GlobsMeet a b := by
  unfold globOverlap
  split
  · rename_i hlong
    simp only [Bool.or_eq_true, decide_eq_true_eq] at hlong
    exact ⟨fun _ => .inl hlong, fun _ => rfl⟩
  · rename_i hshort
    simp only [Bool.or_eq_true, decide_eq_true_eq] at hshort
    rw [or_iff_right hshort]
    exact (rowOf_table a b).head

/-- Two patterns overlap exactly when some text is one of both, or one of them is too long to look
at, where the code says yes to be safe; and it does not matter which one comes first. -/
theorem globOverlap_exact (a b : List UInt8) :
    (globOverlap a b = true
        ↔ (globOverlapMax < a.length ∨ globOverlapMax < b.length) ∨ ∃ s, InGlob a s ∧ InGlob b s)
      ∧ globOverlap a b = globOverlap b a := by
  refine ⟨globOverlap_iff a b, ?_⟩
  rw [Bool.eq_iff_iff, globOverlap_iff, globOverlap_iff, globsMeet_comm,
    or_comm (a := globOverlapMax < a.length)]

/-- The loop ends, and says whether the text is one of the pattern. On a text without wildcards
the overlap table says the same, up to its length. Text and pattern are any strings, of bytes that
need not be letters. -/
theorem globMatch_exact (pat s : Str) :
    (∃ n, globLoop (bytesOf pat) (bytesOf s) n ⟨0, 0, none⟩ = some (globMatch pat s))
      ∧ (globMatch pat s = true ↔ InGlob (bytesOf pat) (bytesOf s))
      ∧ ((∀ c ∈ bytesOf s, c ≠ globStar ∧ c ≠ globAny) → (bytesOf pat).length ≤ globOverlapMax →
        (bytesOf s).length ≤ globOverlapMax →
        globMatch pat s = globOverlap (bytesOf pat) (bytesOf s)) := by
  refine ⟨⟨_, (globLoop_ends (loopGood_start _ _) (loopRest_start _ _)).1⟩, globMatch_iff pat s,
    fun hplain hp hs => ?_⟩
  have hlit : (bytesOf s).map globTok = (bytesOf s).map .lit := by
    refine List.map_congr_left fun c hc => ?_
    obtain ⟨hstar, hany⟩ := hplain c hc
    rw [globTok, if_neg hstar, if_neg hany]
  have hmeet : GlobsMeet (bytesOf pat) (bytesOf s) ↔ InGlob (bytesOf pat) (bytesOf s) := by
    show Glob.Overlap gfold _ ((bytesOf s).map globTok) ↔ _
    rw [hlit]
    exact Glob.overlap_literal_iff
  have hshort : ¬ (globOverlapMax < (bytesOf pat).length
    ∨ globOverlapMax < (bytesOf s).length) := by omega
  rw [Bool.eq_iff_iff, globMatch_iff, globOverlap_iff, or_iff_right hshort, hmeet]

end IrcHub.Proofs
