import IrcHub.Proofs.Dedup.Remap
import IrcHub.Proofs.Delete.Reach
import Mathlib.Data.List.Nodup

/-!
# `IrcHub.Proofs.Dedup.Walk`: the walk over the users

The walk over the users. `userGroup` is what the merge works on, the live records of one name and
type, and `Best` the record of a group that beats the others. `walked_dedup` says what the walk
leaves:

- one record of every group, the best one
- for every other record a note that names a record of its group, and the best one exactly for the
  records that met it (`Direct`): those after it in the table and the best of those before it

The rights follow the notes in order, and then the best record has the greatest of its group
(`followed_dedup`).

- `DedupStep`, `dedupUser_step`: what one user does to the walk
- `Walked.new`, `Walked.wins`, `Walked.loses`: the three cases keep the invariant
- `FollowsUuid`: a kind of register that is joined along a note, for flags and for the bindings of
  a channel
- `Followed.note`: one note

A record of the group is beaten once, by the record that was the best when it came, or by the next
better one after it. So the notes make chains, and following them in order carries the rights
along the chain. That a mask follows only the first note is where the two differ.
-/

set_option autoImplicit false

namespace IrcHub.Proofs

open IrcHub.Hub Str

/-! ### Groups -/

/-- Whether a record is a live one of this type and name. -/
def ofName (typ : Char) (name : Str) (u : UserRecord) : Bool :=
  u.isActive && u.typ == typ && eqIc u.name name

/-- The live records of one type and name. -/
def userGroup (us : List UserRecord) (typ : Char) (name : Str) : List UserRecord :=
  us.filter (ofName typ name)

/-- The record of a group that beats every other one. -/
def Best (group : List UserRecord) (w : UserRecord) : Prop :=
  w ∈ group ∧ ∀ u ∈ group, u ≠ w → incomingWins w u = true

/-- The records that met the best one of their group: itself, those after it and the best of
those before it. -/
def Direct (group : List UserRecord) (u : UserRecord) : Prop :=
  ∃ before w after, group = before ++ w :: after ∧ Best group w
    ∧ (Best before u ∨ u = w ∨ u ∈ after)

/-- What decides between two live records of one name. -/
private def mergeRank (u : UserRecord) : Int ×ₗ (Int ×ₗ Strᵒᵈ) :=
  toLex (u.lastSeen, toLex (u.timestamp, OrderDual.toDual u.uuid))

/-- The comparison of two users is that of their ranks: last seen, then stamp, then uuid. -/
private theorem incomingWins_iff {a b : UserRecord} :
    incomingWins a b = true ↔ mergeRank b < mergeRank a := by
  rw [mergeRank, mergeRank, Prod.Lex.toLex_lt_toLex]
  simp only [Prod.Lex.toLex_lt_toLex, OrderDual.toDual_lt_toDual, incomingWins, Bool.or_eq_true,
    Bool.and_eq_true, decide_eq_true_eq, gt_iff_lt]
  rw [eq_comm (a := a.lastSeen), eq_comm (a := a.timestamp), or_assoc, and_assoc]
  refine or_congr_right ?_
  rw [← and_or_left]

/-- So it is transitive. -/
theorem incomingWins_trans {a b c : UserRecord} (hab : incomingWins a b = true)
    (hbc : incomingWins b c = true) : incomingWins a c = true :=
  incomingWins_iff.mpr ((incomingWins_iff.mp hbc).trans (incomingWins_iff.mp hab))

/-- And asymmetric. -/
theorem incomingWins_asymm {a b : UserRecord} (hab : incomingWins a b = true) :
    incomingWins b a = false :=
  Bool.eq_false_iff.mpr fun hba => lt_asymm (incomingWins_iff.mp hab) (incomingWins_iff.mp hba)

/-- Of two records with different uuids one wins. -/
theorem incomingWins_of_not {a b : UserRecord} (hne : a.uuid ≠ b.uuid)
    (h : incomingWins a b = false) : incomingWins b a = true := by
  rw [incomingWins_iff]
  refine lt_of_le_of_ne (not_lt.mp fun hlt => Bool.eq_false_iff.mp h (incomingWins_iff.mpr hlt))
    ?_
  intro heq
  have hpair := toLex.injective heq
  rw [Prod.mk.injEq] at hpair
  have hrest := toLex.injective hpair.2
  rw [Prod.mk.injEq] at hrest
  exact hne (OrderDual.toDual.injective hrest.2)

/-- A group has one best user. -/
theorem Best.unique {group : List UserRecord} {w w' : UserRecord} (h : Best group w)
    (h' : Best group w') : w = w' := by
  by_contra hne
  have hw := h.2 w' h'.1 (Ne.symm hne)
  rw [incomingWins_asymm (h'.2 w h.1 hne)] at hw
  cases hw

section Append

variable {group : List UserRecord} {w u : UserRecord}

/-- A record that beats the best one is the best. -/
theorem Best.append_wins (h : Best group w) (hwins : incomingWins u w = true) :
    Best (group ++ [u]) u := by
  refine ⟨List.mem_append_right _ List.mem_cons_self, fun x hx hne => ?_⟩
  rcases List.mem_append.mp hx with hx | hx
  · by_cases hxw : x = w
    · rwa [hxw]
    · exact incomingWins_trans hwins (h.2 x hx hxw)
  · exact absurd (List.mem_singleton.mp hx) hne

/-- A record that loses to the best one leaves it the best. -/
theorem Best.append_loses (h : Best group w) (hwins : incomingWins w u = true) :
    Best (group ++ [u]) w := by
  refine ⟨List.mem_append_left _ h.1, fun x hx hne => ?_⟩
  rcases List.mem_append.mp hx with hx | hx
  · exact h.2 x hx hne
  · rw [List.mem_singleton.mp hx]
    exact hwins

/-- After a record that wins, only it and the record it beat have met it. -/
theorem direct_append_wins (hnew : u ∉ group) (hw : Best group w) (hbest : Best (group ++ [u]) u)
    (x : UserRecord) : Direct (group ++ [u]) x ↔ x = w ∨ x = u := by
  constructor
  · rintro ⟨before, v, after, heq, hv, hx⟩
    have hvu : v = u := hv.unique hbest
    subst hvu
    rcases List.eq_nil_or_concat after with rfl | ⟨rest, y, rfl⟩
    · have hsplit := List.append_inj' heq rfl
      rw [← hsplit.1] at hx
      rcases hx with hx | hx | hx
      · exact .inl (hx.unique hw)
      · exact .inr hx
      · exact (List.not_mem_nil hx).elim
    · -- the winner would stand before the end too
      exfalso
      rw [List.concat_eq_append, ← List.cons_append, ← List.append_assoc] at heq
      have hsplit := List.append_inj' heq rfl
      exact hnew (hsplit.1 ▸ List.mem_append_right _ List.mem_cons_self)
  · rintro (rfl | rfl)
    · exact ⟨group, u, [], rfl, hbest, .inl hw⟩
    · exact ⟨group, x, [], rfl, hbest, .inr (.inl rfl)⟩

/-- After a record that loses, it has met the best one too, and nothing changes for the others. -/
theorem direct_append_loses (hne : u ≠ w) (hw : Best group w) (hbest : Best (group ++ [u]) w)
    (x : UserRecord) : Direct (group ++ [u]) x ↔ Direct group x ∨ x = u := by
  constructor
  · rintro ⟨before, v, after, heq, hv, hx⟩
    have hvw : v = w := hv.unique hbest
    subst hvw
    rcases List.eq_nil_or_concat after with rfl | ⟨rest, y, rfl⟩
    · have hsplit := List.append_inj' heq rfl
      exact absurd (List.cons.inj hsplit.2).1 hne
    · rw [List.concat_eq_append, ← List.cons_append, ← List.append_assoc] at heq
      have hsplit := List.append_inj' heq rfl
      have hy : u = y := (List.cons.inj hsplit.2).1
      rcases hx with hx | hx | hx
      · exact .inl ⟨before, v, rest, hsplit.1, hw, .inl hx⟩
      · exact .inl ⟨before, v, rest, hsplit.1, hw, .inr (.inl hx)⟩
      · rw [List.concat_eq_append] at hx
        rcases List.mem_append.mp hx with hx | hx
        · exact .inl ⟨before, v, rest, hsplit.1, hw, .inr (.inr hx)⟩
        · exact .inr ((List.mem_singleton.mp hx).trans hy.symm)
  · rintro (⟨before, v, after, heq, hv, hx⟩ | rfl)
    · have hvw : v = w := hv.unique hw
      subst hvw
      refine ⟨before, v, after ++ [u], by rw [heq, List.append_assoc]; rfl, hbest, ?_⟩
      exact hx.imp_right fun hx => hx.imp_right fun hx => List.mem_append_left _ hx
    · obtain ⟨before, after, heq⟩ := List.append_of_mem hw.1
      refine ⟨before, w, after ++ [x], by rw [heq, List.append_assoc]; rfl, hbest, ?_⟩
      exact .inr (.inr (List.mem_append_right _ List.mem_cons_self))

end Append

/-! ### One user of the walk -/

section Step

variable {clk : Clock} {s : HubState} {acc : DedupAcc} {us : List UserRecord} {u w : UserRecord}
variable {typ : Char} {name : Str}

/-- The group of a name with one more user. -/
theorem userGroup_append (us : List UserRecord) (u : UserRecord) :
    userGroup (us ++ [u]) typ name
      = if ofName typ name u then userGroup us typ name ++ [u] else userGroup us typ name := by
  rw [userGroup, List.filter_append]
  cases hu : ofName typ name u with
  | true => rw [if_pos rfl, List.filter_cons_of_pos hu]; rfl
  | false =>
      rw [if_neg (by decide), List.filter_cons_of_neg (by simp [hu])]; exact List.append_nil _

/-- Who is in the group. -/
theorem mem_userGroup : u ∈ userGroup us typ name ↔ u ∈ us ∧ ofName typ name u = true :=
  List.mem_filter

/-- Two records of one user are in the same groups. -/
theorem ofName_congr (h : sameUser u w = true) : ofName typ name w = ofName typ name u := by
  simp only [sameUser, Bool.and_eq_true, beq_iff_eq] at h
  obtain ⟨⟨⟨hu, hw⟩, htyp⟩, hname⟩ := h
  rw [ofName, ofName, hu, hw, htyp, eqIc, eqIc, eqIc_iff.mp hname]

/-- The records that meet a live one are those of its group. -/
theorem sameUser_of_ofName (hu : ofName typ name u = true) (hw : ofName typ name w = true) :
    sameUser u w = true := by
  simp only [ofName, Bool.and_eq_true, beq_iff_eq] at hu hw
  simp only [sameUser, Bool.and_eq_true, beq_iff_eq]
  exact ⟨⟨⟨hu.1.1, hw.1.1⟩, hw.1.2.trans hu.1.2.symm⟩, eqIc_trans hw.2 (eqIc_symm hu.2)⟩

/-- A live user is of its own name. -/
theorem ofName_self (h : u.isActive = true) : ofName u.typ u.name u = true := by
  simp [ofName, h, eqIc]

/-- What one user does to the walk: it is new, it takes the place of the record it meets, or it
loses to it. -/
inductive DedupStep (acc : DedupAcc) (u : UserRecord) : DedupAcc → Prop
  | new (hnone : ∀ w ∈ acc.users, sameUser u w = false) :
      DedupStep acc u { acc with users := acc.users ++ [u] }
  | wins (w : UserRecord) (j : Nat) (hget : acc.users[j]? = some w) (hsame : sameUser u w = true)
      (hwins : incomingWins u w = true) :
      DedupStep acc u { users := acc.users.set j u, remap := acc.remap ++ [(w.uuid, u.uuid)] }
  | loses (w : UserRecord) (hmem : w ∈ acc.users) (hsame : sameUser u w = true)
      (hloses : incomingWins u w = false) :
      DedupStep acc u { acc with remap := acc.remap ++ [(u.uuid, w.uuid)] }

/-- The three cases of `dedupUser` while there is room for a note. -/
theorem dedupUser_step (hroom : acc.remap.length < maxHubUserRecords) (u : UserRecord) :
    DedupStep acc u (dedupUser acc u) := by
  unfold dedupUser
  split
  · rename_i hfind
    exact .new fun w hw => List.findIdx?_eq_none_iff.mp hfind w hw
  · rename_i j hfind
    obtain ⟨hlt, hsame, -⟩ := List.findIdx?_eq_some_iff_getElem.mp hfind
    rw [List.getElem?_eq_getElem hlt]
    simp only [if_pos hroom]
    cases hwins : incomingWins u acc.users[j] with
    | true => exact .wins acc.users[j] j (List.getElem?_eq_getElem hlt) hsame hwins
    | false => exact .loses acc.users[j] (List.getElem_mem hlt) hsame hwins

/-! ### Notes -/

/-- A uuid that no note is about stays. -/
theorem remapOwner_of_none {remap : List (Str × Str)} {uuid : Str} (h : ∀ p ∈ remap, p.1 ≠ uuid) :
    remapOwner remap uuid = uuid := by
  have hfind : (remap.find? fun p => p.1 == uuid) = none :=
    List.find?_eq_none.mpr fun p hp => by simpa using h p hp
  rw [remapOwner, hfind]

/-- A note of another uuid changes nothing. -/
theorem remapOwner_append_of_ne {remap : List (Str × Str)} {q : Str × Str} {uuid : Str}
    (h : q.1 ≠ uuid) : remapOwner (remap ++ [q]) uuid = remapOwner remap uuid := by
  have hq : (q.1 == uuid) = false := beq_eq_false_iff_ne.mpr h
  rw [remapOwner, remapOwner, Table.find?_append_of_false
    (p := fun p : Str × Str => p.1 == uuid) hq]

/-- The first note of a uuid says where it goes. -/
theorem remapOwner_append_self {remap : List (Str × Str)} {q : Str × Str}
    (h : ∀ p ∈ remap, p.1 ≠ q.1) : remapOwner (remap ++ [q]) q.1 = q.2 := by
  have hfind : (remap.find? fun p => p.1 == q.1) = none :=
    List.find?_eq_none.mpr fun p hp => by simpa using h p hp
  have hhit : ((remap ++ [q]).find? fun p => p.1 == q.1) = some q :=
    Table.find?_append_of_none hfind (beq_self_eq_true q.1)
  rw [remapOwner, hhit]

/-! ### What the walk keeps -/

/-- The walk after the users `us`. `best` and `noted` are the results asked for; the other clauses
say that notes are about distinct users of the walk, which the steps need to tell whose note is
whose. -/
structure Walked (us : List UserRecord) (acc : DedupAcc) : Prop where
  /-- Every user is kept or noted. -/
  count : acc.users.length + acc.remap.length = us.length
  subset : ∀ u ∈ acc.users, u ∈ us
  /-- Of a group the best record is kept. -/
  best : ∀ typ name, userGroup us typ name ≠ [] →
    ∃ w, Best (userGroup us typ name) w ∧ userGroup acc.users typ name = [w]
  /-- A note is about a live user. -/
  noted : ∀ p ∈ acc.remap, ∃ u ∈ us, u.isActive = true ∧ u.uuid = p.1
  /-- The best record of a group was never noted. -/
  unnoted : ∀ typ name w, Best (userGroup us typ name) w → ∀ p ∈ acc.remap, p.1 ≠ w.uuid
  /-- A record goes to one of its group. -/
  owner : ∀ typ name, ∀ u ∈ userGroup us typ name,
    ∃ v ∈ userGroup us typ name, remapOwner acc.remap u.uuid = v.uuid
  /-- It goes to the best one if it met it. -/
  direct : ∀ typ name w, Best (userGroup us typ name) w → ∀ u ∈ userGroup us typ name,
    (remapOwner acc.remap u.uuid = w.uuid ↔ Direct (userGroup us typ name) u)

/-- Before the walk nobody is kept or noted. -/
theorem walked_nil : Walked [] {} where
  count := rfl
  subset := fun _ h => (List.not_mem_nil h).elim
  best := fun _ _ h => absurd rfl h
  noted := fun _ h => (List.not_mem_nil h).elim
  unnoted := fun _ _ _ h => (List.not_mem_nil h.1).elim
  owner := fun _ _ _ h => (List.not_mem_nil h).elim
  direct := fun _ _ _ h => (List.not_mem_nil h.1).elim

variable (hnodup : ((us ++ [u]).map UserRecord.uuid).Nodup)

include hnodup in
/-- The next user has a uuid of its own. -/
theorem uuid_fresh {x : UserRecord} (hx : x ∈ us) : x.uuid ≠ u.uuid := by
  rw [List.map_append, List.nodup_append] at hnodup
  exact hnodup.2.2 x.uuid (List.mem_map_of_mem hx) u.uuid (List.mem_map_of_mem List.mem_cons_self)

include hnodup in
/-- A uuid tells the user. -/
theorem uuid_inj {x y : UserRecord} (hx : x ∈ us) (hy : y ∈ us)
    (h : x.uuid = y.uuid) : x = y := by
  rw [List.map_append, List.nodup_append] at hnodup
  exact List.inj_on_of_nodup_map hnodup.1 hx hy h

/-- The kept record that a user meets is the best of its group. -/
theorem Walked.met (h : Walked us acc) (hw : w ∈ acc.users) (hname : ofName typ name w = true) :
    Best (userGroup us typ name) w ∧ userGroup acc.users typ name = [w] := by
  have hgroup : w ∈ userGroup us typ name := mem_userGroup.mpr ⟨h.subset w hw, hname⟩
  obtain ⟨v, hbest, hkept⟩ := h.best typ name (List.ne_nil_of_mem hgroup)
  have hmem : w ∈ userGroup acc.users typ name := mem_userGroup.mpr ⟨hw, hname⟩
  rw [hkept, List.mem_singleton] at hmem
  subst hmem
  exact ⟨hbest, hkept⟩

include hnodup in
/-- No note is about the user that comes next. -/
theorem Walked.unheard (h : Walked us acc) : ∀ p ∈ acc.remap, p.1 ≠ u.uuid := by
  intro p hp heq
  obtain ⟨x, hx, -, hxp⟩ := h.noted p hp
  exact uuid_fresh hnodup hx (hxp.trans heq)

/-- Of the name of a user that meets no one there was no live user. -/
theorem Walked.alone (h : Walked us acc) (hnone : ∀ w ∈ acc.users, sameUser u w = false)
    (hu : ofName typ name u = true) : userGroup us typ name = [] := by
  by_contra hne
  obtain ⟨w, -, hkept⟩ := h.best typ name hne
  have hw : w ∈ userGroup acc.users typ name := hkept ▸ List.mem_cons_self
  obtain ⟨hmem, hname⟩ := mem_userGroup.mp hw
  have hmeets := sameUser_of_ofName hu hname
  rw [hnone w hmem] at hmeets
  cases hmeets

include hnodup in
/-- A user that meets no one is the only one of its group, or of none. -/
theorem Walked.new (h : Walked us acc) (hnone : ∀ w ∈ acc.users, sameUser u w = false) :
    Walked (us ++ [u]) { acc with users := acc.users ++ [u] } := by
  have halone : ∀ typ name, ofName typ name u = true → userGroup us typ name = [] :=
    fun _ _ hu => h.alone hnone hu
  -- nobody of its name came before
  have hbestNew : Best [u] u :=
    ⟨List.mem_cons_self, fun x hx hne => absurd (List.mem_singleton.mp hx) hne⟩
  have hown : remapOwner acc.remap u.uuid = u.uuid := remapOwner_of_none (h.unheard hnodup)
  constructor
  case count =>
    have hcount := h.count
    show (acc.users ++ [u]).length + acc.remap.length = (us ++ [u]).length
    rw [List.length_append, List.length_append, List.length_singleton]
    omega
  case subset =>
    intro x hx
    rcases List.mem_append.mp hx with hx | hx
    · exact List.mem_append_left _ (h.subset x hx)
    · exact List.mem_append_right _ hx
  case noted =>
    intro p hp
    obtain ⟨x, hx, hrest⟩ := h.noted p hp
    exact ⟨x, List.mem_append_left _ hx, hrest⟩
  case best =>
    intro typ name hne
    show ∃ w, _ ∧ userGroup (acc.users ++ [u]) typ name = [w]
    rw [userGroup_append] at hne
    rw [userGroup_append, userGroup_append]
    -- its own group, where it is alone
    cases hu : ofName typ name u with
    | true =>
      have hkept : userGroup acc.users typ name = [] := by
        refine List.eq_nil_iff_forall_not_mem.mpr fun x hx => ?_
        have hx' := mem_userGroup.mp hx
        have hin : x ∈ userGroup us typ name := mem_userGroup.mpr ⟨h.subset x hx'.1, hx'.2⟩
        rw [halone typ name hu] at hin
        exact List.not_mem_nil hin
      rw [if_pos rfl, if_pos rfl, halone typ name hu, hkept]
      exact ⟨u, hbestNew, rfl⟩
    -- another group
    | false =>
      rw [hu, if_neg (by decide)] at hne
      rw [if_neg (by decide), if_neg (by decide)]
      exact h.best typ name hne
  case unnoted =>
    intro typ name w hw p hp
    rw [userGroup_append] at hw
    cases hu : ofName typ name u with
    | true =>
      rw [hu, if_pos rfl, halone typ name hu] at hw
      rw [List.mem_singleton.mp hw.1]
      exact h.unheard hnodup p hp
    | false =>
      rw [hu, if_neg (by decide)] at hw
      exact h.unnoted typ name w hw p hp
  case owner =>
    intro typ name x hx
    rw [userGroup_append] at hx ⊢
    cases hu : ofName typ name u with
    | true =>
      rw [hu, if_pos rfl, halone typ name hu] at hx
      rw [if_pos rfl, halone typ name hu, List.mem_singleton.mp hx]
      exact ⟨u, List.mem_cons_self, hown⟩
    | false =>
      rw [hu, if_neg (by decide)] at hx
      rw [if_neg (by decide)]
      exact h.owner typ name x hx
  -- it goes to itself, and it is the best one met directly
  case direct =>
    intro typ name w hw x hx
    rw [userGroup_append] at hw hx ⊢
    cases hu : ofName typ name u with
    | true =>
      rw [hu, if_pos rfl, halone typ name hu] at hw hx
      rw [if_pos rfl, halone typ name hu, List.mem_singleton.mp hx, List.mem_singleton.mp hw.1]
      exact ⟨fun _ => ⟨[], u, [], rfl, hbestNew, .inr (.inl rfl)⟩, fun _ => hown⟩
    | false =>
      rw [hu, if_neg (by decide)] at hw hx
      rw [if_neg (by decide)]
      exact h.direct typ name w hw x hx

/-- A record outside a group has a uuid no record of the group has. -/
private theorem uuid_ne_of_ofName (hnodup : ((us ++ [u]).map UserRecord.uuid).Nodup)
    {x : UserRecord} (hw : w ∈ us) (hname : ofName typ name w = false)
    (hx : x ∈ userGroup us typ name) :
    w.uuid ≠ x.uuid := by
  intro heq
  obtain ⟨hmem, hxname⟩ := mem_userGroup.mp hx
  rw [uuid_inj hnodup hw hmem heq, hxname] at hname
  cases hname

include hnodup in
/-- A user that beats the record it meets takes its place. The record it beat gets a note that
names it, and the records noted before keep theirs, which name others. -/
theorem Walked.wins (h : Walked us acc) {j : Nat} (hget : acc.users[j]? = some w)
    (hsame : sameUser u w = true) (hwins : incomingWins u w = true) :
    Walked (us ++ [u])
      { users := acc.users.set j u, remap := acc.remap ++ [(w.uuid, u.uuid)] } := by
  have hmem : w ∈ acc.users := List.mem_of_getElem? hget
  have hw : w ∈ us := h.subset w hmem
  have hwu : w.uuid ≠ u.uuid := uuid_fresh hnodup hw
  -- the winner and the beaten are of one name, so of one group
  have hcongr : ∀ typ name, ofName typ name w = ofName typ name u := fun _ _ => ofName_congr hsame
  have hmet : ∀ typ name, ofName typ name u = true →
      Best (userGroup us typ name) w ∧ userGroup acc.users typ name = [w] :=
    fun typ name hu => h.met hmem ((hcongr typ name).trans hu)
  -- where the notes send the three kinds of records
  have hownNew : remapOwner (acc.remap ++ [(w.uuid, u.uuid)]) u.uuid = u.uuid := by
    rw [remapOwner_append_of_ne hwu]
    exact remapOwner_of_none (h.unheard hnodup)
  have hownOld : ∀ {x : UserRecord}, w.uuid ≠ x.uuid →
      remapOwner (acc.remap ++ [(w.uuid, u.uuid)]) x.uuid = remapOwner acc.remap x.uuid :=
    fun hne => remapOwner_append_of_ne hne
  have hownBeaten : ∀ typ name, ofName typ name u = true →
      remapOwner (acc.remap ++ [(w.uuid, u.uuid)]) w.uuid = u.uuid := fun typ name hu =>
    remapOwner_append_self (h.unnoted typ name w (hmet typ name hu).1)
  constructor
  case count =>
    have hcount := h.count
    show (acc.users.set j u).length + (acc.remap ++ [(w.uuid, u.uuid)]).length
      = (us ++ [u]).length
    rw [List.length_set, List.length_append, List.length_append, List.length_singleton]
    show acc.users.length + (acc.remap.length + 1) = us.length + 1
    omega
  case subset =>
    intro x hx
    rcases List.mem_or_eq_of_mem_set hx with hx | rfl
    · exact List.mem_append_left _ (h.subset x hx)
    · exact List.mem_append_right _ List.mem_cons_self
  case noted =>
    intro p hp
    rcases List.mem_append.mp hp with hp | hp
    · obtain ⟨x, hx, hrest⟩ := h.noted p hp
      exact ⟨x, List.mem_append_left _ hx, hrest⟩
    · rw [List.mem_singleton.mp hp]
      have hlive : w.isActive = true := by
        simp only [sameUser, Bool.and_eq_true] at hsame
        exact hsame.1.1.2
      exact ⟨w, List.mem_append_left _ hw, hlive, rfl⟩
  case best =>
    intro typ name hne
    rw [userGroup_append] at hne
    rw [userGroup_append]
    cases hu : ofName typ name u with
    | true =>
      -- in the group of that name the new user is the best, and the only one kept
      obtain ⟨hbest, hkept⟩ := hmet typ name hu
      rw [if_pos rfl]
      exact ⟨u, hbest.append_wins hwins,
        Table.filter_set_of_singleton hget ((hcongr typ name).trans hu) hu hkept⟩
    | false =>
      -- any other group is what it was
      rw [hu, if_neg (by decide)] at hne
      rw [if_neg (by decide), userGroup, userGroup,
        Table.filter_set_of_false hget ((hcongr typ name).trans hu) hu]
      exact h.best typ name hne
  case unnoted =>
    intro typ name v hv p hp
    rw [userGroup_append] at hv
    cases hu : ofName typ name u with
    | true =>
      rw [hu, if_pos rfl] at hv
      -- the best of the group is the new user, which no note names
      rw [hv.unique ((hmet typ name hu).1.append_wins hwins)]
      rcases List.mem_append.mp hp with hp | hp
      · exact h.unheard hnodup p hp
      · rw [List.mem_singleton.mp hp]
        exact hwu
    | false =>
      rw [hu, if_neg (by decide)] at hv
      rcases List.mem_append.mp hp with hp | hp
      · exact h.unnoted typ name v hv p hp
      · rw [List.mem_singleton.mp hp]
        exact uuid_ne_of_ofName hnodup hw ((hcongr typ name).trans hu) hv.1
  case owner =>
    intro typ name x hx
    rw [userGroup_append] at hx ⊢
    cases hu : ofName typ name u with
    | true =>
      rw [hu, if_pos rfl] at hx
      rw [if_pos rfl]
      rcases List.mem_append.mp hx with hx | hx
      · by_cases hxw : x = w
        -- the beaten goes to the new user, the others where they went
        · rw [hxw]
          exact ⟨u, List.mem_append_right _ List.mem_cons_self, hownBeaten typ name hu⟩
        · obtain ⟨v, hv, hown⟩ := h.owner typ name x hx
          have hne : w.uuid ≠ x.uuid :=
            fun heq => hxw (uuid_inj hnodup hw (mem_userGroup.mp hx).1 heq).symm
          exact ⟨v, List.mem_append_left _ hv, (hownOld hne).trans hown⟩
      · rw [List.mem_singleton.mp hx]
        exact ⟨u, List.mem_append_right _ List.mem_cons_self, hownNew⟩
    | false =>
      rw [hu, if_neg (by decide)] at hx
      rw [if_neg (by decide)]
      obtain ⟨v, hv, hown⟩ := h.owner typ name x hx
      exact ⟨v, hv, (hownOld (uuid_ne_of_ofName hnodup hw ((hcongr typ name).trans hu) hx)).trans
        hown⟩
  case direct =>
    intro typ name v hv x hx
    rw [userGroup_append] at hv hx ⊢
    cases hu : ofName typ name u with
    | true =>
      obtain ⟨hbest, -⟩ := hmet typ name hu
      rw [hu, if_pos rfl] at hv hx
      have hnew : u ∉ userGroup us typ name := fun hin =>
        uuid_fresh hnodup (mem_userGroup.mp hin).1 rfl
      rw [if_pos rfl, hv.unique (hbest.append_wins hwins),
        direct_append_wins hnew hbest (hbest.append_wins hwins)]
      show remapOwner (acc.remap ++ [(w.uuid, u.uuid)]) x.uuid = u.uuid ↔ x = w ∨ x = u
      rcases List.mem_append.mp hx with hx | hx
      · by_cases hxw : x = w
        · rw [hxw]
          exact ⟨fun _ => .inl rfl, fun _ => hownBeaten typ name hu⟩
        · -- an older loser goes where it went, which is not here
          have hne : w.uuid ≠ x.uuid :=
            fun heq => hxw (uuid_inj hnodup hw (mem_userGroup.mp hx).1 heq).symm
          obtain ⟨y, hy, hown⟩ := h.owner typ name x hx
          rw [hownOld hne, hown]
          constructor
          · exact fun heq => absurd heq (uuid_fresh hnodup (mem_userGroup.mp hy).1)
          · rintro (heq | heq)
            · exact absurd heq hxw
            · exact absurd (heq ▸ hx) hnew
      · rw [List.mem_singleton.mp hx]
        exact ⟨fun _ => .inr rfl, fun _ => hownNew⟩
    | false =>
      rw [hu, if_neg (by decide)] at hv hx
      rw [if_neg (by decide), ← h.direct typ name v hv x hx]
      show remapOwner (acc.remap ++ [(w.uuid, u.uuid)]) x.uuid = v.uuid ↔ _
      rw [hownOld (uuid_ne_of_ofName hnodup hw ((hcongr typ name).trans hu) hx)]

include hnodup in
/-- A user that loses to the record it meets goes to it, which is the best one of the group so
far. -/
theorem Walked.loses (h : Walked us acc) (hmem : w ∈ acc.users) (hsame : sameUser u w = true)
    (hloses : incomingWins u w = false) :
    Walked (us ++ [u]) { acc with remap := acc.remap ++ [(u.uuid, w.uuid)] } := by
  have hw : w ∈ us := h.subset w hmem
  have hwu : w.uuid ≠ u.uuid := uuid_fresh hnodup hw
  -- the record that stays is the better of the two
  have hbeats : incomingWins w u = true := incomingWins_of_not hwu.symm hloses
  have hmet : ∀ typ name, ofName typ name u = true →
      Best (userGroup us typ name) w ∧ userGroup acc.users typ name = [w] :=
    fun typ name hu => h.met hmem ((ofName_congr hsame).trans hu)
  -- the loser is sent to it, the others where they were
  have hownNew : remapOwner (acc.remap ++ [(u.uuid, w.uuid)]) u.uuid = w.uuid :=
    remapOwner_append_self (h.unheard hnodup)
  have hownOld : ∀ {x : UserRecord}, x ∈ us →
      remapOwner (acc.remap ++ [(u.uuid, w.uuid)]) x.uuid = remapOwner acc.remap x.uuid :=
    fun hx => remapOwner_append_of_ne (uuid_fresh hnodup hx).symm
  constructor
  case count =>
    have hcount := h.count
    show acc.users.length + (acc.remap ++ [(u.uuid, w.uuid)]).length = (us ++ [u]).length
    rw [List.length_append, List.length_append, List.length_singleton, List.length_singleton]
    omega
  case subset => exact fun x hx => List.mem_append_left _ (h.subset x hx)
  case noted =>
    intro p hp
    rcases List.mem_append.mp hp with hp | hp
    · obtain ⟨x, hx, hrest⟩ := h.noted p hp
      exact ⟨x, List.mem_append_left _ hx, hrest⟩
    · rw [List.mem_singleton.mp hp]
      have hlive : u.isActive = true := by
        simp only [sameUser, Bool.and_eq_true] at hsame
        exact hsame.1.1.1
      exact ⟨u, List.mem_append_right _ List.mem_cons_self, hlive, rfl⟩
  case best =>
    intro typ name hne
    rw [userGroup_append] at hne
    rw [userGroup_append]
    cases hu : ofName typ name u with
    -- in its group the record that stays is still the best one
    | true =>
      obtain ⟨hbest, hkept⟩ := hmet typ name hu
      rw [if_pos rfl]
      exact ⟨w, hbest.append_loses hbeats, hkept⟩
    | false =>
      rw [hu, if_neg (by decide)] at hne
      rw [if_neg (by decide)]
      exact h.best typ name hne
  -- the note is about the loser, which is the best of no group
  case unnoted =>
    intro typ name v hv p hp
    have hvus : v ∈ us ∧ ∀ q ∈ acc.remap, q.1 ≠ v.uuid := by
      rw [userGroup_append] at hv
      cases hu : ofName typ name u with
      | true =>
        rw [hu, if_pos rfl] at hv
        rw [hv.unique ((hmet typ name hu).1.append_loses hbeats)]
        exact ⟨hw, h.unnoted typ name w (hmet typ name hu).1⟩
      | false =>
        rw [hu, if_neg (by decide)] at hv
        exact ⟨(mem_userGroup.mp hv.1).1, h.unnoted typ name v hv⟩
    rcases List.mem_append.mp hp with hp | hp
    · exact hvus.2 p hp
    · rw [List.mem_singleton.mp hp]
      exact (uuid_fresh hnodup hvus.1).symm
  -- every user of a group goes to one of the group
  case owner =>
    intro typ name x hx
    rw [userGroup_append] at hx ⊢
    cases hu : ofName typ name u with
    | true =>
      rw [hu, if_pos rfl] at hx
      rw [if_pos rfl]
      rcases List.mem_append.mp hx with hx | hx
      · obtain ⟨v, hv, hown⟩ := h.owner typ name x hx
        exact ⟨v, List.mem_append_left _ hv, (hownOld (mem_userGroup.mp hx).1).trans hown⟩
      · rw [List.mem_singleton.mp hx]
        exact ⟨w, List.mem_append_left _ (hmet typ name hu).1.1, hownNew⟩
    | false =>
      rw [hu, if_neg (by decide)] at hx
      rw [if_neg (by decide)]
      obtain ⟨v, hv, hown⟩ := h.owner typ name x hx
      exact ⟨v, hv, (hownOld (mem_userGroup.mp hx).1).trans hown⟩
  -- the loser goes to the best one directly
  case direct =>
    intro typ name v hv x hx
    rw [userGroup_append] at hv hx ⊢
    show remapOwner (acc.remap ++ [(u.uuid, w.uuid)]) x.uuid = v.uuid ↔ _
    cases hu : ofName typ name u with
    | true =>
      obtain ⟨hbest, -⟩ := hmet typ name hu
      have hne : u ≠ w := fun heq => hwu (congrArg UserRecord.uuid heq).symm
      rw [hu, if_pos rfl] at hv hx
      rw [if_pos rfl, hv.unique (hbest.append_loses hbeats),
        direct_append_loses hne hbest (hbest.append_loses hbeats)]
      rcases List.mem_append.mp hx with hx | hx
      · have hxu : x ≠ u := fun heq =>
          uuid_fresh hnodup (mem_userGroup.mp hx).1 (congrArg UserRecord.uuid heq)
        rw [hownOld (mem_userGroup.mp hx).1, h.direct typ name w hbest x hx]
        exact ⟨.inl, fun hor => hor.resolve_right hxu⟩
      · rw [List.mem_singleton.mp hx]
        exact ⟨fun _ => .inr rfl, fun _ => hownNew⟩
    | false =>
      rw [hu, if_neg (by decide)] at hv hx
      rw [if_neg (by decide), hownOld (mem_userGroup.mp hx).1]
      exact h.direct typ name v hv x hx

end Step

/-- The walk over all users of a table with room for the notes. `hnodup`: the uuids are distinct,
as the config loader keeps them. The induction is on the users from the left. -/
theorem walked_dedup {us : List UserRecord} (hnodup : (us.map UserRecord.uuid).Nodup)
    (hroom : us.length ≤ maxHubUserRecords) : Walked us (us.foldl dedupUser {}) := by
  induction us using List.reverseRecOn with
  | nil => exact walked_nil
  | append_singleton us u ih =>
    have hbefore : (us.map UserRecord.uuid).Nodup := by
      rw [List.map_append, List.nodup_append] at hnodup
      exact hnodup.1
    rw [List.length_append, List.length_singleton] at hroom
    have h := ih hbefore (by omega)
    rw [List.foldl_append, List.foldl_cons, List.foldl_nil]
    have hcount := h.count
    have hstep : DedupStep (us.foldl dedupUser {}) u (dedupUser (us.foldl dedupUser {}) u) :=
      dedupUser_step (by omega) u
    generalize dedupUser (us.foldl dedupUser {}) u = acc at hstep ⊢
    cases hstep with
    | new hnone => exact h.new hnodup hnone
    | wins w j hget hsame hwins => exact h.wins hnodup hget hsame hwins
    | loses w hmem hsame hloses => exact h.loses hnodup hmem hsame hloses

/-! ### The rights of the losers -/

section Rights

variable {R : Type} [LinearOrder R] {clk : Clock} {s t : HubState} {us : List UserRecord}
variable {acc : DedupAcc} {u : UserRecord} {view : HubState → Str → WithBot R}

/-- A register per user that a loser's is joined into the winner's of. -/
structure FollowsUuid (clk : Clock) (view : HubState → Str → WithBot R) : Prop where
  joins : ∀ t old new, RightsKeyed t → new ≠ old →
    view (remapUuid clk t old new) new = view t new ⊔ view t old
  others : ∀ t old new u, new ≠ old → u ≠ old → u ≠ new →
    view (remapUuid clk t old new) u = view t u

/-- The view of flags follows the notes. While the hub loads nothing is refused as too new. -/
theorem followsUuid_flags (hload : clk.loading = true) : FollowsUuid clk flagView where
  joins := fun _ _ _ hkeyed hne => flagView_remapUuid hload hkeyed hne
  others := fun _ _ _ _ hne hold hnew => flagView_remapUuid_of_ne hload hne hold hnew

/-- So does the view of the bindings to a channel. -/
theorem followsUuid_binding (hload : clk.loading = true) (chan : Str) :
    FollowsUuid clk fun t u => bindingView t (u, chan) where
  joins := fun _ _ _ hkeyed hne => bindingView_remapUuid hload hkeyed hne chan
  others := fun _ _ _ _ hne hold hnew => bindingView_remapUuid_of_ne hload hne hold hnew chan

/-- The hub after the notes were followed. -/
def followNotes (clk : Clock) (s : HubState) (remap : List (Str × Str)) : HubState :=
  remap.foldl (fun t p => remapUuid clk t p.1 p.2) s

/-- Rights stay keyed through the notes. -/
theorem RightsKeyed.followNotes (h : RightsKeyed s) (clk : Clock) (remap : List (Str × Str)) :
    RightsKeyed (followNotes clk s remap) :=
  List.foldlRecOn (motive := RightsKeyed) _ _ h fun _ ht p _ => ht.remapUuid clk p.1 p.2

/-- The notes are followed one after the other. -/
theorem followNotes_append (clk : Clock) (s : HubState) (remap : List (Str × Str))
    (old new : Str) :
    followNotes clk s (remap ++ [(old, new)]) = remapUuid clk
      (followNotes clk s remap) old new := by
  rw [followNotes, List.foldl_append]
  rfl

/-- The best record of every group has the greatest register of the group, and no register of
another uuid changed. -/
structure Followed (view : HubState → Str → WithBot R) (s : HubState) (us : List UserRecord)
    (t : HubState) : Prop where
  greatest : ∀ typ name w, Best (userGroup us typ name) w →
    IsGreatest { x | ∃ u ∈ userGroup us typ name, view s u.uuid = x } (view t w.uuid)
  others : ∀ v, (∀ u ∈ us, u.uuid ≠ v) → view t v = view s v

/-- The greatest of a group with one more is the greater of two. -/
private theorem isGreatest_append {f : UserRecord → WithBot R} {group : List UserRecord}
    {b : WithBot R} (h : IsGreatest { x | ∃ u ∈ group, f u = x } b) (u : UserRecord) :
    IsGreatest { x | ∃ u' ∈ group ++ [u], f u' = x } (f u ⊔ b) := by
  have hset : { x | ∃ u' ∈ group ++ [u], f u' = x } = insert (f u)
    { x | ∃ u ∈ group, f u = x } := by
    ext x
    simp [or_and_right, exists_or, or_comm, eq_comm]
  rw [hset]
  exact h.insert (f u)

/-- What a note of the walk does to the registers. `x` and `y` are the record that lost and the
one it lost to, whichever of the two came later; `hbest` says that `y` is the best one from then
on. -/
private theorem Followed.note (h : Followed view s us t) (hview : FollowsUuid clk view)
    (hkeyed : RightsKeyed t) (hnodup : ((us ++ [u]).map UserRecord.uuid).Nodup) {w : UserRecord}
    (hw : w ∈ us) (hcongr : ∀ typ name, ofName typ name w = ofName typ name u)
    (hmet : ∀ typ name, ofName typ name u = true → Best (userGroup us typ name) w)
    {x y : UserRecord} (hxy : x = w ∧ y = u ∨ x = u ∧ y = w)
    (hbest : ∀ typ name, ofName typ name u = true → Best (userGroup us typ name ++ [u]) y) :
    Followed view s (us ++ [u]) (remapUuid clk t x.uuid y.uuid) := by
  have hwu : w.uuid ≠ u.uuid := uuid_fresh hnodup hw
  have hne : y.uuid ≠ x.uuid := by
    rcases hxy with ⟨rfl, rfl⟩ | ⟨rfl, rfl⟩
    · exact hwu.symm
    · exact hwu
  -- a uuid that is neither of the two keeps its register
  have hrest : ∀ v, v ≠ w.uuid → v ≠ u.uuid →
    view (remapUuid clk t x.uuid y.uuid) v = view t v := by
    intro v hvw hvu
    rcases hxy with ⟨rfl, rfl⟩ | ⟨rfl, rfl⟩
    · exact hview.others t _ _ v hne hvw hvu
    · exact hview.others t _ _ v hne hvu hvw
  have hjoin : view (remapUuid clk t x.uuid y.uuid) y.uuid = view t u.uuid ⊔ view t w.uuid := by
    rw [hview.joins t _ _ hkeyed hne]
    rcases hxy with ⟨rfl, rfl⟩ | ⟨rfl, rfl⟩
    · rfl
    · exact sup_comm _ _
  constructor
  · intro typ name v hv
    rw [userGroup_append] at hv ⊢
    cases hu : ofName typ name u with
    | true =>
      rw [hu, if_pos rfl] at hv
      rw [if_pos rfl, hv.unique (hbest typ name hu), hjoin, h.others u.uuid fun z hz =>
        uuid_fresh hnodup hz]
      exact isGreatest_append (h.greatest typ name w (hmet typ name hu)) u
    | false =>
      rw [hu, if_neg (by decide)] at hv
      obtain ⟨hvus, hvname⟩ := mem_userGroup.mp hv.1
      have hvw : v.uuid ≠ w.uuid := by
        intro heq
        rw [uuid_inj hnodup hvus hw heq, hcongr, hu] at hvname
        cases hvname
      rw [if_neg (by decide), hrest v.uuid hvw (uuid_fresh hnodup hvus)]
      exact h.greatest typ name v hv
  · intro v hv
    have hvw : v ≠ w.uuid := (hv w (List.mem_append_left _ hw)).symm
    have hvu : v ≠ u.uuid := (hv u (List.mem_append_right _ List.mem_cons_self)).symm
    rw [hrest v hvw hvu]
    exact h.others v fun z hz => hv z (List.mem_append_left _ hz)

/-- Once the notes were followed the registers of every group are joined, so the best record has
the greatest. -/
theorem followed_dedup (hview : FollowsUuid clk view) (hkeyed : RightsKeyed s)
    (hnodup : (us.map UserRecord.uuid).Nodup) (hroom : us.length ≤ maxHubUserRecords) :
    Followed view s us (followNotes clk s (us.foldl dedupUser {}).remap) := by
  induction us using List.reverseRecOn with
  | nil => exact ⟨fun _ _ _ h => (List.not_mem_nil h.1).elim, fun _ _ => rfl⟩
  | append_singleton us u ih =>
    have hbefore : (us.map UserRecord.uuid).Nodup := by
      rw [List.map_append, List.nodup_append] at hnodup
      exact hnodup.1
    rw [List.length_append, List.length_singleton] at hroom
    -- the state of the walk before this user
    have h := walked_dedup hbefore (by omega)
    have hfollowed := ih hbefore (by omega)
    rw [List.foldl_append, List.foldl_cons, List.foldl_nil]
    have hcount := h.count
    have hstep : DedupStep (us.foldl dedupUser {}) u (dedupUser (us.foldl dedupUser {}) u) :=
      dedupUser_step (by omega) u
    have hkeyedNow := hkeyed.followNotes clk (us.foldl dedupUser {}).remap
    generalize us.foldl dedupUser {} = acc at h hfollowed hstep hkeyedNow ⊢
    generalize dedupUser acc u = acc' at hstep ⊢
    cases hstep with
    -- nobody of its name: no note, so its registers are its own
    | new hnone =>
      constructor
      · intro typ name v hv
        rw [userGroup_append] at hv ⊢
        cases hu : ofName typ name u with
        | true =>
          rw [hu, if_pos rfl, h.alone hnone hu] at hv
          rw [if_pos rfl, h.alone hnone hu, List.mem_singleton.mp hv.1,
            hfollowed.others u.uuid fun z hz => uuid_fresh hnodup hz]
          simp
        | false =>
          rw [hu, if_neg (by decide)] at hv
          rw [if_neg (by decide)]
          exact hfollowed.greatest typ name v hv
      · exact fun v hv => hfollowed.others v fun z hz => hv z (List.mem_append_left _ hz)
    -- it beats the one it meets, whose registers it takes
    | wins w j hget hsame hwins =>
      have hmem : w ∈ acc.users := List.mem_of_getElem? hget
      have hmet : ∀ typ name, ofName typ name u = true → Best (userGroup us typ name) w :=
        fun typ name hu => (h.met hmem ((ofName_congr hsame).trans hu)).1
      rw [followNotes_append]
      exact hfollowed.note hview hkeyedNow hnodup (h.subset w hmem)
        (fun _ _ => ofName_congr hsame) hmet (.inl ⟨rfl, rfl⟩) fun typ name hu =>
        (hmet typ name hu).append_wins hwins
    -- it loses, and its registers go to the one it meets
    | loses w hmem hsame hloses =>
      have hw : w ∈ us := h.subset w hmem
      have hmet : ∀ typ name, ofName typ name u = true → Best (userGroup us typ name) w :=
        fun typ name hu => (h.met hmem ((ofName_congr hsame).trans hu)).1
      have hbeats : incomingWins w u = true :=
        incomingWins_of_not (uuid_fresh hnodup hw).symm hloses
      rw [followNotes_append]
      exact hfollowed.note hview hkeyedNow hnodup hw (fun _ _ => ofName_congr hsame) hmet
        (.inr ⟨rfl, rfl⟩) fun typ name hu => (hmet typ name hu).append_loses hbeats

end Rights

end IrcHub.Proofs
