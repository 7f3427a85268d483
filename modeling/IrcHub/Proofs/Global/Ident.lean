import IrcHub.Hub.Global

/-!
# `IrcHub.Proofs.Global.Ident`: the identity of a stored value

The index looks an entry up by a hash key (`gkey`), the documentation speaks of
`globalIdentityEq`. The two agree: `gkey_eq_iff` says that equal hash keys are equal classes with
equal identities.

* `ident_append_identTail`: a value is its identity followed by its tail
* `ident_respell`, `identTail_respell`: spelling the identity of a value as a stored value does
  changes the case of the identity and nothing else
* `foldIdent`: the canonical spelling of an identity, what two spellings share

Case only matters within the identity, and only ASCII letters are folded. So a fold keeps the
number of bars and of bytes, and with them where the fields of a value begin and end.
-/

set_option autoImplicit false

namespace IrcHub.Proofs

open IrcHub.Hub Str
open String (utf8Len)

/-! ### Class tags -/

/-- Each kind has a tag of its own, so the key of an entry tells its kind. -/
theorem tag_injective {k k' : GlobalKey} (h : k.tag = k'.tag) : k = k' := by
  cases k <;> cases k' <;> first | rfl | exact absurd h (by decide)

/-! ### The identity prefix -/

/-- A bar is no letter, so folding keeps the number of bars. -/
theorem count_bar_lower (s : Str) : (lower s).count '|' = s.count '|' :=
  count_lower (by decide) (by decide) s

/-- A value is its identity and the rest. -/
theorem ident_append_identTail (k : GlobalKey) (v : Str) : ident k v ++ identTail k v = v :=
  cut_append '|' (identBars k) v

/-- The identity ends at the bar that its kind counts to, or at the end of the value. -/
theorem isCut_ident (k : GlobalKey) (v : Str) :
    IsCut '|' (identBars k) (ident k v) (identTail k v) :=
  isCut_cut '|' (identBars k) v

/-- The canonical spelling of a value's identity: empty for a singleton, in lower case where the
class ignores case. -/
def foldIdent (k : GlobalKey) (v : Str) : Str :=
  if keyIsSingleton k then []
  else if keyFoldsCase k then lower (ident k v)
  else ident k v

/-- The key of a value: the tag, a zero byte, the identity in lower case. -/
theorem gkey_eq (k : GlobalKey) (v : Str) : gkey k v = k.tag :: '\x00' :: foldIdent k v := by
  unfold gkey foldIdent
  split
  · rfl
  · split <;> rfl

/-- Equal hash keys are equal classes with equal canonical identities. -/
theorem gkey_eq_gkey_iff {k k' : GlobalKey} {v v' : Str} :
    gkey k v = gkey k' v' ↔ k = k' ∧ foldIdent k v = foldIdent k' v' := by
  rw [gkey_eq, gkey_eq, List.cons.injEq, List.cons.injEq]
  constructor
  · rintro ⟨htag, -, hid⟩
    exact ⟨tag_injective htag, hid⟩
  · rintro ⟨rfl, hid⟩
    exact ⟨rfl, rfl, hid⟩

/-- Two values are the same record when their identities fold to the same text. The test of the
source compares field by field; this is what it comes to. -/
theorem globalIdentityEq_iff {k : GlobalKey} {a b : Str} :
    globalIdentityEq k a b = true ↔ foldIdent k a = foldIdent k b := by
  unfold globalIdentityEq foldIdent
  by_cases hs : keyIsSingleton k = true
  · simp [hs]
  · by_cases hf : keyFoldsCase k = true
    · simp only [hs, hf, if_true, if_false, Bool.false_eq_true]
      constructor
      · intro h
        split at h
        · cases h
        · exact eqIc_iff.mp h
      · intro h
        have hlen : utf8Len (ident k a) = utf8Len (ident k b) := by
          rw [← utf8Len_lower, h, utf8Len_lower]
        rw [if_neg (by simpa using hlen)]
        exact eqIc_iff.mpr h
    · simp only [hs, hf, if_false, Bool.false_eq_true]
      constructor
      · intro h
        split at h
        · cases h
        · exact beq_iff_eq.mp h
      · intro h
        rw [h]
        simp

/-- The hash keys of two values agree exactly when class and identity do. -/
theorem gkey_eq_iff {k k' : GlobalKey} {v v' : Str} :
    gkey k v = gkey k' v' ↔ k = k' ∧ globalIdentityEq k v v' = true := by
  rw [gkey_eq_gkey_iff]
  constructor
  · rintro ⟨rfl, h⟩
    exact ⟨rfl, globalIdentityEq_iff.mpr h⟩
  · rintro ⟨rfl, h⟩
    exact ⟨rfl, globalIdentityEq_iff.mp h⟩

/-! ### Respelling -/

/-- Two spellings of one identity hold the same number of bars. -/
private theorem count_ident_of_lower_eq {k : GlobalKey} {a b : Str}
    (h : lower (ident k a) = lower (ident k b)) :
    (ident k a).count '|' = (ident k b).count '|' := by
  rw [← count_bar_lower, h, count_bar_lower]

/-- A value respelled with the identity of another spelling cuts at the same bar. -/
theorem cut_respell {k : GlobalKey} {a b : Str} (h : lower (ident k a) = lower (ident k b)) :
    cut '|' (identBars k) (ident k a ++ identTail k b) = (ident k a, identTail k b) := by
  apply cut_append_of_isCut
  have hcount := count_ident_of_lower_eq h
  rcases isCut_ident k b with ⟨hn, hr⟩ | ⟨hn, hr⟩
  · exact .inl ⟨by rw [hcount, hn], hr⟩
  · exact .inr ⟨by rw [hcount]; exact hn, hr⟩

/-- A value that is respelled has the spelling of the stored identity. The two have to be the same
up to case, as otherwise the tail would start elsewhere. -/
theorem ident_respell {k : GlobalKey} {a b : Str} (h : lower (ident k a) = lower (ident k b)) :
    ident k (ident k a ++ identTail k b) = ident k a := by
  rw [ident, cut_respell h]

/-- And it has the rest of the value that came. -/
theorem identTail_respell {k : GlobalKey} {a b : Str}
    (h : lower (ident k a) = lower (ident k b)) :
    identTail k (ident k a ++ identTail k b) = identTail k b := by
  rw [identTail, cut_respell h]

/-! ### The channel of a value -/

/-- The first field ends at the first bar. -/
theorem firstField_append_bar {u r : Str} (h : '|' ∉ u) : firstField (u ++ '|' :: r) = u := by
  have hcut : IsCut '|' 0 u ('|' :: r) := .inl ⟨List.count_eq_zero.mpr h, r, rfl⟩
  exact congrArg Prod.fst (cut_append_of_isCut hcut)

/-- A value without a bar is one field. -/
theorem firstField_of_bar_notMem {u : Str} (h : '|' ∉ u) : firstField u = u := by
  have hcut : IsCut '|' 0 u [] := .inr ⟨Nat.le_of_eq (List.count_eq_zero.mpr h), rfl⟩
  simpa [firstField] using congrArg Prod.fst (cut_append_of_isCut hcut)

/-- A field has no bar in it. -/
theorem bar_notMem_firstField (v : Str) : '|' ∉ firstField v := by
  rcases isCut_cut '|' 0 v with ⟨hn, -⟩ | ⟨hn, -⟩
  · exact List.count_eq_zero.mp hn
  · exact List.count_eq_zero.mp (Nat.le_zero.mp hn)

/-- A text is its first field, or its first field and what follows a bar. -/
theorem firstField_cases (v : Str) :
    v = firstField v ∨ ∃ r, v = firstField v ++ '|' :: r := by
  have happ := cut_append '|' 0 v
  rcases isCut_cut '|' 0 v with ⟨-, r, hr⟩ | ⟨-, hr⟩
  · rw [hr] at happ
    exact .inr ⟨r, happ.symm⟩
  · rw [hr, List.append_nil] at happ
    exact .inl happ.symm

/-- Lower case moves no bar. -/
theorem firstField_lower (v : Str) : firstField (lower v) = lower (firstField v) := by
  have hno : '|' ∉ lower (firstField v) := by
    rw [← List.count_eq_zero, count_bar_lower]
    exact List.count_eq_zero.mpr (bar_notMem_firstField v)
  rcases firstField_cases v with h | ⟨r, h⟩
  · rw [← h] at hno ⊢
    exact firstField_of_bar_notMem hno
  · have hbar : Char.toLower '|' = '|' := rfl
    have hv : lower v = lower (firstField v) ++ '|' :: lower r := by
      conv_lhs => rw [h]
      rw [lower_append, lower_cons, hbar]
    rw [hv, firstField_append_bar hno]

/-- The channel is the first field of the identity. For a ban the identity goes on with the
mask. -/
theorem firstField_ident (k : GlobalKey) (v : Str) : firstField (ident k v) = firstField v := by
  have happ := ident_append_identTail k v
  rcases firstField_cases (ident k v) with h | ⟨r, h⟩
  · -- the identity is the whole first field: it ends at the first bar or at the end
    have hno : '|' ∉ ident k v := by
      rw [h]
      exact bar_notMem_firstField _
    rcases isCut_ident k v with ⟨-, r, hr⟩ | ⟨-, hr⟩
    · rw [hr] at happ
      have hv : firstField v = ident k v := by
        conv_lhs => rw [← happ]
        exact firstField_append_bar hno
      rw [← h, hv]
    · rw [hr, List.append_nil] at happ
      rw [happ]
  · have hv : v = firstField (ident k v) ++ '|' :: (r ++ identTail k v) := by
      rw [← List.cons_append, ← List.append_assoc, ← h, happ]
    conv_rhs => rw [hv]
    rw [firstField_append_bar (bar_notMem_firstField _)]

/-- Values of one identity name one channel, ASCII case aside. -/
theorem lower_firstField_of_foldIdent_eq {k : GlobalKey} {a b : Str}
    (hk : keyIsSingleton k = false) (hf : keyFoldsCase k = true)
    (h : foldIdent k a = foldIdent k b) : lower (firstField a) = lower (firstField b) := by
  have hlow : lower (ident k a) = lower (ident k b) := by simpa [foldIdent, hk, hf] using h
  rw [← firstField_ident k a, ← firstField_ident k b, ← firstField_lower, hlow, firstField_lower]

end IrcHub.Proofs
