import IrcHub.Proofs.Global.Store

/-!
# `IrcHub.Proofs.Purge.Names`: channels with a name that fits

The index of the global table may lose a channel record whose name is longer than the buffer
channels are copied through, when an update cuts the name. A name that fits is never cut
(`ShortNames`): it is stored once, it is found, and a lookup of it finds a record of that name.
Settings, bans, bindings and what the bots saw only ever name such channels.

* `ShortNames.set`: a record is written over
* `ShortNames.note`: a record is added
* `shortNames_reindexed`: the index is rebuilt

These are the three things a store does to the table.
-/

set_option autoImplicit false

namespace IrcHub.Proofs

open IrcHub.Hub Str
open String (utf8Len)

/-- A channel record whose name fits. -/
def FitsChan (e : GlobalEntry) : Prop := e.key = .c ∧ utf8Len (firstField e.value) < maxChan

/-- Channel records with names that fit are stored once and found. -/
structure ShortNames (es : List GlobalEntry) (ix : GlobalIdx) : Prop where
  named : ∀ v i e, ix.map (gkey .c v) = some i → es[i]? = some e →
    (utf8Len (firstField v) < maxChan ↔ utf8Len (firstField e.value) < maxChan)
  found : ∀ e ∈ es, FitsChan e → ∃ i, ix.map (hashOf e) = some i
  distinct : es.Pairwise fun a b => FitsChan a → hashOf a ≠ hashOf b

/-- Two entries of one identity fit or do not fit together. -/
theorem FitsChan.congr {a b : GlobalEntry} (h : FitsChan a) (heq : hashOf a = hashOf b) :
    FitsChan b := by
  have hkey := key_eq_of_hashOf_eq heq
  obtain ⟨hc, hlen⟩ := h
  refine ⟨hkey ▸ hc, ?_⟩
  rw [hashOf, hashOf, ← hkey, hc] at heq
  rwa [← utf8Len_eq_of_lower_eq (gkey_c_eq_iff.mp heq)]

instance fitsChan_symm :
    Std.Symm fun a b : GlobalEntry => FitsChan a → hashOf a ≠ hashOf b :=
  ⟨fun _ _ hab hb heq => hab (hb.congr heq) heq.symm⟩

/-- After a rebuild the index finds the first entry of every identity, and of a name that fits
there is one. -/
theorem shortNames_reindexed {es : List GlobalEntry}
    (h : es.Pairwise fun a b => FitsChan a → hashOf a ≠ hashOf b) :
    ShortNames es (reindexed es) where
  named v i e hi hget := by
    obtain ⟨e', he', hhash⟩ := (indexedFor_reindexed (fun _ => true) es).find_some rfl hi
    rw [hget] at he'
    cases he'
    have hkey : e.key = .c := (gkey_eq_gkey_iff.mp hhash).1
    rw [hashOf, hkey] at hhash
    rw [utf8Len_eq_of_lower_eq (gkey_c_eq_iff.mp hhash)]
  found e he _ := by
    have hix : (reindexed es).map (hashOf e) = es.findIdx? fun a => hashOf a == hashOf e :=
      indexedFor_reindexed (fun _ => true) es e.key e.value rfl
    rw [hix]
    cases hfind : es.findIdx? fun a => hashOf a == hashOf e with
    | some i => exact ⟨i, rfl⟩
    | none => simpa using List.findIdx?_eq_none_iff.mp hfind e he
  distinct := h

/-- An entry changes and its name, if it fits, does not. -/
theorem ShortNames.set {es : List GlobalEntry} {ix : GlobalIdx} (h : ShortNames es ix) {i : Nat}
    {e e' : GlobalEntry} (hget : es[i]? = some e) (hkey : e'.key = e.key)
    (hfit : FitsChan e' ↔ FitsChan e) (hsame : FitsChan e → hashOf e' = hashOf e)
    (hclass : ∀ v, ix.map (gkey .c v) = some i → e.key = .c) :
    ShortNames (es.set i e') ix where
  named v j a hj ha := by
    by_cases hij : i = j
    · subst hij
      rw [List.getElem?_set_self (List.getElem?_eq_some_iff.mp hget).1] at ha
      cases ha
      have hc := hclass v hj
      have hold := h.named v i e hj hget
      have hnew : utf8Len (firstField e'.value) < maxChan
        ↔ utf8Len (firstField e.value) < maxChan := by
        simpa [FitsChan, hkey, hc] using hfit
      exact hold.trans hnew.symm
    · rw [List.getElem?_set_ne hij] at ha
      exact h.named v j a hj ha
  found a ha hfits := by
    rcases List.mem_or_eq_of_mem_set ha with ha | rfl
    · exact h.found a ha hfits
    · have he := hfit.mp hfits
      rw [hsame he]
      exact h.found e (List.mem_of_getElem? hget) he
  distinct := by
    refine Table.pairwise_set h.distinct hget ?_ ?_
    · intro x _ hx hxfit heq
      have he' := hxfit.congr heq
      exact hx hxfit (heq.trans (hsame (hfit.mp he')))
    · intro x _ hx hfit' heq
      have he := hfit.mp hfit'
      exact hx he ((hsame he).symm.trans heq)

/-- A new entry, of an identity that is not there if its name fits. -/
theorem ShortNames.note {es : List GlobalEntry} {ix : GlobalIdx} (h : ShortNames es ix)
    (hs : LookupSound es ix) {e : GlobalEntry} (hnew : FitsChan e → ix.map (hashOf e) = none) :
    ShortNames (es ++ [e]) (ix.note e es.length) where
  named v i a hi ha := by
    rw [note_map] at hi
    -- an entry that was there before is found under the names it was found under
    have hold : ix.map (gkey .c v) = some i →
        (utf8Len (firstField v) < maxChan ↔ utf8Len (firstField a.value) < maxChan) := by
      intro hmap
      rw [List.getElem?_append_left (hs.lt_length hmap)] at ha
      exact h.named v i a hmap ha
    split at hi
    · rename_i hhash
      cases hmap : ix.map (gkey .c v) with
      | some j =>
        rw [hmap, Option.getD_some] at hi
        exact hold (hmap.trans hi)
      | none =>
        rw [hmap, Option.getD_none] at hi
        cases hi
        rw [List.getElem?_append_right (Nat.le_refl _), Nat.sub_self] at ha
        cases ha
        have hkey : e.key = .c := (gkey_eq_gkey_iff.mp hhash).1.symm
        rw [hashOf, hkey] at hhash
        rw [utf8Len_eq_of_lower_eq (gkey_c_eq_iff.mp hhash)]
    · exact hold hi
  found a ha hfits := by
    rw [note_map]
    split
    · exact ⟨_, rfl⟩
    · rename_i hne
      rcases List.mem_append.mp ha with ha | ha
      · exact h.found a ha hfits
      · rw [List.mem_singleton.mp ha] at hne
        exact absurd rfl hne
  distinct := by
    refine List.pairwise_append.mpr ⟨h.distinct, List.pairwise_singleton _ _, ?_⟩
    intro a ha b hb hfits heq
    rw [List.mem_singleton.mp hb] at heq
    obtain ⟨i, hi⟩ := h.found a ha hfits
    rw [heq, hnew (hfits.congr heq)] at hi
    cases hi

end IrcHub.Proofs
