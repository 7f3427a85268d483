import IrcHub.Lib.Lww
import IrcHub.Proofs.Global.Store
import Mathlib.Data.Set.Basic

/-!
# `IrcHub.Proofs.Convergence.Records`: the `C`, `D` and `B` store is a join

The `C`, `D` and `B` store is a join. Seen from its records, the store keeps one register per
class and identity, and a record offered to it is joined into its register: the rank of a record
is its stamp, then whether it is a delete, then the text behind its identity. The spelling of
channel and mask is not part of the rank, so a register does not depend on who wrote first.

- `rankOf`, `recordView`: rank of a record, registers of a hub
- `recAccepts_iff`: the acceptance rule is the strict order of ranks
- `put_of_find_some`: a held record is overwritten exactly by a greater one
- `recordView_push`, `recordView_overwrite`: the two writes, seen from the registers
- `recordView_put`: storing a record joins its rank into its register
- `put_frame`: the other classes of the table are left alone
- `records_converge`: two hubs that started alike and were offered the same records, in any order
  and any number of times, hold the same records up to the case of their identities

`Offer.Fair` is what an offer needs to count, and it is asked along the run: a ceiling that is hit
in one order and not in the other would break the result, and so would a clock that refuses a
stamp.
-/

set_option autoImplicit false

namespace IrcHub.Proofs

open IrcHub.Hub Str
open String (utf8Len)

/-! ### Ranks and registers -/

/-- Stamp, then delete over add, then the text behind the identity. -/
abbrev Rank := Int ×ₗ (Bool ×ₗ Str)

/-- The rank of a record. -/
def rankOf (k : GlobalKey) (v : Str) (ts : Int) : Rank :=
  toLex (ts, toLex (!recActive k v, recBody k v))

/-- Class and canonical identity: the name of a register. -/
def idOf (e : GlobalEntry) : GlobalKey × Str := (e.key, foldIdent e.key e.value)

/-- The registers of a hub. -/
def recordView (s : HubState) : GlobalKey × Str → WithBot Rank := fun p =>
  match s.globalEntries.find? (fun e => keyIsModes e.key && idOf e == p) with
  | some e => rankOf e.key e.value e.timestamp
  | none => ⊥

/-- The hash of an entry tells its kind and identity. -/
theorem hashOf_eq_iff_idOf_eq {a b : GlobalEntry} : hashOf a = hashOf b ↔ idOf a = idOf b := by
  rw [hashOf, hashOf, gkey_eq_gkey_iff, idOf, idOf, Prod.mk.injEq]

/-- An entry is found in its register. -/
theorem recordView_of_mem {s : HubState} (h : StoreInv s) {e : GlobalEntry}
    (he : e ∈ s.globalEntries) (hk : keyIsModes e.key = true) :
    recordView s (idOf e) = rankOf e.key e.value e.timestamp := by
  unfold recordView
  cases hf : s.globalEntries.find? (fun a => keyIsModes a.key && idOf a == idOf e) with
  | none =>
    rw [List.find?_eq_none] at hf
    exact absurd (hf e he) (by simp [hk])
  | some a =>
    have ha := List.mem_of_find?_eq_some hf
    have hp := List.find?_some hf
    simp only [Bool.and_eq_true, beq_iff_eq] at hp
    obtain rfl : a = e :=
      h.distinct.eq_of_hashOf_eq ha he hp.1 (hashOf_eq_iff_idOf_eq.mpr hp.2)
    rfl

/-- An identity that no entry has is seen as the least rank. -/
theorem recordView_eq_bot {s : HubState} {p : GlobalKey × Str}
    (h : ∀ e ∈ s.globalEntries, keyIsModes e.key = true → idOf e ≠ p) : recordView s p = ⊥ := by
  unfold recordView
  rw [List.find?_eq_none.mpr]
  intro e he hp
  simp only [Bool.and_eq_true, beq_iff_eq] at hp
  exact h e he hp.1 hp.2

/-- An identity is seen at the rank of its one entry. The invariant of the store says that there
is one only. -/
theorem recordView_eq_coe_iff {s : HubState} (h : StoreInv s) {p : GlobalKey × Str} {r : Rank} :
    recordView s p = r ↔ ∃ e ∈ s.globalEntries, keyIsModes e.key = true ∧ idOf e = p
      ∧ rankOf e.key e.value e.timestamp = r := by
  constructor
  · intro hr
    by_contra hno
    by_cases hex : ∃ e ∈ s.globalEntries, keyIsModes e.key = true ∧ idOf e = p
    · obtain ⟨e, he, hk, rfl⟩ := hex
      rw [recordView_of_mem h he hk, WithBot.coe_inj] at hr
      exact hno ⟨e, he, hk, rfl, hr⟩
    · rw [recordView_eq_bot fun e he hk heq => hex ⟨e, he, hk, heq⟩] at hr
      exact WithBot.bot_ne_coe hr
  · rintro ⟨e, he, hk, rfl, rfl⟩
    exact recordView_of_mem h he hk

/-! ### The acceptance rule -/

/-- Respelled to the stored identity, two values compare as the texts behind it do. -/
theorem lt_recNorm_iff {k : GlobalKey} (hk : keyIsModes k = true) (stored value : Str) :
    stored < recNorm k stored value ↔ recBody k stored < recBody k value := by
  by_cases hD : k = .D
  · subst hD
    rfl
  · have hsing := keyIsSingleton_of_modes hk hD
    have hbody : ∀ v, recBody k v = identTail k v := fun v => by simp [recBody, hsing]
    have hnorm : recNorm k stored value = ident k stored ++ identTail k value := by
      simp [recNorm, hD]
    have hlt := append_lt_append_iff (ident k stored) (identTail k stored) (identTail k value)
    rw [ident_append_identTail] at hlt
    rw [hbody, hbody, hnorm, hlt]

/-- The acceptance rule is the strict order of ranks. -/
theorem recAccepts_iff {clk : Clock} {k : GlobalKey} {stored value : Str} {cur ts : Int}
    (hk : keyIsModes k = true) (hahead : tsAhead clk ts = false) :
    recAccepts clk ts (recNorm k stored value) (recActive k value) cur stored (recActive k stored)
        = true ↔ rankOf k stored cur < rankOf k value ts := by
  rw [rankOf, rankOf, Prod.Lex.toLex_lt_toLex, Prod.Lex.toLex_lt_toLex]
  simp only [recAccepts, hahead, Bool.false_eq_true, if_false, gt_iff_lt]
  rcases lt_trichotomy cur ts with hlt | rfl | hgt
  · simp [hlt, ne_of_gt hlt]
  · simp only [ne_eq, not_true_eq_false, if_false, lt_self_iff_false, false_or, true_and,
      ← lt_recNorm_iff hk]
    cases recActive k stored <;> cases recActive k value <;> simp
  · simp [ne_of_lt hgt, ne_of_gt hgt, not_lt_of_gt hgt]

/-! ### Offers -/

/-- A record offered to the store under some clock. -/
structure Offer where
  clk : Clock
  key : GlobalKey
  value : Str
  ts : Int

/-- The store takes the offer, or leaves it. -/
def Offer.put (s : HubState) (o : Offer) : HubState := (putRecord o.clk s o.key o.value o.ts).1

/-- The record of an offer, without the clock. -/
def Offer.record (o : Offer) : GlobalKey × Str × Int := (o.key, o.value, o.ts)

/-- The store could take the record only by passing one of its ceilings: no room in the class, or
no room for a live ban in the channel. For a held record only the second can happen, and only if
the ban comes back. -/
def ceilingHit (s : HubState) (k : GlobalKey) (v : Str) : Bool :=
  match globalFind s k v with
  | none => !globalRoom s k || (k = .B && recActive k v && banRefused s v)
  | some i =>
    match s.globalEntries[i]? with
    | none => false
    | some e => k = .B && recActive k v && !entryActive e && banRefused s (recNorm k e.value v)

/-- What an offer needs to count: a valid `C`, `D` or `B` record, not ahead of the clock, no
purge floor, no ceiling. -/
structure Offer.Fair (s : HubState) (o : Offer) : Prop where
  modes : keyIsModes o.key = true
  valid : recordValid o.key o.value = true
  notAhead : tsAhead o.clk o.ts = false
  noFloor : s.purgeFloorUntil ≤ o.clk.now
  belowCeilings : ceilingHit s o.key o.value = false

/-- What a record adds to the registers. A stamp that is not positive is no stamp. -/
def joins (r : GlobalKey × Str × Int) : GlobalKey × Str → WithBot Rank :=
  if 0 < r.2.2 then Lww.single (r.1, foldIdent r.1 r.2.1) (rankOf r.1 r.2.1 r.2.2) else ⊥

section Step

variable {s : HubState} {o : Offer}

/-- A fair record passes every check, so a put comes down to the lookup and what is there. -/
private theorem putRecord_eq (h : o.Fair s) (hts : 0 < o.ts) :
    putRecord o.clk s o.key o.value o.ts =
      match globalFind s o.key o.value with
      | some i =>
        match s.globalEntries[i]? with
        | some e => putOver o.clk s o.key o.value o.ts i e
        | none => (s, false)
      | none => putNew o.clk s o.key o.value o.ts := by
  unfold putRecord
  exact (if_neg (by simp [h.modes, h.notAhead, hts])).trans (if_neg (by simp [h.valid]))

/-- A fair offer of a record the hub does not hold is appended. -/
theorem put_of_find_none (h : o.Fair s) (hts : 0 < o.ts)
    (hfind : globalFind s o.key o.value = none) :
    o.put s = globalPush s (newEntry o.key o.value o.ts) := by
  have hceil := h.belowCeilings
  simp only [ceilingHit, hfind, Bool.or_eq_false_iff, Bool.not_eq_false'] at hceil
  have hfloor : purgeFloorBlocks o.clk s o.ts = false := by
    have := h.noFloor
    simp only [purgeFloorBlocks, Bool.and_eq_false_iff, decide_eq_false_iff_not,
      gt_iff_lt, not_lt]
    exact .inl this
  rw [Offer.put, putRecord_eq h hts, hfind]
  simp only [putNew, hfloor, Bool.and_false, Bool.false_eq_true, if_false, hceil.2, hceil.1,
    if_true]
  rfl

/-- A fair offer of a held record overwrites it exactly when it ranks higher. -/
theorem put_of_find_some (hs : StoreInv s) (h : o.Fair s) (hts : 0 < o.ts) {i : Nat}
    {e : GlobalEntry} (hfind : globalFind s o.key o.value = some i)
    (hget : s.globalEntries[i]? = some e) (hkey : e.key = o.key)
    (hid : foldIdent o.key e.value = foldIdent o.key o.value) :
    o.put s = if rankOf o.key e.value e.timestamp < rankOf o.key o.value o.ts then
        overwrite s i e (recNorm o.key e.value o.value) o.ts (recActive o.key o.value)
      else s := by
  have hmodes : keyIsModes e.key = true := hkey ▸ h.modes
  have hev := ((hs.entryOk e (List.mem_of_getElem? hget)).modes hmodes).1
  have hr := respelled (hkey ▸ hev) h.valid hid
  have hlen : ¬ utf8Len (recNorm o.key e.value o.value) ≥ 1024 :=
    Nat.not_le.mpr (utf8Len_lt_of_recordValid hr.valid)
  have hceil := h.belowCeilings
  simp only [ceilingHit, hfind, hget] at hceil
  have hact : entryActive e = recActive o.key e.value := by rw [entryActive, hkey]
  rw [Offer.put, putRecord_eq h hts, hfind]
  simp only [hget, putOver]
  rw [if_neg (by simp [hlen])]
  by_cases hacc : rankOf o.key e.value e.timestamp < rankOf o.key o.value o.ts
  · have hrec := (recAccepts_iff h.modes h.notAhead).mpr hacc
    rw [hact] at hceil ⊢
    simp only [hrec, hceil, Bool.not_true, Bool.false_eq_true, if_false, if_pos hacc]
  · have hrec := mt (recAccepts_iff h.modes h.notAhead).mp hacc
    rw [Bool.not_eq_true] at hrec
    rw [hact]
    simp only [hrec, Bool.not_false, if_true, if_neg hacc]

/-- A record added under a new identity is seen at its rank, and the others as before. `hnew` is
that nobody has the identity. -/
theorem recordView_push (hs' : StoreInv (globalPush s (newEntry o.key o.value o.ts)))
    (hk : keyIsModes o.key = true)
    (hnew : ∀ e ∈ s.globalEntries, hashOf e ≠ gkey o.key o.value) :
    recordView (globalPush s (newEntry o.key o.value o.ts)) =
      recordView s ⊔ Lww.single (o.key, foldIdent o.key o.value) (rankOf o.key o.value o.ts) := by
  funext p
  rw [Pi.sup_apply, Lww.single]
  by_cases hp : p = (o.key, foldIdent o.key o.value)
  · subst hp
    have hbot : recordView s (o.key, foldIdent o.key o.value) = ⊥ :=
      recordView_eq_bot fun e he _ hid => hnew e he
        (hashOf_eq_iff_idOf_eq (b := newEntry o.key o.value o.ts).mpr hid)
    have hmem : newEntry o.key o.value o.ts
        ∈ (globalPush s (newEntry o.key o.value o.ts)).globalEntries := by
      simp [globalPush_eq]
    rw [if_pos rfl, hbot, bot_sup_eq]
    exact recordView_of_mem hs' hmem hk
  · have hne : (idOf (newEntry o.key o.value o.ts) == p) = false := by
      rw [beq_eq_false_iff_ne]
      exact Ne.symm hp
    rw [if_neg hp, sup_bot_eq]
    simp [recordView, globalPush_eq, List.find?_append, hne]

/-- A record written over its own identity is seen at its rank, and the others as before. `hr`
says that the value written keeps the identity: it is respelled as the stored one. -/
theorem recordView_overwrite {i : Nat} {e : GlobalEntry}
    (hs' : StoreInv (overwrite s i e (recNorm o.key e.value o.value) o.ts
    (recActive o.key o.value))) (hget : s.globalEntries[i]? = some e)
    (hk : keyIsModes o.key = true) (hkey : e.key = o.key)
    (hid : foldIdent o.key e.value = foldIdent o.key o.value)
    (hr : Respelled o.key e.value o.value) (p : GlobalKey × Str) :
    recordView (overwrite s i e (recNorm o.key e.value o.value) o.ts (recActive o.key o.value)) p
      = if p = (o.key, foldIdent o.key o.value) then (rankOf o.key o.value o.ts : WithBot Rank)
      else recordView s p := by
  have hidOf : idOf { e with value := recNorm o.key e.value o.value, timestamp := o.ts }
      = (o.key, foldIdent o.key o.value) := by
    simp only [idOf, hkey, hr.ident, hid]
  have hrank : rankOf e.key (recNorm o.key e.value o.value) o.ts = rankOf o.key o.value o.ts := by
    have hact : recActive o.key (recNorm o.key e.value o.value) = recActive o.key o.value := by
      rcases hr.active with h | h
      · simp [recActive, h]
      · simp [recActive, h]
    rw [hkey, rankOf, rankOf, hact, hr.body]
  by_cases hp : p = (o.key, foldIdent o.key o.value)
  · have hlt := (List.getElem?_eq_some_iff.mp hget).1
    have hmem : { e with value := recNorm o.key e.value o.value, timestamp := o.ts }
        ∈ (overwrite s i e (recNorm o.key e.value o.value) o.ts
          (recActive o.key o.value)).globalEntries :=
      List.mem_set hlt _
    rw [if_pos hp, hp, ← hidOf, recordView_of_mem hs' hmem (hkey ▸ hk), hrank]
  · have hold : (keyIsModes e.key && idOf e == p) = false := by
      have : (idOf e == p) = false := by
        rw [beq_eq_false_iff_ne, idOf, hkey, hid]
        exact Ne.symm hp
      rw [this, Bool.and_false]
    have hnew : (keyIsModes e.key
        && idOf { e with value := recNorm o.key e.value o.value, timestamp := o.ts } == p)
        = false := by
      have : (idOf { e with value := recNorm o.key e.value o.value, timestamp := o.ts } == p)
          = false := by
        rw [beq_eq_false_iff_ne, hidOf]
        exact Ne.symm hp
      rw [this, Bool.and_false]
    rw [if_neg hp]
    simp only [recordView, overwrite]
    rw [Table.find?_set_of_false hget hold hnew]

/-- Storing a record joins its rank into its register. -/
theorem recordView_put (hs : StoreInv s) (h : o.Fair s) :
    recordView (o.put s) = recordView s ⊔ joins o.record := by
  unfold joins Offer.record
  by_cases hts : 0 < o.ts
  · rw [if_pos hts]
    have hs' : StoreInv (o.put s) := hs.putRecord o.clk o.key o.value o.ts
    cases hfind : globalFind s o.key o.value with
    | none =>
      rw [put_of_find_none h hts hfind] at hs' ⊢
      exact recordView_push hs' h.modes (hs.find_none h.modes hfind)
    | some i =>
      obtain ⟨e, hget, hkey, hid⟩ := hs.find_some h.modes hfind
      have hmem := List.mem_of_getElem? hget
      have hmodes : keyIsModes e.key = true := hkey ▸ h.modes
      have hcur : recordView s (o.key, foldIdent o.key o.value)
          = rankOf o.key e.value e.timestamp := by
        have := recordView_of_mem hs hmem hmodes
        rwa [idOf, hkey, hid] at this
      have hr := respelled (hkey ▸ ((hs.entryOk e hmem).modes hmodes).1) h.valid hid
      funext p
      rw [put_of_find_some hs h hts hfind hget hkey hid] at hs' ⊢
      rw [Pi.sup_apply, Lww.single]
      by_cases hlt : rankOf o.key e.value e.timestamp < rankOf o.key o.value o.ts
      · rw [if_pos hlt] at hs' ⊢
        rw [recordView_overwrite hs' hget h.modes hkey hid hr]
        by_cases hp : p = (o.key, foldIdent o.key o.value)
        · rw [if_pos hp, if_pos hp, hp, hcur, ← WithBot.coe_sup, sup_eq_right.mpr hlt.le]
        · rw [if_neg hp, if_neg hp, sup_bot_eq]
      · rw [if_neg hlt]
        by_cases hp : p = (o.key, foldIdent o.key o.value)
        · rw [if_pos hp, hp, hcur, ← WithBot.coe_sup, sup_eq_left.mpr (not_lt.mp hlt)]
        · rw [if_neg hp, sup_bot_eq]
  · have hput : o.put s = s := by
      unfold Offer.put putRecord
      rw [if_pos (by simp [not_lt.mp hts])]
    rw [if_neg hts, hput, sup_bot_eq]

/-- A fair offer leaves the other classes and the purge floor alone. -/
theorem put_frame (hs : StoreInv s) (h : o.Fair s) :
    (o.put s).globalEntries.filter (fun e => !keyIsModes e.key)
        = s.globalEntries.filter (fun e => !keyIsModes e.key)
      ∧ (o.put s).purgeFloorUntil = s.purgeFloorUntil := by
  by_cases hts : 0 < o.ts
  · cases hfind : globalFind s o.key o.value with
    | none =>
      rw [put_of_find_none h hts hfind, globalPush_eq]
      simp [newEntry, h.modes]
    | some i =>
      obtain ⟨e, hget, hkey, hid⟩ := hs.find_some h.modes hfind
      have hmodes : keyIsModes e.key = true := hkey ▸ h.modes
      rw [put_of_find_some hs h hts hfind hget hkey hid]
      split
      · refine ⟨?_, rfl⟩
        exact Table.filter_set_of_false hget (by simp [hmodes]) (by simp [hmodes])
      · exact ⟨rfl, rfl⟩
  · have hput : o.put s = s := by
      unfold Offer.put putRecord
      rw [if_pos (by simp [not_lt.mp hts])]
    rw [hput]
    exact ⟨rfl, rfl⟩

end Step

/-! ### Convergence -/

/-- The value of an entry with its identity in canonical spelling. -/
def canonValue (e : GlobalEntry) : Str := foldIdent e.key e.value ++ recBody e.key e.value

/-- The records a hub holds, as identity, value and stamp, up to the case of identities. -/
def heldRecords (s : HubState) : Set (Str × Str × Int) :=
  { r | ∃ e ∈ s.globalEntries, r = (hashOf e, canonValue e, e.timestamp) }

/-- Hubs with the same registers and the same other entries hold the same records. The rank has
the text behind the identity in it, so equal ranks are equal records up to spelling. -/
theorem heldRecords_subset {s s' : HubState} (hs : StoreInv s) (hs' : StoreInv s')
    (hview : recordView s = recordView s')
    (hold : s.globalEntries.filter (fun e => !keyIsModes e.key)
      = s'.globalEntries.filter (fun e => !keyIsModes e.key)) :
    heldRecords s ⊆ heldRecords s' := by
  rintro r ⟨e, he, rfl⟩
  cases hk : keyIsModes e.key with
  | false =>
    have hmem : e ∈ s.globalEntries.filter (fun e => !keyIsModes e.key) := by
      simp [he, hk]
    rw [hold] at hmem
    exact ⟨e, (List.mem_filter.mp hmem).1, rfl⟩
  | true =>
    have hreg := recordView_of_mem hs he hk
    rw [hview] at hreg
    obtain ⟨e', he', -, hid, hrank⟩ := (recordView_eq_coe_iff hs').mp hreg
    have hkey : e'.key = e.key := congrArg Prod.fst hid
    have hfold : foldIdent e'.key e'.value = foldIdent e.key e.value := congrArg Prod.snd hid
    have hlex := toLex.injective hrank
    have hts : e'.timestamp = e.timestamp := congrArg Prod.fst hlex
    have hbody : recBody e'.key e'.value = recBody e.key e.value :=
      congrArg Prod.snd (toLex.injective (congrArg Prod.snd hlex))
    refine ⟨e', he', ?_⟩
    rw [hashOf_eq_iff_idOf_eq.mpr hid, canonValue, canonValue, hfold, hbody, hts]

/-- Two hubs that start from the same store and are offered the same records, each in its own
order and as often as it likes, hold the same records up to the case of the stored channels and
masks.

`hl` and `hl'`: each offer is fair in the state it comes to. `hsame`: the two lists have the same
records; the clocks may differ. -/
theorem records_converge {s : HubState} (hs : StoreReachable s) {l l' : List Offer}
    (hl : Lww.Along (fun s o => o.Fair s) Offer.put s l)
    (hl' : Lww.Along (fun s o => o.Fair s) Offer.put s l')
    (hsame : ∀ r, r ∈ l.map Offer.record ↔ r ∈ l'.map Offer.record) :
    heldRecords (l.foldl Offer.put s) = heldRecords (l'.foldl Offer.put s) := by
  have hinv0 := storeInv_of_reachable hs
  have hstep : ∀ (t : HubState) (o : Offer), StoreInv t → o.Fair t → StoreInv (o.put t) :=
    fun t o ht _ => ht.putRecord o.clk o.key o.value o.ts
  have hview : recordView (l.foldl Offer.put s) = recordView (l'.foldl Offer.put s) := by
    refine Lww.view_run_congr (f := fun o => joins o.record) hstep
      (fun t o ht ho => recordView_put ht ho) hinv0 hl hl' ?_
    intro y
    constructor
    · rintro ⟨o, ho, rfl⟩
      obtain ⟨o', ho', heq⟩ := List.mem_map.mp ((hsame o.record).mp (List.mem_map_of_mem ho))
      exact ⟨o', ho', by simp only [heq]⟩
    · rintro ⟨o, ho, rfl⟩
      obtain ⟨o', ho', heq⟩ := List.mem_map.mp ((hsame o.record).mpr (List.mem_map_of_mem ho))
      exact ⟨o', ho', by simp only [heq]⟩
  -- the other classes are those of the start on both sides
  have hrun : ∀ k, Lww.Along (fun s o => Offer.Fair s o) Offer.put s k →
      StoreInv (k.foldl Offer.put s)
        ∧ (k.foldl Offer.put s).globalEntries.filter (fun e => !keyIsModes e.key)
          = s.globalEntries.filter (fun e => !keyIsModes e.key) := by
    intro k hk
    have hkeep : ∀ (t : HubState) (o : Offer), (StoreInv t
        ∧ t.globalEntries.filter (fun e => !keyIsModes e.key)
          = s.globalEntries.filter (fun e => !keyIsModes e.key)) → o.Fair t →
        StoreInv (o.put t) ∧ (o.put t).globalEntries.filter (fun e => !keyIsModes e.key)
          = s.globalEntries.filter (fun e => !keyIsModes e.key) := by
      rintro t o ⟨ht, hold⟩ ho
      exact ⟨hstep t o ht ho, (put_frame ht ho).1.trans hold⟩
    exact Lww.inv_run hkeep ⟨hinv0, rfl⟩ hk
  obtain ⟨h1, h2⟩ := hrun l hl
  obtain ⟨h1', h2'⟩ := hrun l' hl'
  exact Set.Subset.antisymm (heldRecords_subset h1 h1' hview (h2.trans h2'.symm))
    (heldRecords_subset h1' h1 hview.symm (h2'.trans h2.symm))

/-- A ban, and its delete in the same second under another spelling of channel and mask. -/
def banPair : Offer × Offer :=
  (⟨⟨1000, false⟩, .B, "#Chan|*!*@Host|0||admin|spam|x|add".toList, 900⟩,
    ⟨⟨1010, false⟩, .B, "#chan|*!*@host|0||||del".toList, 900⟩)

/-- The theorem at the pair in both orders, once with a repetition. -/
theorem records_converge_banPair :
    heldRecords ([banPair.1, banPair.2].foldl Offer.put {})
      = heldRecords ([banPair.2, banPair.1, banPair.2].foldl Offer.put {}) := by
  have h1 : banPair.1.Fair {} :=
    ⟨by decide, by decide +kernel, by decide, by decide, by decide +kernel⟩
  have h2 : banPair.2.Fair (banPair.1.put {}) :=
    ⟨by decide, by decide +kernel, by decide, by decide +kernel, by decide +kernel⟩
  have h1' : banPair.2.Fair {} :=
    ⟨by decide, by decide +kernel, by decide, by decide, by decide +kernel⟩
  have h2' : banPair.1.Fair (banPair.2.put {}) :=
    ⟨by decide, by decide +kernel, by decide, by decide +kernel, by decide +kernel⟩
  have h3' : banPair.2.Fair (banPair.1.put (banPair.2.put {})) :=
    ⟨by decide, by decide +kernel, by decide, by decide +kernel, by decide +kernel⟩
  have hl : Lww.Along (fun s o => Offer.Fair s o) Offer.put {} [banPair.1, banPair.2] :=
    ⟨h1, h2, trivial⟩
  have hl' : Lww.Along (fun s o => Offer.Fair s o) Offer.put {}
      [banPair.2, banPair.1, banPair.2] :=
    ⟨h1', h2', h3', trivial⟩
  refine records_converge ⟨[], rfl⟩ hl hl' ?_
  intro r
  simp only [List.map_cons, List.map_nil, List.mem_cons, List.not_mem_nil, or_false]
  exact ⟨fun h => h.elim (fun h => .inr (.inl h)) .inl,
    fun h => h.elim .inr fun h => h.elim .inl .inr⟩

end IrcHub.Proofs
