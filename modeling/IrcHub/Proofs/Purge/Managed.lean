import IrcHub.Proofs.Purge.Names
import IrcHub.Proofs.Writes.Runs

/-!
# `IrcHub.Proofs.Purge.Managed`: what the bots saw is of managed channels

`chanManaged` looks through the table for a live record of a channel; where names fit it is what
the index says (`ChansKeyed.chanLive`). Every slot of what the bots saw is of a managed channel,
and no channel has two (`ChansKeyed`): a report is only taken for a live channel, and a channel
that goes takes its slot along. So a purge finds no slot to drop.

* `KeepsManaged`, `keepsManaged_of_subset`: changes of the table that no channel is lost by
* `learnedDrop_gone`, `chansKeyed_learnedDrop`: dropping the slot of a channel repairs the state
  after its record went
* `ChansKeyed.learnedPut`: learning a key keeps the state in order
-/

set_option autoImplicit false

namespace IrcHub.Proofs

open IrcHub.Hub Str
open String (utf8Len)

/-! ### Managed channels -/

/-- The table has a live record of the channel. -/
def chanManaged (es : List GlobalEntry) (chan : Str) : Bool :=
  es.any fun e => decide (e.key = .c) && globalValueActive e.value
    && eqIc (firstField e.value) chan

/-- A channel is managed when some live entry has its name, in any case. -/
theorem chanManaged_iff {es : List GlobalEntry} {chan : Str} :
    chanManaged es chan = true ↔ ∃ e ∈ es, e.key = .c ∧ globalValueActive e.value = true
      ∧ lower (firstField e.value) = lower chan := by
  simp [chanManaged, eqIc_iff, and_assoc]

/-- Live records of channels whose names fit stay, under their names. -/
def KeepsManaged (es fs : List GlobalEntry) : Prop :=
  ∀ e ∈ es, FitsChan e → globalValueActive e.value = true →
    ∃ a ∈ fs, globalValueActive a.value = true ∧ hashOf a = hashOf e

/-- A table that keeps the live channels keeps this one managed. A name too long for its field is
not kept, hence `hlen`. -/
theorem KeepsManaged.chanManaged {es fs : List GlobalEntry} (h : KeepsManaged es fs) {chan : Str}
    (hlen : utf8Len chan < maxChan) (hm : chanManaged es chan = true) :
    chanManaged fs chan = true := by
  obtain ⟨e, he, hc, hact, hname⟩ := chanManaged_iff.mp hm
  have hfits : FitsChan e := ⟨hc, by rwa [utf8Len_eq_of_lower_eq hname]⟩
  obtain ⟨a, ha, haact, hhash⟩ := h e he hfits hact
  have hac : a.key = .c := (key_eq_of_hashOf_eq hhash).trans hc
  refine chanManaged_iff.mpr ⟨a, ha, hac, haact, ?_⟩
  rw [hashOf, hashOf, hac, hc] at hhash
  rw [gkey_c_eq_iff.mp hhash, hname]

/-- Channel entries that stay where they are keep it. -/
theorem keepsManaged_of_subset {es fs : List GlobalEntry} (h : ∀ e ∈ es, e.key = .c → e ∈ fs) :
    KeepsManaged es fs :=
  fun e he hfits hact => ⟨e, h e he hfits.1, hact, rfl⟩

/-! ### The invariant -/

/-- The global table, and what the bots saw: one slot per channel, every slot of a managed one. -/
structure ChansKeyed (s : HubState) : Prop where
  store : StoreInv s
  names : ShortNames s.globalEntries s.globalIdx
  learned : ∀ l ∈ s.chanLearned, utf8Len l.chan < maxChan
    ∧ chanManaged s.globalEntries l.chan = true
  slots : s.chanLearned.Pairwise fun a b => lower a.chan ≠ lower b.chan

/-- The state a hub starts in. -/
theorem chansKeyed_empty : ChansKeyed {} where
  store := storeInv_empty
  names := ⟨fun _ _ _ h => (by cases h), fun _ h => (List.not_mem_nil h).elim, .nil⟩
  learned _ h := (List.not_mem_nil h).elim
  slots := .nil

/-- For a name that fits, the index says what the table says. The index may know a record of a
name that does not fit under another name, hence the bound. -/
theorem ChansKeyed.chanLive {s : HubState} (h : ChansKeyed s) {chan : Str}
    (hlen : utf8Len chan < maxChan) (hbar : '|' ∉ chan) :
    (Hub.chanLive s chan).isSome = chanManaged s.globalEntries chan := by
  have hfirst : firstField chan = chan := firstField_of_bar_notMem hbar
  rw [Bool.eq_iff_iff, chanManaged_iff]
  unfold Hub.chanLive
  cases hfind : globalFind s .c chan with
  | none =>
    constructor
    · intro hsome
      cases hsome
    · rintro ⟨e, he, hc, hact, hname⟩
      have hfits : FitsChan e := ⟨hc, by rwa [utf8Len_eq_of_lower_eq hname]⟩
      obtain ⟨i, hi⟩ := h.names.found e he hfits
      have hhash : hashOf e = gkey .c chan := by
        rw [hashOf, hc, gkey_c_eq_iff, hfirst, hname]
      rw [hhash] at hi
      rw [globalFind, hi] at hfind
      cases hfind
  | some i =>
    obtain ⟨a, ha, hac, hheld⟩ := h.store.sound.held .c chan i hfind
    have hname : lower (firstField a.value) = lower chan := by
      rw [(hheld rfl).short (by rw [hfirst]; omega), hfirst]
    have hfits : FitsChan a := ⟨hac, by rwa [utf8Len_eq_of_lower_eq hname]⟩
    simp only [ha]
    constructor
    · intro hsome
      split at hsome
      · rename_i hact
        exact ⟨a, List.mem_of_getElem? ha, hac, hact, hname⟩
      · cases hsome
    · rintro ⟨e, he, hc, hact, hename⟩
      -- the live record is the one the index finds
      have hhash : hashOf a = hashOf e := by
        rw [hashOf, hashOf, hac, hc, gkey_c_eq_iff, hname, hename]
      have heq : e = a := by
        by_contra hne
        exact (h.names.distinct.forall (List.mem_of_getElem? ha) he fun heq =>
          hne heq.symm) hfits hhash
      rw [heq] at hact
      rw [if_pos hact]
      rfl

/-- The table changes, and the slots do not. -/
theorem ChansKeyed.of_keeps {s t : HubState} (h : ChansKeyed s) (ht : StoreInv t)
    (hnames : ShortNames t.globalEntries t.globalIdx)
    (hkeeps : KeepsManaged s.globalEntries t.globalEntries)
    (hslots : t.chanLearned = s.chanLearned) :
    ChansKeyed t where
  store := ht
  names := hnames
  learned l hl := by
    rw [hslots] at hl
    obtain ⟨hlen, hm⟩ := h.learned l hl
    exact ⟨hlen, hkeeps.chanManaged hlen hm⟩
  slots := by
    rw [hslots]
    exact h.slots

/-- What leaves the table and what was learned alone. -/
theorem ChansKeyed.of_same {s t : HubState} (h : ChansKeyed s) (hsame : SameTable s t)
    (hslots : t.chanLearned = s.chanLearned) : ChansKeyed t := by
  refine h.of_keeps (h.store.of_sameTable hsame) ?_ ?_ hslots
  · rw [hsame.1, hsame.2]
    exact h.names
  · rw [hsame.1]
    exact keepsManaged_of_subset fun e he _ => he

/-! ### Slots -/

/-- Forgetting takes out the slot of the channel, or there was none. -/
theorem learnedDrop_slots (s : HubState) (chan : Str) :
    (learnedDrop s chan).chanLearned = s.chanLearned
      ∨ ∃ i l, s.chanLearned[i]? = some l ∧ eqIc l.chan chan = true
        ∧ (learnedDrop s chan).chanLearned = Table.swapRemove s.chanLearned i := by
  unfold learnedDrop
  cases hfind : learnedIndex s chan with
  | none => exact .inl rfl
  | some i =>
    obtain ⟨hi, heq, -⟩ := List.findIdx?_eq_some_iff_getElem.mp hfind
    exact .inr ⟨i, s.chanLearned[i], List.getElem?_eq_getElem hi, heq, rfl⟩

/-- No slot of the channel is left, because it had one at most. -/
theorem learnedDrop_gone {s : HubState} {chan : Str}
    (hslots : s.chanLearned.Pairwise fun a b => lower a.chan ≠ lower b.chan) {l : ChanLearned}
    (hl : l ∈ (learnedDrop s chan).chanLearned) : eqIc l.chan chan = false := by
  unfold learnedDrop at hl
  cases hfind : learnedIndex s chan with
  | none =>
    rw [hfind] at hl
    exact List.findIdx?_eq_none_iff.mp hfind l hl
  | some i =>
    rw [hfind] at hl
    obtain ⟨hi, heq, -⟩ := List.findIdx?_eq_some_iff_getElem.mp hfind
    have hmem := (Table.swapRemove_perm s.chanLearned hi).mem_iff.mp hl
    obtain ⟨j, hj, hne, rfl⟩ := List.mem_eraseIdx_iff_getElem.mp hmem
    rw [Bool.eq_false_iff]
    intro hsame
    have hlow : lower s.chanLearned[i].chan = lower s.chanLearned[j].chan :=
      (eqIc_iff.mp heq).trans (eqIc_iff.mp hsame).symm
    rcases Nat.lt_or_gt_of_ne hne with hlt | hlt
    · exact List.pairwise_iff_getElem.mp hslots j i hj hi hlt hlow.symm
    · exact List.pairwise_iff_getElem.mp hslots i j hi hj hlt hlow

/-- Without the slot of a channel the state is in order, if only that slot was out of order. -/
theorem chansKeyed_learnedDrop {s : HubState} {chan : Str} (hstore : StoreInv s)
    (hnames : ShortNames s.globalEntries s.globalIdx)
    (hlearned : ∀ l ∈ s.chanLearned, eqIc l.chan chan = false →
      utf8Len l.chan < maxChan ∧ chanManaged s.globalEntries l.chan = true)
    (hslots : s.chanLearned.Pairwise fun a b => lower a.chan ≠ lower b.chan) :
    ChansKeyed (learnedDrop s chan) := by
  have hsame := sameTable_learnedDrop s chan
  have hsub : ∀ l ∈ (learnedDrop s chan).chanLearned, l ∈ s.chanLearned := by
    intro l hl
    rcases learnedDrop_slots s chan with heq | ⟨i, l', -, -, heq⟩
    · rwa [heq] at hl
    · rw [heq] at hl
      exact Table.mem_of_mem_swapRemove hl
  refine ⟨hstore.of_sameTable hsame, ?_, ?_, ?_⟩
  · rw [hsame.1, hsame.2]
    exact hnames
  · intro l hl
    rw [hsame.1]
    exact hlearned l (hsub l hl) (learnedDrop_gone hslots hl)
  · rcases learnedDrop_slots s chan with heq | ⟨i, l, hget, -, heq⟩
    · rw [heq]
      exact hslots
    · rw [heq]
      have hperm := Table.swapRemove_perm s.chanLearned (List.getElem?_eq_some_iff.mp hget).1
      exact (hperm.pairwise_iff fun hab => hab.symm).mpr
        (hslots.sublist (List.eraseIdx_sublist s.chanLearned i))

/-- It keeps channels keyed. -/
theorem ChansKeyed.learnedDrop {s : HubState} (h : ChansKeyed s) (chan : Str) :
    ChansKeyed (learnedDrop s chan) :=
  chansKeyed_learnedDrop h.store h.names (fun l hl _ => h.learned l hl) h.slots

/-- Dropping a slot twice is dropping it once. -/
theorem learnedDrop_idem {s : HubState} {chan : Str}
    (hslots : s.chanLearned.Pairwise fun a b => lower a.chan ≠ lower b.chan) :
    learnedDrop (learnedDrop s chan) chan = learnedDrop s chan := by
  have hnone : learnedIndex (learnedDrop s chan) chan = none :=
    List.findIdx?_eq_none_iff.mpr fun l hl => learnedDrop_gone hslots hl
  generalize learnedDrop s chan = t at hnone ⊢
  unfold learnedDrop
  rw [hnone]

/-- The cascade of a channel starts by dropping its slot. -/
theorem chanCascadeDel_learnedDrop {s : HubState}
    (hslots : s.chanLearned.Pairwise fun a b => lower a.chan ≠ lower b.chan) (clk : Clock)
    (chan : Str) (ts : Int) (announce : Bool) :
    chanCascadeDel clk (learnedDrop s chan) chan ts announce
      = chanCascadeDel clk s chan ts announce := by
  unfold chanCascadeDel
  simp only []
  rw [learnedDrop_idem hslots]

/-- So does learning: the name is cut to its field and checked, and the channel must be live. -/
theorem ChansKeyed.learnedPut {s : HubState} (h : ChansKeyed s) (clk : Clock) (chan key : Str)
    (modes ts : Int) : ChansKeyed (learnedPut clk s chan key modes ts).1 := by
  unfold Hub.learnedPut
  split
  · exact h
  rename_i hguard
  simp only [Bool.or_eq_true, Bool.not_eq_true', not_or, Bool.not_eq_false] at hguard
  obtain ⟨⟨⟨⟨-, hchan⟩, -⟩, -⟩, -⟩ := hguard
  have hlen : utf8Len chan < maxChan := Nat.lt_succ_of_le (utf8Len_le_of_recChanOk hchan)
  have hfirst : utf8Len (firstField chan) < maxChan :=
    Nat.lt_of_le_of_lt (String.utf8Len_le_of_prefix ⟨_, cut_append '|' 0 chan⟩) hlen
  split
  · exact h
  rename_i name hlive
  -- the record the report is for, and its name
  obtain ⟨e, he, hac, hact, hname⟩ : ∃ e ∈ s.globalEntries, e.key = .c
      ∧ globalValueActive e.value = true ∧ name = trunc (firstField e.value) maxChan
      ∧ utf8Len (firstField e.value) < maxChan := by
    unfold Hub.chanLive at hlive
    split at hlive
    · cases hlive
    rename_i i hfind
    split at hlive
    · cases hlive
    rename_i e hget
    split at hlive
    · rename_i hact
      cases hlive
      have hheld := h.store.nameHeld_of_find hfind hget
      exact ⟨e, List.mem_of_getElem? hget, h.store.key_of_find hfind hget, hact, rfl,
        Nat.lt_of_le_of_lt hheld.le hfirst⟩
    · cases hlive
  obtain ⟨rfl, hshort⟩ := hname
  rw [trunc_of_lt hshort]
  split
  -- a slot of that name is there: it is written over
  · rename_i i hfind
    split
    · exact h
    rename_i l hget
    split
    · exact h
    · refine ⟨h.store, h.names, ?_, ?_⟩
      · intro l' hl'
        rcases List.mem_or_eq_of_mem_set hl' with hl' | rfl
        · exact h.learned l' hl'
        · exact h.learned l (List.mem_of_getElem? hget)
      · exact Table.pairwise_set h.slots hget (fun _ _ hx => hx) fun _ _ hx => hx
  -- there is none: one is added, of a channel that is live
  · rename_i hfind
    split
    · exact h
    · refine ⟨h.store, h.names, ?_, ?_⟩
      · intro l hl
        rcases List.mem_append.mp hl with hl | hl
        · exact h.learned l hl
        · rw [List.mem_singleton.mp hl]
          exact ⟨hshort, chanManaged_iff.mpr ⟨e, he, hac, hact, rfl⟩⟩
      · refine List.pairwise_append.mpr ⟨h.slots, List.pairwise_singleton _ _, ?_⟩
        intro a ha b hb heq
        rw [List.mem_singleton.mp hb] at heq
        have hno := List.findIdx?_eq_none_iff.mp hfind a ha
        rw [eqIc_iff.mpr heq] at hno
        cases hno

end IrcHub.Proofs
