import IrcHub.Proofs.Bindings
import IrcHub.Proofs.Sync.Runs

/-!
# `IrcHub.Proofs.Bindings.Torn`: the changes that are torn

The changes that are torn. The two changes that end in a `"*"` delete of their own, adding a
channel and deleting `"*"`, are all or nothing unless that delete is refused after something went
in (`allOrNothing_iff`). In a run of the hub the table is keyed and its stamps are 64-bit numbers,
which is what the stamp of a change needs to be past all of them.

- `allOrNothing_delStar`, `allOrNothing_addChan`: the two changes, each with its exact condition
- `allOrNothing_iff`: any change, in any state of a run
- `aheadPurgeEvents`: a purge of a peer whose clock is ahead puts the floor above the stamp of a
  change
- `binding_torn`: the changes at which the condition fails

Both directions go along the writes. If the delete at the end is stored, the records written are
those the change asks for; if it is refused, the result is a refusal and the table is another one.
-/

set_option autoImplicit false

namespace IrcHub.Proofs

open IrcHub.Hub IrcHub.Hub.BindChange Str
open String (utf8Len)

variable {clk : Clock} {s s' : HubState} {uuid c : Str} {act : Bool} {ts : Int}
  {p p' p'' : BindChange} {ws ds : List UchanRecord}

/-! ### The two changes -/

section Changes

variable {chan out : Str} (hk : RightsKeyed s)
  (hstamps : ∀ r ∈ s.uchanRecords, r.uuid = uuid → r.timestamp ≤ accessNextTs clk s uuid)

/-- The floor of a purge is what a part of a change leaves alone. -/
theorem Wrote.floorBlocks (h : Wrote uuid p p' ws) (ts : Int) :
    purgeFloorBlocks clk p'.state ts = purgeFloorBlocks clk p.state ts := by
  unfold purgeFloorBlocks
  rw [h.floor.1, h.floor.2]

/-- What was written is in the table, where it was not before. -/
theorem Wrote.changed (h : Wrote uuid p p' ws) (hne : ws ≠ []) :
    p'.state.uchanRecords ≠ p.state.uchanRecords := by
  obtain ⟨w, hw⟩ := List.exists_mem_of_ne_nil ws hne
  intro heq
  exact h.fresh w hw (heq ▸ (h.mem w).mpr (.inl hw))

/-- Records of a channel that is not `"*"` are not of `"*"`. -/
theorem not_star_of_eqIc {a c : Str} (h : eqIc a c = true) (hc : c ≠ ['*']) : a ≠ ['*'] := by
  rintro rfl
  exact hc (eqIc_star (eqIc_symm h))

/-- A part of a change that writes no record of a binding makes none. -/
theorem Wrote.lacks (h : Wrote uuid p p' ws) (hnone : liveBindingOf p.state uuid c = none)
    (hws : ∀ w ∈ ws, ¬eqIc w.chan c = true) :
    liveBindingOf p'.state uuid c = none := by
  cases hb : liveBindingOf p'.state uuid c with
  | none => rfl
  | some r =>
    obtain ⟨hr, hu, hc⟩ := bindingOf_some hb
    rcases (h.mem r).mp hr with hw | ⟨hp, -⟩
    · exact absurd hc (hws r hw)
    · exact absurd ⟨hu, hc⟩ (no_binding hnone r hp)

/-- A user with no record of a binding has no live one. -/
theorem notMem_liveBindings (hnone : liveBindingOf s uuid c = none) {c' : Str}
    (hc' : c' ∈ liveBindings s uuid) :
    ¬eqIc c' c = true := by
  obtain ⟨r, hr, -, hu, rfl⟩ := mem_liveBindings.mp hc'
  exact fun hc => no_binding hnone r hr ⟨hu, hc⟩

/-- The `"*"` delete at the end of a change, where it finds no record of `"*"` and there is room
for one. It is a record apart from the others, so nothing that they wrote is written over, and the
live bindings stay as they are. -/
theorem Wrote.starDel (h : Wrote uuid p p' ws) (hnone : liveBindingOf p'.state uuid ['*'] = none)
    (hstamp : StampOk clk uuid ts) (hroom : RoomFor clk p'.state false ts) :
    ∃ p'' t, p'.emitStarDel clk uuid ts = (p'', true) ∧ Wrote uuid p p'' (ws ++ [t])
      ∧ StarTomb p''.state uuid
      ∧ ∀ c, c ∈ liveBindings p''.state uuid ↔ c ∈ liveBindings p'.state uuid := by
  obtain ⟨p'', t, hemit, hput, hlast⟩ :=
    emit_stores h.keyed ((stores_starDel hnone).mpr ⟨hstamp, hroom⟩)
  refine ⟨p'', t, (emitStarDel_none hnone).trans hemit, h.trans hlast ?_,
    ⟨t, hput.found, hput.active⟩, fun c => ?_⟩
  · intro x hx d hd hsame
    refine no_binding hnone x ((h.mem x).mpr (.inl hx)) ⟨h.user x hx, ?_⟩
    rw [List.mem_singleton.mp hd] at hsame
    exact eqIc_trans hsame.2 hput.chan
  · rw [hlast.live]
    constructor
    · rintro (⟨x, hx, hact, -⟩ | ⟨hlive, -⟩)
      · rw [List.mem_singleton.mp hx, hput.active] at hact
        exact absurd hact Bool.false_ne_true
      · exact hlive
    · intro hlive
      refine .inr ⟨hlive, fun x hx heq => notMem_liveBindings hnone hlive ?_⟩
      rw [List.mem_singleton.mp hx] at heq
      exact eqIc_trans heq hput.chan

/-- Where there is no room for it, it is refused and nothing else happens. -/
theorem emitStarDel_refused (hnone : liveBindingOf p.state uuid ['*'] = none)
    (h : ¬(StampOk clk uuid ts ∧ RoomFor clk p.state false ts)) :
    p.emitStarDel clk uuid ts = (p, false) :=
  (emitStarDel_none hnone).trans (emit_refused fun hst => h ((stores_starDel hnone).mp hst))

include hk

/-- Under a stamp that the table does not take, the delete of `"*"` does nothing. It is refused at
its first write, unless there is nothing to write. -/
theorem allOrNothing_unstamped (hstamp : ¬StampOk clk uuid (accessNextTs clk s uuid)) :
    AllOrNothing clk s uuid false ['*'] out := by
  by_cases hlive : liveBindings s uuid = []
  · cases hbind : liveBindingOf s uuid ['*'] with
    | some r =>
      have hresult : chanChangeInto clk s uuid false ['*'] out = (s, out, some 0) := by
        unfold chanChangeInto BindChange.writes
        simp only [Bool.false_eq_true, if_false, beq_self_eq_true, if_true, hlive,
          BindChange.emitDels, emitStarDel_some (p := { state := s, out := out }) hbind]
      unfold AllOrNothing
      rw [hresult]
      exact ⟨⟨fun _ => hlive, fun hne => absurd rfl hne, fun hne => absurd rfl hne,
          fun hex => hex.elim fun c hc => absurd (hlive ▸ hc.1) List.not_mem_nil⟩,
        (Wrote.refl (p := { state := s, out := out }) uuid hk).lines rfl⟩
    | none =>
      have hresult : chanChangeInto clk s uuid false ['*'] out = (s, out, none) := by
        unfold chanChangeInto BindChange.writes
        simp only [Bool.false_eq_true, if_false, beq_self_eq_true, if_true, hlive,
          BindChange.emitDels,
          emitStarDel_refused (p := { state := s, out := out }) hbind fun h => hstamp h.1]
      unfold AllOrNothing
      rw [hresult]
      exact ⟨rfl, rfl⟩
  · have hresult : chanChangeInto clk s uuid false ['*'] out = (s, out, none) := by
      unfold chanChangeInto BindChange.writes
      simp only [Bool.false_eq_true, if_false, beq_self_eq_true, if_true,
        emitDels_refused (p := { state := s, out := out }) hlive hstamp]
    unfold AllOrNothing
    rw [hresult]
    exact ⟨rfl, rfl⟩

include hstamps

/-- Deleting `"*"` is the deletes of everything that is live, and the `"*"` delete where there was
no record of it. The proof follows the change: nothing live, the deletes, then the last write. -/
theorem allOrNothing_delStar : AllOrNothing clk s uuid false ['*'] out
    ↔ ¬Torn clk s uuid false ['*'] := by
  have hfilter : (liveBindings s uuid).filter (fun _ => true) = liveBindings s uuid :=
    List.filter_true _
  by_cases hstamp : StampOk clk uuid (accessNextTs clk s uuid)
  · obtain ⟨p₁, ds, hdels, hwrote, hnames, hdead, hlen⟩ :=
      emitDels_live (p := { state := s, out := out }) hstamp hk hstamps fun _ => true
    have hdels : BindChange.emitDels clk uuid (accessNextTs clk s uuid) (liveBindings s uuid)
      { state := s, out := out }
        = (p₁, true) := by
      rw [← hdels]
      exact congrArg (fun cs => BindChange.emitDels clk uuid _ cs _) hfilter.symm
    have hnames : ds.map (·.chan) = liveBindings s uuid := hnames.trans hfilter
    -- nothing is live after the deletes: what was is in one of them
    have hempty : ∀ c, c ∉ liveBindings p₁.state uuid := by
      intro c hc
      rcases hwrote.live.mp hc with ⟨x, hx, hact, -⟩ | ⟨hlive, hall⟩
      · rw [hdead x hx] at hact
        exact absurd hact Bool.false_ne_true
      · have hmem : c ∈ ds.map (·.chan) := by
          rw [hnames]
          exact hlive
        obtain ⟨d, hd, rfl⟩ := List.mem_map.mp hmem
        exact hall d hd (eqIc_iff.mpr rfl)
    cases hbind : liveBindingOf s uuid ['*'] with
    | some r =>
      obtain ⟨r', hr'⟩ := hwrote.has hbind
      have hresult : chanChangeInto clk s uuid false ['*'] out
        = (p₁.state, p₁.out, some p₁.n) := by
        unfold chanChangeInto BindChange.writes
        simp only [Bool.false_eq_true, if_false, beq_self_eq_true, if_true, hdels,
          emitStarDel_some hr']
      refine iff_of_true ?_ fun htorn => ?_
      · unfold AllOrNothing
        rw [hresult]
        exact ⟨⟨fun _ => List.eq_nil_iff_forall_not_mem.mpr hempty, fun hne => absurd rfl hne,
          fun hne => absurd rfl hne,
          fun hex => hex.elim fun c hc => absurd hc.1 (hempty c)⟩, hwrote.lines rfl⟩
      · rw [Torn, hbind] at htorn
        exact absurd htorn.1 (Option.some_ne_none r)
    | none =>
      -- the deletes make no record of `"*"`, so the last write still has to make one
      have hbind₁ : liveBindingOf p₁.state uuid ['*'] = none := by
        refine hwrote.lacks hbind fun d hd => ?_
        have hmem : d.chan ∈ liveBindings s uuid := hnames ▸ List.mem_map_of_mem hd
        exact notMem_liveBindings hbind hmem
      -- nor do they take a place in the table, so there is room after them if there was before
      have hroom : RoomFor clk p₁.state false (accessNextTs clk s uuid)
        ↔ RoomFor clk s false (accessNextTs clk s uuid) := by
        unfold RoomFor
        rw [hlen, hwrote.floorBlocks]
      by_cases hfits : RoomFor clk s false (accessNextTs clk s uuid)
      -- the whole change: the `"*"` delete is a write of its own, apart from the others
      · obtain ⟨p₂, t, hemit, hboth, -, hlive₂⟩ := hwrote.starDel hbind₁ hstamp (hroom.mpr hfits)
        have hresult : chanChangeInto clk s uuid false ['*'] out
          = (p₂.state, p₂.out, some p₂.n) := by
          unfold chanChangeInto BindChange.writes
          simp only [Bool.false_eq_true, if_false, beq_self_eq_true, if_true, hdels, hemit]
        have hnone : ∀ c, c ∉ liveBindings p₂.state uuid :=
          fun c hc => hempty c ((hlive₂ c).mp hc)
        refine iff_of_true ?_ fun htorn => ?_
        · unfold AllOrNothing
          rw [hresult]
          exact ⟨⟨fun _ => List.eq_nil_iff_forall_not_mem.mpr hnone, fun hne => absurd rfl hne,
            fun hne => absurd rfl hne, fun hex => hex.elim fun c hc => absurd hc.1 (hnone c)⟩,
              hboth.lines rfl⟩
        · rw [Torn, if_neg Bool.false_ne_true] at htorn
          exact htorn.2.2.2.2 hfits
      -- no room for the `"*"` delete: it is refused after the deletes are made
      · have hresult : chanChangeInto clk s uuid false ['*'] out = (p₁.state, p₁.out, none) := by
          unfold chanChangeInto BindChange.writes
          simp only [Bool.false_eq_true, if_false, beq_self_eq_true, if_true, hdels,
            emitStarDel_refused hbind₁ fun h => hfits (hroom.mp h.2)]
        have htorn : Torn clk s uuid false ['*'] ↔ liveBindings s uuid ≠ [] := by
          rw [Torn, if_neg Bool.false_ne_true]
          exact ⟨fun h => h.2.2.1, fun h => ⟨hbind, rfl, h, hstamp, hfits⟩⟩
        rw [htorn, not_not]
        unfold AllOrNothing
        rw [hresult]
        -- this is whole only if there was nothing to delete
        constructor
        · intro hsame
          by_contra hne
          refine hwrote.changed (fun hnil => hne ?_) hsame.1
          rw [← hnames, hnil, List.map_nil]
        · intro hnil
          have hds : ds = [] := List.map_eq_nil_iff.mp (hnames.trans hnil)
          rw [hnil] at hdels
          have hp : { state := s, out := out } = p₁ := congrArg Prod.fst hdels
          rw [← hp]
          exact ⟨rfl, rfl⟩
  · refine iff_of_true (allOrNothing_unstamped hk hstamp) fun htorn => ?_
    rw [Torn, if_neg Bool.false_ne_true] at htorn
    exact hstamp htorn.2.2.2.1

/-- A channel was added and a live `"*"` deleted, `w` and `ds` being the records. It is all of the
change but the `"*"` delete at its end. -/
structure AddedChan (clk : Clock) (s : HubState) (uuid chan out : Str) (p : BindChange)
    (w : UchanRecord) (ds : List UchanRecord) : Prop where
  writes : BindChange.writes clk uuid (accessNextTs clk s uuid) true chan
    { state := s, out := out } = p.emitStarDel clk uuid (accessNextTs clk s uuid)
  wrote : Wrote uuid { state := s, out := out } p ([w] ++ ds)
  name : eqIc w.chan chan = true
  live : ∀ c, c ∈ liveBindings p.state uuid ↔
    c = w.chan ∨ c ∈ liveBindings s uuid ∧ ¬eqIc c w.chan = true ∧ c ≠ ['*']
  /-- The deletes take no place in the table, since they are of records that are there. -/
  length : p.state.uchanRecords.length
    = s.uchanRecords.length + if (liveBindingOf s uuid chan).isNone then 1 else 0
  lacks : liveBindingOf s uuid ['*'] = none → liveBindingOf p.state uuid ['*'] = none

/-- Once the write of the channel is stored, the deletes are too. Of what is live only `"*"` is
deleted: the channels stay. -/
theorem addedChan_of_stores (out : Str) (hchan : chan ≠ ['*'])
    (hstores : Stores clk s uuid chan true (accessNextTs clk s uuid)) :
    ∃ p w ds, AddedChan clk s uuid chan out p w ds := by
  obtain ⟨p₁, w, hemit, hput, hwrote⟩ := emit_stores (p := { state := s, out := out }) hk hstores
  have hw : w.chan ≠ ['*'] := not_star_of_eqIc hput.chan hchan
  obtain ⟨p₂, ds, hdels, hwrote', hnames, hdead, hlen⟩ :=
    emitDels_live hstores.1 hwrote.keyed (hput.le hstamps) fun c => (c == ['*']) != false
  have hds : ∀ d ∈ ds, d.chan = ['*'] ∧ ['*'] ∈ liveBindings p₁.state uuid := by
    intro d hd
    have hmem : d.chan ∈ ds.map (·.chan) := List.mem_map_of_mem hd
    rw [hnames] at hmem
    obtain ⟨hlive, hkeep⟩ := List.mem_filter.mp hmem
    have heq : d.chan = ['*'] := by
      rw [bne_iff_ne, ne_eq, Bool.not_eq_false, beq_iff_eq] at hkeep
      exact hkeep
    exact ⟨heq, heq ▸ hlive⟩
  have hboth : Wrote uuid { state := s, out := out } p₂ ([w] ++ ds) := by
    refine hwrote.trans hwrote' fun x hx d hd hsame => hw ?_
    rw [List.mem_singleton.mp hx] at hsame
    exact eqIc_star ((hds d hd).1 ▸ hsame.2)
  refine ⟨p₂, w, ds, ?_, hboth, hput.chan, fun c => ?_, hlen.trans hput.length, fun hnone => ?_⟩
  · unfold BindChange.writes
    simp only [if_true, beq_eq_false_iff_ne.mpr hchan, hemit, hdels, Bool.false_eq_true, if_false]
  · rw [hboth.live]
    constructor
    · rintro (⟨x, hx, hact, rfl⟩ | ⟨hlive, hall⟩)
      · rcases List.mem_append.mp hx with hx | hx
        · exact .inl (by rw [List.mem_singleton.mp hx])
        · rw [hdead x hx] at hact
          exact absurd hact Bool.false_ne_true
      · refine .inr ⟨hlive, hall w (List.mem_append_left _ List.mem_cons_self), ?_⟩
        -- a `"*"` that was live is one of the records deleted
        rintro rfl
        have hw' : ∀ x ∈ [w], ¬eqIc ['*'] x.chan = true :=
          fun x hx => hall x (List.mem_append_left _ hx)
        have hmem : ['*'] ∈ ds.map (·.chan) := by
          rw [hnames]
          exact List.mem_filter.mpr ⟨hwrote.live.mpr (.inr ⟨hlive, hw'⟩), by decide⟩
        obtain ⟨d, hd, heq⟩ := List.mem_map.mp hmem
        exact hall d (List.mem_append_right _ hd) (eqIc_iff.mpr (by rw [heq]))
    · rintro (rfl | ⟨hlive, hne, hns⟩)
      · exact .inl ⟨w, List.mem_append_left _ List.mem_cons_self, hput.active, rfl⟩
      · refine .inr ⟨hlive, fun x hx heq => ?_⟩
        rcases List.mem_append.mp hx with hx | hx
        · rw [List.mem_singleton.mp hx] at heq
          exact hne heq
        · rw [(hds x hx).1] at heq
          exact hns (eqIc_star heq)
  -- neither part makes a record of `"*"`: the deletes would need a live one
  · have hnone₁ : liveBindingOf p₁.state uuid ['*'] = none := by
      refine hwrote.lacks hnone fun x hx heq => hw ?_
      rw [List.mem_singleton.mp hx] at heq
      exact eqIc_star heq
    refine hwrote'.lacks hnone₁ fun d hd _ => ?_
    exact notMem_liveBindings hnone₁ (hds d hd).2 (eqIc_iff.mpr rfl)

omit hk hstamps

/-- Any end with these live channels and a dead `"*"` record is what the change asks for. -/
theorem AddedChan.intended {w : UchanRecord} (h : AddedChan clk s uuid chan out p w ds)
    (hchan : chan ≠ ['*'])
    (hsame : ∀ c, c ∈ liveBindings s' uuid ↔ c ∈ liveBindings p.state uuid)
    (htomb : StarTomb s' uuid) :
    Intended s s' uuid true chan := by
  refine ⟨fun heq => absurd heq hchan, fun _ => iff_of_true ⟨w.chan, ?_, h.name⟩ rfl,
    fun _ c hne => ?_, fun _ => htomb⟩
  · rw [hsame, h.live]
    exact .inl rfl
  · rw [hsame, h.live]
    constructor
    · rintro (rfl | ⟨hlive, -, hns⟩)
      · exact absurd h.name hne
      · exact ⟨hlive, fun _ => hns⟩
    · rintro ⟨hlive, hns⟩
      exact .inr ⟨hlive, fun heq => hne (eqIc_trans heq h.name), hns rfl⟩

/-- A record of `"*"` that there was is dead by then. -/
theorem AddedChan.starTomb {w : UchanRecord} (h : AddedChan clk s uuid chan out p w ds)
    (hchan : chan ≠ ['*']) {r : UchanRecord} (hr : liveBindingOf p.state uuid ['*'] = some r) :
    StarTomb p.state uuid := by
  refine ⟨r, hr, ?_⟩
  cases hact : r.isActive with
  | false => rfl
  | true =>
    obtain ⟨hin, hu, hc⟩ := bindingOf_some hr
    have hlive : ['*'] ∈ liveBindings p.state uuid :=
      mem_liveBindings.mpr ⟨r, hin, hact, hu, eqIc_star hc⟩
    rcases (h.live ['*']).mp hlive with heq | ⟨-, -, hns⟩
    · exact absurd heq.symm (not_star_of_eqIc h.name hchan)
    · exact absurd rfl hns

include hk hstamps

/-- Adding a channel is its write, the delete of a live `"*"`, and the `"*"` delete where there
was no record of it. The first write may be refused, and then nothing has happened. After it only
the last one can be. -/
theorem allOrNothing_addChan (hchan : chan ≠ ['*']) : AllOrNothing clk s uuid true chan out
    ↔ ¬Torn clk s uuid true chan := by
  by_cases hstores : Stores clk s uuid chan true (accessNextTs clk s uuid)
  · obtain ⟨p₂, w, ds, hadded⟩ := addedChan_of_stores hk hstamps out hchan hstores
    cases hbind : liveBindingOf s uuid ['*'] with
    -- there was a record of `"*"`, which is dead now: the change ends here
    | some r =>
      obtain ⟨r', hr'⟩ := hadded.wrote.has hbind
      have hresult : chanChangeInto clk s uuid true chan out = (p₂.state, p₂.out, some p₂.n) := by
        unfold chanChangeInto
        rw [hadded.writes, emitStarDel_some hr']
        rfl
      refine iff_of_true ?_ fun htorn => ?_
      · unfold AllOrNothing
        rw [hresult]
        exact ⟨hadded.intended hchan (fun _ => Iff.rfl) (hadded.starTomb hchan hr'),
          hadded.wrote.lines rfl⟩
      · rw [Torn, hbind] at htorn
        exact absurd htorn.1 (Option.some_ne_none r)
    | none =>
      have hbind₂ := hadded.lacks hbind
      -- the room left is the room there was, less the record that the first write may have made
      have hroom : RoomFor clk p₂.state false (accessNextTs clk s uuid) ↔
          s.uchanRecords.length + (if (liveBindingOf s uuid chan).isNone then 1 else 0)
            < maxHubChanBinds
            ∧ purgeFloorBlocks clk s (accessNextTs clk s uuid) = false := by
        unfold RoomFor
        rw [hadded.length, hadded.wrote.floorBlocks]
        exact and_congr_right fun _ => ⟨fun h => h rfl, fun h _ => h⟩
      have htorn : Torn clk s uuid true chan
        ↔ ¬RoomFor clk p₂.state false (accessNextTs clk s uuid) := by
        rw [Torn, if_pos rfl, hroom]
        exact ⟨fun h => h.2.2.2, fun h => ⟨hbind, hchan, hstores, h⟩⟩
      rw [htorn, not_not]
      by_cases hfits : RoomFor clk p₂.state false (accessNextTs clk s uuid)
      -- the last write is made, and it leaves the live channels alone
      · obtain ⟨p₃, t, hemit', hall, htomb, hlive₃⟩ :=
          hadded.wrote.starDel hbind₂ hstores.1 hfits
        have hresult : chanChangeInto clk s uuid true chan out
          = (p₃.state, p₃.out, some p₃.n) := by
          unfold chanChangeInto
          rw [hadded.writes, hemit']
          rfl
        refine iff_of_true ?_ hfits
        unfold AllOrNothing
        rw [hresult]
        exact ⟨hadded.intended hchan hlive₃ htomb, hall.lines rfl⟩
      -- the last write is refused: the channel stays bound without a `"*"` record
      · have hresult : chanChangeInto clk s uuid true chan out = (p₂.state, p₂.out, none) := by
          unfold chanChangeInto
          rw [hadded.writes, emitStarDel_refused hbind₂ fun h => hfits h.2]
          rfl
        refine iff_of_false (fun hsame => ?_) hfits
        unfold AllOrNothing at hsame
        rw [hresult] at hsame
        exact hadded.wrote.changed
          (List.append_ne_nil_of_left_ne_nil (List.cons_ne_nil w []) _) hsame.1
  -- the first write is refused, and nothing has happened
  · have hresult : chanChangeInto clk s uuid true chan out = (s, out, none) := by
      unfold chanChangeInto BindChange.writes
      simp only [if_true, emit_refused (p := { state := s, out := out }) hstores]
      rfl
    refine iff_of_true ?_ fun htorn => ?_
    · unfold AllOrNothing
      rw [hresult]
      exact ⟨rfl, rfl⟩
    · rw [Torn, if_pos rfl] at htorn
      exact hstores htorn.2.2.1

end Changes

/-- The exact condition. A change of a run's state is all or nothing exactly when its `"*"` delete
is not refused after something else went in, and when it is not the delete of a channel that
leaves the user bound to another one without a `"*"` delete. `hrun` is what makes the table keyed
and its stamps 64-bit numbers; the change itself is any. -/
theorem allOrNothing_iff {es : List HubEvent} (hrun : runHub es = some s) (clk : Clock)
    (uuid : Str) (add : Bool) (chan out : Str) :
    AllOrNothing clk s uuid add chan out ↔ ¬Torn clk s uuid add chan
      ∧ ¬Bare clk s uuid add chan := by
  have hk : RightsKeyed s := rightsKeyed_runHub hrun
  have hfits : Fits (fun _ => True) s :=
    fits_runHub (fun _ _ _ => trivial) (.inl fun _ => trivial) hrun
  have hstamps : ∀ r ∈ s.uchanRecords, r.uuid = uuid → r.timestamp ≤ accessNextTs clk s uuid :=
    fun r hr hu =>
    le_accessNextTs ⟨fun a ha => (hfits.flags.all a ha).stamp, fun a ha =>
      (hfits.binds.all a ha).stamp⟩ hr hu
  by_cases hchan : chan = ['*']
  · subst hchan
    have hbare : ¬Bare clk s uuid add ['*'] := fun h => h.2.1 rfl
    rw [and_iff_left hbare]
    cases add with
    | true =>
      refine iff_of_true (allOrNothing_addStar hk hstamps) fun htorn => ?_
      rw [Torn, if_pos rfl] at htorn
      exact htorn.2.1 rfl
    | false => exact allOrNothing_delStar hk hstamps
  · cases add with
    | true =>
      have hbare : ¬Bare clk s uuid true chan := fun h => absurd h.1 (by decide)
      rw [and_iff_left hbare]
      exact allOrNothing_addChan hk hstamps hchan
    | false =>
      have htorn : ¬Torn clk s uuid false chan := by
        intro h
        rw [Torn, if_neg Bool.false_ne_true] at h
        exact hchan h.2.1
      rw [and_iff_right htorn]
      exact allOrNothing_del hk hchan

/-- An oper bound to a channel without a `"*"` record, then a purge of a peer whose clock is
ahead. -/
def aheadPurgeEvents : List HubEvent :=
  [{ now := ⟨1700000000, inI64_runTime⟩
     op := .peerSync ("c|#lobby||add|1699999998\n".toList
       ++ "o|0a0a0a0a-0000-4000-8000-000000000001|olga||add|0|1699999998|\n".toList
       ++ "uc|0a0a0a0a-0000-4000-8000-000000000001|#lobby|add|1699999998\n".toList
       ++ "PURGE|1700000500|ab\n".toList) }]

/-- The uuid of the oper. -/
def boundOper : Str := "0a0a0a0a-0000-4000-8000-000000000001".toList

/-- The oper bound by a peer to two channels, without a `"*"` record. -/
def twoBindingEvents : List HubEvent :=
  [{ now := ⟨1700000000, inI64_runTime⟩
     op := .peerSync ("c|#lobby||add|1699999998\nc|#den||add|1699999998\n".toList
       ++ "o|0a0a0a0a-0000-4000-8000-000000000001|olga||add|0|1699999998|\n".toList
       ++ "uc|0a0a0a0a-0000-4000-8000-000000000001|#lobby|add|1699999998\n".toList
       ++ "uc|0a0a0a0a-0000-4000-8000-000000000001|#den|add|1699999998\n".toList) }]

/-- Two changes that are not all or nothing. Deleting `"*"` ten seconds after the purge takes the
binding and then is refused: the table is another one and a line is written. Deleting one channel
of the oper bound to two leaves the other binding live and no `"*"` record at all. -/
theorem binding_torn :
    (∃ s, runHub aheadPurgeEvents = some s
    ∧ ¬AllOrNothing { now := 1700000010 } s boundOper false ['*'] []
      ∧ (chanChangeInto { now := 1700000010 } s boundOper false ['*'] []).2.2 = none
      ∧ (chanChangeInto { now := 1700000010 } s boundOper false ['*'] []).2.1
        = "uc|0a0a0a0a-0000-4000-8000-000000000001|#lobby|del|1700000010\n".toList)
    ∧ ∃ s, runHub twoBindingEvents = some s
    ∧ ¬AllOrNothing { now := 1700000010 } s boundOper false "#lobby".toList []
      ∧ (chanChangeInto { now := 1700000010 } s boundOper false "#lobby".toList []).2.2 = some 1
      ∧ liveBindings (chanChangeInto { now := 1700000010 } s boundOper false "#lobby".toList []).1
        boundOper = ["#den".toList]
      ∧ uchanFind (chanChangeInto { now := 1700000010 } s boundOper false "#lobby".toList []).1
        boundOper ['*'] = none := by
  constructor
  · have hrun : ((runHub aheadPurgeEvents).any fun s => decide
        ((chanChangeInto { now := 1700000010 } s boundOper false ['*'] []).2.2 = none
          ∧ (chanChangeInto { now := 1700000010 } s boundOper false ['*'] []).2.1
            = "uc|0a0a0a0a-0000-4000-8000-000000000001|#lobby|del|1700000010\n".toList))
            = true := by
      decide +kernel
    obtain ⟨s, hs, hall⟩ := (Option.any_eq_true _ _).mp hrun
    obtain ⟨hnone, hout⟩ := of_decide_eq_true hall
    refine ⟨s, hs, fun hnothing => ?_, hnone, hout⟩
    unfold AllOrNothing at hnothing
    generalize chanChangeInto { now := 1700000010 } s boundOper false ['*'] [] = q
      at hnothing hnone hout
    obtain ⟨s', out', n⟩ := q
    cases hnone
    have hnil : out' = [] := hnothing.2
    rw [hnil] at hout
    cases hout
  · have hrun : ((runHub twoBindingEvents).any fun s => decide
        ((chanChangeInto { now := 1700000010 } s boundOper false "#lobby".toList []).2.2 = some 1
          ∧ liveBindings (chanChangeInto { now := 1700000010 } s boundOper false "#lobby".toList
            []).1 boundOper = ["#den".toList]
          ∧ uchanFind (chanChangeInto { now := 1700000010 } s boundOper false "#lobby".toList
            []).1 boundOper ['*'] = none)) = true := by
      decide +kernel
    obtain ⟨s, hs, hall⟩ := (Option.any_eq_true _ _).mp hrun
    obtain ⟨hsome, hlive, hstar⟩ := of_decide_eq_true hall
    refine ⟨s, hs, fun hdone => ?_, hsome, hlive, hstar⟩
    unfold AllOrNothing at hdone
    generalize chanChangeInto { now := 1700000010 } s boundOper false "#lobby".toList [] = q
      at hdone hsome hlive hstar
    obtain ⟨s', out', n⟩ := q
    cases hsome
    obtain ⟨r, hr, -⟩ := hdone.1.tomb ⟨"#den".toList, hlive ▸ List.mem_cons_self, by decide⟩
    rw [bindingOf_eq_none.mpr hstar] at hr
    exact absurd hr.symm (Option.some_ne_none r)

/-- Five hundred seconds later the floor is below the stamp, and the change is whole. -/
theorem allOrNothing_iff_late : ∃ s, runHub aheadPurgeEvents = some s
    ∧ (AllOrNothing { now := 1700000600 } s boundOper false ['*'] []
      ↔ ¬Torn { now := 1700000600 } s boundOper false ['*']
        ∧ ¬Bare { now := 1700000600 } s boundOper false ['*']) := by
  have hrun : (runHub aheadPurgeEvents).isSome = true := by decide +kernel
  obtain ⟨s, hs⟩ := Option.isSome_iff_exists.mp hrun
  exact ⟨s, hs, allOrNothing_iff hs { now := 1700000600 } boundOper false ['*'] []⟩

end IrcHub.Proofs
