import IrcHub.Hub.Access
import IrcHub.Proofs.Purge.Exact

/-!
# `IrcHub.Proofs.Bindings`: when a binding change is all or nothing

When a binding change is all or nothing. A change of an oper's channels is several writes, and it
answers with one result. It should have made all of its writes or none.

A write of `uchan_put` puts one record into the table (`Put`), and the writes of a change are one
after the other (`Wrote`). Every write but two is past the point where it could be refused once
the first went in: what is left is the `"*"` delete that a change adds at its end, which needs a
slot of the table and a stamp above the purge floor (`Torn`). The delete of a channel is one
write, and never adds the `"*"` delete that a user still bound to another channel should carry
(`Bare`). `allOrNothing_del` and `allOrNothing_addStar` are the two changes that cannot be torn;
`Proofs/Bindings/Torn.lean` has the other two.

- `Stores`, `put_of_stores`, `put_refused`: when a write is stored, and what the table is then
- `Wrote`: what a part of a change wrote, with the lines of it. `Wrote.trans` puts parts together
- `Intended`: the live bindings after a change are those it asks for
- `WroteLines`: the new records are those that the lines name
- `AllOrNothing`: both, or nothing at all

All writes of a change carry one stamp, past every stamp of the user (`le_accessNextTs`). That is
why the writes in the middle always win.
-/

set_option autoImplicit false

namespace IrcHub.Proofs

open IrcHub.Hub IrcHub.Hub.BindChange Str
open String (utf8Len)

variable {clk : Clock} {s s' : HubState} {uuid c : Str} {act : Bool} {ts : Int}

/-! ### One write -/

/-- Two records of one user and channel. -/
def SameBinding (a b : UchanRecord) : Prop := a.uuid = b.uuid ∧ eqIc a.chan b.chan = true

/-- Two bindings are of one pair in either order. -/
theorem SameBinding.symm {a b : UchanRecord} (h : SameBinding a b) : SameBinding b a :=
  ⟨h.1.symm, eqIc_symm h.2⟩

/-- A user's stamp that the table takes. -/
structure StampOk (clk : Clock) (uuid : Str) (ts : Int) : Prop where
  shape : uuidShape uuid = true
  pos : 0 < ts
  ahead : tsAhead clk ts = false

/-- The record of a user and a channel. -/
def liveBindingOf (s : HubState) (uuid c : Str) : Option UchanRecord :=
  (uchanFind s uuid c).bind (s.uchanRecords[·]?)

/-- There is room for a new record: a slot, and for a delete a stamp above the purge floor. -/
def RoomFor (clk : Clock) (s : HubState) (act : Bool) (ts : Int) : Prop :=
  s.uchanRecords.length < maxHubChanBinds ∧ (act = false → purgeFloorBlocks clk s ts = false)

/-- `uchan_put` stores a binding. -/
def Stores (clk : Clock) (s : HubState) (uuid c : Str) (act : Bool) (ts : Int) : Prop :=
  StampOk clk uuid ts ∧ uchanNameOk c = true
    ∧ (liveBindingOf s uuid c).elim (RoomFor clk s act ts) fun r =>
      lwwAccepts clk ts act r.timestamp r.isActive = true

/-- What is found is in the table. -/
theorem uchanFind_get {i : Nat} (h : uchanFind s uuid c = some i) :
    ∃ r, s.uchanRecords[i]? = some r := by
  rw [uchanFind, List.findIdx?_eq_some_iff_getElem] at h
  obtain ⟨hi, -⟩ := h
  exact ⟨_, List.getElem?_eq_getElem hi⟩

/-- There is no record of a binding when none is found. -/
theorem bindingOf_eq_none : liveBindingOf s uuid c = none ↔ uchanFind s uuid c = none := by
  unfold liveBindingOf
  cases hfind : uchanFind s uuid c with
  | none => exact ⟨fun _ => rfl, fun _ => rfl⟩
  | some i =>
    obtain ⟨r, hr⟩ := uchanFind_get hfind
    exact ⟨fun h => absurd h (by rw [Option.bind_some, hr]; exact Option.some_ne_none r), fun h =>
      (nomatch h)⟩

/-- The record of a binding is of the user and the channel, in some spelling. -/
theorem bindingOf_some {r : UchanRecord} (h : liveBindingOf s uuid c = some r) :
    r ∈ s.uchanRecords ∧ r.uuid = uuid ∧ eqIc r.chan c = true := by
  obtain ⟨i, hfind, hget⟩ := Option.bind_eq_some_iff.mp h
  exact ⟨List.mem_of_getElem? hget, uchanFind_some hfind hget⟩

/-- No record of the pair at all. -/
theorem no_binding (h : liveBindingOf s uuid c = none) :
    ∀ r ∈ s.uchanRecords, ¬(r.uuid = uuid ∧ eqIc r.chan c = true) := by
  have hfind := bindingOf_eq_none.mp h
  rw [uchanFind, List.findIdx?_eq_none_iff] at hfind
  intro r hr hkey
  have hno := hfind r hr
  rw [hkey.1, hkey.2] at hno
  simp at hno

/-- The write of one record: which one, and what the table is after it. -/
structure Put (s s' : HubState) (uuid c : Str) (act : Bool) (ts : Int)
    (w : UchanRecord) : Prop where
  user : w.uuid = uuid
  chan : eqIc w.chan c = true
  active : w.isActive = act
  stamp : w.timestamp = ts
  /-- It keeps the name of the record before it. -/
  name : w.chan = ((liveBindingOf s uuid c).map (·.chan)).getD c
  found : liveBindingOf s' uuid c = some w
  mem : ∀ r, r ∈ s'.uchanRecords ↔ r = w ∨ r ∈ s.uchanRecords ∧ ¬SameBinding r w
  fresh : w ∉ s.uchanRecords
  length : s'.uchanRecords.length = s.uchanRecords.length + if (liveBindingOf s uuid c).isNone
    then 1 else 0
  floor : s'.purgeFloor = s.purgeFloor ∧ s'.purgeFloorUntil = s.purgeFloorUntil

/-- In a keyed table a record of a key is the record of it. -/
theorem RightsKeyed.unique (h : RightsKeyed s) {a b : UchanRecord} (ha : a ∈ s.uchanRecords)
    (hb : b ∈ s.uchanRecords) (hab : SameBinding a b) : a = b := by
  obtain ⟨i, hi, rfl⟩ := List.mem_iff_getElem.mp ha
  obtain ⟨j, hj, rfl⟩ := List.mem_iff_getElem.mp hb
  rcases Nat.lt_trichotomy i j with hlt | rfl | hlt
  · exact absurd hab (List.pairwise_iff_getElem.mp h.binds i j hi hj hlt)
  · rfl
  · exact absurd hab.symm (List.pairwise_iff_getElem.mp h.binds j i hj hi hlt)

/-- Where rights are keyed, any record of the pair is the one. -/
theorem RightsKeyed.bindingOf_mem (h : RightsKeyed s) {r : UchanRecord} (hr : r ∈ s.uchanRecords)
    (hu : r.uuid = uuid) (hc : eqIc r.chan c = true) : liveBindingOf s uuid c = some r := by
  cases hfind : liveBindingOf s uuid c with
  | none => exact absurd ⟨hu, hc⟩ (no_binding hfind r hr)
  | some a =>
    obtain ⟨ha, hau, hac⟩ := bindingOf_some hfind
    exact congrArg some (h.unique ha hr ⟨hau.trans hu.symm, eqIc_trans hac (eqIc_symm hc)⟩)

/-- A write that is taken changes the record that is there. -/
theorem lwwAccepts_ne {inTs curTs : Int} {inActive curActive : Bool}
    (h : lwwAccepts clk inTs inActive curTs curActive = true) :
    ¬(inTs = curTs ∧ inActive = curActive) := by
  rintro ⟨rfl, rfl⟩
  unfold lwwAccepts at h
  cases inActive <;> simp at h

/-- Another record stays where one is written over. -/
theorem mem_set_of_ne {α : Type} {l : List α} {i : Nat} {a b x : α} (hget : l[i]? = some a)
    (hx : x ∈ l) (hne : x ≠ a) :
    x ∈ l.set i b := by
  obtain ⟨j, hj⟩ := List.mem_iff_getElem?.mp hx
  have hij : i ≠ j := by
    rintro rfl
    exact hne (Option.some.inj (hj.symm.trans hget))
  exact List.mem_of_getElem? ((List.getElem?_set_ne hij).trans hj)

/-- A table with one record written over, or added. -/
theorem mem_written {w : UchanRecord} (hk' : RightsKeyed s') (hw : w ∈ s'.uchanRecords)
    (hold : ∀ r ∈ s'.uchanRecords, r = w ∨ r ∈ s.uchanRecords)
    (hkept : ∀ r ∈ s.uchanRecords, ¬SameBinding r w → r ∈ s'.uchanRecords) (r : UchanRecord) :
    r ∈ s'.uchanRecords ↔ r = w ∨ r ∈ s.uchanRecords ∧ ¬SameBinding r w := by
  constructor
  · intro hr
    by_cases hsame : SameBinding r w
    · exact .inl (hk'.unique hr hw hsame)
    · rcases hold r hr with rfl | hs
      · exact .inl rfl
      · exact .inr ⟨hs, hsame⟩
  · rintro (rfl | ⟨hs, hsame⟩)
    · exact hw
    · exact hkept r hs hsame

/-- What `uchan_put` stores, and the table it leaves. `hk` is that the table has one record per
user and channel. The cases are a record that is rewritten and one that is added. -/
theorem put_of_stores (hk : RightsKeyed s) (h : Stores clk s uuid c act ts) :
    (uchanPut clk s uuid c act ts).2 = true
    ∧ ∃ w, Put s (uchanPut clk s uuid c act ts).1 uuid c act ts w := by
  obtain ⟨⟨hshape, hpos, hahead⟩, hname, hroom⟩ := h
  have hk' := hk.uchanPut clk uuid c act ts
  have hres := uchanPut_result clk s uuid c act ts
  generalize hq : uchanPut clk s uuid c act ts = q at hres hk' ⊢
  cases hres with
  -- a write that passes every check is not refused
  | refused =>
    exfalso
    unfold uchanPut at hq
    rw [if_neg (by simp [hshape, hname, hpos, hahead])] at hq
    cases hb : liveBindingOf s uuid c with
    | none =>
      rw [hb] at hroom
      have hroom : RoomFor clk s act ts := hroom
      have hblocks : ¬(!act && purgeFloorBlocks clk s ts) = true := by
        cases act with
        | true => exact Bool.false_ne_true
        | false => rw [hroom.2 rfl]; exact Bool.false_ne_true
      rw [bindingOf_eq_none.mp hb] at hq
      simp only [] at hq
      rw [if_neg hblocks, if_neg (Nat.not_le.mpr hroom.1)] at hq
      exact Bool.noConfusion (congrArg Prod.snd hq)
    | some r =>
      rw [hb] at hroom
      have hacc : lwwAccepts clk ts act r.timestamp r.isActive = true := hroom
      obtain ⟨i, hfind, hget⟩ := Option.bind_eq_some_iff.mp hb
      rw [hfind] at hq
      simp only [hget, hacc, Bool.not_true, Bool.false_eq_true, if_false] at hq
      exact Bool.noConfusion (congrArg Prod.snd hq)
  -- the record is there and is written over
  | rewrote i r hshape' hname' hpos' hahead' hfind hget hacc =>
    obtain ⟨hu, hc⟩ := uchanFind_some hfind hget
    have hr := List.mem_of_getElem? hget
    have hbind : liveBindingOf s uuid c = some r := by
      rw [liveBindingOf, hfind, Option.bind_some, hget]
    have htable := uchanSet_eq hget act ts
    let w : UchanRecord := { r with isActive := act, timestamp := ts }
    have hsame : SameBinding r w := ⟨rfl, eqIc_iff.mpr rfl⟩
    have hw : w ∈ (uchanSet s i act ts).uchanRecords := by
      rw [htable]
      exact List.mem_set (List.getElem?_eq_some_iff.mp hget).1 w
    refine ⟨rfl, w, hu, hc, rfl, rfl, by rw [hbind]; rfl, hk'.bindingOf_mem hw hu hc, ?_, ?_,
      ?_, rfl, rfl⟩
    · refine mem_written hk' hw (fun x hx => ?_) fun x hx hne => ?_
      · rw [htable] at hx
        exact (List.mem_or_eq_of_mem_set hx).symm
      · rw [htable]
        exact mem_set_of_ne hget hx fun heq => hne (heq ▸ hsame)
    · intro hin
      have heq := hk.unique hr hin hsame
      exact lwwAccepts_ne hacc ⟨congrArg UchanRecord.timestamp heq.symm,
        congrArg UchanRecord.isActive heq.symm⟩
    · rw [htable, List.length_set, hbind]
      rfl
  -- there is no record, and one is added
  | new hshape' hname' hpos' hahead' hfind hroom' =>
    have hbind := bindingOf_eq_none.mpr hfind
    let w : UchanRecord := { uuid := uuid, chan := c, isActive := act, timestamp := ts }
    have hw : w ∈ s.uchanRecords ++ [w] := List.mem_append_right _ List.mem_cons_self
    have hno : ∀ x ∈ s.uchanRecords, ¬SameBinding x w :=
      fun x hx hsame => no_binding hbind x hx hsame
    refine ⟨rfl, w, rfl, eqIc_iff.mpr rfl, rfl, rfl, by rw [hbind]; rfl,
      hk'.bindingOf_mem hw rfl (eqIc_iff.mpr rfl), ?_, fun hin =>
      hno w hin ⟨rfl, eqIc_iff.mpr rfl⟩, ?_, rfl, rfl⟩
    · refine mem_written hk' hw (fun x hx => ?_) fun x hx _ => List.mem_append_left _ hx
      exact (List.mem_append.mp hx).symm.imp_left List.mem_singleton.mp
    · rw [hbind]
      exact List.length_append

/-- A write that is refused leaves the state alone, and `uchan_put` refuses only what it does not
store. -/
theorem put_refused (h : ¬Stores clk s uuid c act ts) :
    uchanPut clk s uuid c act ts = (s, false) := by
  have hres := uchanPut_result clk s uuid c act ts
  generalize hq : uchanPut clk s uuid c act ts = q at hres
  cases hres with
  | refused => rfl
  | rewrote i r hshape hname hpos hahead hfind hget hacc =>
    have hbind : liveBindingOf s uuid c = some r := by
      rw [liveBindingOf, hfind, Option.bind_some, hget]
    exact absurd ⟨⟨hshape, hpos, hahead⟩, hname, by rw [hbind]; exact hacc⟩ h
  | new hshape hname hpos hahead hfind hroom =>
    have hbind := bindingOf_eq_none.mpr hfind
    refine absurd ⟨⟨hshape, hpos, hahead⟩, hname, ?_⟩ h
    rw [hbind]
    refine ⟨hroom, fun hdel => ?_⟩
    -- a delete below the floor is refused before it gets a slot
    cases hfloor : purgeFloorBlocks clk s ts with
    | false => rfl
    | true =>
      unfold uchanPut at hq
      rw [if_neg (by simp [hshape, hname, hpos, hahead]), hfind] at hq
      simp only [hdel, hfloor, Bool.not_false, Bool.and_self, if_true] at hq
      exact absurd (congrArg Prod.snd hq) Bool.false_ne_true

/-! ### Writes one after the other -/

/-- What a part of a change wrote, and the lines of it. -/
structure Wrote (uuid : Str) (p p' : BindChange) (ws : List UchanRecord) : Prop where
  keyed : RightsKeyed p'.state
  mem : ∀ r, r ∈ p'.state.uchanRecords ↔ r ∈ ws ∨ r ∈ p.state.uchanRecords
    ∧ ∀ w ∈ ws, ¬SameBinding r w
  fresh : ∀ w ∈ ws, w ∉ p.state.uchanRecords
  user : ∀ w ∈ ws, w.uuid = uuid
  nodup : ws.Nodup
  out : p'.out = p.out ++ ws.flatMap formatUchan
  count : p'.n = p.n + ws.length
  floor : p'.state.purgeFloor = p.state.purgeFloor
    ∧ p'.state.purgeFloorUntil = p.state.purgeFloorUntil

variable {p p' p'' : BindChange} {ws ds : List UchanRecord}

/-- Nothing was written. -/
theorem Wrote.refl (uuid : Str) (hk : RightsKeyed p.state) : Wrote uuid p p [] where
  keyed := hk
  mem _ := ⟨fun hr => .inr ⟨hr, fun _ hw => absurd hw List.not_mem_nil⟩, fun hr =>
    (hr.resolve_left List.not_mem_nil).1⟩
  fresh _ hw := absurd hw List.not_mem_nil
  user _ hw := absurd hw List.not_mem_nil
  nodup := .nil
  out := (List.append_nil _).symm
  count := rfl
  floor := ⟨rfl, rfl⟩

/-- Two parts that write different bindings are one part. `hdis` keeps the second from writing
over the first, so that the records new in the table are those of both. -/
theorem Wrote.trans (h : Wrote uuid p p' ws) (h' : Wrote uuid p' p'' ds)
    (hdis : ∀ w ∈ ws, ∀ d ∈ ds, ¬SameBinding w d) :
    Wrote uuid p p'' (ws ++ ds) where
  keyed := h'.keyed
  mem r := by
    rw [h'.mem, h.mem, List.mem_append]
    constructor
    · rintro (hd | ⟨hw | ⟨hp, hws⟩, hds⟩)
      · exact .inl (.inr hd)
      · exact .inl (.inl hw)
      · exact .inr ⟨hp, fun x hx => (List.mem_append.mp hx).elim (hws x) (hds x)⟩
    · rintro ((hw | hd) | ⟨hp, hall⟩)
      · exact .inr ⟨.inl hw, hdis r hw⟩
      · exact .inl hd
      · exact .inr ⟨.inr ⟨hp, fun x hx => hall x (List.mem_append_left _ hx)⟩,
          fun x hx => hall x (List.mem_append_right _ hx)⟩
  fresh w hw := by
    rcases List.mem_append.mp hw with hw | hd
    · exact h.fresh w hw
    · -- what the second part wrote was not left alone by the first
      intro hp
      exact h'.fresh w hd ((h.mem w).mpr (.inr ⟨hp, fun x hx hsame => hdis x hx w hd hsame.symm⟩))
  user w hw := (List.mem_append.mp hw).elim (h.user w) (h'.user w)
  nodup := List.nodup_append.mpr ⟨h.nodup, h'.nodup, fun w hw d hd heq =>
    hdis w hw d hd (heq ▸ ⟨rfl, eqIc_iff.mpr rfl⟩)⟩
  out := by rw [h'.out, h.out, List.flatMap_append, List.append_assoc]
  count := by rw [h'.count, h.count, List.length_append, Nat.add_assoc]
  floor := ⟨h'.floor.1.trans h.floor.1, h'.floor.2.trans h.floor.2⟩

/-- A write that is stored, and its line: the part has this one record. -/
theorem emit_stores (hk : RightsKeyed p.state) (h : Stores clk p.state uuid c act ts) :
    ∃ p' w, p.emit clk uuid ts c act = (p', true) ∧ Put p.state p'.state uuid c act ts w
      ∧ Wrote uuid p p' [w] := by
  obtain ⟨hstored, w, hput⟩ := put_of_stores hk h
  refine ⟨{ state := (uchanPut clk p.state uuid c act ts).1, out := p.out ++ formatUchan w,
            n := p.n + 1 }, w, ?_, hput, ?_⟩
  · have hfound : (uchanFind (uchanPut clk p.state uuid c act ts).1 uuid c).bind
        ((uchanPut clk p.state uuid c act ts).1.uchanRecords[·]?) = some w := hput.found
    unfold BindChange.emit
    simp only [hstored, Bool.not_true, Bool.false_eq_true, if_false, hfound]
  · refine ⟨hk.uchanPut clk uuid c act ts, fun r => ?_, ?_, ?_, List.nodup_singleton w, ?_,
      rfl, hput.floor⟩
    · show r ∈ (uchanPut clk p.state uuid c act ts).1.uchanRecords ↔ _
      rw [hput.mem r]
      simp only [List.mem_singleton, forall_eq]
    · intro x hx
      rw [List.mem_singleton.mp hx]
      exact hput.fresh
    · intro x hx
      rw [List.mem_singleton.mp hx]
      exact hput.user
    · show p.out ++ formatUchan w = p.out ++ [w].flatMap formatUchan
      rw [List.flatMap_singleton]

/-- A put that stores nothing changes nothing. -/
theorem emit_refused (h : ¬Stores clk p.state uuid c act ts) :
    p.emit clk uuid ts c act = (p, false) := by
  unfold BindChange.emit
  rw [put_refused h]
  rfl

/-- Deletes of live bindings are all stored. `hlive` says that each is there, live, and not
stamped past the change, and `hdistinct` that no two are one binding. The induction is on the
deletes. -/
theorem emitDels_wrote (hstamp : StampOk clk uuid ts) {cs : List Str} (hk : RightsKeyed p.state)
    (hlive : ∀ c ∈ cs, ∃ r ∈ p.state.uchanRecords, r.uuid = uuid ∧ r.chan = c ∧ r.isActive = true
    ∧ r.timestamp ≤ ts)
    (hdistinct : cs.Pairwise fun a b => ¬eqIc a b = true) :
    ∃ p' ds, BindChange.emitDels clk uuid ts cs p = (p', true) ∧ Wrote uuid p p' ds
      ∧ ds.map (·.chan) = cs
      ∧ (∀ d ∈ ds, d.isActive = false)
      ∧ p'.state.uchanRecords.length = p.state.uchanRecords.length := by
  induction cs generalizing p with
  | nil => exact ⟨p, [], rfl, .refl uuid hk, rfl, fun _ hd => absurd hd List.not_mem_nil, rfl⟩
  | cons c cs ih =>
    obtain ⟨hfirst, hrest⟩ := List.pairwise_cons.mp hdistinct
    obtain ⟨r, hr, hu, hc, hact, hle⟩ := hlive c List.mem_cons_self
    have hbind : liveBindingOf p.state uuid c = some r :=
      hk.bindingOf_mem hr hu (by rw [hc]; exact eqIc_iff.mpr rfl)
    have hacc : lwwAccepts clk ts false r.timestamp r.isActive = true := by
      simp only [lwwAccepts, hstamp.ahead, hact, Bool.false_eq_true, if_false, Bool.or_eq_true,
        decide_eq_true_eq, Bool.and_eq_true, Bool.not_false, and_true, gt_iff_lt]
      omega
    have hstores : Stores clk p.state uuid c false ts :=
      ⟨hstamp, hc ▸ hk.names r hr, by rw [hbind]; exact hacc⟩
    obtain ⟨p₁, w, hemit, hput, hwrote⟩ := emit_stores hk hstores
    have hname : w.chan = c := by
      rw [hput.name, hbind]
      exact hc
    have hlive₁ : ∀ c' ∈ cs, ∃ r ∈ p₁.state.uchanRecords,
        r.uuid = uuid ∧ r.chan = c' ∧ r.isActive = true ∧ r.timestamp ≤ ts := by
      intro c' hc'
      obtain ⟨r', hr', hu', hname', hrest'⟩ := hlive c' (List.mem_cons_of_mem _ hc')
      refine ⟨r', (hput.mem r').mpr (.inr ⟨hr', fun hsame => ?_⟩), hu', hname', hrest'⟩
      have hic := eqIc_symm hsame.2
      rw [hname, hname'] at hic
      exact hfirst c' hc' hic
    obtain ⟨p', ds, hdels, hwrote', hnames, hdead, hlen⟩ := ih hwrote.keyed hlive₁ hrest
    refine ⟨p', w :: ds, ?_, ?_, ?_, ?_, ?_⟩
    · rw [BindChange.emitDels, hemit]
      exact hdels
    · refine hwrote.trans hwrote' fun x hx d hd hsame => ?_
      rw [List.mem_singleton.mp hx] at hsame
      have hmem : d.chan ∈ cs := hnames ▸ List.mem_map_of_mem hd
      exact hfirst d.chan hmem (hname ▸ hsame.2)
    · rw [List.map_cons, hname, hnames]
    · intro d hd
      rcases List.mem_cons.mp hd with rfl | hd
      · exact hput.active
      · exact hdead d hd
    · rw [hlen, hput.length, hbind]
      rfl

/-! ### Live bindings -/

/-- The live bindings of a user, as the table has them. -/
theorem mem_liveBindings : c ∈ liveBindings s uuid ↔ ∃ r ∈ s.uchanRecords, r.isActive = true
    ∧ r.uuid = uuid ∧ r.chan = c := by
  unfold liveBindings
  rw [List.mem_map]
  constructor
  · rintro ⟨r, hr, rfl⟩
    obtain ⟨hr, hlive⟩ := List.mem_filter.mp hr
    rw [Bool.and_eq_true, beq_iff_eq] at hlive
    exact ⟨r, hr, hlive.1, hlive.2, rfl⟩
  · rintro ⟨r, hr, hact, hu, rfl⟩
    exact ⟨r, List.mem_filter.mpr ⟨hr, by rw [Bool.and_eq_true, beq_iff_eq]; exact ⟨hact, hu⟩⟩,
      rfl⟩

/-- No two of them are of one channel, in any case. -/
theorem liveBindings_pairwise (hk : RightsKeyed s) (uuid : Str) :
    (liveBindings s uuid).Pairwise fun a b => ¬eqIc a b = true := by
  unfold liveBindings
  rw [List.pairwise_map]
  refine List.Pairwise.imp_of_mem ?_ (hk.binds.sublist List.filter_sublist)
  intro a b ha hb hne heq
  have hau := (List.mem_filter.mp ha).2
  have hbu := (List.mem_filter.mp hb).2
  rw [Bool.and_eq_true, beq_iff_eq] at hau hbu
  exact hne ⟨hau.2.trans hbu.2.symm, heq⟩

/-- The stamp of a change is past every stamp of the user's bindings. The stamps must be 64-bit
numbers, since the next one saturates. -/
theorem le_accessNextTs (hstamps : (∀ r ∈ s.uflagRecords, InI64 r.timestamp)
    ∧ ∀ r ∈ s.uchanRecords, InI64 r.timestamp)
    {r : UchanRecord} (hr : r ∈ s.uchanRecords) (hu : r.uuid = uuid) :
    r.timestamp ≤ accessNextTs clk s uuid := by
  have hfold : ∀ (rs : List UchanRecord) (x : Int), InI64 x → (∀ r ∈ rs, InI64 r.timestamp) →
      InI64 (rs.foldl (fun prev r => max prev r.timestamp) x)
        ∧ x ≤ rs.foldl (fun prev r => max prev r.timestamp) x
        ∧ ∀ r ∈ rs, r.timestamp ≤ rs.foldl (fun prev r => max prev r.timestamp) x := by
    intro rs
    induction rs with
    | nil => exact fun x hx _ => ⟨hx, Int.le_refl x, fun _ hr => absurd hr List.not_mem_nil⟩
    | cons a rs ih =>
      intro x hx hrs
      obtain ⟨hin, hle, hall⟩ := ih (max x a.timestamp) (inI64_max hx (hrs a List.mem_cons_self))
        fun r hr => hrs r (List.mem_cons_of_mem _ hr)
      refine ⟨hin, Int.le_trans (Int.le_max_left _ _) hle, fun r hr => ?_⟩
      rcases List.mem_cons.mp hr with rfl | hr
      · exact Int.le_trans (Int.le_max_right _ _) hle
      · exact hall r hr
  have hflag : ∃ flag, InI64 flag ∧ accessNextTs clk s uuid
      = lwwNextTs clk ((s.uchanRecords.filter fun r => r.uuid == uuid).foldl
        (fun prev r => max prev r.timestamp) flag) := by
    refine ⟨_, ?_, rfl⟩
    split
    · next i _ =>
      cases hget : s.uflagRecords[i]? with
      | none => exact inI64_zero
      | some a => exact hstamps.1 a (List.mem_of_getElem? hget)
    · exact inI64_zero
  obtain ⟨flag, hflag', heq⟩ := hflag
  rw [heq]
  obtain ⟨hin, -, hall⟩ := hfold (s.uchanRecords.filter fun r => r.uuid == uuid) flag hflag'
    fun a ha => hstamps.2 a (List.mem_filter.mp ha).1
  have hle := hall r (List.mem_filter.mpr ⟨hr, by rw [beq_iff_eq]; exact hu⟩)
  refine Int.le_trans hle ?_
  have hmax := hin.2
  unfold lwwNextTs satSucc
  split <;> omega

/-! ### All or nothing -/

/-- The `"*"` delete that a channel-bound oper carries. -/
def StarTomb (s : HubState) (uuid : Str) : Prop := ∃ r, liveBindingOf s uuid ['*'] = some r
    ∧ r.isActive = false

/-- The live bindings of a user after a change are those that it asks for. A change of `"*"`
leaves `"*"` alone or nothing. A change of a channel decides that channel and lets every other
binding be, but for the `"*"` that goes when a channel is added. -/
structure Intended (s s' : HubState) (uuid : Str) (add : Bool) (chan : Str) : Prop where
  star : chan = ['*'] → liveBindings s' uuid = if add then [['*']] else []
  named : chan ≠ ['*'] → ((∃ c ∈ liveBindings s' uuid, eqIc c chan = true) ↔ add = true)
  others : chan ≠ ['*'] → ∀ c, ¬eqIc c chan = true →
    (c ∈ liveBindings s' uuid ↔ c ∈ liveBindings s uuid ∧ (add = true → c ≠ ['*']))
  /-- An oper bound to a channel after the change, whichever change it was, has a `"*"` delete. -/
  tomb : (∃ c ∈ liveBindings s' uuid, c ≠ ['*']) → StarTomb s' uuid

/-- The records that are new in a table are those that the lines of a change name, `n` of them. -/
def WroteLines (s s' : HubState) (out out' : Str) (n : Nat) : Prop :=
  ∃ ws : List UchanRecord, ws.Nodup ∧ (∀ r, r ∈ ws ↔ r ∈ s'.uchanRecords ∧ r ∉ s.uchanRecords)
    ∧ (∀ r ∈ s.uchanRecords, r ∈ s'.uchanRecords ∨ ∃ w ∈ ws, SameBinding r w)
    ∧ out' = out ++ ws.flatMap formatUchan ∧ n = ws.length

/-- A change did what it was to do, or nothing. -/
def AllOrNothing (clk : Clock) (s : HubState) (uuid : Str) (add : Bool) (chan out : Str) : Prop :=
  match chanChangeInto clk s uuid add chan out with
  | (s', out', some n) => Intended s s' uuid add chan ∧ WroteLines s s' out out' n
  | (s', out', none) => s'.uchanRecords = s.uchanRecords ∧ out' = out

/-- The `"*"` delete at the end of a change is refused after something was written: there is no
record of `"*"`, and what comes before leaves no slot for one, or the stamp is below the purge
floor. It is a condition on the state before the change. -/
def Torn (clk : Clock) (s : HubState) (uuid : Str) (add : Bool) (chan : Str) : Prop :=
  let ts := accessNextTs clk s uuid
  liveBindingOf s uuid ['*'] = none ∧
    if add then
      chan ≠ ['*'] ∧ Stores clk s uuid chan true ts
        ∧ ¬(s.uchanRecords.length + (if (liveBindingOf s uuid chan).isNone then 1 else 0)
          < maxHubChanBinds
          ∧ purgeFloorBlocks clk s ts = false)
    else chan = ['*'] ∧ liveBindings s uuid ≠ [] ∧ StampOk clk uuid ts ∧ ¬RoomFor clk s false ts

/-- The delete of a channel leaves the user bound to another one without a `"*"` delete. The code
adds one only where a channel is added, so a user that a peer bound to two channels without a
`"*"` record stays without it. -/
def Bare (clk : Clock) (s : HubState) (uuid : Str) (add : Bool) (chan : Str) : Prop :=
  add = false ∧ chan ≠ ['*'] ∧ Stores clk s uuid chan false (accessNextTs clk s uuid)
    ∧ (∃ c ∈ liveBindings s uuid, c ≠ ['*'] ∧ ¬eqIc c chan = true) ∧ ¬StarTomb s uuid

/-- What was written is what the lines and the count say. -/
theorem Wrote.lines (h : Wrote uuid p p' ws) (hstart : p.n = 0) :
    WroteLines p.state p'.state p.out p'.out p'.n := by
  refine ⟨ws, h.nodup, fun r => ⟨fun hr => ⟨(h.mem r).mpr (.inl hr), h.fresh r hr⟩, fun hr => ?_⟩,
    fun r hr => ?_, h.out, ?_⟩
  · exact ((h.mem r).mp hr.1).resolve_right fun hp => hr.2 hp.1
  · by_cases hsame : ∃ w ∈ ws, SameBinding r w
    · exact .inr hsame
    · exact .inl ((h.mem r).mpr (.inr ⟨hr, fun w hw hs => hsame ⟨w, hw, hs⟩⟩))
  · rw [h.count, hstart, Nat.zero_add]

/-- A live binding after a change was written by it, or was live before and not written. -/
theorem Wrote.live (h : Wrote uuid p p' ws) : c ∈ liveBindings p'.state uuid ↔
    (∃ w ∈ ws, w.isActive = true ∧ w.chan = c) ∨ c ∈ liveBindings p.state uuid
    ∧ ∀ w ∈ ws, ¬eqIc c w.chan = true := by
  rw [mem_liveBindings, mem_liveBindings]
  constructor
  · rintro ⟨r, hr, hact, hu, rfl⟩
    rcases (h.mem r).mp hr with hw | ⟨hp, hws⟩
    · exact .inl ⟨r, hw, hact, rfl⟩
    · exact .inr ⟨⟨r, hp, hact, hu, rfl⟩, fun w hw heq =>
        hws w hw ⟨hu.trans (h.user w hw).symm, heq⟩⟩
  · rintro (⟨w, hw, hact, rfl⟩ | ⟨⟨r, hp, hact, hu, rfl⟩, hws⟩)
    · exact ⟨w, (h.mem w).mpr (.inl hw), hact, h.user w hw, rfl⟩
    · exact ⟨r, (h.mem r).mpr (.inr ⟨hp, fun w hw hsame => hws w hw hsame.2⟩), hact, hu, rfl⟩

/-- A list without doubles that has just one item. -/
theorem eq_singleton_of_nodup {α : Type} {l : List α} {a : α} (hnodup : l.Nodup)
    (h : ∀ x, x ∈ l ↔ x = a) : l = [a] :=
  List.perm_singleton.mp
    ((List.perm_ext_iff_of_nodup hnodup (List.nodup_singleton a)).mpr fun x => by
    rw [h, List.mem_singleton])

/-- So the list has no name twice. -/
theorem liveBindings_nodup (hk : RightsKeyed s) (uuid : Str) : (liveBindings s uuid).Nodup :=
  (liveBindings_pairwise hk uuid).imp fun hne heq => hne (by rw [heq]; exact eqIc_iff.mpr rfl)

/-- A binding that is there stays there. -/
theorem Wrote.has (h : Wrote uuid p p' ws) {r : UchanRecord}
    (hr : liveBindingOf p.state uuid c = some r) :
    ∃ r', liveBindingOf p'.state uuid c = some r' := by
  obtain ⟨hin, hu, hc⟩ := bindingOf_some hr
  by_cases hsame : ∃ w ∈ ws, SameBinding r w
  · obtain ⟨w, hw, hrw⟩ := hsame
    exact ⟨w, h.keyed.bindingOf_mem ((h.mem w).mpr (.inl hw)) (h.user w hw)
      (eqIc_trans (eqIc_symm hrw.2) hc)⟩
  · exact ⟨r, h.keyed.bindingOf_mem
      ((h.mem r).mpr (.inr ⟨hin, fun w hw hs => hsame ⟨w, hw, hs⟩⟩)) hu hc⟩

/-- A part of a change that writes channels only leaves the record of `"*"` as it is. -/
theorem Wrote.starTomb (h : Wrote uuid p p' ws) (hk : RightsKeyed p.state)
    (hws : ∀ w ∈ ws, w.chan ≠ ['*']) :
    StarTomb p'.state uuid ↔ StarTomb p.state uuid := by
  constructor
  · rintro ⟨r, hr, hdead⟩
    obtain ⟨hin, hu, hc⟩ := bindingOf_some hr
    rcases (h.mem r).mp hin with hw | ⟨hp, -⟩
    · exact absurd (eqIc_star hc) (hws r hw)
    · exact ⟨r, hk.bindingOf_mem hp hu hc, hdead⟩
  · rintro ⟨r, hr, hdead⟩
    obtain ⟨hin, hu, hc⟩ := bindingOf_some hr
    have hother : ∀ w ∈ ws, ¬SameBinding r w := by
      intro w hw hsame
      refine hws w hw (eqIc_star (eqIc_trans (eqIc_symm hsame.2) hc))
    exact ⟨r, h.keyed.bindingOf_mem ((h.mem r).mpr (.inr ⟨hin, hother⟩)) hu hc, hdead⟩

/-- A user with a record of the binding to every channel gets no second one. -/
theorem emitStarDel_some {r : UchanRecord} (h : liveBindingOf p.state uuid ['*'] = some r) :
    p.emitStarDel clk uuid ts = (p, true) := by
  unfold BindChange.emitStarDel
  cases hfind : uchanFind p.state uuid ['*'] with
  | none =>
    rw [bindingOf_eq_none.mpr hfind] at h
    cases h
  | some i => rfl

/-- A user without one gets a tombstone. -/
theorem emitStarDel_none (h : liveBindingOf p.state uuid ['*'] = none) :
    p.emitStarDel clk uuid ts = p.emit clk uuid ts ['*'] false := by
  unfold BindChange.emitStarDel
  rw [bindingOf_eq_none.mp h]
  rfl

/-- The `"*"` delete is stored where there is room for it. -/
theorem stores_starDel (h : liveBindingOf s uuid ['*'] = none) :
    Stores clk s uuid ['*'] false ts ↔ StampOk clk uuid ts ∧ RoomFor clk s false ts := by
  unfold Stores
  rw [h]
  exact ⟨fun hs => ⟨hs.1, hs.2.2⟩, fun hs => ⟨hs.1, rfl, hs.2⟩⟩

/-- A batch of deletes under a stamp that no record takes fails at its first. -/
theorem emitDels_refused {cs : List Str} (hne : cs ≠ []) (h : ¬StampOk clk uuid ts) :
    BindChange.emitDels clk uuid ts cs p = (p, false) := by
  cases cs with
  | nil => exact absurd rfl hne
  | cons c cs => rw [BindChange.emitDels, emit_refused fun hs => h hs.1]

/-- A write under the stamp of a change leaves no stamp of the user past it. -/
theorem Put.le {w : UchanRecord} (h : Put s s' uuid c act ts w)
    (hle : ∀ r ∈ s.uchanRecords, r.uuid = uuid → r.timestamp ≤ ts) :
    ∀ r ∈ s'.uchanRecords, r.uuid = uuid → r.timestamp ≤ ts := by
  intro r hr hu
  rcases (h.mem r).mp hr with rfl | ⟨hs, -⟩
  · exact h.stamp.le
  · exact hle r hs hu

/-- Live bindings can all be deleted, whatever selection of them. `hle` is what the stamp of the
change gives. -/
theorem emitDels_live (hstamp : StampOk clk uuid ts) (hk : RightsKeyed p.state)
    (hle : ∀ r ∈ p.state.uchanRecords, r.uuid = uuid → r.timestamp ≤ ts) (keep : Str → Bool) :
    ∃ p' ds, BindChange.emitDels clk uuid ts ((liveBindings p.state uuid).filter keep) p
      = (p', true)
      ∧ Wrote uuid p p' ds ∧ ds.map (·.chan) = (liveBindings p.state uuid).filter keep
      ∧ (∀ d ∈ ds, d.isActive = false)
      ∧ p'.state.uchanRecords.length = p.state.uchanRecords.length := by
  refine emitDels_wrote hstamp hk (fun c hc => ?_)
    ((liveBindings_pairwise hk uuid).sublist List.filter_sublist)
  obtain ⟨r, hr, hact, hu, rfl⟩ := mem_liveBindings.mp (List.mem_filter.mp hc).1
  exact ⟨r, hr, hu, rfl, hact, hle r hr hu⟩

section Changes

variable {chan out : Str} (hk : RightsKeyed s)
  (hstamps : ∀ r ∈ s.uchanRecords, r.uuid = uuid → r.timestamp ≤ accessNextTs clk s uuid)
include hk

/-- Deleting one channel is one write. What it may leave behind is a user bound to other channels
without a `"*"` delete. -/
theorem allOrNothing_del (hchan : chan ≠ ['*']) : AllOrNothing clk s uuid false chan out
    ↔ ¬Bare clk s uuid false chan := by
  have hstar : (chan == ['*']) = false := beq_eq_false_iff_ne.mpr hchan
  by_cases hstores : Stores clk s uuid chan false (accessNextTs clk s uuid)
  · obtain ⟨p', w, hemit, hput, hwrote⟩ :=
      emit_stores (p := { state := s, out := out }) hk hstores
    have hresult : chanChangeInto clk s uuid false chan out = (p'.state, p'.out, some p'.n) := by
      unfold chanChangeInto BindChange.writes
      simp only [hstar, Bool.false_eq_true, if_false, hemit, if_true]
    -- what is live after the delete
    have hafter : ∀ c, c ∈ liveBindings p'.state uuid ↔ c ∈ liveBindings s uuid
      ∧ ¬eqIc c chan = true := by
      intro c
      rw [hwrote.live]
      constructor
      · rintro (⟨x, hx, hact, -⟩ | ⟨hlive, hother⟩)
        · rw [List.mem_singleton.mp hx, hput.active] at hact
          exact absurd hact Bool.false_ne_true
        · exact ⟨hlive, fun heq =>
            hother w List.mem_cons_self (eqIc_trans heq (eqIc_symm hput.chan))⟩
      · rintro ⟨hlive, hne⟩
        refine .inr ⟨hlive, fun x hx heq => hne ?_⟩
        rw [List.mem_singleton.mp hx] at heq
        exact eqIc_trans heq hput.chan
    have hwchan : ∀ x ∈ [w], x.chan ≠ ['*'] := by
      intro x hx heq
      rw [List.mem_singleton.mp hx] at heq
      exact hchan (eqIc_star (eqIc_symm (heq ▸ hput.chan)))
    have htomb : StarTomb p'.state uuid ↔ StarTomb s uuid := hwrote.starTomb hk hwchan
    unfold AllOrNothing
    rw [hresult]
    constructor
    -- a channel that stays bound has the `"*"` delete after the change, and so before it
    · rintro ⟨hint, -⟩ ⟨-, -, -, ⟨c, hc, hcs, hne⟩, hno⟩
      exact hno (htomb.mp (hint.tomb ⟨c, (hafter c).mpr ⟨hc, hne⟩, hcs⟩))
    -- the bindings are as asked for in any case, and the `"*"` delete is where one is called for
    · intro hbare
      refine ⟨⟨fun heq => absurd heq hchan, fun _ => ?_, fun _ c hne => ?_, ?_⟩, hwrote.lines rfl⟩
      · exact iff_of_false (fun ⟨c, hc, heq⟩ => ((hafter c).mp hc).2 heq) Bool.false_ne_true
      · rw [hafter]
        exact ⟨fun h => ⟨h.1, fun h => (nomatch h)⟩, fun h => ⟨h.1, hne⟩⟩
      · rintro ⟨c, hc, hcs⟩
        obtain ⟨hlive, hne⟩ := (hafter c).mp hc
        by_contra hno
        exact hbare ⟨rfl, hchan, hstores, ⟨c, hlive, hcs, hne⟩, fun h => hno (htomb.mpr h)⟩
  -- the write is refused, and nothing has happened
  · have hresult : chanChangeInto clk s uuid false chan out = (s, out, none) := by
      unfold chanChangeInto BindChange.writes
      simp only [hstar, Bool.false_eq_true, if_false,
        emit_refused (p := { state := s, out := out }) hstores]
    refine iff_of_true ?_ fun hbare => hstores hbare.2.2.1
    unfold AllOrNothing
    rw [hresult]
    exact ⟨rfl, rfl⟩

include hstamps

/-- Adding `"*"` is its write and the deletes of the channels, which are never refused. So nothing
is asked for. -/
theorem allOrNothing_addStar : AllOrNothing clk s uuid true ['*'] out := by
  by_cases hstores : Stores clk s uuid ['*'] true (accessNextTs clk s uuid)
  · obtain ⟨p₁, w, hemit, hput, hwrote⟩ :=
      emit_stores (p := { state := s, out := out }) hk hstores
    have hw : w.chan = ['*'] := eqIc_star hput.chan
    obtain ⟨p₂, ds, hdels, hwrote', hnames, hdead, -⟩ :=
      emitDels_live hstores.1 hwrote.keyed (hput.le hstamps) fun c => (c == ['*']) != true
    -- the deletes are of channels, never of `"*"`
    have hother : ∀ d ∈ ds, d.chan ≠ ['*'] := by
      intro d hd heq
      have hmem : d.chan ∈ ds.map (·.chan) := List.mem_map_of_mem hd
      rw [hnames, heq] at hmem
      exact absurd (List.mem_filter.mp hmem).2 (by decide)
    have hboth : Wrote uuid { state := s, out := out } p₂ ([w] ++ ds) := by
      refine hwrote.trans hwrote' fun x hx d hd hsame => hother d hd ?_
      rw [List.mem_singleton.mp hx] at hsame
      exact eqIc_star (hw ▸ eqIc_symm hsame.2)
    have hresult : chanChangeInto clk s uuid true ['*'] out = (p₂.state, p₂.out, some p₂.n) := by
      unfold chanChangeInto BindChange.writes
      simp only [if_true, hemit, beq_self_eq_true, hdels]
    unfold AllOrNothing
    rw [hresult]
    -- `"*"` is all that is live after them
    have hstar : liveBindings p₂.state uuid = [['*']] := by
      refine eq_singleton_of_nodup (liveBindings_nodup hboth.keyed uuid) fun c => ?_
      rw [hboth.live]
      constructor
      · rintro (⟨x, hx, hact, rfl⟩ | ⟨hlive, hall⟩)
        · rcases List.mem_append.mp hx with hx | hx
          · rw [List.mem_singleton.mp hx, hw]
          · rw [hdead x hx] at hact
            exact absurd hact Bool.false_ne_true
        · -- a channel that was live is one of those deleted
          by_contra hne
          have hw' : ∀ x ∈ [w], ¬eqIc c x.chan = true :=
            fun x hx => hall x (List.mem_append_left _ hx)
          have hmem : c ∈ ds.map (·.chan) := by
            rw [hnames]
            refine List.mem_filter.mpr ⟨hwrote.live.mpr (.inr ⟨hlive, hw'⟩), ?_⟩
            rw [beq_eq_false_iff_ne.mpr hne]
            rfl
          obtain ⟨d, hd, rfl⟩ := List.mem_map.mp hmem
          exact hall d (List.mem_append_right _ hd) (eqIc_iff.mpr rfl)
      · rintro rfl
        exact .inl ⟨w, List.mem_append_left _ List.mem_cons_self, hput.active, hw⟩
    refine ⟨⟨fun _ => hstar, fun hne => absurd rfl hne, fun hne => absurd rfl hne,
      fun ⟨c, hc, hne⟩ => ?_⟩, hboth.lines rfl⟩
    rw [hstar] at hc
    exact absurd (List.mem_singleton.mp hc) hne
  -- the write is refused, and nothing has happened
  · have hresult : chanChangeInto clk s uuid true ['*'] out = (s, out, none) := by
      unfold chanChangeInto BindChange.writes
      simp only [if_true, emit_refused (p := { state := s, out := out }) hstores]
      rfl
    unfold AllOrNothing
    rw [hresult]
    exact ⟨rfl, rfl⟩

end Changes

end IrcHub.Proofs
