import IrcHub.Proofs.Bans.Edits

/-!
# `IrcHub.Proofs.Bans.Net`: sweeps of a ban across the hubs

Any number of hubs hold one ban. Each sweeps by its own clock, one of them edits the ban, and what
a hub writes reaches the others in any order, again or never (`BanNet.step`). The sweep stamps its
tombstone one second past the record (`satSucc`), so that a newer edit wins.

An extension stamped in that very second does not, where a hub ends the ban: it ties with the
tombstone, and of a tie the delete wins (`extension_lost`). `edit_outlasts_sweeps` is the rest: an
edit that is a delete, or made by a clock past that second, or over a copy that was swept already,
or while no hub ends the ban, is what every hub it reaches ends with; and hubs that only sweep end
with one tombstone. A hub is reached by the edit when the edit was made there, or when a record of
it arrives that the hub does not refuse as stamped too far ahead of its clock.

- `BanNet`, `BanEvent`, `BanNet.step`: the hubs, the announced records, and what can happen
- `EditClear`: the condition on a step. It is about the step and the state before it
- `Known`, `Outranks`: the ranks that can be shown in a run, and where the edit stands among them
- `NetInv`: the invariant. Every hub shows a known rank, and one that the edit reached shows the
  edit's
- `NetInv.sweep`, `NetInv.edited`, `NetInv.deliver`: the step lemmas
- `NetInv.move`: what the three have in common: one hub moves to a state that shows a known rank

Ranks carry the argument. A hub shows the greatest rank it was offered, so it is enough to know
which ranks there are and that the edit's is the greatest.
-/

set_option autoImplicit false

namespace IrcHub.Proofs

open IrcHub.Hub Str
open String (utf8Len)

/-! ### The hubs and what happens to them -/

/-- A command that edits a ban. -/
inductive BanEdit
  | add (chan mask : Str) (expires : Int) (sticky : Bool) (setter reason : Str)
  | del (chan mask : Str)

/-- Channel and mask of the command. -/
def BanEdit.target : BanEdit → Str
  | .add chan mask .. => chan ++ '|' :: mask
  | .del chan mask => chan ++ '|' :: mask

/-- The command at a hub. -/
def BanEdit.run (clk : Clock) (s : HubState) : BanEdit → HubState × ModesStatus
  | .add chan mask expires sticky setter reason =>
      banAdd clk s chan mask expires sticky setter reason
  | .del chan mask => banDel clk s chan mask

/-- The entry of the ban `p`. -/
def banEntry (s : HubState) (p : Str) : Option GlobalEntry :=
  s.globalEntries.find? fun e => keyIsModes e.key && idOf e == banName p

/-- Value and stamp a hub holds of the ban `p`. -/
def banHeld (s : HubState) (p : Str) : Option (Str × Int) :=
  (banEntry s p).map fun e => (e.value, e.timestamp)

/-- The hubs, the records of the ban that were announced, the edit once it is made, the hubs it
reached and those that swept the ban. -/
structure BanNet (ι : Type) where
  hub : ι → HubState
  wire : List (Str × Int) := []
  edit : Option (Str × Int) := none
  reached : ι → Bool := fun _ => false
  swept : ι → Bool := fun _ => false

/-- What happens: a sweep, an edit, a record that arrives. -/
inductive BanEvent (ι : Type)
  | sweep (i : ι) (clk : Clock)
  | edit (i : ι) (clk : Clock) (cmd : BanEdit)
  | deliver (i : ι) (clk : Clock) (value : Str) (ts : Int)

section Net

variable {ι : Type} [DecidableEq ι]

/-- One record up to the case of channel and mask. -/
def sameBan (a b : Str × Int) : Bool :=
  foldIdent .B a.1 == foldIdent .B b.1 && rankOf .B a.1 a.2 == rankOf .B b.1 b.2

/-- A hub changes. What it now holds of the ban is announced if that changed. -/
def BanNet.put (p : Str) (n : BanNet ι) (i : ι) (t : HubState) : BanNet ι :=
  { n with
    hub := Function.update n.hub i t
    wire := if banHeld t p = banHeld (n.hub i) p then n.wire else (banHeld t p).toList ++ n.wire }

/-- One event. Only announced records arrive, each at any hub, at any time and any number of
times; nothing has to arrive. -/
def BanNet.step (p : Str) (n : BanNet ι) : BanEvent ι → BanNet ι
  | .sweep i clk =>
    let m := n.put p i (bansSweep clk (n.hub i))
    if (banEntry (n.hub i) p).any (sweepEnds clk (n.hub i)) then
      { m with swept := Function.update n.swept i true }
    else m
  | .edit i clk cmd =>
    let r := cmd.run clk (n.hub i)
    let m := n.put p i r.1
    if r.2 = .ok then { m with edit := banHeld r.1 p,
                               reached := Function.update n.reached i true }
    else m
  | .deliver i clk value ts =>
    if !n.wire.any (sameBan (value, ts)) || !recordValid .B value then n
    else
      let m := n.put p i (putRecord clk (n.hub i) .B value ts).1
      if n.edit.any (sameBan (value, ts)) && !tsAhead clk ts then
        { m with reached := Function.update n.reached i true }
      else m

/-- All hubs hold one live record of the ban, value `v` of stamp `ts`; nothing happened yet. -/
structure BanNet.Start (p v : Str) (ts : Int) (n : BanNet ι) : Prop where
  hubs : ∀ i, StoreReachable (n.hub i)
  held : ∀ i, recordView (n.hub i) (banName p) = (rankOf .B v ts : WithBot Rank)
  name : foldIdent .B v = p
  live : recActive .B v = true
  stamp : 0 < ts ∧ ts ≤ i64Max
  valid : recordValid .B v = true
  wire : n.wire = []
  edit : n.edit = none
  reached : ∀ i, n.reached i = false
  swept : ∀ i, n.swept i = false

/-- What keeps the edit clear of the tombstone's second, and of its own end. The ban is edited
once. An extension is made by a clock past the second after the ban's stamp `ts`, or over a copy
that is past it, or while no hub has ended the ban; and a hub ends it only where it finds the ban
as it was set, and after no extension of the tombstone's second. -/
def EditClear (p : Str) (ts : Int) (n : BanNet ι) : BanEvent ι → Prop
  | .sweep i clk => ∀ e ∈ banEntry (n.hub i) p, banExpired clk.now e = true → e.timestamp = ts
      ∧ ∀ ed ∈ n.edit, ed.2 = satSucc ts → recActive .B ed.1 = false
  | .edit i clk cmd => n.edit = none ∧ foldIdent .B cmd.target = p
      ∧ ((∃ chan mask, cmd = .del chan mask) ∨ satSucc ts < clk.now
        ∨ (∀ e ∈ banEntry (n.hub i) p, e.timestamp ≠ ts) ∨ ∀ j, n.swept j = false)
  | .deliver .. => True

/-! ### What one event does -/

variable {p v : Str} {ts : Int} {clk : Clock} {s : HubState} {n : BanNet ι}

/-- The tombstone of a ban ranks alike on every hub. -/
theorem rankOf_tombstone {w : Str} (hw : recordValid .B w = true) (t : Int) :
    rankOf .B (tombstoneOf .B w) t = toLex (t, toLex (true, "|0||||del".toList)) := by
  obtain ⟨f, rfl⟩ := recordValid_ban_iff.mp hw
  have ht := tombstoneOf_spec (.inr rfl) hw
  have happ := ident_append_identTail .B (tombstoneOf .B f.text)
  have htail : identTail .B (tombstoneOf .B f.text) = "|0||||del".toList := by
    rw [ht.ident, tombstoneOf, if_neg (by decide)] at happ
    exact List.append_cancel_left happ
  rw [rankOf, ht.dead]
  show toLex (t, toLex (true, identTail .B (tombstoneOf .B f.text))) = _
  rw [htail]

/-- Some hub ended the ban. -/
def BanNet.Ended (n : BanNet ι) : Prop := ∃ i, n.swept i = true

/-- The ranks a run can show: the ban's, its tombstone's once a hub ended it, the edit's. -/
def Known (v : Str) (ts : Int) (ended : Prop) (edit : Option (Str × Int)) (r : Rank) : Prop :=
  r = rankOf .B v ts ∨ (r = rankOf .B (tombstoneOf .B v) (satSucc ts) ∧ ended)
    ∨ ∃ ed ∈ edit, r = rankOf .B ed.1 ed.2

/-- The edit ranks above the tombstone, or is an extension of the tombstone's second, and no hub
ended the ban. -/
def Outranks (v : Str) (ts : Int) (ended : Prop) (ed : Str × Int) : Prop :=
  rankOf .B (tombstoneOf .B v) (satSucc ts) ≤ rankOf .B ed.1 ed.2
    ∨ (¬ended ∧ rankOf .B v ts < rankOf .B ed.1 ed.2 ∧ recActive .B ed.1 = true
      ∧ ed.2 = satSucc ts)

/-- What holds of the hubs after every event. `views` and `wire` say that nothing but known ranks
is about, `edit` that the edit outranks the others, `reached` and `swept` what the result asks
for. -/
structure NetInv (p v : Str) (ts : Int) (n : BanNet ι) : Prop where
  kept : ∀ i, BanKept p (n.hub i)
  views : ∀ i, ∃ r, Known v ts n.Ended n.edit r
    ∧ recordView (n.hub i) (banName p) = (r : WithBot Rank)
  wire : ∀ w ∈ n.wire, foldIdent .B w.1 = p ∧ Known v ts n.Ended n.edit (rankOf .B w.1 w.2)
  edit : ∀ ed ∈ n.edit, foldIdent .B ed.1 = p ∧ Outranks v ts n.Ended ed
  unreached : n.edit = none → ∀ i, n.reached i = false
  reached : ∀ ed ∈ n.edit, ∀ i, n.reached i = true →
    recordView (n.hub i) (banName p) = (rankOf .B ed.1 ed.2 : WithBot Rank)
  swept : n.edit = none → ∀ i, n.swept i = true →
    recordView (n.hub i) (banName p) = (rankOf .B (tombstoneOf .B v) (satSucc ts) : WithBot Rank)

/-- The entry of a held ban, with all that the steps read of it: where it stands, its rank, its
name, and that it is well formed. -/
theorem BanKept.entry (h : BanKept p s) : ∃ e ∈ s.globalEntries, idOf e = banName p
    ∧ banEntry s p = some e
    ∧ recordView s (banName p) = (rankOf .B e.value e.timestamp : WithBot Rank)
    ∧ banHeld s p = some (e.value, e.timestamp) ∧ foldIdent .B e.value = p
    ∧ recordValid .B e.value = true ∧ 0 < e.timestamp := by
  cases hfind : banEntry s p with
  | none =>
    obtain ⟨e, he, hname⟩ := h.held
    have hkey : e.key = .B := congrArg Prod.fst hname
    rw [banEntry, List.find?_eq_none] at hfind
    exact absurd (hfind e he) (by simp [hname, hkey, keyIsModes])
  | some e =>
    have he := List.mem_of_find?_eq_some hfind
    have hname := List.find?_some hfind
    simp only [Bool.and_eq_true, beq_iff_eq] at hname
    have hkey : e.key = .B := congrArg Prod.fst hname.2
    have hok := (h.store.entryOk e he).modes hname.1
    have hview := recordView_of_mem h.store he hname.1
    rw [hname.2, hkey] at hview
    rw [hkey] at hok
    exact ⟨e, he, hname.2, rfl, hview, by rw [banHeld, hfind]; rfl,
      hkey ▸ congrArg Prod.snd hname.2, hok.1, hok.2⟩

/-- The next stamp is not before a stamp in range. -/
theorem satSucc_ge (h : ts ≤ i64Max) : ts ≤ satSucc ts := by
  rw [satSucc]
  omega

/-- The tombstone ranks above the ban. -/
theorem rank_le_tombstone (hv : recordValid .B v = true) (hlive : recActive .B v = true)
    (hmax : ts ≤ i64Max) : rankOf .B v ts < rankOf .B (tombstoneOf .B v) (satSucc ts) := by
  rw [rankOf_tombstone hv, rankOf, Prod.Lex.toLex_lt_toLex, hlive]
  rcases lt_or_eq_of_le (satSucc_ge hmax) with hlt | heq
  · exact .inl hlt
  · exact .inr ⟨heq, Prod.Lex.toLex_lt_toLex.mpr (.inl (by show (!true) < true; decide))⟩

/-- Of two ranks a run can show, the join is the one or the other. -/
theorem Known.join {ended : Prop} {edit : Option (Str × Int)} {a b : Rank}
    (ha : Known v ts ended edit a) (hb : Known v ts ended edit b) :
    ∃ r, Known v ts ended edit r
      ∧ (a : WithBot Rank) ⊔ (b : WithBot Rank) = (r : WithBot Rank) := by
  rcases le_total a b with h | h
  · exact ⟨b, hb, by rw [← WithBot.coe_sup, sup_eq_right.mpr h]⟩
  · exact ⟨a, ha, by rw [← WithBot.coe_sup, sup_eq_left.mpr h]⟩

/-- The edit is above all of them. -/
theorem Known.le (hv : recordValid .B v = true) (hlive : recActive .B v = true)
    (hmax : ts ≤ i64Max) {ended : Prop} {ed : Str × Int} (hed : Outranks v ts ended ed) {r : Rank}
    (hr : Known v ts ended (some ed) r) : r ≤ rankOf .B ed.1 ed.2 := by
  rcases hr with rfl | ⟨rfl, hend⟩ | ⟨ed', hed', rfl⟩
  · exact hed.elim (fun h => (rank_le_tombstone hv hlive hmax).le.trans h) fun h => h.2.1.le
  · exact hed.resolve_right fun h => h.1 hend
  · rw [Option.mem_some_iff] at hed'
    rw [hed']

/-- What was known stays known as more hubs end the ban. -/
theorem Known.mono {ended ended' : Prop} (hend : ended → ended') {edit : Option (Str × Int)}
    {r : Rank} (hr : Known v ts ended edit r) : Known v ts ended' edit r :=
  hr.imp_right fun h => h.imp_left fun ⟨heq, h⟩ => ⟨heq, hend h⟩

/-- It is stamped in the tombstone's second or later. -/
theorem Outranks.stamp (hv : recordValid .B v = true) {ended : Prop} {ed : Str × Int}
    (hed : Outranks v ts ended ed) : satSucc ts ≤ ed.2 := by
  rcases hed with hle | ⟨-, -, -, heq⟩
  · rw [rankOf_tombstone hv, rankOf, Prod.Lex.toLex_le_toLex] at hle
    exact hle.elim (fun hlt => le_of_lt hlt) fun htie => le_of_eq htie.1
  · exact heq.symm.le

/-- The hub that changed. -/
theorem put_hub_self (i : ι) (t : HubState) : (n.put p i t).hub i = t := Function.update_self ..

/-- The others did not. -/
theorem put_hub_of_ne {i j : ι} (t : HubState) (h : j ≠ i) : (n.put p i t).hub j = n.hub j :=
  Function.update_of_ne h ..

/-- What is on the wire after a change was there before, or is the ban as that hub has it now. -/
theorem mem_put_wire {i : ι} {t : HubState} {w : Str × Int} (h : w ∈ (n.put p i t).wire) :
    banHeld t p = some w ∨ w ∈ n.wire := by
  simp only [BanNet.put] at h
  split at h
  · exact .inr h
  · rcases List.mem_append.mp h with hnew | hold
    · exact .inl (Option.mem_toList.mp hnew)
    · exact .inr hold

/-- A hub moves to a state that shows a known rank, and hubs may have ended the ban. The rank is
the edit's if the edit reached the hub, and without an edit the tombstone's if it ended the ban.

`sw` are the hubs that ended the ban afterwards. `hother` says that only this hub may be new among
them. -/
theorem NetInv.move (h : NetInv p v ts n) {i : ι} {t : HubState} (sw : ι → Bool)
    (hsw : ∀ j, n.swept j = true → sw j = true) (hkept : BanKept p t) {r : Rank}
    (hknown : Known v ts (∃ j, sw j = true) n.edit r)
    (hview : recordView t (banName p) = (r : WithBot Rank))
    (hedit : ∀ ed ∈ n.edit, Outranks v ts (∃ j, sw j = true) ed)
    (hreached : ∀ ed ∈ n.edit, n.reached i = true → r = rankOf .B ed.1 ed.2)
    (hself : n.edit = none → sw i = true → r = rankOf .B (tombstoneOf .B v) (satSucc ts))
    (hother : ∀ j, j ≠ i → sw j = true → n.swept j = true) :
    NetInv p v ts { n.put p i t with swept := sw } where
  kept j := by
    show BanKept p ((n.put p i t).hub j)
    by_cases hj : j = i
    · subst hj
      rw [put_hub_self]
      exact hkept
    · rw [put_hub_of_ne t hj]
      exact h.kept j
  views j := by
    show ∃ r, _ ∧ recordView ((n.put p i t).hub j) (banName p) = _
    by_cases hj : j = i
    · subst hj
      rw [put_hub_self]
      exact ⟨r, hknown, hview⟩
    · rw [put_hub_of_ne t hj]
      obtain ⟨r', hr', hview'⟩ := h.views j
      exact ⟨r', hr'.mono fun ⟨k, hk⟩ => ⟨k, hsw k hk⟩, hview'⟩
  wire w hw := by
    rcases mem_put_wire (n := n) hw with hnew | hold
    · obtain ⟨e, -, -, -, hrank, hheld, hfold, -, -⟩ := hkept.entry
      rw [hheld, Option.some.injEq] at hnew
      rw [← hnew]
      rw [hview, WithBot.coe_inj] at hrank
      exact ⟨hfold, hrank ▸ hknown⟩
    · exact ⟨(h.wire w hold).1, (h.wire w hold).2.mono fun ⟨k, hk⟩ => ⟨k, hsw k hk⟩⟩
  edit ed hed := ⟨(h.edit ed hed).1, hedit ed hed⟩
  unreached := h.unreached
  reached ed hed j hj := by
    show recordView ((n.put p i t).hub j) (banName p) = _
    by_cases hji : j = i
    · subst hji
      rw [put_hub_self, hview, hreached ed hed hj]
    · rw [put_hub_of_ne t hji]
      exact h.reached ed hed j hj
  swept hno j hj := by
    show recordView ((n.put p i t).hub j) (banName p) = _
    by_cases hji : j = i
    · subst hji
      rw [put_hub_self, hview, hself hno hj]
    · rw [put_hub_of_ne t hji]
      exact h.swept hno j (hother j hji hj)

/-- The same where no further hub ends the ban. -/
theorem NetInv.put (h : NetInv p v ts n) {i : ι} {t : HubState} (hkept : BanKept p t) {r : Rank}
    (hknown : Known v ts n.Ended n.edit r) (hview : recordView t (banName p) = (r : WithBot Rank))
    (hreached : ∀ ed ∈ n.edit, n.reached i = true → r = rankOf .B ed.1 ed.2)
    (hswept : n.edit = none → n.swept i = true → r = rankOf .B (tombstoneOf .B v) (satSucc ts)) :
    NetInv p v ts (n.put p i t) :=
  h.move n.swept (fun _ => id) hkept hknown hview (fun ed hed => (h.edit ed hed).2)
    hreached hswept fun _ _ => id

/-- A live record of the ban's stamp is below the tombstone. -/
theorem not_tombstone_le (hv : recordValid .B v = true) (hmax : ts ≤ i64Max) {w : Str}
    (hlive : recActive .B w = true) :
    ¬ rankOf .B (tombstoneOf .B v) (satSucc ts) ≤ rankOf .B w ts := by
  rw [rankOf_tombstone hv, rankOf, hlive, not_le, Prod.Lex.toLex_lt_toLex]
  rcases lt_or_eq_of_le (satSucc_ge hmax) with hlt | heq
  · exact .inl hlt
  · exact .inr ⟨heq, Prod.Lex.toLex_lt_toLex.mpr (.inl (by show (!true) < true; decide))⟩

/-- The sweep step. A hub that ends the ban shows the tombstone, which is known from then on and
below the edit by `hclear`. A hub that does not end it shows what it showed. -/
theorem NetInv.sweep (h : NetInv p v ts n) (hv : recordValid .B v = true)
    (hmax : ts ≤ i64Max) {i : ι} (hclear : EditClear p ts n (.sweep i clk)) :
    NetInv p v ts (n.step p (.sweep i clk)) := by
  obtain ⟨e, he, hname, hfind, hrank, -, -, hval, -⟩ := (h.kept i).entry
  have hexp : banExpired clk.now e = true → e.timestamp = ts := fun hx => (hclear e hfind hx).1
  obtain ⟨r, hknown, hview⟩ := h.views i
  obtain ⟨hkept, hafter⟩ := (h.kept i).sweep he hname fun hx => (hexp hx).le.trans hmax
  show NetInv p v ts (if (banEntry (n.hub i) p).any (sweepEnds clk (n.hub i)) then _ else _)
  rw [hfind, Option.any_some]
  by_cases hends : sweepEnds clk (n.hub i) e = true
  · rw [if_pos hends] at hafter ⊢
    have hrun : banExpired clk.now e = true := by
      rw [sweepEnds, Bool.and_eq_true, Bool.and_eq_true] at hends
      exact hends.1.2
    have hlive : recActive .B e.value = true := by
      simp only [banExpired, Bool.and_eq_true] at hrun
      rw [recActive, hrun.1.1.2]
      rfl
    rw [rankOf_tombstone hval, hexp hrun, ← rankOf_tombstone hv] at hafter
    have habove : ∀ ed ∈ n.edit,
        rankOf .B (tombstoneOf .B v) (satSucc ts) ≤ rankOf .B ed.1 ed.2 := by
      intro ed hed
      refine (h.edit ed hed).2.resolve_right fun htie => ?_
      have hdead := (hclear e hfind hrun).2 ed hed htie.2.2.2
      exact Bool.noConfusion (hdead.symm.trans htie.2.2.1)
    refine h.move (Function.update n.swept i true) (fun j hj => ?_) hkept
      (.inr (.inl ⟨rfl, i, Function.update_self ..⟩)) hafter (fun ed hed => .inl (habove ed hed))
      (fun ed hed hi => ?_) (fun _ _ => rfl) fun j hji hj => ?_
    · by_cases hji : j = i
      · rw [hji, Function.update_self]
      · rw [Function.update_of_ne hji]
        exact hj
    · -- the edit is above the tombstone, what ran out is below
      have hsame := h.reached ed hed i hi
      rw [hrank, WithBot.coe_inj, hexp hrun] at hsame
      exact absurd (hsame ▸ habove ed hed) (not_tombstone_le hv hmax hlive)
    · rwa [Function.update_of_ne hji] at hj
  · rw [if_neg hends] at hafter ⊢
    have hreach : ∀ ed ∈ n.edit, n.reached i = true → r = rankOf .B ed.1 ed.2 := by
      intro ed hed hi
      have hsame := h.reached ed hed i hi
      rwa [hview, WithBot.coe_inj] at hsame
    refine h.put hkept hknown (hafter.trans hview) hreach fun hno hi => ?_
    have hsame := h.swept hno i hi
    rwa [hview, WithBot.coe_inj] at hsame

/-- The command at a hub that holds the ban: a delete leaves the tombstone, an add a live record,
each above what was there. -/
theorem BanEdit.outcome (h : BanKept p s) (clk : Clock) {e : GlobalEntry}
    (he : e ∈ s.globalEntries) (hname : idOf e = banName p) {cmd : BanEdit}
    (hp : foldIdent .B cmd.target = p) :
    Outcome (fun t => ∃ w, BanEdited clk p s e w t
      ∧ (w = tombstoneOf .B e.value
        ∨ ((¬∃ chan mask, cmd = .del chan mask) ∧ recActive .B w = true))) s
        (cmd.run clk s) := by
  cases cmd with
  | add chan mask expires sticky setter reason =>
    have hout := banAdd_edited h he hname clk expires sticky setter reason hp
    refine ⟨fun hok => ?_, hout.refused⟩
    obtain ⟨w, hedit, hlive⟩ := hout.done hok
    exact ⟨w, hedit, .inr ⟨fun ⟨_, _, hdel⟩ => (nomatch hdel), hlive⟩⟩
  | del chan mask =>
    have hout := banDel_edited h he hname clk hp
    exact ⟨fun hok => ⟨_, hout.done hok, .inl rfl⟩, hout.refused⟩

/-- What can be held before the edit can be held after it. -/
theorem Known.lift {ended : Prop} {edit : Option (Str × Int)} {r : Rank}
    (h : Known v ts ended none r) : Known v ts ended edit r := by
  rcases h with rfl | hend | ⟨ed, hed, -⟩
  · exact .inl rfl
  · exact .inr (.inl hend)
  · cases hed

/-- A stamp past a record is at least one second past it. -/
theorem satSucc_le_lwwNextTs (clk : Clock) (hmax : ts ≤ i64Max) :
    satSucc ts ≤ lwwNextTs clk ts := by
  rw [lwwNextTs]
  split
  · rw [satSucc]
    omega
  · exact le_refl _

/-- The net once an edit is on the hub it was made on and on the wire. `hshow` is that the hub
shows it, `habove` that it ranks above the tombstone. The other hubs are as they were. -/
theorem NetInv.of_edit (h : NetInv p v ts n) (hnone : n.edit = none) (i : ι) {t : HubState}
    {ed : Str × Int} (hkept : BanKept p t) (hheld : banHeld t p = some ed)
    (hshow : recordView t (banName p) = (rankOf .B ed.1 ed.2 : WithBot Rank))
    (hfold : foldIdent .B ed.1 = p) (habove : Outranks v ts n.Ended ed) :
    NetInv p v ts
      { n.put p i t with edit := banHeld t p, reached := Function.update n.reached i true } := by
  rw [hheld]
  refine ⟨fun j => ?_, fun j => ?_, fun a ha => ?_, ?_, fun hno =>
    (Option.some_ne_none _ hno).elim, ?_, fun hno => (Option.some_ne_none _ hno).elim⟩
  · show BanKept p ((n.put p i t).hub j)
    by_cases hj : j = i
    · subst hj
      rw [put_hub_self]
      exact hkept
    · rw [put_hub_of_ne t hj]
      exact h.kept j
  -- its hub shows the edit, the others a record that was known and is known still
  · show ∃ r, _ ∧ recordView ((n.put p i t).hub j) (banName p) = _
    by_cases hj : j = i
    · subst hj
      rw [put_hub_self]
      exact ⟨_, .inr (.inr ⟨_, rfl, rfl⟩), hshow⟩
    · rw [put_hub_of_ne t hj]
      obtain ⟨r', hr', hview'⟩ := h.views j
      rw [hnone] at hr'
      exact ⟨r', hr'.lift, hview'⟩
  -- on the wire is the edit, or what was there before
  · have ha' : a ∈ (n.put p i t).wire := ha
    rcases mem_put_wire ha' with hnew | hold
    · rw [hheld, Option.some.injEq] at hnew
      rw [← hnew]
      exact ⟨hfold, .inr (.inr ⟨_, rfl, rfl⟩)⟩
    · have hw := h.wire a hold
      rw [hnone] at hw
      exact ⟨hw.1, hw.2.lift⟩
  · intro ed' hed'
    have heq : ed = ed' := Option.some.inj hed'
    rw [← heq]
    exact ⟨hfold, habove⟩
  -- the only hub it has reached is its own
  · intro ed' hed' j hj
    have heq : ed = ed' := Option.some.inj hed'
    show recordView ((n.put p i t).hub j) (banName p) = _
    by_cases hji : j = i
    · subst hji
      rw [put_hub_self, ← heq]
      exact hshow
    · have hold : Function.update n.reached i true j = true := hj
      rw [Function.update_of_ne hji, h.unreached hnone j] at hold
      cases hold

/-- The step of an edit. The new record ranks above the tombstone, except that an extension may be
stamped in the tombstone's second: then no hub ended the ban yet, and `Outranks` keeps that in
mind for the sweeps to come. -/
theorem NetInv.edited (h : NetInv p v ts n) (hv : recordValid .B v = true)
    (hmax : ts ≤ i64Max) {i : ι} {cmd : BanEdit} (hclear : EditClear p ts n (.edit i clk cmd)) :
    NetInv p v ts (n.step p (.edit i clk cmd)) := by
  obtain ⟨hnone, htarget, hway⟩ := hclear
  obtain ⟨e, he, hname, hfind, hrank, -, -, hval, -⟩ := (h.kept i).entry
  obtain ⟨r, hknown, hview⟩ := h.views i
  have hout := BanEdit.outcome (h.kept i) clk he hname htarget
  show NetInv p v ts (if (cmd.run clk (n.hub i)).2 = .ok then _ else _)
  -- the edit was made: it is the newest record on its hub
  by_cases hok : (cmd.run clk (n.hub i)).2 = .ok
  · rw [if_pos hok]
    obtain ⟨w, hedit, hwhich⟩ := hout.done hok
    obtain ⟨e', -, -, -, hrank', hheld, hfold, -, -⟩ := hedit.kept.entry
    generalize (cmd.run clk (n.hub i)).1 = t at hedit hheld hrank'
    rw [hnone] at hknown
    have hre : rankOf .B e'.value e'.timestamp = rankOf .B w (lwwNextTs clk e.timestamp) := by
      have hsame := hedit.view
      rwa [hrank', WithBot.coe_inj] at hsame
    have hstamp : e'.timestamp = lwwNextTs clk e.timestamp :=
      congrArg (fun x : Rank => (ofLex x).1) hre
    -- a stamp past the second of the tombstone outranks it
    have hlater : ∀ {t' : Int}, satSucc ts < t' → e'.timestamp = t' →
        rankOf .B (tombstoneOf .B v) (satSucc ts) ≤ rankOf .B e'.value e'.timestamp := by
      intro t' hlt heq
      rw [rankOf_tombstone hv, rankOf, Prod.Lex.toLex_le_toLex]
      exact .inl (heq ▸ hlt)
    have habove : Outranks v ts n.Ended (e'.value, e'.timestamp) := by
      rw [hrank, WithBot.coe_inj] at hview
      have hnew := hedit.above
      rw [hview, ← hre] at hnew
      -- what the hub held before: the ban, its tombstone, or an edit, of which there was none
      rcases hknown with hr | ⟨hr, -⟩ | ⟨ed, hed, -⟩
      · have hts : e.timestamp = ts := congrArg (fun x : Rank => (ofLex x).1) (hview.trans hr)
        rw [hts] at hstamp
        rcases lt_or_eq_of_le (satSucc_le_lwwNextTs clk hmax) with hlt | heq
        · exact .inl (hlater hlt hstamp)
        -- the second of the tombstone: a delete is the tombstone itself
        rcases hwhich with htomb | ⟨hadd, hlive⟩
        · refine .inl ?_
          rw [hre, htomb, hts, ← heq, rankOf_tombstone hv, rankOf_tombstone hval]
        -- an add in that second is allowed only where no sweep has ended the ban
        · rcases hway with hcmd | hlate | hpast | hfresh
          · exact absurd hcmd hadd
          · have hge := satSucc_ge hmax
            rw [lwwNextTs, if_pos (lt_of_le_of_lt hge hlate)] at heq
            omega
          · exact absurd hts (hpast e hfind)
          · have hact : (!recActive .B e'.value) = !recActive .B w :=
              congrArg (fun x : Rank => (ofLex (ofLex x).2).1) hre
            refine .inr ⟨?_, hr ▸ hnew, ?_, hstamp.trans heq.symm⟩
            · rintro ⟨j, hj⟩
              rw [hfresh j] at hj
              cases hj
            · rw [← Bool.not_not (recActive .B e'.value), hact, Bool.not_not]
              exact hlive
      · exact .inl (hr ▸ hnew).le
      · cases hed
    exact h.of_edit hnone i hedit.kept hheld hrank' hfold habove
  -- the edit was refused, and the net is what it was
  · rw [if_neg hok, hout.refused hok]
    refine h.put (h.kept i) hknown hview (fun ed hed => ?_) fun hno hi => ?_
    · rw [hnone] at hed
      cases hed
    · have hsame := h.swept hno i hi
      rwa [hview, WithBot.coe_inj] at hsame

/-- The step of a record that arrives. The hub shows the join of what it showed and what arrived,
both of which are known, or it refuses the record as stamped too far ahead, and then it is not
reached by it. -/
theorem NetInv.deliver (h : NetInv p v ts n) (hv : recordValid .B v = true)
    (hlive : recActive .B v = true) (hpos : 0 < ts) (hmax : ts ≤ i64Max) (i : ι) (value : Str)
    (at_ : Int) :
    NetInv p v ts (n.step p (.deliver i clk value at_)) := by
  -- only what was sent arrives, and only in the form the hub takes
  show NetInv p v ts (if !n.wire.any (sameBan (value, at_)) || !recordValid .B value
    then n else _)
  split
  · exact h
  rename_i hsent
  simp only [Bool.or_eq_true, Bool.not_eq_true', not_or, Bool.not_eq_false] at hsent
  obtain ⟨w, hw, hsame⟩ := List.any_eq_true.mp hsent.1
  simp only [sameBan, Bool.and_eq_true, beq_iff_eq] at hsame
  obtain ⟨hfold, hwknown⟩ := h.wire w hw
  have hid : foldIdent .B value = p := hsame.1.trans hfold
  have hknown : Known v ts n.Ended n.edit (rankOf .B value at_) := hsame.2 ▸ hwknown
  obtain ⟨r, hr, hview⟩ := h.views i
  obtain ⟨hkept, hafter⟩ := (h.kept i).put_any clk at_ hid
  -- whatever the store makes of it, the register is the old one or the join
  obtain ⟨r', hr', hjoin⟩ := hr.join hknown
  have hshows : ∃ q, Known v ts n.Ended n.edit q ∧ r ≤ q
    ∧ recordView (putRecord clk (n.hub i) .B value at_).1
      (banName p) = (q : WithBot Rank) := by
    rcases hafter with hold | hnew
    · exact ⟨r, hr, le_refl r, hold.trans hview⟩
    · rw [hview, hjoin] at hnew
      refine ⟨r', hr', ?_, hnew⟩
      rw [← WithBot.coe_le_coe, ← hjoin]
      exact le_sup_left
  obtain ⟨q, hq, hle, hqview⟩ := hshows
  -- a hub that the edit had reached stays on it, for nothing that is known ranks higher
  have hput : NetInv p v ts (n.put p i (putRecord clk (n.hub i) .B value at_).1) := by
    refine h.put hkept hq hqview (fun ed hed hi => ?_) fun hno hi => ?_
    · have heq := h.reached ed hed i hi
      rw [hview, WithBot.coe_inj] at heq
      rw [Option.mem_def.mp hed] at hq
      exact le_antisymm (hq.le hv hlive hmax (h.edit ed hed).2) (heq ▸ hle)
    · have heq := h.swept hno i hi
      rw [hview, WithBot.coe_inj] at heq
      rw [hno] at hq
      rcases hq with rfl | ⟨rfl, -⟩ | ⟨ed, hed, -⟩
      · exact absurd (heq ▸ hle) (not_le.mpr (rank_le_tombstone hv hlive hmax))
      · rfl
      · cases hed
  -- the hub counts as reached if what arrived is the edit and is not stamped ahead
  show NetInv p v ts (if n.edit.any (sameBan (value, at_)) && !tsAhead clk at_ then _ else _)
  split
  · rename_i hgot
    simp only [Bool.and_eq_true, Bool.not_eq_true'] at hgot
    obtain ⟨ed, hed, hsameEd⟩ := (Option.any_eq_true _ _).mp hgot.1
    simp only [sameBan, Bool.and_eq_true, beq_iff_eq] at hsameEd
    have hedAbove := (h.edit ed hed).2
    have hat : 0 < at_ := by
      have hstamp : at_ = ed.2 := congrArg (fun x : Rank => (ofLex x).1) hsameEd.2
      have hsucc := satSucc_ge hmax
      have hge := hedAbove.stamp hv
      omega
    have hexact := ((h.kept i).put clk hsent.2 hid hat hgot.2).2
    have hreal : recordView (putRecord clk (n.hub i) .B value at_).1 (banName p)
        = (rankOf .B ed.1 ed.2 : WithBot Rank) := by
      rw [hexact, hview, hsameEd.2, ← WithBot.coe_sup, sup_eq_right.mpr]
      rw [Option.mem_def.mp hed] at hr
      exact hr.le hv hlive hmax hedAbove
    -- its register shows the edit now
    refine { hput with
      unreached := fun hno => absurd (hno.symm.trans hed) (by simp)
      reached := fun ed' hed' j hj => ?_ }
    have hone : ed' = ed := Option.some.inj (Option.mem_def.mp hed' |>.symm.trans hed)
    by_cases hji : j = i
    · subst hji
      show recordView ((n.put p j _).hub j) (banName p) = _
      rw [put_hub_self, hreal, hone]
    · refine hput.reached ed' hed' j ?_
      have hold : Function.update n.reached i true j = true := hj
      rwa [Function.update_of_ne hji] at hold
  · exact hput

/-! ### Whole runs -/

omit [DecidableEq ι] in
/-- The invariant holds before anything happens: each hub has the ban as it was set. -/
theorem BanNet.Start.inv (h : n.Start p v ts) : NetInv p v ts n where
  kept i := by
    have hs := storeInv_of_reachable (h.hubs i)
    obtain ⟨e, he, hmodes, hid, hrank⟩ := (recordView_eq_coe_iff hs).mp (h.held i)
    have hkey : e.key = .B := congrArg Prod.fst hid
    refine banKept_of_live hs he hid ?_
    rw [hkey] at hrank
    have hact : (!recActive .B e.value) = !recActive .B v :=
      congrArg (fun x : Rank => (ofLex (ofLex x).2).1) hrank
    rw [entryActive, hkey, ← Bool.not_not (recActive .B e.value), hact, Bool.not_not]
    exact h.live
  views i := ⟨_, .inl rfl, h.held i⟩
  wire w hw := by
    rw [h.wire] at hw
    cases hw
  edit ed hed := by
    rw [h.edit] at hed
    cases hed
  unreached _ := h.reached
  reached ed hed := by
    rw [h.edit] at hed
    cases hed
  swept _ i hi := by
    rw [h.swept i] at hi
    cases hi

/-- However the sweeps of the hubs and the records they send fall, every hub the edit reaches ends
with it, as long as every step is `EditClear`; and without an edit every hub that swept the ban
ends with one tombstone of one stamp.

`hstart`: all hubs hold the ban as it was set. `hclear` is a condition on the steps of the run,
each in the state it is taken in. The induction is on the events, with `NetInv` as its
invariant. -/
theorem edit_outlasts_sweeps (hstart : n.Start p v ts) {es : List (BanEvent ι)}
    (hclear : Lww.Along (EditClear p ts) (BanNet.step p) n es) :
    (∀ ed ∈ (es.foldl (BanNet.step p) n).edit, ∀ i, (es.foldl (BanNet.step p) n).reached i = true
    →
        recordView ((es.foldl (BanNet.step p) n).hub i) (banName p)
          = (rankOf .B ed.1 ed.2 : WithBot Rank))
      ∧ ((es.foldl (BanNet.step p) n).edit = none →
        ∀ i, (es.foldl (BanNet.step p) n).swept i = true →
        recordView ((es.foldl (BanNet.step p) n).hub i) (banName p)
          = (rankOf .B (tombstoneOf .B v) (satSucc ts) : WithBot Rank)) := by
  have hstep : ∀ (m : BanNet ι) (ev : BanEvent ι), NetInv p v ts m → EditClear p ts m ev →
      NetInv p v ts (m.step p ev) := by
    intro m ev hm hev
    cases ev with
    | sweep i clk => exact hm.sweep hstart.valid hstart.stamp.2 hev
    | edit i clk cmd => exact hm.edited hstart.valid hstart.stamp.2 hev
    | deliver i clk value t =>
        exact hm.deliver hstart.valid hstart.live hstart.stamp.1 hstart.stamp.2 i value t
  have hinv := Lww.inv_run hstep hstart.inv hclear
  exact ⟨hinv.reached, hinv.swept⟩

end Net

/-! ### Two hubs and one second -/

/-- A ban of the network that runs out one second after it was made. -/
def briefBan : Str := "*|*!*@x|1700000001||adm||add".toList

/-- Its name. -/
def briefName : Str := "*|*!*@x".toList

/-- A hub that holds the ban. -/
def briefHub : HubState := runStore {} [⟨{ now := 1700000000 }, .put .B briefBan 1700000000⟩]

/-- Two hubs that hold the ban. -/
def briefNet : BanNet Bool := { hub := fun _ => briefHub }

/-- The hub of the example holds its ban. -/
private theorem briefHub_held : recordView briefHub (banName briefName)
    = (rankOf .B briefBan 1700000000 : WithBot Rank) := by decide +kernel

/-- So the mesh of the example is one that the theorem is about. -/
theorem briefNet_start : briefNet.Start briefName briefBan 1700000000 where
  hubs _ := ⟨_, rfl⟩
  held _ := briefHub_held
  name := by decide
  live := by decide
  stamp := by decide
  valid := by decide +kernel
  wire := rfl
  edit := rfl
  reached _ := rfl
  swept _ := rfl

/-- The extension of the ban, made at one hub. -/
def extension : BanEdit := .add ['*'] "*!*@x".toList 1700003600 false "adm".toList []

/-- What it stores. -/
def extendedBan : Str := "*|*!*@x|1700003600||adm||add".toList

/-- The other hub sweeps before the extension reaches it, and its tombstone comes back. -/
def sweptFirst (now : Int) : List (BanEvent Bool) :=
  [.sweep false { now := 1700000001 }, .edit true { now := now } extension,
    .deliver false { now := 1700000005 } extendedBan now,
    .deliver true { now := 1700000005 } "*|*!*@x|0||||del".toList 1700000001]

/-- Nobody sweeps before the extension is everywhere. A sweep after that finds a ban that runs. -/
def sweptLast : List (BanEvent Bool) :=
  [.edit true { now := 1700000001 } extension,
    .deliver false { now := 1700000005 } extendedBan 1700000001,
    .sweep false { now := 1700000005 }]

/-- Made two seconds after the ban, the extension is what both end with; and so it is when it was
made in the second of the tombstone, where no hub ended the ban. -/
theorem edit_outlasts_sweeps_brief :
    recordView (((sweptFirst 1700000002).foldl (BanNet.step briefName) briefNet).hub true)
        (banName briefName) = (rankOf .B extendedBan 1700000002 : WithBot Rank)
      ∧ recordView (((sweptFirst 1700000002).foldl (BanNet.step briefName) briefNet).hub false)
        (banName briefName) = (rankOf .B extendedBan 1700000002 : WithBot Rank)
      ∧ ∀ i, recordView ((sweptLast.foldl (BanNet.step briefName) briefNet).hub i)
        (banName briefName) = (rankOf .B extendedBan 1700000001 : WithBot Rank) := by
  have hclear : Lww.Along (EditClear briefName 1700000000) (BanNet.step briefName) briefNet
      (sweptFirst 1700000002) := by
    refine ⟨fun e he _ => ?_, ⟨rfl, by decide, .inr (.inl (by decide))⟩, trivial,
      trivial, trivial⟩
    have hheld : banHeld briefHub briefName = some (briefBan, 1700000000) := by decide +kernel
    have hentry : banEntry briefHub briefName = some e := he
    rw [banHeld, hentry, Option.map_some, Option.some.injEq, Prod.mk.injEq] at hheld
    exact ⟨hheld.2, fun ed hed => (nomatch hed)⟩
  have hlast : Lww.Along (EditClear briefName 1700000000) (BanNet.step briefName) briefNet
      sweptLast := by
    refine ⟨⟨rfl, by decide, .inr (.inr (.inr fun _ => rfl))⟩, trivial, fun e he hexp => ?_,
      trivial⟩
    have hruns : (banEntry (((sweptLast.take 2).foldl (BanNet.step briefName) briefNet).hub false)
        briefName).all (fun e => !banExpired 1700000005 e) = true := by decide +kernel
    have hno := (Option.all_eq_true _ _).mp hruns e he
    rw [hexp] at hno
    cases hno
  have hedit : ((sweptFirst 1700000002).foldl (BanNet.step briefName) briefNet).edit
      = some (extendedBan, 1700000002) := by decide +kernel
  have hreached : ((sweptFirst 1700000002).foldl (BanNet.step briefName) briefNet).reached true
    = true
      ∧ ((sweptFirst 1700000002).foldl (BanNet.step briefName) briefNet).reached false
        = true := by
    decide +kernel
  have heditLast : (sweptLast.foldl (BanNet.step briefName) briefNet).edit
      = some (extendedBan, 1700000001) := by decide +kernel
  have hreachedLast : ∀ i, (sweptLast.foldl (BanNet.step briefName) briefNet).reached i
      = true := by decide +kernel
  exact ⟨(edit_outlasts_sweeps briefNet_start hclear).1 _ hedit true hreached.1,
    (edit_outlasts_sweeps briefNet_start hclear).1 _ hedit false hreached.2, fun i =>
      (edit_outlasts_sweeps briefNet_start hlast).1 _ heditLast i (hreachedLast i)⟩

/-- Made in the second of the tombstone, it is newer than the ban, reaches both hubs, and neither
keeps it. -/
theorem extension_lost :
    briefNet.Start briefName briefBan 1700000000
      ∧ ((sweptFirst 1700000001).foldl (BanNet.step briefName) briefNet).edit
        = some (extendedBan, 1700000001)
      ∧ (∀ i, ((sweptFirst 1700000001).foldl (BanNet.step briefName) briefNet).reached i = true)
      ∧ ∀ i, banHeld (((sweptFirst 1700000001).foldl (BanNet.step briefName) briefNet).hub i)
        briefName = some ("*|*!*@x|0||||del".toList, 1700000001) :=
  ⟨briefNet_start, by decide +kernel, by decide +kernel, by decide +kernel⟩

end IrcHub.Proofs
