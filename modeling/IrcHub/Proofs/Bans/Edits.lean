import IrcHub.Proofs.Bans.Register

/-!
# `IrcHub.Proofs.Bans.Edits`: the commands that edit a ban

What an admin does to a ban that the hub holds. `banAdd` over a held ban and `banDel` write one
record each, stamped past the one that is there (`BanEdited`). So what they leave ranks above what
they found, on this hub and on every other one that holds the same.

- `BanKept.storeRecord`: a record stored past the one that is there wins, since its stamp is
  greater
- `storeRecord_refused`: a write that is refused leaves the state, for no room was made: the
  record it would replace is there
- `Outcome`: what a command did if it says that it was done, and that it did nothing if it does
  not
- `banAdd_edited`, `banDel_edited`: the two commands

The command names the ban in its own spelling, and the record keeps the stored one. `BanEdited` is
therefore about the name up to case.

Nothing is assumed about the clock. A clock behind the stamp of the record gives the next second
after that stamp (`lwwNextTs`), which is why the result is about ranks and not about times.
-/

set_option autoImplicit false

namespace IrcHub.Proofs

open IrcHub.Hub Str
open String (utf8Len)

/-- What a command that edits the ban `p` did: the record `e` gave way to value `v`. `above` is
the point: the new rank is greater than the one it replaced. `view` says that the hub shows it. -/
structure BanEdited (clk : Clock) (p : Str) (s : HubState) (e : GlobalEntry) (v : Str)
    (t : HubState) :
    Prop where
  kept : BanKept p t
  valid : recordValid .B v = true
  name : foldIdent .B v = p
  above : rankOf .B e.value e.timestamp < rankOf .B v (lwwNextTs clk e.timestamp)
  view : recordView t (banName p) = (rankOf .B v (lwwNextTs clk e.timestamp) : WithBot Rank)

section Edits

variable {p : Str} {clk : Clock} {s : HubState} {e : GlobalEntry}

/-- The identity of a ban, from its two parts. -/
theorem foldIdent_pair {chan mask : Str} (rest : Str) (hchan : '|' ∉ chan) (hmask : '|' ∉ mask)
    (hrest : rest = [] ∨ ∃ r, rest = '|' :: r) :
    foldIdent .B (chan ++ '|' :: mask ++ rest) = lower chan ++ '|' :: lower mask := by
  have hcount : (chan ++ '|' :: mask).count '|' = 1 := by
    simp [List.count_eq_zero.mpr hchan, List.count_eq_zero.mpr hmask]
  have hcut : IsCut '|' 1 (chan ++ '|' :: mask) rest := by
    rcases hrest with rfl | ⟨r, rfl⟩
    · exact .inr ⟨hcount.le, rfl⟩
    · exact .inl ⟨hcount, r, rfl⟩
  have hident : ident .B (chan ++ '|' :: mask ++ rest) = chan ++ '|' :: mask :=
    congrArg Prod.fst (cut_append_of_isCut hcut)
  show lower (ident .B _) = _
  rw [hident, lower_append, lower_cons]
  rfl

/-- What was stored has passed the checks of a put. -/
theorem putOk_of_stored {k : GlobalKey} {v : Str} {ts : Int}
    (h : (putRecord clk s k v ts).2 = true) :
    PutOk clk k v ts := by
  have hres := putRecord_result clk s k v ts
  generalize putRecord clk s k v ts = r at h hres
  cases hres with
  | refused => cases h
  | rewrote i e hok => exact hok
  | new hok => exact hok
  | evicted s' hok => exact hok
  | onlyEvicted s' => cases h

/-- A record stored past the one that is there is what the hub shows from then on. `hid` says that
the value names the same ban, `hok` that the store took it. -/
theorem BanKept.storeRecord (h : BanKept p s) (he : e ∈ s.globalEntries)
    (hname : idOf e = banName p) {v : Str} (hid : foldIdent .B v = p)
    (hok : (storeRecord clk s .B v e.timestamp).2 = true) :
    BanEdited clk p s e v (Hub.storeRecord clk s .B v e.timestamp).1 := by
  obtain ⟨i, hget⟩ := List.mem_iff_getElem?.mp he
  unfold Hub.storeRecord at hok ⊢
  simp only [] at hok ⊢
  by_cases hput : (putRecord clk s .B v (lwwNextTs clk e.timestamp)).2 = true
  · rw [if_pos hput]
    have hgood := putOk_of_stored hput
    have heq := h.put_eq hget hname hgood.valid hid hgood.pos hgood.notAhead
    by_cases hlt : rankOf .B e.value e.timestamp < rankOf .B v (lwwNextTs clk e.timestamp)
    · obtain ⟨hkept, hview⟩ := h.put clk hgood.valid hid hgood.pos hgood.notAhead
      have hkey : e.key = .B := congrArg Prod.fst hname
      have hheld := recordView_of_mem h.store he (by rw [hkey]; rfl)
      rw [hname, hkey] at hheld
      rw [hheld, ← WithBot.coe_sup, sup_eq_right.mpr hlt.le] at hview
      generalize (putRecord clk s .B v (lwwNextTs clk e.timestamp)).1 = t at hkept hview ⊢
      unfold announceRecord
      simp only []
      split
      · exact ⟨⟨hkept.store, hkept.held, hkept.room⟩, hgood.valid, hid, hlt, hview⟩
      · exact ⟨hkept, hgood.valid, hid, hlt, hview⟩
    · rw [heq, if_neg hlt] at hput
      cases hput
  · rw [if_neg hput] at hok
    exact absurd hok hput

/-- A ban that is not stored leaves the state: the record it would replace is there, so no room
was made for it before it was refused. -/
theorem storeRecord_refused (h : BanKept p s) (he : e ∈ s.globalEntries)
    (hname : idOf e = banName p) {v : Str} (hid : foldIdent .B v = p)
    (hno : ¬ (Hub.storeRecord clk s .B v e.timestamp).2 = true) :
    (Hub.storeRecord clk s .B v e.timestamp).1 = s := by
  obtain ⟨i, hget⟩ := List.mem_iff_getElem?.mp he
  unfold Hub.storeRecord at hno ⊢
  simp only [] at hno ⊢
  by_cases hput : (putRecord clk s .B v (lwwNextTs clk e.timestamp)).2 = true
  · rw [if_pos hput] at hno
    exact absurd rfl hno
  · rw [if_neg hput]
    by_cases hgood : PutOk clk .B v (lwwNextTs clk e.timestamp)
    · rw [h.put_eq hget hname hgood.valid hid hgood.pos hgood.notAhead] at hput ⊢
      split at hput
      · exact absurd rfl hput
      · rename_i hlt
        rw [if_neg hlt]
    · exact put_of_not_ok hgood

/-- Lower case brings no bar in. -/
theorem bar_notMem_lower {t : Str} (h : '|' ∉ t) : '|' ∉ lower t := by
  rw [← List.count_eq_zero, count_bar_lower]
  exact List.count_eq_zero.mpr h

/-- The channel of a live record, under the name it was asked for. It is spelled as the record has
it, which differs from the name asked for in case only. -/
theorem chanLive_spelled (hs : StoreInv s) {chan name : Str} (hlen : utf8Len chan < maxChan)
    (hbar : '|' ∉ chan) (h : chanLive s chan = some name) : lower name = lower chan
    ∧ '|' ∉ name := by
  unfold chanLive at h
  split at h
  · cases h
  rename_i i hfind
  obtain ⟨a, ha, -, hheld⟩ := hs.sound.held .c chan i hfind
  rw [ha] at h
  simp only [] at h
  split at h
  · have hfirst : firstField chan = chan := firstField_of_bar_notMem hbar
    have hname : lower (firstField a.value) = lower chan := by
      rw [(hheld rfl).short (by rw [hfirst]; omega), hfirst]
    have hshort : utf8Len (firstField a.value) < maxChan := by
      rw [utf8Len_eq_of_lower_eq hname]
      exact hlen
    rw [trunc_of_lt hshort, Option.some.injEq] at h
    subst h
    exact ⟨hname, bar_notMem_firstField _⟩
  · cases h

/-- A ban lookup by channel and mask finds the ban of that name. -/
theorem banFind_of_name (h : BanKept p s) {i : Nat} (hget : s.globalEntries[i]? = some e)
    (hname : idOf e = banName p) {chan mask : Str} (hchan : '|' ∉ chan) (hmask : '|' ∉ mask)
    (hclen : utf8Len chan < maxChan) (hmlen : utf8Len mask ≤ banMaskMax)
    (hp : lower chan ++ '|' :: lower mask = p) : banFind s chan mask = some i := by
  have hlen : utf8Len (chan ++ '|' :: mask) < maxChan + banMaskMax + 4 := by
    rw [String.utf8Len_append, String.utf8Len_cons]
    have hbar : Char.utf8Size '|' = 1 := rfl
    omega
  have hkey : e.key = .B := congrArg Prod.fst hname
  have hfind := h.store.find_of_ident_eq hget (w := chan ++ '|' :: mask) (by rw [hkey]; rfl) (by
    have hpair := foldIdent_pair [] hchan hmask (.inl rfl)
    rw [List.append_nil] at hpair
    rw [hkey, hpair, hp, ← hkey]
    exact (congrArg Prod.snd hname).symm)
  rw [banFind, trunc_of_lt hlen, ← hfind, hkey]

/-- `G` holds of the state a command left if it answers that it was done. If it does not, the
command left the hub as it was. -/
structure Outcome (G : HubState → Prop) (s : HubState) (x : HubState × ModesStatus) : Prop where
  done : x.2 = .ok → G x.1
  refused : x.2 ≠ .ok → x.1 = s

/-- A check that refuses leaves the state, and what follows is only asked where it passes. -/
private theorem Outcome.guard {G : HubState → Prop} {q : Prop} [Decidable q] {st : ModesStatus}
    {x : HubState × ModesStatus} (hst : q → st ≠ .ok) (hx : ¬ q → Outcome G s x) :
    Outcome G s (if q then (s, st) else x) :=
  iteInduction (motive := Outcome G s)
    (fun hq => ⟨fun hok => absurd hok (hst hq), fun _ => rfl⟩) hx

/-- The store at the end of an edit: done if it took the ban, else the state is as it was. -/
private theorem Outcome.stored {G : HubState → Prop} (h : BanKept p s) (he : e ∈ s.globalEntries)
    (hname : idOf e = banName p) {v : Str} {st : ModesStatus} (hid : foldIdent .B v = p)
    (hst : st ≠ .ok) (hG : ∀ t, BanEdited clk p s e v t → G t) :
    Outcome G s ((Hub.storeRecord clk s .B v e.timestamp).1,
      if (Hub.storeRecord clk s .B v e.timestamp).2 then .ok else st) := by
  by_cases hput : (Hub.storeRecord clk s .B v e.timestamp).2 = true
  · refine ⟨fun _ => hG _ (h.storeRecord he hname hid hput), fun hno => absurd ?_ hno⟩
    simp only [hput, if_true]
  · refine ⟨fun hok => ?_, fun _ => storeRecord_refused h he hname hid hput⟩
    simp only [hput] at hok
    exact absurd hok hst

/-- `banAdd` over a held ban: what it stores is live. `hp` says that the command names the ban
`p`. The checks in front of the write are the guards of the outcome, and each of them leaves the
state. -/
theorem banAdd_edited (h : BanKept p s) (he : e ∈ s.globalEntries) (hname : idOf e = banName p)
    (clk : Clock) {chan mask : Str} (expires : Int) (sticky : Bool) (setter reason : Str)
    (hp : foldIdent .B (chan ++ '|' :: mask) = p) :
    Outcome (fun t => ∃ v, BanEdited clk p s e v t ∧ recActive .B v = true) s
      (banAdd clk s chan mask expires sticky setter reason) := by
  obtain ⟨i, hget⟩ := List.mem_iff_getElem?.mp he
  have hkey : e.key = .B := congrArg Prod.fst hname
  have hfold : foldIdent .B e.value = p := hkey ▸ congrArg Prod.snd hname
  have hvalid := ((h.store.entryOk e he).modes (by rw [hkey]; rfl)).1
  rw [hkey] at hvalid
  obtain ⟨f, hf⟩ := recordValid_ban_iff.mp hvalid
  -- the checks before the channel is looked up
  unfold banAdd
  refine Outcome.guard (by simp) fun _ => Outcome.guard (by simp) fun hshape => ?_
  split
  · exact ⟨fun hok => (nomatch hok), fun _ => rfl⟩
  rename_i cname hcname
  refine Outcome.guard (by simp) fun hmaskOk => ?_
  rw [Bool.not_eq_true', Bool.not_eq_false] at hmaskOk
  -- the stored spelling of the channel
  have hchan : '|' ∉ chan ∧ utf8Len chan < maxChan ∧ lower cname = lower chan ∧ '|' ∉ cname := by
    by_cases hstar : chan = ['*']
    · subst hstar
      have hsome : some ['*'] = some cname := hcname
      rw [Option.some.injEq] at hsome
      subst hsome
      exact ⟨by decide, by decide, rfl, by decide⟩
    · have hbeq : (chan == ['*']) = false := beq_eq_false_iff_ne.mpr hstar
      rw [hbeq] at hshape hcname
      have hcok : recChanOk chan false = true := by simpa [chanNameShape] using hshape
      have hbar := bar_notMem_of_recChanOk hcok
      have hlen : utf8Len chan < maxChan := Nat.lt_succ_of_le (utf8Len_le_of_recChanOk hcok)
      exact ⟨hbar, hlen, chanLive_spelled h.store hlen hbar hcname⟩
  obtain ⟨hbar, hclen, hlower, hcbar⟩ := hchan
  -- the ban is found under the stored channel name
  have hmbar := bar_notMem_of_recMaskOk hmaskOk
  have hpair := foldIdent_pair [] hbar hmbar (.inl rfl)
  rw [List.append_nil, hp] at hpair
  have hcn : utf8Len cname < maxChan := by
    rw [utf8Len_eq_of_lower_eq hlower]
    exact hclen
  have hfind := banFind_of_name h hget hname hcbar hmbar hcn (utf8Len_le_of_recMaskOk hmaskOk)
    (by rw [hlower]; exact hpair.symm)
  -- the mask keeps its stored spelling
  have hmname : field e.value 1 (banMaskMax + 1) = f.mask := by
    rw [hf]
    exact (field_ban f).2
  have hfmask : lower f.mask = lower mask := by
    have hown : foldIdent .B f.text = lower f.chan ++ '|' :: lower f.mask := by
      show lower (ident .B f.text) = _
      rw [ident_ban, lower_append, lower_cons]
      rfl
    rw [hf, hown, hpair] at hfold
    exact ((List.append_cons_inj_of_notMem (bar_notMem_lower (bar_notMem_of_recChanOk f.chanOk))
      (bar_notMem_lower (bar_notMem_of_recMaskOk f.maskOk))).mp hfold).2.2
  -- the record that is rewritten is the one held
  have hheld : (banFind s cname mask).bind (s.globalEntries[·]?) = some e := by
    rw [hfind]
    exact hget
  rw [hheld]
  -- the checks of the time, the setter and the reason; then the write
  refine Outcome.guard (by simp) fun _ => Outcome.guard (by simp) fun _ =>
    Outcome.guard id fun _ => Outcome.guard (by simp) fun _ => Outcome.guard (by simp) fun _ => ?_
  refine Outcome.stored h he hname ?_ (by simp) fun t hedit => ⟨_, hedit, ?_⟩
  -- what is stored names the same ban
  · have hrest := foldIdent_pair ('|' :: (ofInt expires ++ '|' ::
      ((if sticky then ['s'] else []) ++ '|'
      :: (setterText setter ++ '|' :: (reason ++ "|add".toList))))) hcbar
      (bar_notMem_of_recMaskOk f.maskOk) (.inr ⟨_, rfl⟩)
    rw [hlower, hfmask, ← hpair] at hrest
    show foldIdent .B (cname ++ '|' :: field e.value 1 (banMaskMax + 1) ++ '|' :: ofInt expires
      ++ '|' :: (if sticky then ['s'] else []) ++ '|' :: setterText setter ++ '|' :: reason
      ++ "|add".toList) = p
    rw [hmname, ← hrest]
    simp only [List.append_assoc, List.cons_append]
  -- and it is live
  · show globalValueActive (_ ++ '|' :: "add".toList) = true
    rw [globalValueActive_of_op (by decide)]
    decide

/-- `banDel` over a held ban writes the tombstone of the value that is there, one that every hub
writes alike. -/
theorem banDel_edited (h : BanKept p s) (he : e ∈ s.globalEntries) (hname : idOf e = banName p)
    (clk : Clock) {chan mask : Str} (hp : foldIdent .B (chan ++ '|' :: mask) = p) :
    Outcome (BanEdited clk p s e (tombstoneOf .B e.value)) s (banDel clk s chan mask) := by
  obtain ⟨i, hget⟩ := List.mem_iff_getElem?.mp he
  have hkey : e.key = .B := congrArg Prod.fst hname
  have hfold : foldIdent .B e.value = p := hkey ▸ congrArg Prod.snd hname
  have hvalid := ((h.store.entryOk e he).modes (by rw [hkey]; rfl)).1
  rw [hkey] at hvalid
  have htomb := tombstoneOf_spec (.inr rfl) hvalid
  have hname' : foldIdent .B (tombstoneOf .B e.value) = p := by
    rw [← hfold, foldIdent, foldIdent, htomb.ident]
  unfold banDel
  refine Outcome.guard (by simp) fun _ => Outcome.guard (by simp) fun hshape =>
    Outcome.guard (by simp) fun hmaskOk => ?_
  rw [Bool.not_eq_true', Bool.not_eq_false] at hmaskOk
  have hchan : '|' ∉ chan ∧ utf8Len chan < maxChan := by
    by_cases hstar : chan = ['*']
    · subst hstar
      exact ⟨by decide, by decide⟩
    · have hcok : recChanOk chan false = true := by
        simpa [chanNameShape, hstar] using hshape
      exact ⟨bar_notMem_of_recChanOk hcok, Nat.lt_succ_of_le (utf8Len_le_of_recChanOk hcok)⟩
  have hmbar := bar_notMem_of_recMaskOk hmaskOk
  have hpair := foldIdent_pair [] hchan.1 hmbar (.inl rfl)
  rw [List.append_nil, hp] at hpair
  have hfind := banFind_of_name h hget hname hchan.1 hmbar hchan.2
    (utf8Len_le_of_recMaskOk hmaskOk) hpair.symm
  have hheld : (banFind s chan mask).bind (s.globalEntries[·]?) = some e := by
    rw [hfind]
    exact hget
  rw [hheld]
  refine Outcome.guard (by simp) fun hlive => ?_
  rw [Bool.not_eq_true', Bool.not_eq_false] at hlive
  rw [sweepTombstone_eq hvalid]
  exact Outcome.stored h he hname hname' (by simp) fun t hedit => hedit

end Edits

end IrcHub.Proofs
