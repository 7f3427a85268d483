import IrcHub.Proofs.Bans.Sweep

/-!
# `IrcHub.Proofs.Bans.Register`: a held ban as one register

The sweeps and the edits of a ban are about one record of the table. This module takes a hub that
holds the ban for a register with one value, the rank of that record.

- `BanKept`: the hub holds the ban, and its channel has room for it to be live
- `banKept_of_live`: a hub that holds it live does, since a live ban has its own place in the
  count
- `BanKept.put_eq`, `BanKept.put`: a record put is joined into the register of the ban
- `BanKept.sweep`: a sweep joins the tombstone in, where it ends the ban

The room is the point. A ban that comes back is refused at the ceiling of its channel, and then
the register would not be a join. For a hub that holds the ban that cannot happen: the ban's own
place is free (`BanKept.not_refused`), and the other bans of the channel are counted without it
(`otherBans`).

A record stamped too far ahead is not joined. It is refused by the clock before the ranks are
compared, so it stands as a hypothesis of the step (`hahead`).
-/

set_option autoImplicit false

namespace IrcHub.Proofs

open IrcHub.Hub Str
open String (utf8Len)

/-- The name of the register of a ban: its canonical channel and mask. -/
def banName (p : Str) : GlobalKey × Str := (.B, p)

/-- Live bans of a channel other than the ban `p`. -/
def otherBans (es : List GlobalEntry) (p c : Str) : Nat :=
  es.countP fun e => liveBanIn c e && !(idOf e == banName p)

/-- A hub that holds the ban `p`, with room in the channel for it to be live. -/
structure BanKept (p : Str) (s : HubState) : Prop where
  store : StoreInv s
  held : ∃ e ∈ s.globalEntries, idOf e = banName p
  room : otherBans s.globalEntries p (firstField p) < banCeiling (firstField p)

section Kept

variable {p : Str} {clk : Clock} {s : HubState}

/-- The channel of a ban, read from its name. -/
theorem lower_firstField_of_name {v : Str} (hid : foldIdent .B v = p) :
    lower (firstField v) = firstField p := by
  subst hid
  show _ = firstField (lower (ident .B v))
  rw [firstField_lower, firstField_ident]

/-- The ban of this name is a live one of its channel when it is live. -/
theorem liveBanIn_of_name {e : GlobalEntry} (hid : idOf e = banName p) :
    liveBanIn (firstField p) e = entryActive e := by
  have hkey : e.key = .B := congrArg Prod.fst hid
  have hfold : foldIdent .B e.value = p := hkey ▸ congrArg Prod.snd hid
  rw [liveBanIn, lower_firstField_of_name hfold, entryActive, hkey]
  simp [recActive]

/-- A live ban has its place in the count of its channel, so the others are fewer than the
ceiling. -/
theorem banKept_of_live (hs : StoreInv s) {e : GlobalEntry} (he : e ∈ s.globalEntries)
    (hid : idOf e = banName p) (hact : entryActive e = true) : BanKept p s where
  store := hs
  held := ⟨e, he, hid⟩
  room := by
    refine Nat.lt_of_lt_of_le ?_ (hs.capped.liveBans (firstField p))
    obtain ⟨before, after, hsplit⟩ := List.append_of_mem he
    have hle : ∀ l : List GlobalEntry,
        otherBans l p (firstField p) ≤ l.countP (liveBanIn (firstField p)) := by
      intro l
      refine List.countP_mono_left fun a _ ha => ?_
      rw [Bool.and_eq_true] at ha
      exact ha.1
    have hone : otherBans (e :: after) p (firstField p) = otherBans after p (firstField p) := by
      rw [otherBans, List.countP_cons_of_neg (by simp [hid])]
      rfl
    have hself : (e :: after).countP (liveBanIn (firstField p))
        = after.countP (liveBanIn (firstField p)) + 1 :=
      List.countP_cons_of_pos (by rw [liveBanIn_of_name hid, hact])
    have hbefore := hle before
    have hafter := hle after
    rw [hsplit, List.countP_append, hself]
    have hsum : otherBans (before ++ e :: after) p (firstField p)
        = otherBans before p (firstField p) + otherBans (e :: after) p (firstField p) :=
      List.countP_append
    omega

/-- The ban may come back. `hdead` says that it is not live now, so it is not among those counted,
and the others leave a place by the invariant. -/
theorem BanKept.not_refused (h : BanKept p s) {e : GlobalEntry} (he : e ∈ s.globalEntries)
    (hid : idOf e = banName p) (hdead : entryActive e = false) {w : Str}
    (hvalid : recordValid .B w = true) (hw : foldIdent .B w = p) : banRefused s w = false := by
  have hlen : utf8Len (firstField w) < maxChan := by
    obtain ⟨f, rfl⟩ := recordValid_ban_iff.mp hvalid
    rw [firstField_ban]
    exact Nat.lt_succ_of_le (utf8Len_le_of_recChanOk f.chanOk)
  have hcount : bansLiveIn s (firstField w) = otherBans s.globalEntries p (firstField p) := by
    rw [bansLiveIn, lower_firstField_of_name hw, h.store.counted.banChan, otherBans]
    refine List.countP_congr fun a ha => ?_
    by_cases hname : idOf a = banName p
    · -- the only entry of this name is the dead one
      have hkey : a.key = .B := congrArg Prod.fst hname
      have hmodes : keyIsModes a.key = true := by rw [hkey]; rfl
      have heq : a = e := h.store.distinct.eq_of_hashOf_eq ha he hmodes
        (hashOf_eq_iff_idOf_eq.mpr (hname.trans hid.symm))
      rw [heq, liveBanIn_of_name hid, hdead]
      simp
    · simp [hname]
  have hroom := h.room
  rw [banRefused, hcount, ← banCeiling_lower, lower_firstField_of_name hw]
  simp only [Bool.or_eq_false_iff, decide_eq_false_iff_not, ge_iff_le, not_le]
  exact ⟨hlen, hroom⟩

/-- The register of a held ban. -/
theorem BanKept.register (h : BanKept p s) : ∃ e ∈ s.globalEntries, idOf e = banName p
    ∧ recordView s (banName p) = rankOf .B e.value e.timestamp := by
  obtain ⟨e, he, hid⟩ := h.held
  have hkey : e.key = .B := congrArg Prod.fst hid
  have hview := recordView_of_mem h.store he (by rw [hkey]; rfl)
  rw [hid, hkey] at hview
  exact ⟨e, he, hid, hview⟩

/-- A record of the ban replaces the one that is there exactly when it ranks higher, and is
refused otherwise. The three parts of the rank are the three comparisons of the acceptance
rule. -/
theorem BanKept.put_eq (h : BanKept p s) {i : Nat} {e : GlobalEntry}
    (hget : s.globalEntries[i]? = some e) (hname : idOf e = banName p) {v : Str} {ts : Int}
    (hvalid : recordValid .B v = true) (hid : foldIdent .B v = p) (hts : 0 < ts)
    (hahead : tsAhead clk ts = false) :
    putRecord clk s .B v ts = if rankOf .B e.value e.timestamp < rankOf .B v ts then
        (overwrite s i e (recNorm .B e.value v) ts (recActive .B v), true)
      else (s, false) := by
  have he := List.mem_of_getElem? hget
  have hkey : e.key = .B := congrArg Prod.fst hname
  have hsame : foldIdent .B e.value = foldIdent .B v := by
    rw [hid, ← hkey]
    exact congrArg Prod.snd hname
  have hfind : globalFind s .B v = some i := by
    have hf := h.store.find_of_ident_eq hget (w := v) (by rw [hkey]; rfl)
      (by rw [hkey]; exact hsame.symm)
    rwa [hkey] at hf
  have hold := ((h.store.entryOk e he).modes (by rw [hkey]; rfl)).1
  rw [hkey] at hold
  have hr := respelled hold hvalid hsame
  have hlen : ¬ utf8Len (recNorm .B e.value v) ≥ 1024 :=
    Nat.not_le.mpr (utf8Len_lt_of_recordValid hr.valid)
  have hact : entryActive e = recActive .B e.value := by rw [entryActive, hkey]
  unfold putRecord
  rw [if_neg (by simp [keyIsModes, hts, hahead]), if_neg (by simp [hvalid])]
  simp only [hfind, hget, putOver]
  rw [if_neg (by simp [hlen]), hact]
  by_cases hlt : rankOf .B e.value e.timestamp < rankOf .B v ts
  · have hrec := (recAccepts_iff rfl hahead).mpr hlt
    have hroom : ¬ (recActive .B v && !recActive .B e.value
      && banRefused s (recNorm .B e.value v)) = true := by
      intro hno
      simp only [Bool.and_eq_true, Bool.not_eq_true'] at hno
      have hfree := h.not_refused he hname (hact.trans hno.1.2) hr.valid
        (hr.ident.trans (hsame.trans hid))
      rw [hfree] at hno
      exact absurd hno.2 (by simp)
    rw [if_pos hlt, if_neg (by simp [hrec]), if_neg (by simpa using hroom)]
  · have hrec := mt (recAccepts_iff rfl hahead).mp hlt
    rw [if_neg hlt, if_pos (by simpa using hrec)]

/-- A record of the ban is joined into the register, unless it is ahead of the clock. The hub
keeps the ban either way. -/
theorem BanKept.put (h : BanKept p s) (clk : Clock) {v : Str} {ts : Int}
    (hvalid : recordValid .B v = true) (hid : foldIdent .B v = p) (hts : 0 < ts)
    (hahead : tsAhead clk ts = false) :
    BanKept p (putRecord clk s .B v ts).1
      ∧ recordView (putRecord clk s .B v ts).1 (banName p)
        = recordView s (banName p) ⊔ (rankOf .B v ts : WithBot Rank) := by
  obtain ⟨e, he, hname, hview⟩ := h.register
  have hkey : e.key = .B := congrArg Prod.fst hname
  have hsame : foldIdent .B e.value = foldIdent .B v := by
    rw [hid, ← hkey]
    exact congrArg Prod.snd hname
  obtain ⟨i, hget⟩ := List.mem_iff_getElem?.mp he
  have hstore := h.store.putRecord clk .B v ts
  have hput := h.put_eq hget hname hvalid hid hts hahead
  rw [hput] at hstore ⊢
  rw [hview, ← WithBot.coe_sup]
  by_cases hlt : rankOf .B e.value e.timestamp < rankOf .B v ts
  · rw [if_pos hlt] at hstore ⊢
    have hold := ((h.store.entryOk e he).modes (by rw [hkey]; rfl)).1
    rw [hkey] at hold
    have hr := respelled hold hvalid hsame
    have hname' : idOf { e with value := recNorm .B e.value v, timestamp := ts } = banName p := by
      rw [idOf, banName, Prod.mk.injEq]
      refine ⟨hkey, ?_⟩
      show foldIdent e.key (recNorm .B e.value v) = p
      rw [hkey, hr.ident, hsame, hid]
    refine ⟨⟨hstore, ?_, ?_⟩, ?_⟩
    · exact ⟨_, List.mem_set (List.getElem?_eq_some_iff.mp hget).1 _, hname'⟩
    · show otherBans (s.globalEntries.set i _) p (firstField p) < _
      rw [otherBans, Table.countP_set_of_eq hget (by simp [hname, hname'])]
      exact h.room
    · rw [recordView_overwrite (o := ⟨clk, .B, v, ts⟩) hstore hget rfl hkey hsame hr,
        sup_eq_right.mpr hlt.le, if_pos (by rw [banName, hid])]
  · rw [if_neg hlt]
    refine ⟨h, ?_⟩
    rw [hview, sup_eq_left.mpr (not_lt.mp hlt)]

/-- A put that fails a check changes nothing. -/
theorem put_of_not_ok {v : Str} {ts : Int} (hbad : ¬ PutOk clk .B v ts) :
    (putRecord clk s .B v ts).1 = s := by
  unfold putRecord
  split
  · rfl
  rename_i hok
  rw [if_pos]
  simp only [keyIsModes, Bool.or_eq_true, decide_eq_true_eq, not_or, not_le,
    Bool.not_eq_true, Bool.not_true, Bool.false_eq_true] at hok
  simp only [Bool.not_eq_true', ← Bool.not_eq_true]
  exact fun hv => hbad ⟨rfl, hok.1.2, hok.2, hv⟩

/-- What a put leaves when nothing is said about the record. -/
theorem BanKept.put_any (h : BanKept p s) (clk : Clock) {v : Str} (ts : Int)
    (hid : foldIdent .B v = p) :
    BanKept p (putRecord clk s .B v ts).1
      ∧ (recordView (putRecord clk s .B v ts).1 (banName p) = recordView s (banName p)
        ∨ recordView (putRecord clk s .B v ts).1 (banName p)
          = recordView s (banName p) ⊔ (rankOf .B v ts : WithBot Rank)) := by
  by_cases hgood : PutOk clk .B v ts
  · obtain ⟨hkept, hview⟩ := h.put clk hgood.valid hid hgood.pos hgood.notAhead
    exact ⟨hkept, .inr hview⟩
  · rw [put_of_not_ok hgood]
    exact ⟨h, .inl rfl⟩

/-! ### The sweep -/

/-- A sweep that takes place ends the ban. -/
def sweepEnds (clk : Clock) (s : HubState) (e : GlobalEntry) : Bool :=
  sweepDue clk s && banExpired clk.now e && !tsAhead clk (satSucc e.timestamp)

/-- A sweep changes no name. -/
theorem sweptEntry_name (hs : StoreInv s) {e : GlobalEntry} (he : e ∈ s.globalEntries) :
    idOf (sweptEntry clk e) = idOf e := by
  rw [sweptEntry]
  split
  · rename_i hyes
    simp only [banExpired, Bool.and_eq_true, decide_eq_true_eq] at hyes
    have hkey := hyes.1.1.1.1.1
    have ht := hs.tombstoneOf_spec he (.inr hkey)
    rw [hkey] at ht
    rw [idOf, idOf, Prod.mk.injEq]
    refine ⟨rfl, ?_⟩
    show foldIdent e.key (tombstoneOf .B e.value) = _
    rw [hkey, foldIdent, foldIdent, ht.ident]
  · rfl

/-- A sweep brings no ban back. -/
theorem entryActive_of_swept {e : GlobalEntry} (hs : StoreInv s) (he : e ∈ s.globalEntries)
    (hact : entryActive (sweptEntry clk e) = true) : sweptEntry clk e = e := by
  by_cases hyes : (banExpired clk.now e && !tsAhead clk (satSucc e.timestamp)
      && decide (e.timestamp ≤ satSucc e.timestamp)) = true
  · rw [sweptEntry, if_pos hyes] at hact
    simp only [banExpired, Bool.and_eq_true, decide_eq_true_eq] at hyes
    have hkey := hyes.1.1.1.1.1
    have ht := hs.tombstoneOf_spec he (.inr hkey)
    rw [hkey] at ht
    have hdead := ht.dead
    rw [entryActive] at hact
    simp only [hkey] at hact
    rw [hdead] at hact
    cases hact
  · rw [sweptEntry, if_neg hyes]

/-- After a sweep the hub still holds the ban, as the sweep leaves it: the tombstone where it
ended the ban, and what it was otherwise. `hts` bounds the stamp of an expired ban, whose next
second must exist. -/
theorem BanKept.sweep (h : BanKept p s) {e : GlobalEntry} (he : e ∈ s.globalEntries)
    (hname : idOf e = banName p) (hts : banExpired clk.now e = true → e.timestamp ≤ i64Max) :
    BanKept p (bansSweep clk s)
      ∧ recordView (bansSweep clk s) (banName p) =
        if sweepEnds clk s e then
          (rankOf .B (tombstoneOf .B e.value) (satSucc e.timestamp) : WithBot Rank)
        else recordView s (banName p) := by
  have hstore : StoreInv (bansSweep clk s) := h.store.bansSweep clk
  have hentries := bansSweep_entries clk h.store
  have hkey : e.key = .B := congrArg Prod.fst hname
  have hmodes : keyIsModes e.key = true := by rw [hkey]; rfl
  have hview := recordView_of_mem h.store he hmodes
  rw [hname] at hview
  -- the next second of an expired ban is later, so the last check of the walk is none
  have hends : (banExpired clk.now e && !tsAhead clk (satSucc e.timestamp)
      && decide (e.timestamp ≤ satSucc e.timestamp))
      = (banExpired clk.now e && !tsAhead clk (satSucc e.timestamp)) := by
    cases hexp : banExpired clk.now e with
    | false => rfl
    | true =>
      have hsucc : e.timestamp ≤ satSucc e.timestamp := by
        have hmax := hts hexp
        rw [satSucc]
        omega
      rw [decide_eq_true hsucc, Bool.and_true]
  -- a sweep is due: every entry becomes what the sweep makes of it
  by_cases hdue : sweepDue clk s = true
  · rw [if_pos hdue] at hentries
    have hmem : sweptEntry clk e ∈ (bansSweep clk s).globalEntries := by
      rw [hentries]
      exact List.mem_map_of_mem he
    have hname' : idOf (sweptEntry clk e) = banName p := (sweptEntry_name h.store he).trans hname
    have hkey' : (sweptEntry clk e).key = .B := congrArg Prod.fst hname'
    refine ⟨⟨hstore, ⟨_, hmem, hname'⟩, ?_⟩, ?_⟩
    -- the ban keeps its place under the ceiling, for a sweep makes no ban live
    · refine Nat.lt_of_le_of_lt ?_ h.room
      rw [hentries, otherBans, List.countP_map]
      refine List.countP_mono_left fun a ha hlive => ?_
      simp only [Function.comp_apply, Bool.and_eq_true, Bool.not_eq_true', beq_eq_false_iff_ne]
        at hlive
      have hsame : sweptEntry clk a = a := by
        refine entryActive_of_swept h.store ha ?_
        have hban := hlive.1
        simp only [liveBanIn, Bool.and_eq_true, decide_eq_true_eq] at hban
        rw [entryActive, recActive, hban.1.2]
        simp
      rw [hsame] at hlive
      simpa using hlive
    · have hview' := recordView_of_mem hstore hmem (by rw [hkey']; rfl)
      rw [hname', hkey'] at hview'
      rw [hview', sweepEnds, hdue, sweptEntry, Bool.true_and, hends]
      split
      · rfl
      · rw [hview, hkey]
  -- none is due, and nothing changes
  · rw [if_neg hdue] at hentries
    rw [Bool.not_eq_true] at hdue
    refine ⟨⟨hstore, ⟨e, hentries ▸ he, hname⟩, by rw [hentries]; exact h.room⟩, ?_⟩
    rw [sweepEnds, hdue, Bool.false_and, Bool.false_and, if_neg (by simp)]
    show recordView (bansSweep clk s) (banName p) = _
    rw [recordView, hentries]
    rfl

end Kept

end IrcHub.Proofs
