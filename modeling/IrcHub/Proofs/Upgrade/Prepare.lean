import IrcHub.Hub.Follow
import IrcHub.Lib.Fit
import IrcHub.Proofs.Upgrade.Table

/-!
# `IrcHub.Proofs.Upgrade.Prepare`: the question as it travels

A PREPARE leaves the driver with the fields of its run and is rebuilt from the checked fields at
every hop. A follower holds every field to fewer than 512 bytes, the selection too, and takes only
letters, digits and four marks in it. The driver checks neither.

* `readPrepare_frame`: a PREPARE is read back, unless its selection is too long or has other
  characters
* `selLookup_selText`: what a follower looks up in a selection
* `plainFields_of_start`: the other fields of an accepted start are always taken
* `carried_eq`: a hub that takes the frame passes the same frame on, so every hub on any path gets
  that of the driver
* `prepareAgrees_iff`: all of them read the run of the driver exactly if its selection fits
* `prepareAgrees_fourteen`: fourteen bots, whose uuids take more than that

`Carried` is the relation of the frames that can arrive somewhere: the one of the driver, and what
a hub passes on that got one. No order of hops and no shape of the mesh is assumed.
-/

set_option autoImplicit false

namespace IrcHub.Proofs

open IrcHub.Hub Str
open String (utf8Len)

/-! ### Fields -/

/-- The first field ends at the first bar, and the rest is split with one field less to go. -/
theorem splitn_append {c : Char} {a : Str} (n : Nat) (rest : Str) (h : c ∉ a) :
    splitn c (n + 2) (a ++ c :: rest) = a :: splitn c (n + 1) rest := by
  have hsplit : splitOnce c (a ++ c :: rest) = some (a, rest) :=
    splitOnce_eq_some_iff.mpr ⟨rfl, h⟩
  rw [splitn, hsplit]

/-- A field that passed the check has no bar, so it is one field of the frame. -/
theorem bar_not_mem_of_planFieldOk {s : Str} (h : planFieldOk s = true) : '|' ∉ s := by
  intro hbar
  rw [planFieldOk, Bool.and_eq_true, Bool.not_eq_true', List.any_eq_false] at h
  exact h.2 '|' hbar (by decide)

/-- The fields of a PREPARE besides its selection are as the driver checked them. -/
structure PlainFields (p : Prepare) : Prop where
  id : p.id ≠ [] ∧ utf8Len p.id ≤ 63
  ver : p.ver ≠ [] ∧ utf8Len p.ver ≤ 63
  ok : ∀ s ∈ [p.id, p.ver, p.variant, p.kind, p.minFrom, p.hubVer], planFieldOk s = true

/-- The fields of a PREPARE on the wire, the selection only where there is one. -/
theorem splitn_frame {p : Prepare} (h : PlainFields p) :
    splitn '|' 9 p.frame
      = [p.id, p.ver, p.variant, p.kind, p.minFrom, [], p.hubVer, []]
        ++ if p.sel.isEmpty then [] else [p.sel] := by
  have hbar : ∀ s ∈ [p.id, p.ver, p.variant, p.kind, p.minFrom, p.hubVer], '|' ∉ s :=
    fun s hs => bar_not_mem_of_planFieldOk (h.ok s hs)
  simp only [List.mem_cons, List.not_mem_nil, or_false, forall_eq_or_imp, forall_eq] at hbar
  obtain ⟨hid, hver, hvariant, hkind, hmin, hhub⟩ := hbar
  have hnil : '|' ∉ ([] : Str) := List.not_mem_nil
  have htail : splitn '|' 2 ((if p.sel.isEmpty then [] else ['|']) ++ p.sel)
      = [] :: if p.sel.isEmpty then [] else [p.sel] := by
    cases hsel : p.sel with
    | nil => rfl
    | cons c s =>
      show splitn '|' 2 ([] ++ '|' :: c :: s) = _
      rw [splitn_append 0 _ hnil]
      rfl
  rw [Prepare.frame]
  simp only [List.append_assoc, List.cons_append, List.nil_append]
  rw [splitn_append 7 _ hid, splitn_append 6 _ hver, splitn_append 5 _ hvariant,
    splitn_append 4 _ hkind, splitn_append 3 _ hmin]
  show _ :: _ :: _ :: _ :: _ :: splitn '|' 4 ([] ++ '|' :: (p.hubVer ++ '|' :: _)) = _
  rw [splitn_append 2 _ hnil, splitn_append 1 _ hhub, htail]

/-- A selection as a follower takes it. -/
def SelTaken (sel : Str) : Prop := utf8Len sel < 512 ∧ sel.all selChar = true

/-- A character of a selection is none of those that a plan forbids. -/
theorem planChars_not_selChar {c : Char} (h : selChar c = true) :
    planChars.contains c = false := by
  rw [Bool.eq_false_iff]
  intro hmem
  have hall : planChars.all (fun c => !selChar c) = true := by decide
  have := List.all_eq_true.mp hall c (List.contains_iff_mem.mp hmem)
  rw [h] at this
  cases this

/-- A selection that is taken passes the check of a field. -/
theorem SelTaken.planFieldOk {sel : Str} (h : SelTaken sel) : planFieldOk sel = true := by
  rw [Hub.planFieldOk, decide_eq_true h.1, Bool.true_and, Bool.not_eq_true', List.any_eq_false]
  intro c hc
  rw [planChars_not_selChar (List.all_eq_true.mp h.2 c hc)]
  decide

/-- A PREPARE is read back as it was sent, if its selection is taken. -/
theorem readPrepare_frame {p : Prepare} (h : PlainFields p) :
    readPrepare p.frame = if p.sel.all selChar && planFieldOk p.sel then some p else none := by
  have hok := h.ok
  simp only [List.mem_cons, List.not_mem_nil, or_false, forall_eq_or_imp, forall_eq] at hok
  obtain ⟨hid, hver, hvariant, hkind, hmin, hhub⟩ := hok
  have hempty : planFieldOk [] = true := by decide
  have hshort : decide (utf8Len p.id > 63) = false ∧ decide (utf8Len p.ver > 63) = false :=
    ⟨decide_eq_false (Nat.not_lt.mpr h.id.2), decide_eq_false (Nat.not_lt.mpr h.ver.2)⟩
  have hfilled : p.id.isEmpty = false ∧ p.ver.isEmpty = false := by
    simp [h.id.1, h.ver.1]
  unfold readPrepare
  rw [splitn_frame h]
  -- the selection is the ninth field, or there are eight
  generalize hf : [p.id, p.ver, p.variant, p.kind, p.minFrom, [], p.hubVer, []]
    ++ (if p.sel.isEmpty then [] else [p.sel]) = f
  have hsel : f.getD 8 [] = p.sel := by
    rw [← hf]
    cases p.sel with
    | nil => rfl
    | cons c s => rfl
  have hall : f.all planFieldOk = planFieldOk p.sel := by
    rw [← hf]
    cases p.sel with
    | nil => simp [hid, hver, hvariant, hkind, hmin, hhub, hempty]
    | cons c s => simp [hid, hver, hvariant, hkind, hmin, hhub, hempty]
  have hlen : decide (f.length < 2) = false := by
    rw [← hf]
    simp
  have h0 : f.getD 0 [] = p.id := by rw [← hf]; rfl
  have h1 : f.getD 1 [] = p.ver := by rw [← hf]; rfl
  have h2 : f.getD 2 [] = p.variant := by rw [← hf]; rfl
  have h3 : f.getD 3 [] = p.kind := by rw [← hf]; rfl
  have h4 : f.getD 4 [] = p.minFrom := by rw [← hf]; rfl
  have h6 : f.getD 6 [] = p.hubVer := by rw [← hf]; rfl
  simp only [hsel, hall, hlen, h0, h1, h2, h3, h4, h6, hshort.1, hshort.2, hfilled.1, hfilled.2,
    Bool.false_or, Bool.or_eq_true, Bool.not_eq_true', Bool.and_eq_true]
  by_cases htaken : p.sel.all selChar = true ∧ planFieldOk p.sel = true
  · rw [if_pos htaken, if_neg]
    rw [htaken.1, htaken.2]
    simp
  · rw [if_neg htaken, if_pos]
    rwa [not_and_or, Bool.not_eq_true, Bool.not_eq_true] at htaken

/-! ### The selection -/

/-- A node of a selection on the wire. -/
def pickText (p : Pick) : Str := if p.2.1.isEmpty then p.1 else p.1 ++ '=' :: p.2.1

/-- A selection on the wire. -/
def selText (picks : List Pick) : Str := [','].intercalate (picks.map pickText)

/-- What `resolve` and the tokens promise of a selection: every node has a uuid, and its build is
none, `c` or `rs`. -/
def PicksOk (picks : List Pick) : Prop :=
  ∀ p ∈ picks, p.1 ≠ [] ∧ (p.2.1 = [] ∨ p.2.1 = ['c'] ∨ p.2.1 = "rs".toList)

/-- A uuid of letters, digits and dashes. -/
def PlainUuid (uuid : Str) : Prop := uuid.all (fun c => c.isAlphanum || c == '-') = true

/-- A plain uuid has neither the sign that ends it nor the one that ends its entry. -/
theorem PlainUuid.not_mem {uuid : Str} (h : PlainUuid uuid) : '=' ∉ uuid ∧ ',' ∉ uuid := by
  constructor
  · intro hc
    exact absurd (List.all_eq_true.mp h _ hc) (by decide)
  · intro hc
    exact absurd (List.all_eq_true.mp h _ hc) (by decide)

/-- The text of a pick is one entry of the selection. -/
theorem comma_not_mem_pickText {p : Pick} (h : PlainUuid p.1)
    (hbuild : p.2.1 = [] ∨ p.2.1 = ['c'] ∨ p.2.1 = "rs".toList) : ',' ∉ pickText p := by
  have hnone := h.not_mem.2
  unfold pickText
  rcases hbuild with hb | hb | hb
  · rw [hb]
    exact hnone
  · rw [hb]
    simp [hnone]
  · rw [hb]
    simp [hnone]

/-- An entry is read back as the pick it was written for. -/
theorem selEntry_pickText {p : Pick} (h : PlainUuid p.1) :
    selEntry (pickText p) = (p.1, p.2.1) := by
  have hnone := h.not_mem.1
  unfold selEntry pickText
  cases hb : p.2.1 with
  | nil =>
    rw [List.isEmpty_nil, if_pos rfl, splitOnce_eq_none_iff.mpr hnone]
    rfl
  | cons c s =>
    have hsplit : splitOnce '=' (p.1 ++ '=' :: c :: s) = some (p.1, c :: s) :=
      splitOnce_eq_some_iff.mpr ⟨rfl, hnone⟩
    rw [List.isEmpty_cons, if_neg Bool.false_ne_true, hsplit]
    rfl

/-- A follower finds in a selection what the driver put there, whatever uuid it looks up. -/
theorem selLookup_selText {picks : List Pick} (hok : PicksOk picks) (hne : picks ≠ [])
    (hplain : ∀ p ∈ picks, PlainUuid p.1) (uuid : Str) :
    selLookup (selText picks) uuid = (picks.find? fun p => p.1 == uuid).map (·.2.1) := by
  have hsplit : (selText picks).splitOn ',' = picks.map pickText := by
    refine List.splitOn_intercalate ',' ?_ ?_
    · intro l hl
      obtain ⟨p, hp, rfl⟩ := List.mem_map.mp hl
      exact comma_not_mem_pickText (hplain p hp) (hok p hp).2
    · simpa using hne
  have hfind : ((picks.map pickText).find? fun e => (selEntry e).1 == uuid).map
    (fun e => (selEntry e).2)
      = (picks.find? fun p => p.1 == uuid).map (·.2.1) := by
    clear hsplit hne
    induction picks with
    | nil => rfl
    | cons p ps ih =>
      have hp := selEntry_pickText (hplain p List.mem_cons_self)
      have hrest := ih (fun q hq => hok q (List.mem_cons_of_mem _ hq))
        (fun q hq => hplain q (List.mem_cons_of_mem _ hq))
      by_cases heq : p.1 == uuid
      · simp [hp, heq]
      · simp only [List.map_cons, List.find?_cons, hp, heq]
        exact hrest
  unfold selLookup
  rw [hsplit]
  split
  · -- nobody is called by the empty uuid
    rename_i hempty
    rw [List.isEmpty_iff.mp hempty]
    have hnone : picks.find? (fun p => p.1 == []) = none := by
      rw [List.find?_eq_none]
      intro p hp heq
      exact (hok p hp).1 (beq_iff_eq.mp heq)
    rw [hnone]
    rfl
  · exact hfind

/-- What a follower finds is the uuid of an entry: it has no mark in it. -/
theorem marks_of_selLookup {sel uuid v : Str} (h : selLookup sel uuid = some v) :
    '=' ∉ uuid ∧ ',' ∉ uuid := by
  unfold selLookup at h
  split at h
  · cases h
  obtain ⟨e, hfind, -⟩ := Option.map_eq_some_iff.mp h
  have huuid : (selEntry e).1 = uuid := by simpa using List.find?_some hfind
  have hcomma : ',' ∉ e := (mem_splitOn (List.mem_of_find?_eq_some hfind)).2
  unfold selEntry at huuid
  cases hsplit : splitOnce '=' e with
  | none =>
    rw [hsplit] at huuid
    rw [← huuid]
    exact ⟨splitOnce_eq_none_iff.mp hsplit, hcomma⟩
  | some q =>
    rw [hsplit] at huuid
    obtain ⟨heq, hnone⟩ :=
      splitOnce_eq_some_iff.mp (show splitOnce '=' e = some (q.1, q.2) from hsplit)
    have hq : q.1 = uuid := huuid
    rw [← hq]
    refine ⟨hnone, fun hc => hcomma ?_⟩
    rw [heq]
    exact List.mem_append_left _ hc

/-- A plain uuid is made of characters of a selection. -/
theorem selChar_of_plain {uuid : Str} (h : PlainUuid uuid) : uuid.all selChar = true := by
  rw [List.all_eq_true]
  intro c hc
  have := List.all_eq_true.mp h c hc
  unfold selChar
  rw [this]
  rfl

/-- A uuid of such characters is plain if it has none of the two signs. -/
theorem plain_of_selChar {uuid : Str} (h : uuid.all selChar = true) (heq : '=' ∉ uuid)
    (hcomma : ',' ∉ uuid) : PlainUuid uuid := by
  unfold PlainUuid
  rw [List.all_eq_true] at h ⊢
  intro c hc
  have hchar := h c hc
  unfold selChar at hchar
  have h1 : (c == '=') = false := by
    rw [beq_eq_false_iff_ne]
    rintro rfl
    exact heq hc
  have h2 : (c == ',') = false := by
    rw [beq_eq_false_iff_ne]
    rintro rfl
    exact hcomma hc
  rwa [h1, h2, Bool.or_false, Bool.or_false] at hchar

/-- What is in the uuid of a pick is in the text. -/
theorem mem_selText {picks : List Pick} {p : Pick} (hp : p ∈ picks) {c : Char} (hc : c ∈ p.1) :
    c ∈ selText picks := by
  have htext : c ∈ pickText p := by
    unfold pickText
    split
    · exact hc
    · exact List.mem_append_left _ hc
  unfold selText
  induction picks with
  | nil => cases hp
  | cons q qs ih =>
    cases qs with
    | nil =>
      rw [List.mem_singleton.mp hp] at htext
      simpa using htext
    | cons r rs =>
      rw [List.map_cons, List.map_cons, List.intercalate_cons_cons]
      rcases List.mem_cons.mp hp with rfl | hp
      · simp [htext]
      · exact List.mem_append_right _ (ih hp)

/-- The text of a pick is made of characters of a selection. -/
theorem selChar_pickText {p : Pick} (h : PlainUuid p.1)
    (hbuild : p.2.1 = [] ∨ p.2.1 = ['c'] ∨ p.2.1 = "rs".toList) :
    (pickText p).all selChar = true := by
  have hc : selChar 'c' = true := by decide
  have hr : selChar 'r' = true := by decide
  have hs : selChar 's' = true := by decide
  have heq : selChar '=' = true := by decide
  have huuid := selChar_of_plain h
  unfold pickText
  rcases hbuild with hb | hb | hb
  · rw [hb]
    exact huuid
  · rw [hb, List.isEmpty_cons, if_neg Bool.false_ne_true, List.all_append, huuid]
    simp [hc, heq]
  · rw [hb]
    show (p.1 ++ ['=', 'r', 's']).all selChar = true
    rw [List.all_append, huuid]
    simp [hr, hs, heq]

/-- So is the text of all picks. -/
theorem selChar_selText {picks : List Pick} (hok : PicksOk picks)
    (hplain : ∀ p ∈ picks, PlainUuid p.1) : (selText picks).all selChar = true := by
  have hcomma : selChar ',' = true := by decide
  unfold selText
  induction picks with
  | nil => rfl
  | cons p ps ih =>
    have hp := selChar_pickText (hplain p List.mem_cons_self) (hok p List.mem_cons_self).2
    have hps := ih (fun q hq => hok q (List.mem_cons_of_mem _ hq))
      (fun q hq => hplain q (List.mem_cons_of_mem _ hq))
    cases ps with
    | nil => simpa using hp
    | cons q qs =>
      rw [List.map_cons, List.map_cons, List.intercalate_cons_cons, List.all_append,
        List.all_append, hp, ← List.map_cons, hps]
      simp [hcomma]

/-- Some pick gives some text: no uuid is empty. -/
theorem selText_ne_nil {picks : List Pick} (hok : PicksOk picks) (hne : picks ≠ []) :
    selText picks ≠ [] := by
  obtain ⟨p, ps, rfl⟩ := List.exists_cons_of_ne_nil hne
  obtain ⟨c, s, hp⟩ := List.exists_cons_of_ne_nil (hok p List.mem_cons_self).1
  have hc : c ∈ p.1 := by
    rw [hp]
    exact List.mem_cons_self
  exact List.ne_nil_of_mem (mem_selText List.mem_cons_self hc)

/-! ### The run of an accepted start -/

/-- What a run asks, as a follower reads it. -/
def asked (u : PendingUpgrade) : Prepare :=
  ⟨u.id, u.targetVer, u.variant, u.kind, u.minFrom, u.hubVer, u.selWire⟩

/-- What is sent to a peer is the frame of what was asked. -/
theorem preparePeer_eq_frame (u : PendingUpgrade) : preparePeer u = (asked u).frame := by
  unfold preparePeer Prepare.frame asked
  cases u.selWire with
  | nil => rfl
  | cons c s => rfl

/-- A candidate has a uuid. -/
theorem candidates_uuid {known : List Cand} : ∀ e ∈ candidates known, e.uuid ≠ [] := by
  unfold candidates
  refine List.foldlRecOn
    (motive := fun cands : List Cand => ∀ e ∈ cands, e.uuid ≠ []) known _ ?_ ?_
  · intro e he
    cases he
  · intro cands ih e _ c hc
    unfold candAdd at hc
    split at hc
    · exact ih c hc
    rename_i hempty
    split at hc
    · obtain ⟨i, hi⟩ := List.mem_iff_getElem?.mp hc
      rw [List.getElem?_modify, Option.map_eq_map] at hi
      obtain ⟨c', hc', rfl⟩ := Option.map_eq_some_iff.mp hi
      have huuid := ih c' (List.mem_of_getElem? hc')
      split
      · split
        · exact huuid
        · exact huuid
      · exact huuid
    · rcases List.mem_append.mp hc with hc | hc
      · exact ih c hc
      · rw [List.mem_singleton.mp hc]
        intro huuid
        rw [huuid] at hempty
        exact hempty rfl

/-- A token that is resolved names a candidate. -/
theorem resolve_mem {cands : List Cand} {tok : Str} {e : Cand} (h : resolve cands tok = some e) :
    e ∈ cands := by
  have hsole : ∀ {l : List Cand} {e : Cand}, soleCand l = some e → e ∈ l := by
    intro l e hl
    unfold soleCand at hl
    split at hl
    · cases hl
      exact List.mem_cons_self
    · cases hl
  unfold resolve at h
  split at h
  · rename_i hfind
    cases h
    exact List.mem_of_find?_eq_some hfind
  split at h
  · split at h
    · exact (List.mem_filter.mp (hsole h)).1
    · cases h
  · rename_i hits
    exact (List.mem_filter.mp (hsole h)).1

/-- The build a token asks for is one of the two, or none. -/
theorem pickToken_build {tok name want : Str} (h : pickToken tok = some (name, want)) :
    want = [] ∨ want = ['c'] ∨ want = "rs".toList := by
  unfold pickToken at h
  split at h
  · cases h
    exact .inl rfl
  · split at h
    · rename_i hwant
      cases h
      rcases Bool.or_eq_true _ _ ▸ hwant with hw | hw
      · exact .inr (.inl (of_decide_eq_true hw))
      · exact .inr (.inr (of_decide_eq_true hw))
    · cases h

/-- One more token keeps the picks well formed: their uuids are those of candidates, hence
`hcands`. -/
theorem PicksOk.pickStep {cands : List Cand} {hubVer : Str} {picks picks' : List Pick} {tok : Str}
    (hcands : ∀ e ∈ cands, e.uuid ≠ []) (h : PicksOk picks)
    (hstep : pickStep cands hubVer picks tok = some picks') : PicksOk picks' := by
  unfold Hub.pickStep at hstep
  simp only [Option.bind_eq_bind, Option.bind_eq_some_iff] at hstep
  obtain ⟨⟨name, want⟩, htok, e, he, hstep⟩ := hstep
  split at hstep
  · cases hstep
    exact h
  split at hstep
  · cases hstep
  · cases hstep
    intro p hp
    rcases List.mem_append.mp hp with hp | hp
    · exact h p hp
    · rw [List.mem_singleton.mp hp]
      exact ⟨hcands e (resolve_mem he), pickToken_build htok⟩

/-- The picks of a start are well formed, by induction on its tokens. -/
theorem picksOk_startPicks {env : StartEnv} {a : StartArgs} {picks : List Pick}
    (hcands : ∀ e ∈ env.cands, e.uuid ≠ []) (h : startPicks env a = some picks) :
    PicksOk picks := by
  have hfold : ∀ (toks : List Str) (ps ps' : List Pick), PicksOk ps →
      toks.foldlM (pickStep env.cands a.hubVer) ps = some ps' → PicksOk ps' := by
    intro toks
    induction toks with
    | nil =>
      intro ps ps' hps hrun
      cases hrun
      exact hps
    | cons t ts ih =>
      intro ps ps' hps hrun
      rw [List.foldlM_cons, Option.bind_eq_bind, Option.bind_eq_some_iff] at hrun
      obtain ⟨ps₁, hstep, hrest⟩ := hrun
      exact ih ps₁ ps' (hps.pickStep hcands hstep) hrest
  unfold startPicks at h
  split at h
  · cases h
    exact fun p hp => (List.not_mem_nil hp).elim
  · simp only [resolveSelection, Option.bind_eq_bind, Option.bind_eq_some_iff] at h
    obtain ⟨ps, hrun, hps⟩ := h
    split at hps
    · cases hps
    · cases hps
      exact hfold _ _ _ (fun p hp => (List.not_mem_nil hp).elim) hrun

/-- A version loses at most the letter in front. -/
theorem stripVersionV_suffix (v : Str) : stripVersionV v <:+ v := by
  unfold stripVersionV
  split
  · split
    · exact List.suffix_cons _ _
    · exact List.suffix_rfl
  · exact List.suffix_rfl

/-- A version that is only the letter keeps it. -/
theorem stripVersionV_ne_nil {v : Str} (h : v ≠ []) : stripVersionV v ≠ [] := by
  unfold stripVersionV
  split
  · split
    · exact List.cons_ne_nil _ _
    · exact List.cons_ne_nil _ _
  · exact h

/-- A suffix takes no more room. -/
theorem utf8Len_le_of_suffix {s t : Str} (h : s <:+ t) : utf8Len s ≤ utf8Len t := by
  obtain ⟨u, rfl⟩ := h
  rw [String.utf8Len_append]
  exact Nat.le_add_left _ _

/-- A suffix of a field that passed passes. -/
theorem planFieldOk_of_suffix {s t : Str} (h : s <:+ t) (ht : planFieldOk t = true) :
    planFieldOk s = true := by
  rw [planFieldOk, Bool.and_eq_true, decide_eq_true_eq, Bool.not_eq_true', List.any_eq_false]
    at ht ⊢
  exact ⟨Nat.lt_of_le_of_lt (utf8Len_le_of_suffix h) ht.1, fun c hc => ht.2 c (h.subset hc)⟩

/-- A short field passes if it has none of the forbidden characters. -/
theorem planFieldOk_of_short {s : Str} (hlen : utf8Len s < 64)
    (h : s.any planChars.contains = false) :
    planFieldOk s = true := by
  rw [planFieldOk, h, decide_eq_true (by omega)]
  rfl

/-- A hexadecimal digit is plain. -/
theorem digitChar_plain {n : Nat} (h : n < 16) :
    (Nat.digitChar n).isAlphanum = true ∧ (Nat.digitChar n).toNat < 128 := by
  revert n
  decide

/-- So is a byte in hexadecimal. -/
theorem hexByte_plain (b : UInt8) : ∀ c ∈ hexByte b, c.isAlphanum = true ∧ c.toNat < 128 := by
  have hlt : b.toNat < 256 := b.toNat_lt
  intro c hc
  simp only [hexByte, List.mem_cons, List.not_mem_nil, or_false] at hc
  rcases hc with rfl | rfl
  · exact digitChar_plain (by omega)
  · exact digitChar_plain (by omega)

/-- An id is a field of its own: hexadecimal digits and dashes. -/
theorem requestId_plain (r : Fin 8 → UInt8) :
    PlainUuid (generateRequestId r) ∧ utf8Len (generateRequestId r) = 18 := by
  have hchars : ∀ c ∈ generateRequestId r, (c.isAlphanum = true ∨ c = '-') ∧ c.toNat < 128 := by
    intro c hc
    simp only [generateRequestId, List.append_assoc, List.cons_append, List.mem_append,
      List.mem_cons, List.mem_flatMap] at hc
    rcases hc with ⟨i, -, hc⟩ | rfl | ⟨i, -, hc⟩ | rfl | ⟨i, -, hc⟩
    · exact ⟨.inl (hexByte_plain _ c hc).1, (hexByte_plain _ c hc).2⟩
    · exact ⟨.inr rfl, by decide⟩
    · exact ⟨.inl (hexByte_plain _ c hc).1, (hexByte_plain _ c hc).2⟩
    · exact ⟨.inr rfl, by decide⟩
    · exact ⟨.inl (hexByte_plain _ c hc).1, (hexByte_plain _ c hc).2⟩
  refine ⟨?_, ?_⟩
  · unfold PlainUuid
    rw [List.all_eq_true]
    intro c hc
    rcases (hchars c hc).1 with h | h
    · rw [h]
      rfl
    · rw [h]
      decide
  · rw [utf8Len_eq_length fun c hc => (hchars c hc).2]
    rfl

/-- What an accepted start asks. -/
theorem asked_of_begun {env : StartEnv} {a : StartArgs} {picks : List Pick} {u : PendingUpgrade}
    (h : Begun env (emptyRun env a picks) u) :
    asked u = ⟨env.runId, stripVersionV a.targetVer, a.variant, a.kind,
        if a.minFrom.isEmpty then ['*'] else a.minFrom, stripVersionV a.hubVer, selText picks⟩
      ∧ u.select = picks.map fun p => (p.1, p.2.1) := by
  obtain ⟨⟨ns, t, rfl⟩, -⟩ := h
  exact ⟨rfl, rfl⟩

/-- The fields of an accepted start are taken by a follower, the selection apart. -/
theorem plainFields_of_start {env : StartEnv} {u : PendingUpgrade} {a : StartArgs} {sel : Str}
    (hid : PlainUuid env.runId ∧ utf8Len env.runId = 18) (h : startRefused env u a = false) :
    PlainFields ⟨env.runId, stripVersionV a.targetVer, a.variant, a.kind,
      if a.minFrom.isEmpty then ['*'] else a.minFrom, stripVersionV a.hubVer, sel⟩ := by
  -- the checks that the start passed
  simp only [startRefused, Bool.or_eq_false_iff, Bool.not_eq_false', decide_eq_false_iff_not] at h
  obtain ⟨⟨⟨⟨⟨⟨⟨⟨-, hfilled⟩, hver⟩, hverLen⟩, hvariant⟩, hkind⟩, hmin⟩, hhubLen⟩, hhub⟩ := h
  have hverNe : a.targetVer ≠ [] := by
    intro hnil
    rw [hnil] at hfilled
    cases hfilled
  -- each field is plain text or empty: the run's id is drawn, the others were checked
  have hidOk : planFieldOk env.runId = true :=
    SelTaken.planFieldOk ⟨by omega, selChar_of_plain hid.1⟩
  have hvariantOk : planFieldOk a.variant = true := by
    simp only [Bool.and_eq_false_imp, Bool.not_eq_true', List.isEmpty_eq_false_iff,
      bne_eq_false_iff_eq, bne_iff_ne, Bool.and_eq_true] at hvariant
    by_cases hv : a.variant = []
    · rw [hv]
      decide
    · by_cases hc : a.variant = ['c']
      · rw [hc]
        decide
      · rw [hvariant ⟨hv, hc⟩]
        decide
  have hkindOk : planFieldOk a.kind = true := by
    simp only [Bool.and_eq_false_imp, Bool.not_eq_true', List.isEmpty_eq_false_iff,
      bne_eq_false_iff_eq, bne_iff_ne, Bool.and_eq_true] at hkind
    by_cases hk : a.kind = []
    · rw [hk]
      decide
    · by_cases hb : a.kind = "bin".toList
      · rw [hb]
        decide
      · rw [hkind ⟨hk, hb⟩]
        decide
  have hminOk : planFieldOk (if a.minFrom.isEmpty then ['*'] else a.minFrom) = true := by
    cases he : a.minFrom.isEmpty with
    | true =>
      rw [if_pos rfl]
      decide
    | false =>
      rw [he, Bool.not_false, Bool.true_and, Bool.or_eq_false_iff, Bool.not_eq_false'] at hmin
      rw [if_neg Bool.false_ne_true]
      exact hmin.1
  -- the id and the version are not empty and have room
  refine ⟨⟨?_, ?_⟩, ⟨stripVersionV_ne_nil hverNe, ?_⟩, ?_⟩
  · intro hnil
    have hnil' : env.runId = [] := hnil
    have hlen := hid.2
    rw [hnil'] at hlen
    cases hlen
  · show utf8Len env.runId ≤ 63
    omega
  · have := utf8Len_le_of_suffix (stripVersionV_suffix a.targetVer)
    show utf8Len (stripVersionV a.targetVer) ≤ 63
    omega
  · simp only [List.mem_cons, List.not_mem_nil, or_false, forall_eq_or_imp, forall_eq]
    exact ⟨hidOk, planFieldOk_of_suffix (stripVersionV_suffix _) hver, hvariantOk,
      hkindOk, hminOk, planFieldOk_of_suffix (stripVersionV_suffix _)
      (planFieldOk_of_short (by omega) hhub)⟩

/-! ### The way of a PREPARE -/

/-- A PREPARE of a run: sent by its driver, or passed on by a hub that got one. -/
inductive Carried (u : PendingUpgrade) : Str → Prop
  | sent : Carried u (preparePeer u)
  | relayed {f f' src q : Str} {env : FollowEnv} {h : UpgradeHub} (hf : Carried u f)
      (hout : .peer q ⟨.prepare, f'⟩ ∈ (peerPrepare env h src f).2) : Carried u f'

/-- A hub joins the run of the frame, with its targets and its selection. -/
def Joins (u : PendingUpgrade) (f : Str) : Prop :=
  ∀ (env : FollowEnv) (h : UpgradeHub) (src : Str), forwardSeen h u.id = false →
    h.upgrade.active = false →
    let w := (peerPrepare env h src f).1.follow
    w.id = u.id ∧ w.origin = src ∧ w.target = u.targetVer ∧ w.botVariant = u.variant ∧
      w.hubTarget = u.hubVer ∧ w.sel = u.selWire

/-- Every hub a PREPARE reaches reads the run of the driver, asks the nodes the driver selected
for the same builds, and joins if it is free to. -/
def PrepareAgrees (u : PendingUpgrade) : Prop :=
  ∀ f, Carried u f → readPrepare f = some (asked u) ∧
    (∀ uuid, (asked u).pick uuid = selected u uuid) ∧ Joins u f

/-- What a hub passes on is rebuilt from what it read. -/
theorem peerPrepare_relayed {env : FollowEnv} {h : UpgradeHub} {src f q f' : Str} {p : Prepare}
    (hread : readPrepare f = some p)
    (hout : .peer q ⟨.prepare, f'⟩ ∈ (peerPrepare env h src f).2) :
    f' = p.frame := by
  unfold peerPrepare at hout
  rw [hread] at hout
  simp only [] at hout
  split at hout
  · cases hout
  split at hout
  · cases List.mem_singleton.mp hout
  rcases List.mem_append.mp hout with hout | hout
  · rcases List.mem_append.mp hout with hout | hout
    · obtain ⟨_, -, heq⟩ := List.mem_map.mp hout
      cases heq
    · obtain ⟨_, -, heq⟩ := List.mem_map.mp hout
      cases heq
      rfl
  · cases List.mem_singleton.mp hout

/-- Wherever the frame is carried it is the one that was sent, once a hub reads from it what was
asked: a hub that passes it on writes the same again. -/
theorem carried_eq {u : PendingUpgrade} (hread : readPrepare (preparePeer u) = some (asked u))
    {f : Str} (hf : Carried u f) : f = preparePeer u := by
  induction hf with
  | sent => rfl
  | relayed hf hout ih =>
    rw [ih] at hout
    rw [peerPrepare_relayed hread hout, preparePeer_eq_frame]

/-- A peer that reads what was asked joins the run. -/
theorem joins_of_read {u : PendingUpgrade} {f : Str} (hread : readPrepare f = some (asked u)) :
    Joins u f := by
  intro env h src hseen hidle
  unfold peerPrepare
  rw [hread]
  simp only [show (asked u).id = u.id from rfl, hseen, hidle, Bool.false_eq_true, if_false]
  unfold joinRun rollupPlan
  split
  · exact ⟨rfl, rfl, rfl, rfl, rfl, rfl⟩
  · exact ⟨rfl, rfl, rfl, rfl, rfl, rfl⟩

/-- A selection its followers take: its text is short, and every uuid is plain. -/
def SelFits (picks : List Pick) : Prop :=
  utf8Len (selText picks) < 512 ∧ ∀ p ∈ picks, PlainUuid p.1

/-- What the driver finds in its selection. -/
theorem selected_picks {u : PendingUpgrade} {picks : List Pick}
    (hsel : u.select = picks.map fun p => (p.1, p.2.1)) (hne : picks ≠ []) (uuid : Str) :
    selected u uuid = (picks.find? fun p => p.1 == uuid).map (·.2.1) := by
  have hsome : (picks.map fun p => (p.1, p.2.1)).isEmpty = false := by simpa using hne
  unfold selected
  rw [hsel, hsome, if_neg Bool.false_ne_true, List.find?_map, Option.map_map]
  rfl

/-- A driver and its followers agree exactly if the selection fits. One that does not fit is
refused by the first follower it reaches. -/
theorem agrees_iff {u : PendingUpgrade} {picks : List Pick} (hplain : PlainFields (asked u))
    (hok : PicksOk picks) (hwire : u.selWire = selText picks)
    (hsel : u.select = picks.map fun p => (p.1, p.2.1)) : PrepareAgrees u ↔ SelFits picks := by
  have hread : readPrepare (preparePeer u)
      = if (selText picks).all selChar && planFieldOk (selText picks) then some (asked u)
        else none := by
    rw [preparePeer_eq_frame, readPrepare_frame hplain,
      show (asked u).sel = selText picks from hwire]
  constructor
  · intro hagrees
    obtain ⟨hsent, hpick, -⟩ := hagrees _ .sent
    rw [hread] at hsent
    split at hsent
    · rename_i htaken
      rw [Bool.and_eq_true, planFieldOk, Bool.and_eq_true, decide_eq_true_eq] at htaken
      refine ⟨htaken.2.1, fun p hp => ?_⟩
      have hne : picks ≠ [] := List.ne_nil_of_mem hp
      -- the driver finds the node, so its followers do
      obtain ⟨v, hv⟩ : ∃ v, selected u p.1 = some v := by
        rw [selected_picks hsel hne]
        cases hfind : picks.find? fun q => q.1 == p.1 with
        | some q => exact ⟨_, rfl⟩
        | none => exact absurd (beq_self_eq_true p.1) (List.find?_eq_none.mp hfind p hp)
      have hlookup : selLookup (selText picks) p.1 = some v := by
        rw [← hv, ← hpick p.1, Prepare.pick, show (asked u).sel = selText picks from hwire,
          List.isEmpty_eq_false_iff.mpr (selText_ne_nil hok hne), if_neg Bool.false_ne_true]
      obtain ⟨heq, hcomma⟩ := marks_of_selLookup hlookup
      refine plain_of_selChar ?_ heq hcomma
      rw [List.all_eq_true]
      exact fun c hc => List.all_eq_true.mp htaken.1 c (mem_selText hp hc)
    · cases hsent
  · rintro ⟨hshort, huuids⟩
    have hchars := selChar_selText hok huuids
    have htaken : readPrepare (preparePeer u) = some (asked u) := by
      rw [hread, hchars, SelTaken.planFieldOk ⟨hshort, hchars⟩]
      rfl
    intro f hf
    rw [carried_eq htaken hf]
    refine ⟨htaken, fun uuid => ?_, joins_of_read htaken⟩
    rw [Prepare.pick, show (asked u).sel = selText picks from hwire]
    by_cases hne : picks = []
    · subst hne
      rw [selected, hsel]
      rfl
    · rw [List.isEmpty_eq_false_iff.mpr (selText_ne_nil hok hne), if_neg Bool.false_ne_true,
        selLookup_selText hok hne huuids, selected_picks hsel hne]

/-- A driver and its followers agree on a run that was started exactly if its selection takes
fewer than 512 bytes and names only nodes whose uuids are letters, digits and dashes. -/
theorem prepareAgrees_iff (env : StartEnv) (known : List Cand) (r : Fin 8 → UInt8)
    (hcands : env.cands = candidates known) (hid : env.runId = generateRequestId r)
    (a : StartArgs) (u u' : PendingUpgrade) (hstart : start env u a = some u') :
    PrepareAgrees u' ↔ ∀ picks, startPicks env a = some picks → SelFits picks := by
  obtain ⟨hrefused, picks, hpicks, hbegun⟩ := start_begun hstart
  obtain ⟨hasked, hsel⟩ := asked_of_begun hbegun
  have hok : PicksOk picks := by
    refine picksOk_startPicks ?_ hpicks
    rw [hcands]
    exact candidates_uuid
  have hplain : PlainFields (asked u') := by
    rw [hasked]
    exact plainFields_of_start (hid ▸ requestId_plain r) hrefused
  have hwire : u'.selWire = selText picks := congrArg Prepare.sel hasked
  rw [agrees_iff hplain hok hwire hsel, hpicks]
  exact ⟨fun h ps hps => Option.some.inj hps ▸ h, fun h => h picks rfl⟩

namespace PrepareRuns

/-- A stored bot. The last characters of its uuid are its number. -/
def knownBot (i : Nat) : Cand :=
  ⟨"6f1c9a52-8d40-4b7e-9a13-5e2d7c0b18".toList ++ [Nat.digitChar (i / 10),
   Nat.digitChar (i % 10)],
    'b' :: Nat.toDigits 10 i, .bot⟩

/-- A hub that knows some bots, none of them logged in. -/
def hubWith (n : Nat) : StartEnv where
  now := 1000
  frozen := false
  runId := generateRequestId fun _ => 0
  originFd := 7
  hubUuid := "hub".toList
  hubFriendlyName := "hub".toList
  hubVersion := "2.5.0".toList
  hostVariant := "rs".toList
  hostArch := "x86_64".toList
  hostLibc := "glibc".toList
  cands := candidates ((List.range n).map knownBot)
  roster := []
  canTake := fun _ _ _ => .ok ()

/-- `upgrade start` of the first `n` bots by their names. -/
def startOf (n : Nat) : StartArgs where
  targetVer := "2.5.1".toList
  variant := []
  kind := []
  minFrom := []
  hubVer := []
  sel := [','].intercalate ((List.range n).map fun i => 'b' :: Nat.toDigits 10 i)

end PrepareRuns

open PrepareRuns

/-- A selection of two bots fits. -/
theorem prepareAgrees_two : ∃ u', start (hubWith 2) {} (startOf 2) = some u'
    ∧ PrepareAgrees u' := by
  have hsome : (start (hubWith 2) {} (startOf 2)).isSome = true := by decide +kernel
  have hfits : (startPicks (hubWith 2) (startOf 2)).all (fun ps =>
      decide (utf8Len (selText ps) < 512)
        && ps.all fun p => p.1.all fun c => c.isAlphanum || c == '-') = true := by decide +kernel
  obtain ⟨u', hu'⟩ := Option.isSome_iff_exists.mp hsome
  refine ⟨u', hu', (prepareAgrees_iff (hubWith 2) _ _ rfl rfl _ _ u' hu').mpr fun ps hps => ?_⟩
  rw [hps, Option.all_some, Bool.and_eq_true, decide_eq_true_eq, List.all_eq_true] at hfits
  exact hfits

/-- A selection of 14 bots is accepted, and every follower takes its PREPARE for malformed. -/
theorem prepareAgrees_fourteen :
    ∃ u', start (hubWith 14) {} (startOf 14) = some u' ∧ ¬ PrepareAgrees u' := by
  have hsome : (start (hubWith 14) {} (startOf 14)).isSome = true := by decide +kernel
  have hmalformed : (start (hubWith 14) {} (startOf 14)).all (fun u =>
      (readPrepare (preparePeer u)).isNone) = true := by decide +kernel
  obtain ⟨u', hu'⟩ := Option.isSome_iff_exists.mp hsome
  refine ⟨u', hu', fun hagrees => ?_⟩
  rw [hu', Option.all_some, (hagrees _ .sent).1] at hmalformed
  cases hmalformed

end IrcHub.Proofs
