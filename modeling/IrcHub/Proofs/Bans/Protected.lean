import IrcHub.Hub.Modes
import IrcHub.Proofs.Glob

/-!
# `IrcHub.Proofs.Bans.Protected`: what a ban mask cannot hit

What a ban mask cannot hit. An admin who bans by a pattern must not ban a bot or a colleague, and
the check is made on patterns: nobody knows the hostmasks to come. A mask that `banProtected` lets
through hits no hostmask that an active bot reported, and no hostmask that an active usermask of
an active person covers.

- `banProtected_bots`: the hostmasks of bots are literal texts, tried against the mask
- `banProtected_masks`: usermasks are patterns, tried part by part
- `hostmaskOverlap_of_common`: two masks with a hostmask in common overlap, part by part
- `banProtected_sound`: both, for every hostmask

Masks work on bytes with ASCII case folded, and the records hold characters in any case.
`utf8_toLower` and `bytesOf_lower` bring the two together, so that a statement on folded bytes is
one on the texts.

A host pattern is taken for an address or for a name by its symbols, so a mask of one kind can
still meet a usermask of the other kind at a host that is neither (`typed_hosts_meet`). For hosts
of dotted numbers that does not happen (`not_name_of_dotted`).
-/

set_option autoImplicit false

namespace IrcHub.Proofs

open IrcHub.Hub Str

/-! ### Letters and bytes -/

/-- A byte that is no letter folds only to itself. -/
theorem eq_of_gfold {a c : UInt8} (ha : a < 65 ∨ (90 < a ∧ a < 97))
    (h : gfold a = gfold c) : c = a := by
  unfold gfold at h
  simp only [Bool.and_eq_true, decide_eq_true_eq, UInt8.le_iff_toNat_le, UInt8.lt_iff_toNat_lt]
    at h ha
  rw [← UInt8.toNat_inj] at h ⊢
  split at h
  · split at h <;> simp_all <;> omega
  · split at h
    · rw [UInt8.toNat_add] at h
      simp_all
      omega
    · exact h.symm

/-- Bytes of texts one after the other. -/
theorem bytesOf_append (s t : Str) : bytesOf (s ++ t) = bytesOf s ++ bytesOf t :=
  List.flatMap_append

/-- The bytes of a symbol that is not ASCII are not ASCII. -/
theorem ascii_of_mem_utf8 {c : Char} (hc : 127 < c.val.toNat) :
    ∀ b ∈ String.utf8EncodeChar c, 128 ≤ b := by
  suffices h : (String.utf8EncodeChar c).all (128 ≤ ·) = true by
    intro b hb
    exact of_decide_eq_true (List.all_eq_true.mp h b hb)
  unfold String.utf8EncodeChar
  simp only
  rw [if_neg (by omega)]
  split
  · simp [UInt8.le_iff_toNat_le]
    omega
  split
  · simp [UInt8.le_iff_toNat_le]
    omega
  · simp [UInt8.le_iff_toNat_le]
    omega

/-- The bytes of dotted numbers. -/
def DottedByte (b : UInt8) : Prop := (48 ≤ b ∧ b ≤ 57) ∨ b = 46

instance (b : UInt8) : Decidable (DottedByte b) := inferInstanceAs (Decidable (_ ∨ _))

/-- A symbol that is no digit, dot or wildcard has a byte that is none either. It is what tells a
pattern of a name from the dotted numbers. -/
theorem symbol_byte {c : Char} (hdigit : c.isDigit = false)
    (hother : ¬ ".*?".toList.contains c = true) :
    ∃ b ∈ String.utf8EncodeChar c, ¬ DottedByte b ∧ b ≠ globStar ∧ b ≠ globAny := by
  by_cases hc : 127 < c.val.toNat
  · obtain ⟨b, hb⟩ : ∃ b, b ∈ String.utf8EncodeChar c :=
      List.exists_mem_of_length_pos
        (by rw [String.length_utf8EncodeChar]; exact Char.utf8Size_pos c)
    have hle := UInt8.le_iff_toNat_le.mp (ascii_of_mem_utf8 hc b hb)
    refine ⟨b, hb, ?_, ?_, ?_⟩
    · rintro (⟨-, hhi⟩ | rfl)
      · have := UInt8.le_iff_toNat_le.mp hhi
        simp at hle this
        omega
      · simp at hle
    · rintro rfl
      exact absurd hle (by decide)
    · rintro rfl
      exact absurd hle (by decide)
  · have hbyte : String.utf8EncodeChar c = [UInt8.ofNat c.val.toNat] := by
      unfold String.utf8EncodeChar
      simp only
      rw [if_pos (by omega)]
    refine ⟨_, hbyte ▸ List.mem_singleton_self _, ?_⟩
    simp only [Char.isDigit, Bool.and_eq_false_iff, decide_eq_false_iff_not,
      UInt32.le_iff_toNat_le, ge_iff_le] at hdigit
    have hdot : c.val.toNat ≠ 46 ∧ c.val.toNat ≠ 42 ∧ c.val.toNat ≠ 63 := by
      refine ⟨?_, ?_, ?_⟩ <;> intro heq <;> refine hother ?_
      · rw [show c = '.' from Char.ext (UInt32.toNat_inj.mp heq)]; decide
      · rw [show c = '*' from Char.ext (UInt32.toNat_inj.mp heq)]; decide
      · rw [show c = '?' from Char.ext (UInt32.toNat_inj.mp heq)]; decide
    have hval : (UInt8.ofNat c.val.toNat).toNat = c.val.toNat := by
      rw [UInt8.toNat_ofNat']
      omega
    refine ⟨?_, ?_, ?_⟩
    · rintro (⟨hlo, hhi⟩ | heq)
      · rw [UInt8.le_iff_toNat_le, hval] at hlo hhi
        simp at hlo hhi hdigit
        omega
      · exact hdot.1 (hval ▸ congrArg UInt8.toNat heq)
    · intro heq
      exact hdot.2.1 (hval ▸ congrArg UInt8.toNat heq)
    · intro heq
      exact hdot.2.2 (hval ▸ congrArg UInt8.toNat heq)

/-! ### The case of a mask -/

/-- Only ASCII letters have a lower case. -/
theorem toLower_of_not_ascii {c : Char} (hc : ¬ c.toNat < 128) : c.toLower = c :=
  dif_neg fun hup => hc (Nat.lt_of_le_of_lt (show c.toNat ≤ 90 from hup.2) (by decide))

/-- What holds of the ASCII characters, and of those that fold to themselves, holds of all. -/
theorem forall_char {P : Char → Prop} (hascii : ∀ n < 128, P (Char.ofNat n))
    (hsame : ∀ c, c.toLower = c → P c) (c : Char) : P c := by
  by_cases hc : c.toNat < 128
  · rw [← Char.ofNat_toNat c]
    exact hascii _ hc
  · exact hsame c (toLower_of_not_ascii hc)

/-- Folding bytes is lower case of the characters: bytes beyond ASCII are left by both. -/
theorem utf8_toLower (c : Char) :
    String.utf8EncodeChar c.toLower = (String.utf8EncodeChar c).map gfold := by
  by_cases hc : c.toNat < 128
  · have hall : ∀ n < 128, String.utf8EncodeChar (Char.ofNat n).toLower
        = (String.utf8EncodeChar (Char.ofNat n)).map gfold := by decide +kernel
    rw [← Char.ofNat_toNat c]
    exact hall _ hc
  · rw [toLower_of_not_ascii hc]
    have hsame : ∀ b ∈ String.utf8EncodeChar c, gfold b = b := by
      intro b hb
      have hhigh := UInt8.le_iff_toNat_le.mp (ascii_of_mem_utf8 (Nat.not_lt.mp hc) b hb)
      unfold gfold
      rw [if_neg]
      simp only [Bool.and_eq_true, decide_eq_true_eq, UInt8.le_iff_toNat_le, not_and]
      intro _ hle
      exact absurd (hhigh.trans hle) (by decide)
    exact ((List.map_congr_left hsame).trans (List.map_id' _)).symm

/-- The same for a text. -/
theorem bytesOf_lower (s : Str) : bytesOf (lower s) = (bytesOf s).map gfold := by
  induction s with
  | nil => rfl
  | cons c s ih =>
    show String.utf8EncodeChar c.toLower ++ bytesOf (lower s)
      = (String.utf8EncodeChar c ++ bytesOf s).map gfold
    rw [ih, utf8_toLower, List.map_append]

/-- A token of a pattern folds to the token of the folded byte. -/
theorem globTok_gfold (x : UInt8) : (globTok x).fold gfold = globTok (gfold x) := by
  unfold globTok
  have hstar : gfold x = globStar ↔ x = globStar :=
    ⟨fun h => eq_of_gfold (.inl (by decide)) h.symm, fun h => by rw [h]; rfl⟩
  have hany : gfold x = globAny ↔ x = globAny :=
    ⟨fun h => eq_of_gfold (.inl (by decide)) h.symm, fun h => by rw [h]; rfl⟩
  simp only [hstar, hany]
  split
  · rfl
  split <;> rfl

/-- Folding twice is folding once. -/
theorem gfold_gfold (x : UInt8) : gfold (gfold x) = gfold x := by
  have hall : ∀ n < 256, gfold (gfold (UInt8.ofNat n)) = gfold (UInt8.ofNat n) := by
    decide +kernel
  rw [← UInt8.ofNat_toNat (x := x)]
  exact hall _ x.toNat_lt

/-- A pattern may be folded. -/
theorem inGlob_fold {p s : List UInt8} : InGlob (p.map gfold) s ↔ InGlob p s := by
  unfold InGlob
  rw [Glob.matches_fold_iff, Glob.matches_fold_iff (p := p.map globTok), List.map_map,
    List.map_map, List.map_map]
  have hsame : ((Glob.Tok.fold gfold) ∘ globTok) ∘ gfold = (Glob.Tok.fold gfold) ∘ globTok := by
    funext x
    show (globTok (gfold x)).fold gfold = (globTok x).fold gfold
    rw [globTok_gfold, globTok_gfold, gfold_gfold]
  rw [hsame]

/-! ### The parts of a mask -/

variable {m N U H N' U' H' : Str} {n u h text : List UInt8}

/-- The parts of a mask and the two signs between them are the mask, as bytes. -/
theorem maskParts_bytes (hparts : maskParts m = some (N, U, H)) :
    bytesOf m = bytesOf N ++ 33 :: (bytesOf U ++ 64 :: bytesOf H) := by
  unfold maskParts at hparts
  cases hnick : splitOnce '!' m with
  | none =>
    rw [hnick] at hparts
    cases hparts
  | some p =>
    obtain ⟨nick, rest⟩ := p
    rw [hnick] at hparts
    obtain ⟨q, hrest, heq⟩ := Option.map_eq_some_iff.mp hparts
    obtain ⟨user, host⟩ := q
    cases heq
    rw [(splitOnce_eq_some_iff.mp hnick).1, (splitOnce_eq_some_iff.mp hrest).1, bytesOf_append]
    show bytesOf N ++ 33 :: bytesOf (user ++ '@' :: host) = _
    rw [bytesOf_append]
    rfl

/-- A hostmask of one nick, user and host. -/
structure PlainHost (n u h : List UInt8) : Prop where
  nick : 33 ∉ n
  user : 33 ∉ u ∧ 64 ∉ u
  host : 33 ∉ h ∧ 64 ∉ h

/-- Such a hostmask is one of a mask part by part. `hplain` says that the two signs stand where
they seem to, so the text has only one way to be cut. -/
theorem inGlob_parts (hplain : PlainHost n u h) (hparts : maskParts m = some (N, U, H))
    (hin : InGlob (bytesOf m) (n ++ 33 :: (u ++ 64 :: h))) :
    InGlob (bytesOf N) n ∧ InGlob (bytesOf U) u ∧ InGlob (bytesOf H) h := by
  have hbang : 33 ∉ u ++ 64 :: h := by
    rw [List.mem_append, List.mem_cons]
    rintro (hu | hno | hh)
    · exact hplain.user.1 hu
    · cases hno
    · exact hplain.host.1 hh
  rw [maskParts_bytes hparts] at hin
  unfold InGlob at hin ⊢
  rw [List.map_append, List.map_cons, List.map_append, List.map_cons] at hin
  obtain ⟨hnick, hrest⟩ :=
    hin.split_at (fun _ => eq_of_gfold (.inl (by decide))) hplain.nick hbang
  obtain ⟨huser, hhost⟩ :=
    hrest.split_at (fun _ => eq_of_gfold (.inl (by decide))) hplain.user.2 hplain.host.2
  exact ⟨hnick, huser, hhost⟩

/-- Two host patterns are not one an address and the other a name. -/
def KindsMeet (H H' : Str) : Prop := hostKind H = .either ∨ hostKind H' = .either
    ∨ hostKind H = hostKind H'

/-- A dotted number is no text of a name: a pattern that is taken for a name has a symbol no
dotted number has. -/
theorem not_name_of_dotted (hin : InGlob (bytesOf H) h) (hdotted : ∀ b ∈ h, DottedByte b) :
    hostKind H ≠ .name := by
  intro hname
  unfold hostKind at hname
  split at hname
  · cases hname
  split at hname
  · rename_i hany
    obtain ⟨c, hc, hother⟩ := List.any_eq_true.mp hany
    simp only [Bool.and_eq_true, Bool.not_eq_true'] at hother
    obtain ⟨b, hb, hno, hstar, hquest⟩ :=
      symbol_byte hother.1 (by rw [hother.2]; exact Bool.false_ne_true)
    have htok : .lit b ∈ (bytesOf H).map globTok := by
      refine List.mem_map.mpr ⟨b, List.mem_flatMap.mpr ⟨c, hc, hb⟩, ?_⟩
      rw [globTok, if_neg hstar, if_neg hquest]
    obtain ⟨d, hd, hsame⟩ := hin.lit_mem htok
    have hlow : d < 65 := by
      rcases hdotted d hd with ⟨-, hhi⟩ | rfl
      · rw [UInt8.le_iff_toNat_le] at hhi
        rw [UInt8.lt_iff_toNat_lt]
        exact Nat.lt_of_le_of_lt hhi (by decide)
      · decide
    exact hno (eq_of_gfold (.inl hlow) hsame.symm ▸ hdotted d hd)
  · split at hname <;> cases hname

/-- Two masks with a hostmask in common overlap, unless their hosts are of different kinds. A host
of dotted numbers is never one of a name. `hkinds` is that condition, for the patterns or for the
host itself. -/
theorem hostmaskOverlap_of_common {m' : Str} (hparts : maskParts m = some (N, U, H))
    (hparts' : maskParts m' = some (N', U', H')) (hplain : PlainHost n u h)
    (hin : InGlob (bytesOf m) (n ++ 33 :: (u ++ 64 :: h)))
    (hin' : InGlob (bytesOf m') (n ++ 33 :: (u ++ 64 :: h)))
    (hkinds : KindsMeet H H' ∨ ∀ b ∈ h, DottedByte b) : hostmaskOverlap m m' = true := by
  unfold hostmaskOverlap
  rw [hparts, hparts']
  dsimp only
  split
  · obtain ⟨hnick, huser, hhost⟩ := inGlob_parts hplain hparts hin
    obtain ⟨hnick', huser', hhost'⟩ := inGlob_parts hplain hparts' hin'
    have hmeet : KindsMeet H H' := by
      refine hkinds.elim id fun hdotted => ?_
      have hno := not_name_of_dotted hhost hdotted
      have hno' := not_name_of_dotted hhost' hdotted
      unfold KindsMeet
      cases hkind : hostKind H <;> cases hkind' : hostKind H' <;> simp_all
    have hover : globOverlap (bytesOf N) (bytesOf N') = true :=
      (globOverlap_iff _ _).mpr (.inr ⟨n, hnick, hnick'⟩)
    have hover' : globOverlap (bytesOf U) (bytesOf U') = true :=
      (globOverlap_iff _ _).mpr (.inr ⟨u, huser, huser'⟩)
    rw [hover, hover', (globOverlap_iff _ _).mpr (.inr ⟨h, hhost, hhost'⟩)]
    simp only [Bool.and_true, Bool.or_eq_true, decide_eq_true_eq, or_assoc]
    exact hmeet
  · exact (globOverlap_iff _ _).mpr (.inr ⟨_, hin, hin'⟩)

/-! ### Masks in either case -/

/-- A split at a character that lower case neither makes nor takes away. -/
theorem splitOnce_lower {d : Char} (hd : ∀ c : Char, c.toLower = d ↔ c = d) (t : Str) :
    splitOnce d (lower t) = (splitOnce d t).map fun p => (lower p.1, lower p.2) := by
  induction t with
  | nil => rfl
  | cons c t ih =>
    rw [lower_cons, splitOnce, splitOnce]
    by_cases hc : c = d
    · rw [if_pos hc, if_pos ((hd c).mpr hc)]
      rfl
    · rw [if_neg hc, if_neg fun h => hc ((hd c).mp h), ih, Option.map_map, Option.map_map]
      rfl

/-- The parts of a mask in lower case. -/
theorem maskParts_lower (t : Str) :
    maskParts (lower t) = (maskParts t).map fun p => (lower p.1, lower p.2.1, lower p.2.2) := by
  have hbang : ∀ c : Char, c.toLower = '!' ↔ c = '!' :=
    fun c => toLower_eq_iff (by decide) (by decide)
  have hat : ∀ c : Char, c.toLower = '@' ↔ c = '@' :=
    fun c => toLower_eq_iff (by decide) (by decide)
  unfold maskParts
  rw [splitOnce_lower hbang]
  cases splitOnce '!' t with
  | none => rfl
  | some p =>
    obtain ⟨nick, rest⟩ := p
    show (splitOnce '@' (lower rest)).map _ = ((splitOnce '@' rest).map _).map _
    rw [splitOnce_lower hat]
    cases splitOnce '@' rest <;> rfl

/-- The kind of a host does not depend on case. -/
theorem hostKind_lower (t : Str) : hostKind (lower t) = hostKind t := by
  have hcolon : (lower t).contains ':' = t.contains ':' := by
    rw [Bool.eq_iff_iff, List.contains_iff_mem, List.contains_iff_mem, ← List.count_pos_iff,
      ← List.count_pos_iff, count_lower (by decide) (by decide)]
  have hdigit : ∀ c : Char, c.toLower.isDigit = c.isDigit :=
    forall_char (by decide +kernel) fun c hc => by rw [hc]
  have hother : ∀ c : Char, ".*?".toList.contains c.toLower = ".*?".toList.contains c :=
    forall_char (by decide +kernel) fun c hc => by rw [hc]
  unfold hostKind
  rw [hcolon]
  rw [lower, List.any_map, List.any_map]
  simp only [Function.comp_def, hdigit, hother]

/-- Nor does the overlap of two patterns. -/
theorem globOverlap_lower (a : Str) (b : List UInt8) :
    globOverlap (bytesOf (lower a)) b = globOverlap (bytesOf a) b := by
  rw [Bool.eq_iff_iff, globOverlap_iff, globOverlap_iff, bytesOf_lower, List.length_map]
  refine or_congr_right ?_
  show (∃ t, InGlob ((bytesOf a).map gfold) t ∧ InGlob b t) ↔ ∃ t, InGlob (bytesOf a) t
    ∧ InGlob b t
  exact exists_congr fun t => and_congr_left' inGlob_fold

/-- Nor does the overlap of two masks depend on the case of the first one. -/
theorem hostmaskOverlap_lower (a b : Str) :
    hostmaskOverlap (lower a) b = hostmaskOverlap a b := by
  have hlen : (bytesOf (lower a)).length = (bytesOf a).length := by
    rw [bytesOf_lower, List.length_map]
  unfold hostmaskOverlap
  rw [maskParts_lower, hlen]
  cases maskParts a with
  | none =>
    dsimp only [Option.map_none]
    exact globOverlap_lower a _
  | some p =>
    dsimp only [Option.map_some]
    cases maskParts b with
    | none =>
      dsimp only
      exact globOverlap_lower a _
    | some q =>
      dsimp only
      rw [hostKind_lower, globOverlap_lower, globOverlap_lower, globOverlap_lower,
        globOverlap_lower]

/-- A mask is protected or not in either case. -/
theorem banProtected_lower (s : HubState) (t : Str) :
    banProtected s (lower t) = banProtected s t := by
  have hempty : (lower t).isEmpty = t.isEmpty := by cases t <;> rfl
  have hmatch : ∀ h, globMatch (lower t) h = globMatch t h := by
    intro h
    rw [Bool.eq_iff_iff, globMatch_iff, globMatch_iff, bytesOf_lower]
    exact inGlob_fold
  unfold banProtected
  simp only [hempty, hmatch, hostmaskOverlap_lower]

/-! ### Who is protected -/

/-- A live bot reported this hostmask. -/
def ReportedBy (s : HubState) (text : List UInt8) : Prop :=
  text ≠ [] ∧ ∃ b ∈ s.bots, b.isActive = true ∧ ∃ e, b.entry .h = some e
    ∧ bytesOf (trunc e.value maxMaskLen) = text

/-- A live usermask of a live person. -/
def LiveMask (s : HubState) (m : MaskRecord) : Prop :=
  m ∈ s.maskRecords ∧ m.isActive = true
    ∧ ∃ u, s.userRecords.find? (fun u => u.uuid == m.uuid) = some u ∧ u.isActive = true

variable {s : HubState} {mask : Str}

/-- What a mask that is let through went past: it matches the hostmask of no live bot, and
overlaps no live usermask. The two parts are the two walks of the function. -/
theorem banProtected_ok (hok : banProtected s mask = .ok) :
    (∀ b ∈ s.bots, b.isActive = true → ∀ e, b.entry .h = some e → trunc e.value maxMaskLen ≠ [] →
        globMatch mask (trunc e.value maxMaskLen) = false)
      ∧ ∀ m, LiveMask s m → hostmaskOverlap mask m.mask = false := by
  unfold banProtected at hok
  split at hok
  · cases hok
  split at hok
  · cases hok
  rename_i hbots
  split at hok
  · cases hok
  rename_i hmasks
  refine ⟨fun b hb hactive e he hne => ?_, fun m hm => ?_⟩
  · rw [List.any_eq_true, not_exists] at hbots
    have := hbots b
    simp only [hb, hactive, he, Bool.true_and, true_and, Bool.and_eq_true, Bool.not_eq_true',
      List.isEmpty_eq_false_iff, not_and, Bool.not_eq_true] at this
    exact this hne
  · obtain ⟨hmem, hactive, u, hu, hlive⟩ := hm
    rw [List.any_eq_true, not_exists] at hmasks
    have := hmasks m
    simp only [hmem, hactive, hu, hlive, Bool.true_and, true_and, Bool.not_eq_true] at this
    exact this

/-- A ban that passes takes in no hostmask that a bot of the hub has reported. -/
theorem banProtected_bots (hok : banProtected s mask = .ok) (hin : InGlob (bytesOf mask) text) :
    ¬ ReportedBy s text := by
  rintro ⟨hne, b, hb, hactive, e, he, rfl⟩
  have hsome : trunc e.value maxMaskLen ≠ [] := fun hnil => hne (by rw [hnil]; rfl)
  have hno := (banProtected_ok hok).1 b hb hactive e he hsome
  rw [(globMatch_iff _ _).mpr hin] at hno
  cases hno

/-- Nor one that is of a live admin mask of the same kind of host. The hostmask has to have no
sign of a mask within its parts: `PlainHost`. -/
theorem banProtected_masks (hok : banProtected s mask = .ok)
    (hparts : maskParts mask = some (N, U, H)) (hplain : PlainHost n u h)
    (hin : InGlob (bytesOf mask) (n ++ 33 :: (u ++ 64 :: h))) {m : MaskRecord}
    (hlive : LiveMask s m) (hparts' : maskParts m.mask = some (N', U', H'))
    (hkinds : KindsMeet H H' ∨ ∀ b ∈ h, DottedByte b) :
    ¬ InGlob (bytesOf m.mask) (n ++ 33 :: (u ++ 64 :: h)) := by
  intro hin'
  have hno := (banProtected_ok hok).2 m hlive
  rw [hostmaskOverlap_of_common hparts hparts' hplain hin hin' hkinds] at hno
  cases hno

/-- A mask that is let through hits no hostmask that a live bot reported. It hits no hostmask that
a live usermask covers either, where no part of the hostmask holds a separator and the two host
patterns are not one an address and the other a name, or the host is a dotted number.

`hparts` says that the mask has a nick, a user and a host part; one that has not is refused
before. -/
theorem banProtected_sound {s : HubState} {mask N U H : Str}
    (hparts : maskParts mask = some (N, U, H)) (hok : banProtected s mask = .ok) :
    (∀ text, InGlob (bytesOf mask) text → ¬ ReportedBy s text)
      ∧ ∀ n u h, PlainHost n u h → InGlob (bytesOf mask) (n ++ 33 :: (u ++ 64 :: h)) →
        ∀ m, LiveMask s m → ∀ N' U' H', maskParts m.mask = some (N', U', H') →
          (KindsMeet H H' ∨ ∀ b ∈ h, DottedByte b) →
          ¬ InGlob (bytesOf m.mask) (n ++ 33 :: (u ++ 64 :: h)) :=
  ⟨fun _ hin => banProtected_bots hok hin,
    fun _ _ _ hplain hin _ hlive _ _ _ hparts' hkinds =>
      banProtected_masks hok hparts hplain hin hlive hparts' hkinds⟩

/-- One person with one usermask, and one bot. -/
def guardedBy (usermask : String) : HubState :=
  { userRecords := [{ uuid := "u1".toList, name := "ann".toList, typ := 'a', isActive := true }],
    maskRecords := [{ uuid := "u1".toList, mask := usermask.toList, isActive := true }],
    bots := [{ uuid := "b1".toList, isActive := true,
               entries := [{ key := .h, value := "bot!b@10.0.0.1".toList, timestamp := 1,
                             lastUsed := 0 }] }] }

/-- A ban on an address range is let through, and hits neither the bot nor a person with a name
for a host. -/
theorem banProtected_sound_range :
    (∀ text, InGlob (bytesOf "*!*@149.76.*.*".toList) text →
    ¬ ReportedBy (guardedBy "*!*@*aol.com") text)
      ∧ ¬ InGlob (bytesOf "*!*@*aol.com".toList) (bytesOf "a!b@149.76.1.2".toList) := by
  have hplain : PlainHost (bytesOf "a".toList) (bytesOf "b".toList)
    (bytesOf "149.76.1.2".toList) :=
    ⟨by decide, by decide, by decide⟩
  obtain ⟨hbots, hmasks⟩ := @banProtected_sound (guardedBy "*!*@*aol.com") "*!*@149.76.*.*".toList
    "*".toList "*".toList "149.76.*.*".toList (by decide +kernel) (by decide +kernel)
  refine ⟨hbots, ?_⟩
  exact hmasks _ _ _ hplain ((globMatch_iff _ "a!b@149.76.1.2".toList).mp (by decide +kernel)) _
    ⟨List.mem_singleton_self _, rfl, _, rfl, rfl⟩ "*".toList "*".toList "*aol.com".toList
     (by decide +kernel)
    (.inr (by decide +kernel))

/-- A name and an address never overlap, though some host is one of both; and where the user part
of a hostmask holds a separator, the parts of the two masks can lie differently. These are the two
ways past the check, both at a concrete ban. -/
theorem typed_hosts_meet :
    (banProtected (guardedBy "*!*@*aol.com") "*!*@149.76.*.*".toList = .ok
        ∧ LiveMask (guardedBy "*!*@*aol.com")
          { uuid := "u1".toList, mask := "*!*@*aol.com".toList, isActive := true }
        ∧ InGlob (bytesOf "*!*@149.76.*.*".toList) (bytesOf "a!b@149.76.1.aol.com".toList)
        ∧ InGlob (bytesOf "*!*@*aol.com".toList) (bytesOf "a!b@149.76.1.aol.com".toList))
      ∧ banProtected (guardedBy "a!b*@y") "*!x@y".toList = .ok
        ∧ LiveMask (guardedBy "a!b*@y") { uuid := "u1".toList, mask := "a!b*@y".toList,
                                          isActive := true }
        ∧ InGlob (bytesOf "*!x@y".toList) (bytesOf "a!b!x@y".toList)
        ∧ InGlob (bytesOf "a!b*@y".toList) (bytesOf "a!b!x@y".toList) := by
  refine ⟨⟨by decide +kernel, ?_, ?_, ?_⟩, by decide +kernel, ?_, ?_, ?_⟩
  · exact ⟨List.mem_singleton_self _, rfl, _, rfl, rfl⟩
  · exact (globMatch_iff _ _).mp (by decide +kernel)
  · exact (globMatch_iff _ _).mp (by decide +kernel)
  · exact ⟨List.mem_singleton_self _, rfl, _, rfl, rfl⟩
  · exact (globMatch_iff _ _).mp (by decide +kernel)
  · exact (globMatch_iff _ _).mp (by decide +kernel)

end IrcHub.Proofs
