import IrcHub.Proofs.Sync.Fits

/-!
# `IrcHub.Proofs.Sync.Lines`: the line of every record

`LineFit ok n l` says that a text is one line of at most `n` bytes before its end, made of
characters of `ok`. There is one lemma per kind of record: a record that fits its table has a line
that fits.

* `print_of_recordValid`, `valueMax`, `Fits.fit_value`: the values of the global table
* `Fits.line_global`, `UserFits.line`, `BotFits.line` and the others: the lines

The bounds are sums of the caps of the fields and of what stands between them, so they are the
widest line there can be.
-/

set_option autoImplicit false

namespace IrcHub.Proofs

open IrcHub.Hub Str Table
open String (utf8Len)

variable {ok : Char → Prop} {s : HubState}

/-! ### Lines -/

/-- Some text of at most `n` bytes and characters of `ok`, then a line end. -/
def LineFit (ok : Char → Prop) (n : Nat) (l : Str) : Prop :=
  ∃ body, l = body ++ ['\n'] ∧ body ≠ [] ∧ Fit ok n body

/-- A line takes one byte more than its text, for its end. -/
theorem LineFit.len {n : Nat} {l : Str} (h : LineFit ok n l) : utf8Len l ≤ n + 1 := by
  obtain ⟨body, rfl, -, hfit⟩ := h
  rw [String.utf8Len_append]
  exact Nat.add_le_add_right hfit.len 1

/-- A line that fits a length fits a longer one. -/
theorem LineFit.mono {n m : Nat} {l : Str} (h : LineFit ok n l) (hnm : n ≤ m) :
    LineFit ok m l := by
  obtain ⟨body, rfl, hne, hfit⟩ := h
  exact ⟨body, rfl, hne, hfit.mono hnm⟩

/-- Where line ends are not allowed, a line is one line. -/
theorem LineFit.isLine {n : Nat} {l : Str} (h : LineFit ok n l) (hend : ¬ ok '\n') :
    IsLine '\n' l := by
  obtain ⟨body, rfl, hne, hfit⟩ := h
  exact ⟨body, rfl, fun hc => hend (hfit.chars _ hc), hne⟩

/-- A character a line is made of is allowed or ends it. -/
theorem LineFit.chars {n : Nat} {l : Str} (h : LineFit ok n l) : ∀ c ∈ l, ok c ∨ c = '\n' := by
  obtain ⟨body, rfl, -, hfit⟩ := h
  intro c hc
  rcases List.mem_append.mp hc with hc | hc
  · exact .inl (hfit.chars c hc)
  · exact .inr (List.mem_singleton.mp hc)

/-! ### Parts of a line -/

/-- A field after its bar. -/
theorem fit_bar (hok : WireOk ok) {n : Nat} {t : Str} (h : Fit ok n t) :
    Fit ok (n + 1) ('|' :: t) := by
  have hbar : Fit ok 1 ['|'] := ⟨by decide, fun c hc => by
    rw [List.mem_singleton.mp hc]
    exact hok.print (by decide)⟩
  have happ := hbar.append h
  rwa [Nat.add_comm] at happ

/-- A 64-bit number takes 20 bytes at most, a sign among them. -/
theorem fit_num (hok : WireOk ok) {x : Int} (h : InI64 x) : Fit ok 20 (ofInt x) :=
  fit_ofInt h.1 h.2 fun _ hc => hok.print hc

/-- `add` and `del` take three bytes. -/
theorem fit_opText (hok : WireOk ok) (active : Bool) : Fit ok 3 (opText active) := by
  cases active
  · exact fit_text hok (by decide) (by decide)
  · exact fit_text hok (by decide) (by decide)

/-! ### Values of settings, defaults and bans -/

/-- A channel name that passed its check is printable. -/
private theorem print_of_recChanOk {t : Str} {star : Bool} (h : recChanOk t star = true) :
    ∀ c ∈ t, 0x20 ≤ c.toNat := by
  intro c hc
  simp only [recChanOk, Bool.or_eq_true, Bool.and_eq_true, beq_iff_eq, List.all_eq_true,
    decide_eq_true_eq] at h
  rcases h with ⟨-, rfl⟩ | ⟨-, hall⟩
  · rw [List.mem_singleton.mp hc]
    decide
  · exact Nat.le_of_lt (hall c hc).1.1.1

/-- So are modes. -/
private theorem print_of_recModesOk {t : Str} (h : recModesOk t = true) :
    ∀ c ∈ t, 0x20 ≤ c.toNat := by
  intro c hc
  simp only [recModesOk, Bool.and_eq_true, List.all_eq_true, Bool.or_eq_true, beq_iff_eq] at h
  rcases h.2 c hc with ((halnum | rfl) | rfl) | rfl
  · exact (toNat_of_alphanum halnum).1
  all_goals decide

/-- So are settings. -/
private theorem print_of_recSettingsOk {t : Str} {n : Nat} (h : recSettingsOk t n = true) :
    ∀ c ∈ t, 0x20 ≤ c.toNat := by
  intro c hc
  simp only [recSettingsOk, Bool.and_eq_true, List.all_eq_true, decide_eq_true_eq] at h
  exact (h.1.2 c hc).1.1

/-- So is an operation. -/
private theorem print_of_recOpOk {t : Str} (h : recOpOk t = true) : ∀ c ∈ t, 0x20 ≤ c.toNat := by
  have hprint : printText t = true := by
    simp only [recOpOk, Bool.or_eq_true, beq_iff_eq] at h
    rcases h with rfl | rfl
    · decide
    · decide
  exact fun c hc => (toNat_of_printText hprint c hc).1

/-- So is a mask. -/
private theorem print_of_recMaskOk {t : Str} (h : recMaskOk t = true) :
    ∀ c ∈ t, 0x20 ≤ c.toNat := by
  intro c hc
  simp only [recMaskOk, Bool.and_eq_true, List.all_eq_true, decide_eq_true_eq] at h
  exact Nat.le_of_lt (h.2 c hc).1.1.1

/-- So is a number. -/
private theorem print_of_recNumOk {t : Str} (h : recNumOk t = true) :
    ∀ c ∈ t, 0x20 ≤ c.toNat := by
  intro c hc
  simp only [recNumOk, Bool.and_eq_true, List.all_eq_true] at h
  exact (toNat_of_alphanum (Bool.or_eq_true_iff.mpr (.inr (h.2 c hc)))).1

/-- So are flags. -/
private theorem print_of_recFlagsOk {t : Str} (h : recFlagsOk t = true) :
    ∀ c ∈ t, 0x20 ≤ c.toNat := by
  intro c hc
  simp only [recFlagsOk, Bool.and_eq_true, List.all_eq_true, beq_iff_eq] at h
  rw [h.1 c hc]
  decide

/-- So is a setter. -/
private theorem print_of_recSetterOk {t : Str} (h : recSetterOk t = true) :
    ∀ c ∈ t, 0x20 ≤ c.toNat := by
  intro c hc
  simp only [recSetterOk, Bool.and_eq_true, List.all_eq_true, Bool.or_eq_true, beq_iff_eq] at h
  rcases h.2 c hc with ((halnum | rfl) | rfl) | rfl
  · exact (toNat_of_alphanum halnum).1
  all_goals decide

/-- So is a text. -/
private theorem print_of_recTextOk {t : Str} {n : Nat} (h : recTextOk t n = true) :
    ∀ c ∈ t, 0x20 ≤ c.toNat := by
  intro c hc
  simp only [recTextOk, Bool.and_eq_true, List.all_eq_true, decide_eq_true_eq] at h
  exact (h.2 c hc).1

/-- Two printable texts around a bar. -/
private theorem print_bar {a b : Str} (ha : ∀ c ∈ a, 0x20 ≤ c.toNat)
    (hb : ∀ c ∈ b, 0x20 ≤ c.toNat) :
    ∀ c ∈ a ++ '|' :: b, 0x20 ≤ c.toNat := by
  intro c hc
  rcases List.mem_append.mp hc with hc | hc
  · exact ha c hc
  rcases List.mem_cons.mp hc with rfl | hc
  · decide
  · exact hb c hc

/-- A valid value is printable: each of its fields was checked. -/
theorem print_of_recordValid {k : GlobalKey} {v : Str} (h : recordValid k v = true) :
    ∀ c ∈ v, 0x20 ≤ c.toNat := by
  cases k with
  | C =>
    obtain ⟨f, rfl⟩ := recordValid_chanset_iff.mp h
    exact print_bar (print_of_recChanOk f.chanOk) (print_bar (print_of_recModesOk f.modesOk)
      (print_bar (print_of_recSettingsOk f.settingsOk) (print_of_recOpOk f.opOk)))
  | D =>
    obtain ⟨f, rfl⟩ := recordValid_netset_iff.mp h
    exact print_bar (print_of_recModesOk f.modesOk) (print_of_recSettingsOk f.settingsOk)
  | B =>
    obtain ⟨f, rfl⟩ := recordValid_ban_iff.mp h
    refine print_bar ?_ (print_bar (print_of_recTextOk f.reasonOk) (print_of_recOpOk f.opOk))
    exact print_bar (print_of_recChanOk f.chanOk) (print_bar (print_of_recMaskOk f.maskOk)
      (print_bar (print_of_recNumOk f.expiresOk)
        (print_bar (print_of_recFlagsOk f.flagsOk) (print_of_recSetterOk f.setterOk))))
  | _ => simp [recordValid] at h

/-! ### The lines of the tables -/

/-- The bytes of a value of the global table. Only those of the newer classes are known to be
shorter than the buffer. -/
def valueMax : GlobalKey → Nat
  | .C => 646
  | .D => 577
  | .B => 391
  | _ => 1023

/-- A stored value fits its class. -/
theorem Fits.fit_value (h : Fits ok s) (hok : WireOk ok) {e : GlobalEntry}
    (he : e ∈ s.globalEntries) :
    Fit ok (valueMax e.key) e.value := by
  have hentry := h.store.entryOk e he
  cases hk : keyIsModes e.key with
  | true =>
    have hvalid := (hentry.modes hk).1
    refine ⟨?_, fun c hc => hok.print (print_of_recordValid hvalid c hc)⟩
    cases hkey : e.key with
    | C =>
      rw [hkey] at hvalid
      obtain ⟨f, hf⟩ := recordValid_chanset_iff.mp hvalid
      rw [hf]
      exact utf8Len_chanset_le f
    | D =>
      rw [hkey] at hvalid
      obtain ⟨f, hf⟩ := recordValid_netset_iff.mp hvalid
      rw [hf]
      exact utf8Len_netset_le f
    | B =>
      rw [hkey] at hvalid
      obtain ⟨f, hf⟩ := recordValid_ban_iff.mp hvalid
      rw [hf]
      exact utf8Len_ban_le f
    | _ =>
      rw [hkey] at hk
      cases hk
  | false =>
    refine ⟨?_, (h.entries e he).chars hk⟩
    have hshort := Nat.le_of_lt_succ hentry.short
    cases hkey : e.key with
    | C | D | B =>
      rw [hkey] at hk
      cases hk
    | _ => exact hshort

/-- The tag of a kind and the bar take two bytes. -/
private theorem fit_tagBar (hok : WireOk ok) (k : GlobalKey) : Fit ok 2 [k.tag, '|'] := by
  refine fit_text hok (Nat.le_refl 2) ?_
  cases k
  all_goals decide

/-- The line of a global entry. The widest value depends on the kind; the tag, two bars and the
stamp are the other 23 bytes. -/
theorem Fits.line_global (h : Fits ok s) (hok : WireOk ok) {e : GlobalEntry}
    (he : e ∈ s.globalEntries) : LineFit ok (valueMax e.key + 23) (formatGlobal e) := by
  have hbody := ((fit_tagBar hok e.key).append (h.fit_value hok he)).append
    (fit_bar hok (fit_num hok (h.entries e he).stamp))
  exact ⟨_, rfl, List.cons_ne_nil _ _, hbody.mono (by omega)⟩

/-- The line of what was learned of a channel. -/
theorem LearnedFits.line {l : ChanLearned} (h : LearnedFits ok l) (hok : WireOk ok) :
    LineFit ok 122 (learnedFormat l) := by
  have htag : Fit ok 2 "K|".toList := fit_text hok (by decide) (by decide)
  have hmodes : Fit ok 3 (ofInt l.modes) :=
    fit_ofInt_small h.modes.1 h.modes.2 fun _ hc => hok.print hc
  exact ⟨_, rfl, List.cons_ne_nil _ _, (((htag.append h.chan).append (fit_bar hok h.key)).append
    (fit_bar hok hmodes)).append (fit_bar hok (fit_num hok h.stamp))⟩

/-- The line of a user. -/
theorem UserFits.line {u : UserRecord} (h : UserFits ok u) (hok : WireOk ok) :
    LineFit ok 238 (formatUserRecord u) := by
  have hkey : Fit ok combinedKeyB64 (if u.hasPubkey then u.pubkeyB64 else []) := by
    split
    · exact h.key
    · exact .nil
  have hend : Fit ok 1 ['|'] := fit_text hok (by decide) (by decide)
  have hbody := (((((((h.typ.append (fit_bar hok h.uuid)).append (fit_bar hok h.name)).append
    (fit_bar hok hkey)).append (fit_bar hok (fit_opText hok u.isActive))).append
    (fit_bar hok (fit_num hok h.seen))).append (fit_bar hok (fit_num hok h.stamp))).append hend)
  refine ⟨_, ?_, ?_, hbody⟩
  · simp [formatUserRecord]
  · simp

/-- The line of a mask. -/
theorem MaskFits.line {m : MaskRecord} (h : MaskFits ok m) (hok : WireOk ok) :
    LineFit ok 340 (formatMaskRecord m) := by
  have htag : Fit ok 2 "m|".toList := fit_text hok (by decide) (by decide)
  exact ⟨_, rfl, List.cons_ne_nil _ _, ((((htag.append h.uuid).append (fit_bar hok h.mask)).append
    (fit_bar hok (fit_opText hok m.isActive))).append (fit_bar hok (fit_num hok h.used))).append
    (fit_bar hok (fit_num hok h.stamp))⟩

/-- The line of a user's flags. -/
theorem FlagFits.line {r : UflagRecord} (h : FlagFits ok r) (hok : WireOk ok) :
    LineFit ok 67 (formatUflag r) := by
  have htag : Fit ok 3 "uf|".toList := fit_text hok (by decide) (by decide)
  exact ⟨_, rfl, List.cons_ne_nil _ _, ((htag.append h.uuid).append (fit_bar hok h.flags)).append
    (fit_bar hok (fit_num hok h.stamp))⟩

/-- The line of a binding. -/
theorem BindFits.line {r : UchanRecord} (h : BindFits ok r) (hok : WireOk ok) :
    LineFit ok 129 (formatUchan r) := by
  have htag : Fit ok 3 "uc|".toList := fit_text hok (by decide) (by decide)
  exact ⟨_, rfl, List.cons_ne_nil _ _, (((htag.append h.uuid).append (fit_bar hok h.chan)).append
    (fit_bar hok (fit_opText hok r.isActive))).append (fit_bar hok (fit_num hok h.stamp))⟩

/-- The line of a revocation. -/
theorem RevokedFits.line {r : Revoked} (h : RevokedFits ok r) (hok : WireOk ok) :
    LineFit ok 223 (revokeFormat r) := by
  have htag : Fit ok 3 "rv|".toList := fit_text hok (by decide) (by decide)
  exact ⟨_, rfl, List.cons_ne_nil _ _, (((((htag.append h.uuid).append (fit_bar hok h.key)).append
    (fit_bar hok (fit_num hok h.keyTs))).append (fit_bar hok h.nick)).append
    (fit_bar hok (fit_num hok h.wiped))).append (fit_bar hok (fit_num hok h.deleted))⟩

/-- The line of the option flags. -/
theorem Fits.line_opt (h : Fits ok s) (hok : WireOk ok) : LineFit ok 57 (optFormat s) := by
  have htag : Fit ok 4 "opt|".toList := fit_text hok (by decide) (by decide)
  exact ⟨_, rfl, List.cons_ne_nil _ _,
    (htag.append h.opt).append (fit_bar hok (fit_num hok h.optTs))⟩

/-- The line of the purge setting. -/
theorem Fits.line_gsetting (h : Fits ok s) (hok : WireOk ok) :
    LineFit ok 54 (gsettingFormat s) := by
  have htag : Fit ok 3 "hs|".toList := fit_text hok (by decide) (by decide)
  have hname : Fit ok 9 autopurgeName := fit_text hok (by decide) (by decide)
  have hdays : InI64 s.purgeDaysSetting :=
    ⟨Int.le_trans (by decide) h.days.1, Int.le_trans h.days.2 (by decide)⟩
  exact ⟨_, rfl, List.cons_ne_nil _ _, ((htag.append hname).append
    (fit_bar hok (fit_num hok hdays))).append (fit_bar hok (fit_num hok h.daysTs))⟩

/-! ### The lines of a bot -/

/-- The bytes of a line of a bot, by key. -/
def botLineMax (k : BotKey) : Nat := 87 + k.name.length + if k = .seen then 0
    else botValueMax k + 1

/-- The name of a bot's key is as long as it is, and printable. -/
private theorem fit_botKeyName (hok : WireOk ok) (k : BotKey) : Fit ok k.name.length k.name := by
  refine fit_text hok (Nat.le_refl _) ?_
  cases k
  all_goals decide

/-- The line of a bot's value. -/
theorem BotFits.line {b : BotConfig} (h : BotFits ok b) (hok : WireOk ok) {e : ConfigEntry BotKey}
    (he : e ∈ b.entries) : LineFit ok (botLineMax e.key) (formatBotEntry b e) := by
  have htag : Fit ok 2 "b|".toList := fit_text hok (by decide) (by decide)
  have hentry := h.entries e he
  have hhead := (htag.append h.uuid).append (fit_bar hok (fit_botKeyName hok e.key))
  have hstamp := fit_bar hok (fit_num hok hentry.stamp)
  unfold formatBotEntry
  split
  · refine ⟨_, rfl, List.cons_ne_nil _ _, (hhead.append hstamp).mono ?_⟩
    unfold botLineMax
    omega
  · rename_i hno
    have hseen : e.key ≠ .seen := by
      intro heq
      simp [heq] at hno
    refine ⟨_, rfl, List.cons_ne_nil _ _,
      ((hhead.append (fit_bar hok hentry.value)).append hstamp).mono ?_⟩
    unfold botLineMax
    rw [if_neg hseen]
    omega

end IrcHub.Proofs
