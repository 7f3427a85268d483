import IrcHub.Hub.Records
import IrcHub.Proofs.Global.Ident

/-!
# `IrcHub.Proofs.Global.Records`: what a valid record looks like

`recordValid` reads a value field by field. The theorems here say which values it accepts:

* `recordValid_chanset_iff`: `chan|modes|settings|op`
* `recordValid_netset_iff`: `modes|settings`
* `recordValid_ban_iff`: `chan|mask|expires|flags|setter|reason|op`

From the shapes follow the facts the store rests on: a valid value is short
(`utf8Len_lt_of_recordValid`), its op sits behind its identity (`identTail_of_recordValid`), and
it stays valid when its identity is respelled as a stored valid value spells it
(`recordValid_recNorm`).

`ChansetFields`, `NetsetFields` and `BanFields` hold the fields together with the checks they
passed, so a valid value is one of these and a proof about it can be made field by field.
-/

set_option autoImplicit false

namespace IrcHub.Proofs

open IrcHub.Hub Str
open String (utf8Len)

/-! ### No field but the reason holds a bar -/

/-- A field whose characters pass a check that bars fail has no bar. The checks of all fields are
of this form. -/
theorem bar_notMem_of_all {s : Str} {p : Char → Bool} (h : s.all p = true) (hp : p '|' = false) :
    '|' ∉ s := by
  intro hmem
  have := List.all_eq_true.mp h _ hmem
  rw [hp] at this
  cases this

/-- A channel name has no bar. -/
theorem bar_notMem_of_recChanOk {s : Str} {star : Bool} (h : recChanOk s star = true) :
    '|' ∉ s := by
  simp only [recChanOk, Bool.or_eq_true, Bool.and_eq_true] at h
  rcases h with ⟨-, hs⟩ | ⟨-, hs⟩
  · rw [beq_iff_eq.mp hs]
    decide
  · exact bar_notMem_of_all hs (by decide)

/-- A mask has no bar. -/
theorem bar_notMem_of_recMaskOk {s : Str} (h : recMaskOk s = true) : '|' ∉ s := by
  simp only [recMaskOk, Bool.and_eq_true] at h
  exact bar_notMem_of_all h.2 (by decide)

/-- Modes have no bar. -/
theorem bar_notMem_of_recModesOk {s : Str} (h : recModesOk s = true) : '|' ∉ s := by
  simp only [recModesOk, Bool.and_eq_true] at h
  exact bar_notMem_of_all h.2 (by decide)

/-- Settings have no bar. -/
theorem bar_notMem_of_recSettingsOk {s : Str} {max : Nat} (h : recSettingsOk s max = true) :
    '|' ∉ s := by
  simp only [recSettingsOk, Bool.and_eq_true] at h
  exact bar_notMem_of_all h.1.2 (by decide)

/-- A number has no bar. -/
theorem bar_notMem_of_recNumOk {s : Str} (h : recNumOk s = true) : '|' ∉ s := by
  simp only [recNumOk, Bool.and_eq_true] at h
  exact bar_notMem_of_all h.2 (by decide)

/-- Flags have no bar. -/
theorem bar_notMem_of_recFlagsOk {s : Str} (h : recFlagsOk s = true) : '|' ∉ s := by
  simp only [recFlagsOk, Bool.and_eq_true] at h
  exact bar_notMem_of_all h.1 (by decide)

/-- A setter has no bar. -/
theorem bar_notMem_of_recSetterOk {s : Str} (h : recSetterOk s = true) : '|' ∉ s := by
  simp only [recSetterOk, Bool.and_eq_true] at h
  exact bar_notMem_of_all h.2 (by decide)

/-- An operation has no bar. -/
theorem bar_notMem_of_recOpOk {s : Str} (h : recOpOk s = true) : '|' ∉ s := by
  simp only [recOpOk, Bool.or_eq_true, beq_iff_eq] at h
  rcases h with rfl | rfl <;> decide

/-! ### Field lengths -/

/-- A channel name takes 64 bytes at most. -/
theorem utf8Len_le_of_recChanOk {s : Str} {star : Bool} (h : recChanOk s star = true) :
    utf8Len s ≤ 64 := by
  simp only [recChanOk, Bool.or_eq_true, Bool.and_eq_true, decide_eq_true_eq] at h
  rcases h with ⟨-, hs⟩ | ⟨⟨⟨-, hlen⟩, -⟩, -⟩
  · rw [beq_iff_eq.mp hs]
    decide
  · exact Nat.le_of_lt_succ hlen

/-- An operation takes 3 bytes. -/
theorem utf8Len_le_of_recOpOk {s : Str} (h : recOpOk s = true) : utf8Len s ≤ 3 := by
  simp only [recOpOk, Bool.or_eq_true, beq_iff_eq] at h
  rcases h with rfl | rfl <;> decide

/-- Flags take 4 bytes at most. -/
theorem utf8Len_le_of_recFlagsOk {s : Str} (h : recFlagsOk s = true) : utf8Len s ≤ 4 := by
  simp only [recFlagsOk, Bool.and_eq_true, decide_eq_true_eq] at h
  have hs : s = List.replicate s.length 's' :=
    List.eq_replicate_of_mem fun c hc => beq_iff_eq.mp (List.all_eq_true.mp h.1 c hc)
  have hlen : ∀ n, utf8Len (List.replicate n 's') = n := by
    intro n
    induction n with
    | zero => rfl
    | succ n ih =>
      rw [List.replicate_succ, String.utf8Len_cons, ih]
      rfl
  rw [hs, hlen]
  exact h.2

/-- Modes take 64 bytes at most. -/
theorem utf8Len_le_of_recModesOk {s : Str} (h : recModesOk s = true) : utf8Len s ≤ 64 := by
  simp only [recModesOk, Bool.and_eq_true, decide_eq_true_eq] at h
  exact h.1

/-- Settings take as many bytes as their kind allows. -/
theorem utf8Len_le_of_recSettingsOk {s : Str} {max : Nat} (h : recSettingsOk s max = true) :
    utf8Len s ≤ max := by
  simp only [recSettingsOk, Bool.and_eq_true, decide_eq_true_eq] at h
  exact h.1.1

/-- A mask takes 120 bytes at most. -/
theorem utf8Len_le_of_recMaskOk {s : Str} (h : recMaskOk s = true) : utf8Len s ≤ 120 := by
  simp only [recMaskOk, Bool.and_eq_true, decide_eq_true_eq] at h
  exact h.1.2

/-- A number takes 11 bytes at most, a sign among them. -/
theorem utf8Len_le_of_recNumOk {s : Str} (h : recNumOk s = true) : utf8Len s ≤ 11 := by
  simp only [recNumOk, Bool.and_eq_true, decide_eq_true_eq] at h
  exact h.1.2

/-- A setter has room for its end mark. -/
theorem utf8Len_lt_of_recSetterOk {s : Str} (h : recSetterOk s = true) : utf8Len s < 64 := by
  simp only [recSetterOk, Bool.and_eq_true, decide_eq_true_eq] at h
  exact h.1

/-- A text takes as many bytes as it may. -/
theorem utf8Len_le_of_recTextOk {s : Str} {max : Nat} (h : recTextOk s max = true) :
    utf8Len s ≤ max := by
  simp only [recTextOk, Bool.and_eq_true, decide_eq_true_eq] at h
  exact h.1

/-! ### Shapes -/

/-- The fields of a valid channel-settings value, each with its check. -/
structure ChansetFields where
  chan : Str
  modes : Str
  settings : Str
  op : Str
  chanOk : recChanOk chan false = true
  modesOk : recModesOk modes = true
  settingsOk : recSettingsOk settings cSettingsMax = true
  opOk : recOpOk op = true

/-- The stored value of channel settings. -/
def ChansetFields.text (f : ChansetFields) : Str :=
  f.chan ++ '|' :: (f.modes ++ '|' :: (f.settings ++ '|' :: f.op))

/-- The fields of a valid network-defaults value, each with its check. -/
structure NetsetFields where
  modes : Str
  settings : Str
  modesOk : recModesOk modes = true
  settingsOk : recSettingsOk settings dSettingsMax = true

/-- The stored value of the network defaults. -/
def NetsetFields.text (f : NetsetFields) : Str := f.modes ++ '|' :: f.settings

/-- The fields of a valid ban value, each with its check. The reason may hold bars, which is why
the op is read from behind. -/
structure BanFields where
  chan : Str
  mask : Str
  expires : Str
  flags : Str
  setter : Str
  reason : Str
  op : Str
  chanOk : recChanOk chan true = true
  maskOk : recMaskOk mask = true
  expiresOk : recNumOk expires = true
  flagsOk : recFlagsOk flags = true
  setterOk : recSetterOk setter = true
  reasonOk : recTextOk reason banReasonMax = true
  opOk : recOpOk op = true

/-- Channel to setter: what the reason follows. -/
def BanFields.headText (f : BanFields) : Str :=
  f.chan ++ '|' :: (f.mask ++ '|' :: (f.expires ++ '|' :: (f.flags ++ '|' :: f.setter)))

/-- The stored value of a ban. -/
def BanFields.text (f : BanFields) : Str := f.headText ++ '|' :: (f.reason ++ '|' :: f.op)

/-- A record splits into its fields when it fits the buffer and has that many of them. The
splitter gives up past eight fields, hence the bound. -/
theorem recSplit_eq_some_iff {v : Str} {want cap : Nat} {fs : List Str} (hw : want ≤ 8) :
    recSplit v want cap = some fs ↔ utf8Len v < cap ∧ v.splitOn '|' = fs ∧ fs.length = want := by
  unfold recSplit
  simp only [ge_iff_le, gt_iff_lt, Bool.or_eq_true, decide_eq_true_eq]
  split
  · rename_i h
    constructor
    · intro h'
      cases h'
    · rintro ⟨hlt, -⟩
      omega
  · rename_i h
    constructor
    · intro h'
      split at h'
      · cases h'
        exact ⟨by omega, rfl, by assumption⟩
      · cases h'
    · rintro ⟨-, rfl, hlen⟩
      rw [if_pos hlen]

/-- A bar takes one byte. -/
private theorem utf8Size_bar : Char.utf8Size '|' = 1 := rfl

/-- A channel record takes 646 bytes at most, all its fields at their widest. -/
theorem utf8Len_chanset_le (f : ChansetFields) : utf8Len f.text ≤ 646 := by
  have h1 := utf8Len_le_of_recChanOk f.chanOk
  have h2 := utf8Len_le_of_recModesOk f.modesOk
  have h3 : utf8Len f.settings ≤ 512 := utf8Len_le_of_recSettingsOk f.settingsOk
  have h4 := utf8Len_le_of_recOpOk f.opOk
  simp only [ChansetFields.text, String.utf8Len_append, String.utf8Len_cons, utf8Size_bar]
  omega

/-- Network settings take 577 bytes at most. -/
theorem utf8Len_netset_le (f : NetsetFields) : utf8Len f.text ≤ 577 := by
  have h1 := utf8Len_le_of_recModesOk f.modesOk
  have h2 : utf8Len f.settings ≤ 512 := utf8Len_le_of_recSettingsOk f.settingsOk
  simp only [NetsetFields.text, String.utf8Len_append, String.utf8Len_cons, utf8Size_bar]
  omega

/-- A ban takes 391 bytes at most. -/
theorem utf8Len_ban_le (f : BanFields) : utf8Len f.text ≤ 391 := by
  have h1 := utf8Len_le_of_recChanOk f.chanOk
  have h2 := utf8Len_le_of_recMaskOk f.maskOk
  have h3 := utf8Len_le_of_recNumOk f.expiresOk
  have h4 := utf8Len_le_of_recFlagsOk f.flagsOk
  have h5 := utf8Len_lt_of_recSetterOk f.setterOk
  have h6 : utf8Len f.reason ≤ 120 := utf8Len_le_of_recTextOk f.reasonOk
  have h7 := utf8Len_le_of_recOpOk f.opOk
  simp only [BanFields.text, BanFields.headText, String.utf8Len_append, String.utf8Len_cons,
    utf8Size_bar]
  omega

/-- A value is its fields joined by bars. -/
private theorem eq_of_splitOn {v : Str} {fs : List Str} (h : v.splitOn '|' = fs) :
    v = List.intercalate ['|'] fs := by
  rw [← h, List.intercalate_splitOn]

/-- Exactly the values with four good fields are valid channel settings. -/
theorem recordValid_chanset_iff {v : Str} :
    recordValid .C v = true ↔ ∃ f : ChansetFields, v = f.text := by
  constructor
  · intro h
    simp only [recordValid] at h
    split at h
    · rename_i chan modes settings op heq
      obtain ⟨-, hsplit, -⟩ := (recSplit_eq_some_iff (by decide)).mp heq
      simp only [Bool.and_eq_true] at h
      obtain ⟨⟨⟨h1, h2⟩, h3⟩, h4⟩ := h
      refine ⟨⟨chan, modes, settings, op, h1, h2, h3, h4⟩, ?_⟩
      simpa [List.intercalate_cons_cons, ChansetFields.text] using eq_of_splitOn hsplit
    · cases h
  · rintro ⟨f, rfl⟩
    have hlen := utf8Len_chanset_le f
    have hsplit : recSplit f.text 4 1100 = some [f.chan, f.modes, f.settings, f.op] := by
      rw [recSplit_eq_some_iff (by decide)]
      refine ⟨by omega, ?_, rfl⟩
      rw [ChansetFields.text,
        List.splitOn_append_cons_self_of_not_mem (bar_notMem_of_recChanOk f.chanOk),
        List.splitOn_append_cons_self_of_not_mem (bar_notMem_of_recModesOk f.modesOk),
        List.splitOn_append_cons_self_of_not_mem (bar_notMem_of_recSettingsOk f.settingsOk),
        List.splitOn_eq_singleton (bar_notMem_of_recOpOk f.opOk)]
    simp [recordValid, hsplit, f.chanOk, f.modesOk, f.settingsOk, f.opOk]

/-- Exactly the values with two good fields are valid network defaults. -/
theorem recordValid_netset_iff {v : Str} :
    recordValid .D v = true ↔ ∃ f : NetsetFields, v = f.text := by
  constructor
  · intro h
    simp only [recordValid] at h
    split at h
    · rename_i modes settings heq
      obtain ⟨-, hsplit, -⟩ := (recSplit_eq_some_iff (by decide)).mp heq
      simp only [Bool.and_eq_true] at h
      refine ⟨⟨modes, settings, h.1, h.2⟩, ?_⟩
      simpa [List.intercalate_cons_cons, NetsetFields.text] using eq_of_splitOn hsplit
    · cases h
  · rintro ⟨f, rfl⟩
    have hlen := utf8Len_netset_le f
    have hsplit : recSplit f.text 2 1100 = some [f.modes, f.settings] := by
      rw [recSplit_eq_some_iff (by decide)]
      refine ⟨by omega, ?_, rfl⟩
      rw [NetsetFields.text,
        List.splitOn_append_cons_self_of_not_mem (bar_notMem_of_recModesOk f.modesOk),
        List.splitOn_eq_singleton (bar_notMem_of_recSettingsOk f.settingsOk)]
    simp [recordValid, hsplit, f.modesOk, f.settingsOk]

/-- The head of a ban holds four bars. -/
private theorem count_bar_headText (f : BanFields) : f.headText.count '|' = 4 := by
  have h1 := List.count_eq_zero.mpr (bar_notMem_of_recChanOk f.chanOk)
  have h2 := List.count_eq_zero.mpr (bar_notMem_of_recMaskOk f.maskOk)
  have h3 := List.count_eq_zero.mpr (bar_notMem_of_recNumOk f.expiresOk)
  have h4 := List.count_eq_zero.mpr (bar_notMem_of_recFlagsOk f.flagsOk)
  have h5 := List.count_eq_zero.mpr (bar_notMem_of_recSetterOk f.setterOk)
  simp [BanFields.headText, h1, h2, h3, h4, h5]

/-- A head that passes has five fields. -/
private theorem recBanHeadOk_iff {fs : List Str} :
    recBanHeadOk fs = true ↔ ∃ chan mask expires flags setter,
      fs = [chan, mask, expires, flags, setter] ∧ recChanOk chan true = true
        ∧ recMaskOk mask = true ∧ recNumOk expires = true ∧ recFlagsOk flags = true
        ∧ recSetterOk setter = true := by
  unfold recBanHeadOk
  split
  · simp [and_assoc]
  · rename_i hne
    constructor
    · intro h
      cases h
    · rintro ⟨chan, mask, expires, flags, setter, rfl, -⟩
      exact absurd rfl (hne chan mask expires flags setter)

/-- Exactly the values with seven good fields are valid bans. -/
theorem recordValid_ban_iff {v : Str} :
    recordValid .B v = true ↔ ∃ f : BanFields, v = f.text := by
  constructor
  -- from a value that is read, field by field
  · intro h
    simp only [recordValid] at h
    split at h
    · cases h
    split at h
    · rename_i head rest hcut
      obtain ⟨rfl, -⟩ := cut_eq_iff.mp hcut
      split at h
      · cases h
      · rename_i reason op hlast
        obtain ⟨rfl, -⟩ := rsplitOnce_eq_some_iff.mp hlast
        split at h
        · cases h
        · rename_i hop
          split at h
          · cases h
          · rename_i fs hsplit
            obtain ⟨-, hfs, -⟩ := (recSplit_eq_some_iff (by decide)).mp hsplit
            simp only [Bool.and_eq_true] at h
            obtain ⟨hhead, hreason⟩ := h
            obtain ⟨chan, mask, expires, flags, setter, rfl, h1, h2, h3, h4, h5⟩ :=
              recBanHeadOk_iff.mp hhead
            refine ⟨⟨chan, mask, expires, flags, setter, reason, op, h1, h2, h3, h4, h5,
              hreason, by simpa using hop⟩, ?_⟩
            rw [eq_of_splitOn hfs]
            simp [List.intercalate_cons_cons, BanFields.text, BanFields.headText]
    · cases h
  -- a text of good fields is read as those
  · rintro ⟨f, rfl⟩
    have hlen := utf8Len_ban_le f
    have hcut : cut '|' 4 f.text = (f.headText, '|' :: (f.reason ++ '|' :: f.op)) :=
      cut_append_of_isCut (.inl ⟨count_bar_headText f, _, rfl⟩)
    have hlast : rsplitOnce '|' (f.reason ++ '|' :: f.op) = some (f.reason, f.op) :=
      rsplitOnce_eq_some_iff.mpr ⟨rfl, bar_notMem_of_recOpOk f.opOk⟩
    have hhlen : utf8Len f.headText < 1100 := by
      rw [BanFields.text, String.utf8Len_append] at hlen
      omega
    have hsplit : recSplit f.headText 5 1100
        = some [f.chan, f.mask, f.expires, f.flags, f.setter] := by
      rw [recSplit_eq_some_iff (by decide)]
      refine ⟨hhlen, ?_, rfl⟩
      rw [BanFields.headText,
        List.splitOn_append_cons_self_of_not_mem (bar_notMem_of_recChanOk f.chanOk),
        List.splitOn_append_cons_self_of_not_mem (bar_notMem_of_recMaskOk f.maskOk),
        List.splitOn_append_cons_self_of_not_mem (bar_notMem_of_recNumOk f.expiresOk),
        List.splitOn_append_cons_self_of_not_mem (bar_notMem_of_recFlagsOk f.flagsOk),
        List.splitOn_eq_singleton (bar_notMem_of_recSetterOk f.setterOk)]
    have hnot : ¬ utf8Len f.text ≥ 1100 := by omega
    simp [recordValid, hnot, hcut, hlast, hsplit, recBanHeadOk, f.chanOk, f.maskOk, f.expiresOk,
      f.flagsOk, f.setterOk, f.reasonOk, f.opOk]

/-! ### Identity and op of a valid value -/

/-- A channel record is known by its channel. -/
theorem ident_chanset (f : ChansetFields) : ident .C f.text = f.chan := by
  have h : IsCut '|' 0 f.chan ('|' :: (f.modes ++ '|' :: (f.settings ++ '|' :: f.op))) :=
    .inl ⟨List.count_eq_zero.mpr (bar_notMem_of_recChanOk f.chanOk), _, rfl⟩
  exact congrArg Prod.fst (cut_append_of_isCut h)

/-- What follows the identity of a channel record. -/
theorem identTail_chanset (f : ChansetFields) :
    identTail .C f.text = '|' :: (f.modes ++ '|' :: (f.settings ++ '|' :: f.op)) := by
  have h := ident_append_identTail .C f.text
  rw [ident_chanset] at h
  exact List.append_cancel_left h

/-- A ban is known by its channel and mask. -/
theorem ident_ban (f : BanFields) : ident .B f.text = f.chan ++ '|' :: f.mask := by
  have h : IsCut '|' 1 (f.chan ++ '|' :: f.mask)
      ('|' :: (f.expires ++ '|' :: (f.flags ++ '|' :: (f.setter ++ '|' ::
        (f.reason ++ '|' :: f.op))))) := by
    refine .inl ⟨?_, _, rfl⟩
    have h1 := List.count_eq_zero.mpr (bar_notMem_of_recChanOk f.chanOk)
    have h2 := List.count_eq_zero.mpr (bar_notMem_of_recMaskOk f.maskOk)
    simp [h1, h2]
  have hcut := congrArg Prod.fst (cut_append_of_isCut h)
  simpa [ident, identBars, BanFields.text, BanFields.headText] using hcut

/-- What follows the identity of a ban. -/
theorem identTail_ban (f : BanFields) :
    identTail .B f.text = '|' :: (f.expires ++ '|' :: (f.flags ++ '|' :: (f.setter ++ '|' ::
      (f.reason ++ '|' :: f.op)))) := by
  have h := ident_append_identTail .B f.text
  rw [ident_ban] at h
  have htext : f.text = (f.chan ++ '|' :: f.mask) ++ '|'
    :: (f.expires ++ '|' :: (f.flags ++ '|' ::
      (f.setter ++ '|' :: (f.reason ++ '|' :: f.op)))) := by
    simp [BanFields.text, BanFields.headText]
  exact List.append_cancel_left (h.trans htext)

/-- The first field of a channel record is its channel. -/
theorem firstField_chanset (f : ChansetFields) : firstField f.text = f.chan :=
  firstField_append_bar (bar_notMem_of_recChanOk f.chanOk)

/-- The first field of a ban is its channel. -/
theorem firstField_ban (f : BanFields) : firstField f.text = f.chan := by
  rw [BanFields.text, BanFields.headText, List.append_assoc, List.cons_append]
  exact firstField_append_bar (bar_notMem_of_recChanOk f.chanOk)

/-- Only what follows a bar decides whether a value is live. -/
theorem globalValueActive_append_bar (u r : Str) :
    globalValueActive (u ++ '|' :: r) = globalValueActive ('|' :: r) := by
  have hne : rsplitOnce '|' ('|' :: r) ≠ none := by
    rw [Ne, rsplitOnce_eq_none_iff]
    simp
  obtain ⟨⟨a, b⟩, hab⟩ := Option.ne_none_iff_exists'.mp hne
  obtain ⟨heq, hb⟩ := rsplitOnce_eq_some_iff.mp hab
  have hu : rsplitOnce '|' (u ++ '|' :: r) = some (u ++ a, b) :=
    rsplitOnce_eq_some_iff.mpr ⟨by rw [heq, List.append_assoc], hb⟩
  simp [globalValueActive, hab, hu]

/-- A value is live unless its last field is `del`. The last field has no bar in it, so that it is
the last. -/
theorem globalValueActive_of_op {u op : Str} (h : '|' ∉ op) :
    globalValueActive (u ++ '|' :: op) = (op != "del".toList) := by
  have hr : rsplitOnce '|' (u ++ '|' :: op) = some (u, op) :=
    rsplitOnce_eq_some_iff.mpr ⟨rfl, h⟩
  simp [globalValueActive, hr]

/-! ### Respelling a valid value -/

/-- No valid record is longer than a channel record. -/
theorem utf8Len_le_of_recordValid {k : GlobalKey} {v : Str} (h : recordValid k v = true) :
    utf8Len v ≤ 646 := by
  cases k with
  | C =>
    obtain ⟨f, rfl⟩ := recordValid_chanset_iff.mp h
    exact utf8Len_chanset_le f
  | D =>
    obtain ⟨f, rfl⟩ := recordValid_netset_iff.mp h
    exact Nat.le_trans (utf8Len_netset_le f) (by decide)
  | B =>
    obtain ⟨f, rfl⟩ := recordValid_ban_iff.mp h
    exact Nat.le_trans (utf8Len_ban_le f) (by decide)
  | _ => simp [recordValid] at h

/-- A valid record is stored whole, with its end mark. -/
theorem utf8Len_lt_of_recordValid {k : GlobalKey} {v : Str} (h : recordValid k v = true) :
    utf8Len v < 1024 :=
  Nat.lt_of_le_of_lt (utf8Len_le_of_recordValid h) (by decide)

/-- Only records of the newer kinds are ever valid. -/
theorem keyIsModes_of_recordValid {k : GlobalKey} {v : Str} (h : recordValid k v = true) :
    keyIsModes k = true := by
  cases k <;> first | rfl | simp [recordValid] at h

/-- The op of a valid setting or ban sits behind its identity. -/
theorem identTail_of_recordValid {k : GlobalKey} {v : Str} (h : recordValid k v = true)
    (hD : k ≠ .D) : ∃ r, identTail k v = '|' :: r := by
  cases k with
  | C =>
    obtain ⟨f, rfl⟩ := recordValid_chanset_iff.mp h
    exact ⟨_, identTail_chanset f⟩
  | B =>
    obtain ⟨f, rfl⟩ := recordValid_ban_iff.mp h
    exact ⟨_, identTail_ban f⟩
  | D => exact absurd rfl hD
  | _ => simp [recordValid] at h

/-- Equal identities of settings or bans are two spellings of one text. -/
theorem lower_ident_of_foldIdent_eq {k : GlobalKey} {a b : Str} (hk : keyIsModes k = true)
    (hD : k ≠ .D) (h : foldIdent k a = foldIdent k b) :
    lower (ident k a) = lower (ident k b) := by
  cases k with
  | C | B => simpa [foldIdent, keyIsSingleton, keyFoldsCase] using h
  | D => exact absurd rfl hD
  | _ => cases hk

/-- Of the newer kinds only the network settings are alone of their kind. -/
theorem keyIsSingleton_of_modes {k : GlobalKey} (hk : keyIsModes k = true) (hD : k ≠ .D) :
    keyIsSingleton k = false := by
  cases k with
  | C | B => rfl
  | D => exact absurd rfl hD
  | _ => cases hk

/-- The record part of a value: all of a singleton's, what follows the identity elsewhere. -/
def recBody (k : GlobalKey) (v : Str) : Str := if keyIsSingleton k then v else identTail k v

/-- A modes value stored over a valid one of the same identity: it is valid, has the identity of
what was stored, its own body, and its own side of a deletion. -/
structure Respelled (k : GlobalKey) (stored value : Str) : Prop where
  valid : recordValid k (recNorm k stored value) = true
  ident : foldIdent k (recNorm k stored value) = foldIdent k stored
  body : recBody k (recNorm k stored value) = recBody k value
  active : (k = .D ∨ globalValueActive (recNorm k stored value) = globalValueActive value)

/-- A valid record that takes the spelling of a stored one of the same identity is valid: each
field is from one of the two. -/
private theorem recordValid_recNorm {k : GlobalKey} {stored value : Str}
    (hs : recordValid k stored = true) (hv : recordValid k value = true) :
    recordValid k (recNorm k stored value) = true := by
  cases k with
  | C =>
    obtain ⟨f, rfl⟩ := recordValid_chanset_iff.mp hs
    obtain ⟨g, rfl⟩ := recordValid_chanset_iff.mp hv
    refine recordValid_chanset_iff.mpr ⟨{ g with chan := f.chan, chanOk := f.chanOk }, ?_⟩
    rw [recNorm, if_neg (by decide), ident_chanset, identTail_chanset]
    rfl
  | D => simpa [recNorm] using hv
  | B =>
    obtain ⟨f, rfl⟩ := recordValid_ban_iff.mp hs
    obtain ⟨g, rfl⟩ := recordValid_ban_iff.mp hv
    refine recordValid_ban_iff.mpr
      ⟨{ g with chan := f.chan, mask := f.mask, chanOk := f.chanOk, maskOk := f.maskOk }, ?_⟩
    rw [recNorm, if_neg (by decide), ident_ban, identTail_ban]
    simp [BanFields.text, BanFields.headText]
  | _ => simp [recordValid] at hs

/-- A valid value keeps its class, body and op, and takes the stored spelling, when it is stored
over a valid value of its identity. This is what an overwrite needs to know of the new value. -/
theorem respelled {k : GlobalKey} {stored value : Str} (hs : recordValid k stored = true)
    (hv : recordValid k value = true) (h : foldIdent k stored = foldIdent k value) :
    Respelled k stored value := by
  have hmodes := keyIsModes_of_recordValid hs
  by_cases hD : k = .D
  · subst hD
    exact ⟨recordValid_recNorm hs hv, rfl, rfl, .inl rfl⟩
  · have hlow := lower_ident_of_foldIdent_eq hmodes hD h
    have hnorm : recNorm k stored value = ident k stored ++ identTail k value := by
      simp [recNorm, hD]
    obtain ⟨r, hr⟩ := identTail_of_recordValid hv hD
    refine ⟨recordValid_recNorm hs hv, ?_, ?_, .inr ?_⟩
    · rw [hnorm, foldIdent, foldIdent, ident_respell hlow]
    · have hsing := keyIsSingleton_of_modes hmodes hD
      rw [hnorm, recBody, recBody, hsing]
      exact identTail_respell hlow
    · -- both values end in the same tail, which starts with a bar
      have hval := ident_append_identTail k value
      rw [hnorm, hr, globalValueActive_append_bar, ← globalValueActive_append_bar (ident k value),
        ← hr, hval]

end IrcHub.Proofs
