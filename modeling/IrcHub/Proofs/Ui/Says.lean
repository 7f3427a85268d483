import IrcHub.Ui.Keys

/-!
# `IrcHub.Proofs.Ui.Says`: what a console session writes

Three predicates on the session before and after say what a command did to it:

* `Says`: lines of text were written, and nothing else happened
* `Sets`: settings of the display may have changed, and subscriptions were sent
* `Ends`: the command ended, and in line mode its marker follows

There is one lemma for each command that the console answers itself (`ends_localCommand` collects
them), and one for each way a command is refused. The commands that go to the core are those of
`IrcHub.Proofs.Ui.Runs`.
-/

set_option autoImplicit false

namespace IrcHub.Proofs

open IrcHub.Console
open IrcHub.Console.Ui
open Terminal (Bytes)

/-! ### Lines -/

/-- A line with its end. -/
def IsLine (bytes : Bytes) : Prop := ∃ t, bytes = t ++ crlf

/-- Lines of text were written, and nothing else happened. -/
structure Says (s s' : Ui) : Prop where
  same : s' = { s with trace := s'.trace, termLen := s'.termLen }
  said : ∃ cs, s'.trace = s.trace ++ cs ∧ ∀ c ∈ cs, c.what = .text ∧ IsLine c.bytes

/-- Nothing was said. -/
theorem Says.refl (s : Ui) : Says s s :=
  ⟨rfl, [], (List.append_nil _).symm, fun _ hc => (nomatch hc)⟩

/-- Lines after lines. -/
theorem Says.trans {s t u : Ui} (h : Says s t) (h' : Says t u) : Says s u := by
  obtain ⟨cs, hcs, hlines⟩ := h.said
  obtain ⟨cs', hcs', hlines'⟩ := h'.said
  refine ⟨?_, cs ++ cs', by rw [hcs', hcs, List.append_assoc], fun c hc => ?_⟩
  · rw [h'.same, h.same]
  · rcases List.mem_append.mp hc with hleft | hright
    · exact hlines c hleft
    · exact hlines' c hright

/-- One line. -/
theorem says_lmLine (s : Ui) (l : Bytes) : Says s (s.lmLine l) := by
  refine ⟨rfl, [_], rfl, fun c hc => ?_⟩
  rw [List.mem_singleton.mp hc]
  exact ⟨rfl, _, rfl⟩

/-- Lines one after the other. -/
theorem says_foldl (s : Ui) (ls : List Bytes) : Says s (ls.foldl lmLine s) := by
  induction ls generalizing s with
  | nil => exact .refl s
  | cons l ls ih => exact (says_lmLine s l).trans (ih _)

/-- The lines of a form. -/
theorem says_emitFlines (lay : Layout) (s : Ui) (f : List Bytes) :
    Says s (emitFlines lay s f) := by
  unfold emitFlines
  simp only
  split
  · exact says_foldl s _
  · exact .refl s

/-- A note, in either console. -/
theorem says_note (s : Ui) (text : Bytes) : Says s (s.note text) := by
  unfold note
  split
  · exact says_lmLine s text
  · exact .refl s

/-- A reply of the core, as a table or as text. -/
theorem says_showReply (lay : Layout) (s : Ui) (text words : Bytes) (mode : Mode) :
    Says s (showReply lay s text words mode) := says_emitFlines lay s _

/-- The answer of a command that the console does itself. -/
theorem says_localOk (lay : Layout) (s : Ui) (what : Bytes) (subject effect : Option Bytes) :
    Says s (localOk lay s what subject effect) := by
  unfold localOk
  split
  · exact .refl s
  · exact says_emitFlines lay s _

/-- The lines of a warning. -/
theorem says_warnLines (lay : Layout) (s : Ui) (lines : List Bytes) :
    Says s (warnLines lay s lines) := by
  unfold warnLines
  split
  · exact .refl s
  · exact says_emitFlines lay s _

/-! ### Markers -/

/-- The session without its output and its display settings: what a command of the console leaves
alone. -/
def bare (s : Ui) : Ui :=
  { s with
    trace := [], termLen := 0, ascii := false, raw := false, widthSet := none, eventsOn :=
      false, logOn := false
    logSubLevel := 0, view := .console, closing := false }

/-- What a command may write before its marker. -/
def Aside (c : Chunk) : Prop := (c.what = .text ∧ IsLine c.bytes) ∨ ∃ p, c.what = .subscribed p
    ∧ c.bytes = []

/-- Lines and subscriptions were written, and settings changed. A session may have begun to
close. -/
structure Sets (s s' : Ui) : Prop where
  rest : bare s' = bare s
  closing : s.closing = true → s'.closing = true
  said : ∃ cs, s'.trace = s.trace ++ cs ∧ ∀ c ∈ cs, Aside c

/-- Bare sessions agree on the mode. -/
theorem bare_lineMode {s s' : Ui} (h : bare s' = bare s) : s'.lineMode = s.lineMode :=
  show (bare s').lineMode = (bare s).lineMode by rw [h]

/-- Lines of text change no setting. -/
theorem Says.sets {s s' : Ui} (h : Says s s') : Sets s s' := by
  obtain ⟨cs, hcs, hlines⟩ := h.said
  have hclosing : s'.closing = s.closing := by rw [h.same]
  refine ⟨?_, fun hs => hclosing.trans hs, cs, hcs, fun c hc => .inl (hlines c hc)⟩
  rw [h.same]
  rfl

/-- Settings after settings. -/
theorem Sets.trans {s t u : Ui} (h : Sets s t) (h' : Sets t u) : Sets s u := by
  obtain ⟨cs, hcs, hasides⟩ := h.said
  obtain ⟨cs', hcs', hasides'⟩ := h'.said
  refine ⟨h'.rest.trans h.rest, fun hs => h'.closing (h.closing hs),
    cs ++ cs', by rw [hcs', hcs, List.append_assoc],
    fun c hc => ?_⟩
  rcases List.mem_append.mp hc with hleft | hright
  · exact hasides c hleft
  · exact hasides' c hright

/-- A setting changes. -/
theorem Sets.setting {s t : Ui} (hbare : bare t = bare s) (hclosing : t.closing = s.closing)
    (htrace : t.trace = s.trace) :
    Sets s t :=
  ⟨hbare, fun hs => hclosing.trans hs, [], by rw [htrace, List.append_nil], fun c hc =>
   (nomatch hc)⟩

/-- The subscription is told to the core and is a setting. -/
theorem sets_subscribe (s : Ui) : Sets s s.subscribe := by
  refine ⟨rfl, id, [_], rfl, fun c hc => ?_⟩
  rw [List.mem_singleton.mp hc]
  exact .inr ⟨_, rfl, rfl⟩

/-- The marker of command `n`, in line mode. -/
def IsMarker (lineMode : Bool) (n : Nat) (m : List Chunk) : Prop :=
  if lineMode then ∃ ok bytes raw, m = [⟨.marker n ok, bytes, raw⟩] ∧ IsLine bytes else m = []

/-- Command `n` ended: lines, settings, and its marker. -/
structure Ends (n : Nat) (s s' : Ui) : Prop where
  rest : bare s' = bare s
  closing : s.closing = true → s'.closing = true
  said : ∃ cs m, s'.trace = s.trace ++ cs ++ m ∧ (∀ c ∈ cs, Aside c) ∧ IsMarker s.lineMode n m

/-- The marker of a command that went well. -/
theorem ends_markerOk (s : Ui) (n : Nat) (words : Bytes) : Ends n s (s.markerOk n words) := by
  unfold markerOk
  split
  · rename_i hline
    refine ⟨rfl, id, [], [_], by rw [List.append_nil]; rfl, fun c hc => (nomatch hc), ?_⟩
    rw [IsMarker, if_pos hline]
    exact ⟨_, _, _, rfl, _, rfl⟩
  · rename_i hline
    refine ⟨rfl, id, [], [], by rw [List.append_nil, List.append_nil], fun c hc =>
      (nomatch hc), ?_⟩
    rw [IsMarker, if_neg hline]

/-- The marker of one that did not. -/
theorem ends_markerErr (s : Ui) (n : Nat) (code msg : Bytes) :
    Ends n s (s.markerErr n code msg) := by
  unfold markerErr
  split
  · rename_i hline
    refine ⟨rfl, id, [], [_], by rw [List.append_nil]; rfl, fun c hc => (nomatch hc), ?_⟩
    rw [IsMarker, if_pos hline]
    exact ⟨_, _, _, rfl, _, rfl⟩
  · rename_i hline
    refine ⟨rfl, id, [], [], by rw [List.append_nil, List.append_nil], fun c hc =>
      (nomatch hc), ?_⟩
    rw [IsMarker, if_neg hline]

/-- Lines and settings before the end of a command. -/
theorem Ends.after {n : Nat} {s t u : Ui} (h : Sets s t) (h' : Ends n t u) : Ends n s u := by
  obtain ⟨cs, hcs, hasides⟩ := h.said
  obtain ⟨cs', m, hcs', hasides', hm⟩ := h'.said
  refine ⟨h'.rest.trans h.rest, fun hs => h'.closing (h.closing hs), cs ++ cs', m, ?_,
    fun c hc => ?_, ?_⟩
  · rw [hcs', hcs, List.append_assoc s.trace]
  · rcases List.mem_append.mp hc with hleft | hright
    · exact hasides c hleft
    · exact hasides' c hright
  · rwa [bare_lineMode h.rest] at hm

/-- A command that the console refuses. -/
theorem ends_refuse (lay : Layout) (s : Ui) (n : Nat) (code : String) (msg : Bytes)
    (hint : Option Bytes) :
    Ends n s (s.refuse lay n code msg hint) := by
  unfold refuse
  simp only
  split
  · exact .after (says_emitFlines lay s _).sets (ends_markerErr _ n _ _)
  · exact ends_markerErr s n _ _

/-- A command that the core refuses. -/
theorem ends_refuseHub (lay : Layout) (s : Ui) (n : Nat) (code : String) (msg hint : Bytes) :
    Ends n s (s.refuseHub lay n code msg hint) := by
  unfold refuseHub
  split
  · exact ends_refuse lay s n code msg _
  · exact .after (says_emitFlines lay s _).sets (ends_markerErr _ n _ _)

/-! ### The commands of the console -/

/-- `help`. -/
theorem ends_localHelp (lay : Layout) (s : Ui) (ws : Words) (argi n : Nat) (words : Bytes) :
    Ends n s (s.localHelp lay ws argi n words) := by
  have hshow (cmd : Option Bytes) (row : Option CmdDef) :
      Ends n s ((emitFlines lay s (showHelp s.ctx s.lineMode cmd row)).markerOk n words) :=
    .after (says_emitFlines lay s _).sets (ends_markerOk _ n words)
  unfold localHelp
  extract_lets a1 a2
  cases a1 with
  | none => exact hshow none none
  | some a =>
    simp only
    split
    · exact ends_refuse lay s n _ _ _
    · split
      · split
        · exact ends_refuse lay s n _ _ _
        · exact hshow _ _
      · exact hshow _ _

/-- `quit`: the session closes. -/
theorem ends_localQuit (s : Ui) (n : Nat) (words : Bytes) : Ends n s (s.localQuit n words) := by
  unfold localQuit
  extract_lets dot bye t
  have ht : Sets s t := by
    show Sets s (if s.raw then s else s.note (cCut bye 160))
    split
    · exact (Says.refl s).sets
    · exact (says_note s _).sets
  have hend := Ends.after ht (ends_markerOk t n words)
  exact ⟨hend.rest, fun _ => rfl, hend.said⟩

/-- `log`. -/
theorem ends_localLog (lay : Layout) (s : Ui) (sub : String) (a1 : Option Bytes) (n : Nat)
    (words : Bytes) :
    Ends n s (s.localLog lay sub a1 n words) := by
  unfold localLog
  split
  · split
    · exact ends_refuse lay s n _ _ _
    · exact ends_markerOk s n words
  · split
    · exact ends_refuse lay s n _ _ _
    · split
      · split
        · rename_i l _
          have hon : Sets s { s with logOn := true, logSubLevel := l + 1 } := .setting rfl rfl rfl
          exact .after ((hon.trans (says_localOk lay _ _ _ _).sets).trans (sets_subscribe _))
            (ends_markerOk _ n words)
        · exact ends_refuse lay s n _ _ _
      · have hoff : Sets s { s with logOn := false } := .setting rfl rfl rfl
        exact .after ((hoff.trans (says_localOk lay _ _ _ _).sets).trans (sets_subscribe _))
          (ends_markerOk _ n words)

/-- A display setting that is taken. The cases are the settings. -/
theorem sets_display (lay : Layout) (s t : Ui) (sub : String) (a1 : Bytes)
    (h : s.display lay sub a1 = .ok t) : Sets s t := by
  unfold display at h
  simp only at h
  split at h
  · rw [← Except.ok.inj h]
    exact (says_emitFlines lay s _).sets
  · split at h
    · split at h
      · rw [← Except.ok.inj h]
        exact .setting rfl rfl rfl
      · exact nomatch h
    · split at h
      · rw [← Except.ok.inj h]
        have hascii : Sets s { s with ascii := !s.ascii } := .setting rfl rfl rfl
        exact hascii.trans (says_localOk lay _ _ _ _).sets
      · split at h
        · split at h
          · rename_i raw _
            rw [← Except.ok.inj h]
            exact (says_localOk lay s _ _ _).sets.trans (.setting rfl rfl rfl)
          · exact nomatch h
        · split at h
          · split at h
            · rw [← Except.ok.inj h]
              have hwidth (w : Option Nat) : Sets s { s with widthSet := w } :=
                .setting rfl rfl rfl
              exact (hwidth _).trans (says_localOk lay _ _ _ _).sets
            · exact nomatch h
          · split at h
            · split at h
              · rename_i on _
                rw [← Except.ok.inj h]
                have hevents : Sets s { s with eventsOn := on } := .setting rfl rfl rfl
                exact hevents.trans (says_localOk lay _ _ _ _).sets
              · exact nomatch h
            · rw [← Except.ok.inj h]
              exact (Says.refl s).sets

/-- `display`. -/
theorem ends_localDisplay (lay : Layout) (s : Ui) (sub : String) (a1 : Option Bytes) (n : Nat)
    (words : Bytes) :
    Ends n s (s.localDisplay lay sub a1 n words) := by
  unfold localDisplay
  split
  · exact ends_refuse lay s n _ _ _
  · split
    · exact ends_refuse lay s n _ _ _
    · split
      · exact ends_refuse lay s n _ _ _
      · rename_i t ht
        exact .after (sets_display lay s t sub _ ht) (ends_markerOk t n words)

/-- A command the console answers itself ends at once. -/
theorem ends_localCommand (lay : Layout) (s : Ui) (c : CmdDef) (ws : Words) (argi n : Nat)
    (words : Bytes) :
    Ends n s (s.localCommand lay c ws argi n words) := by
  unfold localCommand
  simp only
  split
  · exact ends_localHelp lay s ws argi n words
  · split
    · exact ends_localQuit s n words
    · split
      · exact ends_localLog lay s _ _ n words
      · split
        · exact ends_localDisplay lay s _ _ n words
        · exact ends_markerOk s n words

end IrcHub.Proofs
