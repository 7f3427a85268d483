import IrcHub.Proofs.Ui.Says

/-!
# `IrcHub.Proofs.Ui.Paste`: pasted text

A terminal wraps pasted text in two sequences. `pastes` reads what is between them as the parser
does, without a session: which sequences it has keys for, and whether it gets to the end of the
paste.

* `Scan`, `scanByte`, `pastes`: the scanner, byte by byte
* `hears_inputByte`: a byte that is quiet to the scanner runs nothing in any session in the paste
* `loud_inputByte`: one that is not runs something in some session that may show it
* `pasted_iff`: exactly the texts of `pastes` are pasted as text in every session
* `paste_runs`: a pasted sequence that is Enter, and a text that ends in the middle of a character

The input line is edited by a paste, and only what runs or opens something counts against it. A
view can be turned by a pasted key; whether that asks the core for a text depends on the view, so
the scanner keeps the views that may be shown.
-/

set_option autoImplicit false

namespace IrcHub.Proofs

open IrcHub.Console
open IrcHub.Console.Ui
open Terminal (Bytes)

def pasteBegin : Bytes := [0x1B, 0x5B, 0x32, 0x30, 0x30, 0x7E]

/-- The sequence a paste ends with. -/
def pasteEnd : Bytes := [0x1B, 0x5B, 0x32, 0x30, 0x31, 0x7E]

/-! ### What pasted bytes come to -/

/-- What the parser is in the middle of, and the views that may be shown. -/
structure Scan where
  esc : Bytes := []
  utf8 : Bytes := []
  shown : List Console.View := [.console, .log, .network, .upgrades, .stats]
  deriving DecidableEq

/-- What a pasted byte comes to: nothing that runs, the end of the paste, or a key that runs
something. -/
inductive Heard
  | quiet (t : Scan)
  | ended
  | loud
  deriving DecidableEq

/-- Where a sequence that began with ESC ends: past 0 it is complete, at 0 it goes on, below 0 it
is none. -/
def seqDone (esc : Bytes) : Int :=
  if 2 ≤ esc.length ∧ esc.getD 1 0 = 0x1B then
    if esc.length = 2 then 0
    else if 0 < seqComplete (esc.drop 1) then seqComplete (esc.drop 1) + 1
      else seqComplete (esc.drop 1)
  else seqComplete esc

/-- The views that a key leads to. -/
def viewMove : Key → Option (Console.View → Console.View)
  | .altLeft => some viewPrev
  | .altRight => some viewNext
  | .alt cp => if cp < 0x80 then (viewOfDigit [UInt8.ofNat cp]).map fun v _ => v else none
  | _ => none

/-- The views that are asked for when they open. -/
def refreshes (v : Console.View) : Bool := v = .upgrades || v = .stats

/-- What a key of a pasted sequence comes to. -/
def keyHeard (lineMode : Bool) (t : Scan) (k : Key) : Heard :=
  if k = .pasteEnd then .ended
  else if k = .enter then .loud
  else if lineMode then .quiet t
  else
    match viewMove k with
    | none => .quiet t
    | some f =>
        if (t.shown.map f).any refreshes then .loud else .quiet { t with shown := t.shown.map f }

/-- Length of the character of a lead byte. -/
def needOf (u : Bytes) : Nat := if 0xF0 ≤ u.headD 0 then 4 else if 0xE0 ≤ u.headD 0 then 3 else 2

/-- One pasted byte: of a sequence, of a character, or by itself. The branches are those of the
parser. -/
def scanByte (lineMode : Bool) (t : Scan) (x : UInt8) : Heard :=
  if !t.esc.isEmpty then
    let esc := if t.esc.length < 32 then t.esc ++ [x] else t.esc
    if 0 < seqDone esc then keyHeard lineMode { t with esc := [] }
      (seqKey (esc.take (seqDone esc).toNat))
    else if seqDone esc < 0 ∨ 32 ≤ esc.length then .quiet { t with esc := [] }
    else .quiet { t with esc := esc }
  else if !t.utf8.isEmpty then
    if (t.utf8 ++ [x]).length = needOf (t.utf8 ++ [x]) then .quiet { t with utf8 := [] }
    else .quiet { t with utf8 := t.utf8 ++ [x] }
  else if x = 0x1B then .quiet { t with esc := [x] }
  else if 0xC2 ≤ x ∧ x ≤ 0xF4 then .quiet { t with utf8 := [x] }
  else .quiet t

/-- Whether bytes of a paste are quiet up to its end, which is their last byte. -/
def pastes (lineMode : Bool) : Scan → Bytes → Bool
  | _, [] => false
  | t, x :: rest =>
    match scanByte lineMode t x with
    | .quiet t' => pastes lineMode t' rest
    | .ended => rest.isEmpty
    | .loud => false

/-! ### What a session does with them -/

/-- Nothing but text was written, and the session is as open as before. -/
structure TextOnly (s s' : Ui) : Prop where
  said : ∃ cs, s'.trace = s.trace ++ cs ∧ ∀ c ∈ cs, c.what = .text
  closing : s'.closing = s.closing

/-- The input line was edited, and nothing else happened. A search over the history that is on
stays on only where no question is asked. -/
structure Edits (s s' : Ui) : Prop where
  same : s' = { s with
    input := s'.input, inCur := s'.inCur, histPos := s'.histPos, histStash := s'.histStash,
      searching := s'.searching
    trace := s'.trace, termLen := s'.termLen }
  said : ∃ cs, s'.trace = s.trace ++ cs ∧ ∀ c ∈ cs, c.what = .text
  searching : s.searching = false → s.confirming ≠ .none → s'.searching = false

/-- A session that stays what it is. -/
theorem Edits.refl (s : Ui) : Edits s s :=
  ⟨rfl, ⟨[], (List.append_nil _).symm, fun _ hc => (nomatch hc)⟩, fun h _ => h⟩

/-- Bytes are put into the line. -/
theorem edits_inInsert (s : Ui) (bytes : Bytes) : Edits s (s.inInsert bytes) := by
  unfold inInsert
  split
  · exact .refl s
  · simp only
    split
    · exact ⟨rfl, ⟨[_], rfl, fun _ hc => (List.mem_singleton.mp hc).symm ▸ rfl⟩, fun h _ => h⟩
    · exact ⟨rfl, ⟨[], (List.append_nil _).symm, fun c hc => (nomatch hc)⟩, fun h _ => h⟩

/-- Bytes are taken out of the line. -/
theorem edits_inDelete (s : Ui) (start stop : Nat) : Edits s (s.inDelete start stop) := by
  unfold inDelete
  split
  · exact .refl s
  · exact ⟨rfl, ⟨[], (List.append_nil _).symm, fun c hc => (nomatch hc)⟩, fun h _ => h⟩

/-- The character before the cursor goes. -/
theorem edits_inBackspace (s : Ui) : Edits s s.inBackspace := by
  unfold inBackspace
  split
  · exact .refl s
  · simp only
    have hdel := edits_inDelete s (prevChar s.input s.inCur) s.inCur
    generalize s.inDelete (prevChar s.input s.inCur) s.inCur = t at hdel ⊢
    obtain ⟨cs, hcs, htext⟩ := hdel.said
    split
    · refine ⟨?_, ⟨cs ++ [⟨.text, [0x08, 0x20, 0x08], t.raw⟩], ?_, fun c hc => ?_⟩,
        hdel.searching⟩
      · show { t with trace := _, termLen := _ } = _
        rw [hdel.same]
        rfl
      · show t.trace ++ _ = _
        rw [hcs, List.append_assoc]
      · rcases List.mem_append.mp hc with hleft | hright
        · exact htext c hleft
        · rw [List.mem_singleton.mp hright]
    · exact hdel

/-- A change of the line and of the places in it writes nothing. With a question open the history
is not searched, which is the second hypothesis. -/
theorem Edits.silent {s s' : Ui} (h : s' = { s with
    input := s'.input, inCur := s'.inCur, histPos := s'.histPos, histStash := s'.histStash,
      searching := s'.searching
    trace := s.trace, termLen := s'.termLen })
      (hsearch : s.searching = false → s.confirming ≠ .none → s'.searching = false) :
    Edits s s' := by
  have htrace : s'.trace = s.trace := by rw [h]
  refine ⟨?_, ⟨[], by rw [htrace, List.append_nil], fun c hc => (nomatch hc)⟩, hsearch⟩
  rw [htrace]
  exact h

/-- The line before in the history. -/
theorem edits_histUp (s : Ui) : Edits s s.histUp := by
  unfold histUp
  split
  · exact .refl s
  · exact .silent rfl fun h _ => h

/-- The line after in the history. -/
theorem edits_histDown (s : Ui) : Edits s s.histDown := by
  unfold histDown
  split
  · exact .refl s
  · exact .silent rfl fun h _ => h

/-- Keys that neither run anything nor open a view. -/
def Calm (k : Key) : Prop := k ≠ .enter ∧ (∀ cp, k ≠ .ctrl cp) ∧ viewMove k = none

/-- A key of the line editor edits the line, unless it is Enter or a control key. -/
theorem edits_lineKey (lay : Layout) (s : Ui) {k : Key} (henter : k ≠ .enter)
    (hctrl : ∀ cp, k ≠ .ctrl cp) :
    Edits s (s.lineKey lay k) := by
  unfold Ui.lineKey
  split
  · exact edits_inInsert s _
  · exact absurd rfl henter
  · exact edits_inBackspace s
  · exact edits_inInsert s _
  · exact absurd rfl (hctrl _)
  · exact .refl s

/-- Either branch edits the line. Each may use which branch it is. -/
theorem Edits.ite {s t u : Ui} {p : Prop} [Decidable p] (ht : p → Edits s t) (hu : Edits s u) :
    Edits s (if p then t else u) := by
  split
  · rename_i hp
    exact ht hp
  · exact hu

/-- The cursor moves. -/
theorem edits_cursor (s : Ui) (i : Nat) : Edits s { s with inCur := i } :=
  .silent rfl fun h _ => h

/-- The search of the history opens. -/
theorem edits_search (s : Ui) (hconfirm : s.confirming = .none) :
    Edits s { s with searching := true } :=
  .silent rfl fun _ h => absurd hconfirm h

/-- A character on the screen console. -/
theorem edits_screenChar (lay : Layout) (s : Ui) (now : Int) (cp : Nat) :
    Edits s (s.screenKey lay (.char cp) now) := by
  refine .ite (fun hview => edits_search s ?_) (.ite (fun _ => .refl s) (edits_inInsert s _))
  simp only [Bool.and_eq_true, decide_eq_true_eq] at hview
  exact hview.1.1.2

/-- A calm key on the screen console: it edits the line or scrolls. -/
theorem edits_screenKey (lay : Layout) (s : Ui) (now : Int) {k : Key} (hk : Calm k) :
    Edits s (s.screenKey lay k now) := by
  cases k with
  | none => exact .refl s
  | char cp => exact edits_screenChar lay s now cp
  | enter => exact absurd rfl hk.1
  | bs => exact edits_inBackspace s
  | tab => exact edits_inInsert s _
  | ctrl cp => exact absurd rfl (hk.2.1 cp)
  | up => exact .ite (fun _ => .refl s) (edits_histUp s)
  | down => exact .ite (fun _ => .refl s) (edits_histDown s)
  | left => exact .ite (fun _ => edits_cursor s _) (.refl s)
  | right => exact .ite (fun _ => edits_cursor s _) (.refl s)
  | home => exact edits_cursor s _
  | «end» => exact edits_cursor s _
  | del => exact .ite (fun _ => edits_inDelete s _ _) (.refl s)
  | pgUp => exact .refl s
  | pgDn => exact .refl s
  | f n => exact .refl s
  | alt cp =>
    have hnone := hk.2.2
    rw [viewMove] at hnone
    rw [screenKey]
    split
    · rename_i v hv
      split
      · rename_i hcp
        rw [if_pos hcp, hv] at hnone
        exact nomatch hnone
      · exact .refl s
    · exact .refl s
  | altLeft => exact nomatch hk.2.2
  | altRight => exact nomatch hk.2.2
  | esc => exact .silent rfl fun _ _ => rfl
  | pasteBegin => exact .refl s
  | pasteEnd => exact .refl s

/-- A calm key in either console. -/
theorem edits_handleKey (lay : Layout) (s : Ui) (now : Int) {k : Key} (hk : Calm k) :
    Edits s (s.handleKey lay k now) := by
  unfold handleKey
  split
  · exact edits_lineKey lay s hk.1 hk.2.1
  · exact edits_screenKey lay s now hk

/-- A key that turns to another view does that and nothing else. -/
theorem screenKey_view (lay : Layout) (s : Ui) (now : Int) {k : Key}
    {f : Console.View → Console.View} (hk : viewMove k = some f) :
    s.screenKey lay k now = s.setView (f s.view) now := by
  unfold viewMove at hk
  split at hk
  · rw [← Option.some.inj hk, screenKey]
  · rw [← Option.some.inj hk, screenKey]
  · split at hk
    · rename_i cp hcp
      obtain ⟨v, hv, rfl⟩ := Option.map_eq_some_iff.mp hk
      rw [screenKey, hv]
      exact if_pos hcp
    · exact nomatch hk
  · exact nomatch hk

/-! ### Keys of sequences -/

/-- A choice between two keys that are not a third is not the third. -/
theorem ite_ne {k k' k'' : Key} {p : Prop} [Decidable p] (h : k ≠ k'') (h' : k' ≠ k'') :
    (if p then k else k') ≠ k'' := by
  split
  · exact h
  · exact h'

/-- No key of this kind is a control key. -/
theorem ss3Key_ne_ctrl (c : UInt8) (cp : Nat) : ss3Key c ≠ .ctrl cp := by
  unfold ss3Key
  repeat' apply ite_ne
  all_goals exact nofun

/-- Nor is one of this kind. -/
theorem tildeKey_ne_ctrl (p cp : Nat) : tildeKey p ≠ .ctrl cp := by
  unfold tildeKey
  repeat' apply ite_ne
  all_goals exact nofun

/-- No escape sequence is a control key. So control keys come as plain bytes only. -/
theorem decodeSeq_ne_ctrl (seq : Bytes) (cp : Nat) : decodeSeq seq ≠ .ctrl cp := by
  unfold decodeSeq
  generalize seqParams ((seq.drop 1).dropLast) = p
  refine ite_ne nofun
    (ite_ne (ss3Key_ne_ctrl _ _) (ite_ne nofun (ite_ne (ite_ne nofun nofun) ?_)))
  exact ite_ne (ite_ne nofun nofun) (ite_ne (ite_ne nofun nofun) (ite_ne (tildeKey_ne_ctrl _ _)
    (ite_ne nofun (ss3Key_ne_ctrl _ _))))

/-- No sequence is a control key. -/
theorem seqKey_ne_ctrl (seq : Bytes) (cp : Nat) : seqKey seq ≠ .ctrl cp := by
  unfold seqKey
  split
  · exact nofun
  · split
    · split
      · exact nofun
      · exact nofun
      · exact decodeSeq_ne_ctrl _ _
    · exact decodeSeq_ne_ctrl _ _

/-! ### TextOnly keys -/

/-- A session that waits for an answer, with nothing in flight. -/
def Awaits (s : Ui) : Prop :=
  s.confirming ≠ .none ∧ s.searching = false ∧ s.userBusy = false ∧ s.rq = [] ∧ s.queued = []

/-- Nothing ran, and the view moved as `f` says. A session that waited for an answer waits for it
still. -/
structure Tame (f : Console.View → Console.View) (s s' : Ui) : Prop where
  quiet : TextOnly s s'
  esc : s'.esc = s.esc
  utf8 : s'.utf8 = s.utf8
  pasting : s'.pasting = s.pasting
  mode : s'.lineMode = s.lineMode
  view : s'.view = f s.view
  waits : Awaits s → Awaits s'

/-- A session that stays what it is has said nothing but text. -/
theorem TextOnly.refl (s : Ui) : TextOnly s s :=
  ⟨⟨[], (List.append_nil _).symm, fun _ hc => (nomatch hc)⟩, rfl⟩

/-- Text after text is text. -/
theorem TextOnly.trans {s t u : Ui} (h : TextOnly s t) (h' : TextOnly t u) : TextOnly s u := by
  obtain ⟨cs, hcs, htext⟩ := h.said
  obtain ⟨cs', hcs', htext'⟩ := h'.said
  refine ⟨⟨cs ++ cs', by rw [hcs', hcs, List.append_assoc], fun c hc => ?_⟩,
    h'.closing.trans h.closing⟩
  rcases List.mem_append.mp hc with hleft | hright
  · exact htext c hleft
  · exact htext' c hright

/-- A session that stays what it is. -/
theorem Tame.refl (s : Ui) : Tame id s s := ⟨.refl s, rfl, rfl, rfl, rfl, rfl, id⟩

/-- An edit of the line is tame: it says text only, and the scanner is where it was. -/
theorem Edits.tame {s s' : Ui} (h : Edits s s') : Tame id s s' := by
  have hsame := h.same
  refine ⟨⟨h.said, by rw [hsame]⟩, by rw [hsame], by rw [hsame], by rw [hsame], by rw [hsame], by
    rw [hsame]; rfl, fun hwaits => ?_⟩
  obtain ⟨hconfirm, hsearch, hbusy, hrq, hqueued⟩ := hwaits
  exact ⟨by rw [hsame]; exact hconfirm,
    h.searching hsearch hconfirm, by rw [hsame]; exact hbusy, by rw [hsame]; exact hrq,
    by rw [hsame]; exact hqueued⟩

/-- A turn to a view that asks the hub for nothing is tame. -/
theorem tame_setView (s : Ui) (f : Console.View → Console.View) (now : Int)
    (hquiet : refreshes (f s.view) = false) :
    Tame f s (s.setView (f s.view) now) := by
  have hview : f s.view ≠ .upgrades ∧ f s.view ≠ .stats := by
    unfold refreshes at hquiet
    simpa using hquiet
  rw [setView]
  simp only [if_neg hview.1, if_neg hview.2]
  exact ⟨⟨⟨[], (List.append_nil _).symm, fun _ hc => (nomatch hc)⟩, rfl⟩, rfl, rfl, rfl,
    rfl, rfl, id⟩

/-- A key that the scan hears nothing of does nothing but edit and turn the view. -/
theorem tame_handleKey {lineMode : Bool} {t t' : Scan} {k : Key}
    (h : keyHeard lineMode t k = .quiet t') (hctrl : ∀ cp, k ≠ .ctrl cp) :
    ∃ f : Console.View → Console.View, t' = { t with shown := t.shown.map f }
      ∧ ∀ (lay : Layout) (now : Int) (s : Ui),
      s.lineMode = lineMode → s.view ∈ t.shown → Tame f s (s.handleKey lay k now) := by
  have hid : t = { t with shown := t.shown.map id } := by rw [List.map_id]
  unfold keyHeard at h
  split at h
  · exact nomatch h
  split at h
  · exact nomatch h
  rename_i henter
  split at h
  · rename_i hmode
    rw [← Heard.quiet.inj h]
    refine ⟨id, hid, fun lay now s hs _ => ?_⟩
    rw [handleKey, if_pos (hs.trans hmode)]
    exact (edits_lineKey lay s henter hctrl).tame
  · rename_i hmode
    split at h
    · rename_i hnone
      rw [← Heard.quiet.inj h]
      refine ⟨id, hid, fun lay now s hs _ => ?_⟩
      rw [handleKey, if_neg (by rwa [hs])]
      exact (edits_screenKey lay s now ⟨henter, hctrl, hnone⟩).tame
    · rename_i f hf
      split at h
      · exact nomatch h
      · rename_i hquiet
        rw [← Heard.quiet.inj h]
        refine ⟨f, rfl, fun lay now s hs hview => ?_⟩
        rw [handleKey, if_neg (by rwa [hs]), screenKey_view lay s now hf]
        refine tame_setView s f now ?_
        rw [Bool.not_eq_true, List.any_eq_false] at hquiet
        simpa using hquiet (f s.view) (List.mem_map_of_mem hview)

/-- A sequence that the scan hears nothing of. -/
theorem tame_feedSeq {lineMode : Bool} {t t' : Scan} {seq : Bytes}
    (h : keyHeard lineMode t (seqKey seq) = .quiet t') :
    ∃ f : Console.View → Console.View, t' = { t with shown := t.shown.map f }
      ∧ ∀ (lay : Layout) (now : Int) (s : Ui),
      s.lineMode = lineMode → s.view ∈ t.shown → s.pasting = true →
        Tame f s (s.feedSeq lay seq now) := by
  obtain ⟨f, hf, htame⟩ := tame_handleKey h (seqKey_ne_ctrl seq)
  refine ⟨f, hf, fun lay now s hs hview hpasting => ?_⟩
  have hkey := htame lay now s hs hview
  unfold feedSeq
  cases hk : seqKey seq
  case pasteEnd => rw [hk] at h; exact nomatch h
  case pasteBegin =>
    rw [hk] at hkey
    have hsame : s.handleKey lay .pasteBegin now = s := by
      unfold handleKey
      split <;> rfl
    rw [hsame] at hkey
    exact ⟨⟨hkey.quiet.said, rfl⟩, rfl, rfl, hpasting.symm, rfl, hkey.view, hkey.waits⟩
  case none =>
    rw [hk] at hkey
    have hsame : s.handleKey lay .none now = s := by
      unfold handleKey
      split <;> rfl
    rwa [hsame] at hkey
  all_goals
    rw [hk] at hkey
    exact hkey

/-- A character is calm. -/
theorem calm_char (cp : Nat) : Calm (.char cp) := ⟨nofun, nofun, rfl⟩

/-- So is the backspace. -/
theorem calm_bs : Calm .bs := ⟨nofun, nofun, rfl⟩

/-- So a character that was decoded is tame. -/
theorem tame_feedChar (lay : Layout) (s : Ui) (cp : Nat) (now : Int) :
    Tame id s (s.feedChar lay cp now) :=
  (edits_handleKey lay s now (calm_char _)).tame

/-! ### TextOnly bytes -/

/-- A session in a paste, its parser where the scan is; `s0` is the session before the paste. -/
structure Ready (lineMode : Bool) (s0 : Ui) (t : Scan) (s : Ui) : Prop where
  quiet : TextOnly s0 s
  esc : s.esc = t.esc
  utf8 : s.utf8 = t.utf8
  pasting : s.pasting = true
  mode : s.lineMode = lineMode
  view : s.view ∈ t.shown

/-- What a quiet byte does to every session in the paste. -/
structure Hears (lineMode : Bool) (t t' : Scan) (f : Console.View → Console.View)
    (act : Ui → Ui) : Prop where
  shown : t'.shown = t.shown.map f
  ready : ∀ s0 s, Ready lineMode s0 t s → Ready lineMode s0 t' (act s)
  view : ∀ s0 s, Ready lineMode s0 t s → (act s).view = f s.view
  waits : ∀ s0 s, Ready lineMode s0 t s → Awaits s → Awaits (act s)

/-- A byte that a tame key comes of, or none: the parser moves on. -/
theorem Hears.of_tame {lineMode : Bool} {t t' : Scan} {f : Console.View → Console.View}
    {act : Ui → Ui} (hshown : t'.shown = t.shown.map f)
    (hact : ∀ s : Ui, s.esc = t.esc → s.utf8 = t.utf8 → s.pasting = true → s.lineMode = lineMode →
    s.view ∈ t.shown →
      ∃ u esc esc' utf8 lastCr escMs, Tame f { s with esc, lastCr } u
        ∧ act s = { u with esc := esc', utf8, escMs }
        ∧ esc' = t'.esc ∧ utf8 = t'.utf8) : Hears lineMode t t' f act where
  shown := hshown
  ready s0 s hr := by
    obtain ⟨u, esc, esc', utf8, lastCr, escMs, htame, heq, rfl, rfl⟩ :=
      hact s hr.esc hr.utf8 hr.pasting hr.mode hr.view
    have hstart : TextOnly s0 { s with esc, lastCr } := ⟨hr.quiet.said, hr.quiet.closing⟩
    have hquiet := hstart.trans htame.quiet
    rw [heq]
    refine ⟨⟨hquiet.said, hquiet.closing⟩, rfl, rfl, htame.pasting.trans hr.pasting,
      htame.mode.trans hr.mode, ?_⟩
    show u.view ∈ t'.shown
    rw [htame.view, hshown]
    exact List.mem_map_of_mem hr.view
  view s0 s hr := by
    obtain ⟨u, esc, esc', utf8, lastCr, escMs, htame, heq, -⟩ :=
      hact s hr.esc hr.utf8 hr.pasting hr.mode hr.view
    rw [heq]
    exact htame.view
  waits s0 s hr hw := by
    obtain ⟨u, esc, esc', utf8, lastCr, escMs, htame, heq, -⟩ :=
      hact s hr.esc hr.utf8 hr.pasting hr.mode hr.view
    rw [heq]
    exact htame.waits hw

/-- A byte of a sequence. -/
theorem hears_escByte (lay : Layout) (now : Int) {lineMode : Bool} {t t' : Scan} {x : UInt8}
    (hesc : t.esc ≠ []) (h : scanByte lineMode t x = .quiet t') :
    ∃ f, Hears lineMode t t' f fun s => s.escByte lay x now := by
  unfold scanByte at h
  rw [if_pos (by simpa using hesc)] at h
  simp only at h
  generalize hnext : (if t.esc.length < 32 then t.esc ++ [x] else t.esc) = esc at h
  have hact (s : Ui) (hs : s.esc = t.esc) : s.escByte lay x now =
      if 0 < seqDone esc
        then { ({ s with esc } : Ui).feedSeq lay (esc.take (seqDone esc).toNat) now
        with esc := [] }
      else if seqDone esc < 0 ∨ 32 ≤ esc.length then { s with esc := [] }
        else { s with esc } := by
    rw [escByte, hs, hnext]
    rfl
  split at h
  · rename_i hdone
    obtain ⟨f, rfl, htame⟩ := tame_feedSeq h
    refine ⟨f, .of_tame rfl fun s hesc' hutf8 hpasting hmode hview => ?_⟩
    have hfed := htame lay now { s with esc } hmode hview hpasting
    have heq := hact s hesc'
    rw [if_pos hdone] at heq
    generalize ({ s with esc } : Ui).feedSeq lay (esc.take (seqDone esc).toNat) now
      = fed at hfed heq
    exact ⟨fed, esc, [], fed.utf8, s.lastCr, fed.escMs, hfed, heq, rfl, hfed.utf8.trans hutf8⟩
  · rename_i hdone
    split at h
    · rename_i hbad
      rw [← Heard.quiet.inj h]
      refine ⟨id, .of_tame (List.map_id _).symm fun s hesc' hutf8 _ _ _ =>
        ⟨s, s.esc, [], s.utf8, s.lastCr, s.escMs, .refl s, ?_, rfl, hutf8⟩⟩
      rw [hact s hesc', if_neg hdone, if_pos hbad]
    · rename_i hbad
      rw [← Heard.quiet.inj h]
      refine ⟨id, .of_tame (List.map_id _).symm fun s hesc' hutf8 _ _ _ =>
        ⟨s, s.esc, esc, s.utf8, s.lastCr, s.escMs, .refl s, ?_, rfl, hutf8⟩⟩
      rw [hact s hesc', if_neg hdone, if_neg hbad]

/-- A byte of a character. -/
theorem hears_utf8Byte (lay : Layout) (now : Int) {lineMode : Bool} {t t' : Scan} {x : UInt8}
    (hesc : t.esc = []) (hutf8 : t.utf8 ≠ []) (h : scanByte lineMode t x = .quiet t') :
    Hears lineMode t t' id fun s => s.utf8Byte lay x now := by
  unfold scanByte at h
  rw [if_neg (by simp [hesc]), if_pos (by simpa using hutf8)] at h
  have hshown : t'.shown = t.shown.map id := by
    rw [List.map_id]
    split at h <;> rw [← Heard.quiet.inj h]
  refine .of_tame hshown fun s hesc' hutf8' _ _ _ => ?_
  have hact : s.utf8Byte lay x now =
      if (t.utf8 ++ [x]).length = needOf (t.utf8 ++ [x]) then
        { (if Console.utf8Len (t.utf8 ++ [x]) = needOf (t.utf8 ++ [x])
            ∧ ¬(0x80 ≤ utf8Cp (t.utf8 ++ [x]) (needOf (t.utf8 ++ [x]))
            ∧ utf8Cp (t.utf8 ++ [x]) (needOf (t.utf8 ++ [x])) ≤ 0x9F)
          then s.feedChar lay (utf8Cp (t.utf8 ++ [x]) (needOf (t.utf8 ++ [x]))) now else s)
            with utf8 := [] }
      else { s with utf8 := t.utf8 ++ [x] } := by
    rw [utf8Byte, hutf8']
    rfl
  rw [hact]
  split at h
  · rename_i hfull
    rw [if_pos hfull, ← Heard.quiet.inj h]
    split
    · have htame := tame_feedChar lay s (utf8Cp (t.utf8 ++ [x]) (needOf (t.utf8 ++ [x]))) now
      exact ⟨_, s.esc, _, [], s.lastCr, _, htame, rfl, htame.esc.trans hesc', rfl⟩
    · exact ⟨s, s.esc, _, [], s.lastCr, _, .refl s, rfl, hesc', rfl⟩
  · rename_i hpart
    rw [if_neg hpart, ← Heard.quiet.inj h]
    exact ⟨s, s.esc, _, _, s.lastCr, _, .refl s, rfl, hesc', rfl⟩

/-- A byte of its own, which is typed, dropped, or the first of a character. -/
theorem plainByte_pasting (lay : Layout) (s : Ui) (x : UInt8) (now : Int)
    (hpasting : s.pasting = true) :
    (0xC2 ≤ x ∧ x ≤ 0xF4 ∧ s.plainByte lay x now = { s with utf8 := [x] })
      ∨ (¬(0xC2 ≤ x ∧ x ≤ 0xF4) ∧ Tame id s (s.plainByte lay x now)) := by
  have hlow : x < 0x80 → ¬(0xC2 ≤ x ∧ x ≤ 0xF4) := by
    rintro hx ⟨hlead, -⟩
    have h1 := UInt8.lt_iff_toNat_lt.mp hx
    have h2 := UInt8.le_iff_toNat_le.mp hlead
    have h3 : (0xC2 : UInt8).toNat = 194 := rfl
    have h4 : (0x80 : UInt8).toNat = 128 := rfl
    omega
  unfold plainByte
  rw [hpasting]
  split
  · rename_i hx
    refine .inr ⟨hlow ?_, tame_feedChar lay s _ now⟩
    rcases hx with rfl | rfl <;> decide
  split
  · rename_i hx
    refine .inr ⟨hlow ?_, (edits_handleKey lay s now calm_bs).tame⟩
    rcases hx with rfl | rfl <;> decide
  split
  · rename_i hx
    refine .inr ⟨hlow ?_, tame_feedChar lay s _ now⟩
    rw [hx]
    decide
  split
  · rename_i hx
    exact .inr ⟨hlow (UInt8.lt_trans hx (by decide)), .refl s⟩
  split
  · rename_i hx
    exact .inr ⟨hlow hx, tame_feedChar lay s _ now⟩
  split
  · rename_i hx
    exact .inl ⟨hx.1, hx.2, rfl⟩
  · rename_i hx
    exact .inr ⟨hx, .refl s⟩

/-- A byte outside any sequence, that begins none. The scanner tells which key it is, and the
session does what the key does. -/
theorem hears_plainByte (lay : Layout) (now : Int) {lineMode : Bool} {t t' : Scan} {x : UInt8}
    (hesc : t.esc = []) (hutf8 : t.utf8 = []) (hx : x ≠ 0x1B)
    (h : scanByte lineMode t x = .quiet t') :
    Hears lineMode t t' id fun s => (s.inputByte lay x now).1 := by
  unfold scanByte at h
  rw [if_neg (by simp [hesc]), if_neg (by simp [hutf8]), if_neg hx] at h
  have hshown : t'.shown = t.shown.map id := by
    rw [List.map_id]
    split at h <;> rw [← Heard.quiet.inj h]
  refine .of_tame hshown fun s hesc' hutf8' hpasting _ _ => ?_
  rw [inputByte, if_neg (by simp [hesc', hesc]), if_neg (by simp [hutf8', hutf8]), if_neg hx]
  simp only
  split
  · rename_i hcrlf
    rw [if_neg (by rw [hcrlf.1]; decide)] at h
    rw [← Heard.quiet.inj h]
    exact ⟨_, s.esc, s.esc, s.utf8, x == 0x0D, s.escMs, .refl _, rfl, hesc', hutf8'⟩
  · rcases plainByte_pasting lay { s with lastCr := x == 0x0D } x now hpasting
      with ⟨hlo, hhi, heq⟩ | ⟨hother, htame⟩
    · rw [if_pos ⟨hlo, hhi⟩] at h
      rw [← Heard.quiet.inj h]
      exact ⟨_, s.esc, s.esc, [x], x == 0x0D, s.escMs, .refl _, heq, hesc', rfl⟩
    · rw [if_neg hother] at h
      rw [← Heard.quiet.inj h]
      generalize ({ s with lastCr := x == 0x0D } : Ui).plainByte lay x now = u at htame
      exact ⟨u, s.esc, u.esc, u.utf8, x == 0x0D, u.escMs, htame, rfl, htame.esc.trans hesc',
        htame.utf8.trans hutf8'⟩

/-- What is heard depends on what the session does from states of this scan alone. -/
theorem Hears.congr {lineMode : Bool} {t t' : Scan} {f : Console.View → Console.View}
    {act act' : Ui → Ui} (h : Hears lineMode t t' f act)
    (heq : ∀ s : Ui, s.esc = t.esc → s.utf8 = t.utf8 → act' s = act s) :
    Hears lineMode t t' f act' where
  shown := h.shown
  ready s0 s hr := by
    rw [heq s hr.esc hr.utf8]
    exact h.ready s0 s hr
  view s0 s hr := by
    rw [heq s hr.esc hr.utf8]
    exact h.view s0 s hr
  waits s0 s hr := by
    rw [heq s hr.esc hr.utf8]
    exact h.waits s0 s hr

/-- A quiet byte, by what the parser is in the middle of. -/
theorem hears_inputByte (lay : Layout) (now : Int) {lineMode : Bool} {t t' : Scan} {x : UInt8}
    (h : scanByte lineMode t x = .quiet t') : ∃ f, Hears lineMode t t' f fun s =>
    (s.inputByte lay x now).1 := by
  by_cases hesc : t.esc = []
  · by_cases hutf8 : t.utf8 = []
    · by_cases hx : x = 0x1B
      · have ht : t' = { t with esc := [x] } := by
          unfold scanByte at h
          rw [if_neg (by simp [hesc]), if_neg (by simp [hutf8]), if_pos hx] at h
          exact (Heard.quiet.inj h).symm
        rw [ht]
        refine ⟨id, .of_tame (List.map_id _).symm fun s hesc' hutf8' _ _ _ => ?_⟩
        refine ⟨s, s.esc, [x], s.utf8, s.lastCr, now, .refl s, ?_, rfl, hutf8'⟩
        rw [inputByte, if_neg (by simp [hesc', hesc]),
          if_neg (by simp [hutf8', hutf8]), if_pos hx]
      · exact ⟨id, hears_plainByte lay now hesc hutf8 hx h⟩
    · refine ⟨id, (hears_utf8Byte lay now hesc hutf8 h).congr fun s hesc' hutf8' => ?_⟩
      rw [inputByte, if_neg (by simp [hesc', hesc]), if_pos (by simpa [hutf8'] using hutf8)]
  · obtain ⟨f, hbyte⟩ := hears_escByte lay now hesc h
    refine ⟨f, hbyte.congr fun s hesc' _ => ?_⟩
    rw [inputByte, if_pos (by simpa [hesc'] using hesc)]

/-! ### The end of a paste, and keys that run something -/

/-- Only a sequence is heard. A single byte is typed or dropped, also Enter, since the parser
knows it is in a paste. -/
theorem scanByte_heard {lineMode : Bool} {t : Scan} {x : UInt8}
    (h : ∀ t', scanByte lineMode t x ≠ .quiet t') :
    ∃ esc seq, scanByte lineMode t x = keyHeard lineMode { t with esc := [] } (seqKey seq) ∧
      ∀ (lay : Layout) (now : Int) (s : Ui), s.esc = t.esc →
        (s.inputByte lay x now).1
        = { ({ s with esc } : Ui).feedSeq lay seq now with esc := [] } := by
  unfold scanByte at h ⊢
  by_cases hesc : t.esc = []
  · rw [if_neg (by simp [hesc])] at h
    split at h
    · split at h <;> exact absurd rfl (h _)
    · split at h
      · exact absurd rfl (h _)
      · split at h <;> exact absurd rfl (h _)
  · rw [if_pos (by simpa using hesc)] at h ⊢
    simp only at h ⊢
    generalize hnext : (if t.esc.length < 32 then t.esc ++ [x] else t.esc) = esc at h ⊢
    by_cases hdone : 0 < seqDone esc
    · rw [if_pos hdone]
      refine ⟨esc, esc.take (seqDone esc).toNat, rfl, fun lay now s hs => ?_⟩
      rw [inputByte, if_pos (by simpa [hs] using hesc), escByte, hs, hnext]
      exact if_pos hdone
    · rw [if_neg hdone] at h
      split at h <;> exact absurd rfl (h _)

/-- A paste ends at its end mark only. -/
theorem keyHeard_ended {lineMode : Bool} {t : Scan} {k : Key}
    (h : keyHeard lineMode t k = .ended) : k = .pasteEnd := by
  by_contra hk
  unfold keyHeard at h
  rw [if_neg hk] at h
  split at h
  · exact nomatch h
  split at h
  · exact nomatch h
  split at h
  · exact nomatch h
  · split at h <;> exact nomatch h

/-- The last byte of the end of the paste. -/
theorem ended_inputByte (lay : Layout) (now : Int) {lineMode : Bool} {t : Scan}
    {x : UInt8} {s0 s : Ui} (h : scanByte lineMode t x = .ended) (hr : Ready lineMode s0 t s) :
    TextOnly s0 (s.inputByte lay x now).1 ∧ (s.inputByte lay x now).1.pasting = false := by
  obtain ⟨esc, seq, hkey, hact⟩ := scanByte_heard (fun t' ht' => nomatch h.symm.trans ht')
  have hend := keyHeard_ended (hkey.symm.trans h)
  rw [hact lay now s hr.esc, feedSeq, hend]
  exact ⟨⟨hr.quiet.said, hr.quiet.closing⟩, rfl⟩

/-- Something that is not text was written. -/
def Loud (s s' : Ui) : Prop := ∃ cs c cs', s'.trace = s.trace ++ cs ++ c :: cs' ∧ c.what ≠ .text

/-- What was loud is not text only, whatever came before. -/
theorem Loud.not_quiet {s0 s s' : Ui} (h : Loud s s') (hquiet : TextOnly s0 s) :
    ¬TextOnly s0 s' := by
  rintro ⟨⟨cs, hcs, htext⟩, -⟩
  obtain ⟨ds, c, ds', hds, hc⟩ := h
  obtain ⟨es, hes, -⟩ := hquiet.said
  rw [hds, hes, List.append_assoc, List.append_assoc] at hcs
  refine hc (htext c ?_)
  rw [← List.append_cancel_left hcs]
  simp

/-- More was written. -/
def Grows (s s' : Ui) : Prop := ∃ cs, s'.trace = s.trace ++ cs

/-- A trace grows by nothing. -/
theorem Grows.refl (s : Ui) : Grows s s := ⟨[], (List.append_nil _).symm⟩

/-- Growth after growth. -/
theorem Grows.trans {s t u : Ui} (h : Grows s t) (h' : Grows t u) : Grows s u := by
  obtain ⟨cs, hcs⟩ := h
  obtain ⟨cs', hcs'⟩ := h'
  exact ⟨cs ++ cs', by rw [hcs', hcs, List.append_assoc]⟩

/-- What was loud stays so: the trace is only ever appended to. -/
theorem Loud.grows {s t u : Ui} (h : Loud s t) (h' : Grows t u) : Loud s u := by
  obtain ⟨cs, c, cs', hcs, hc⟩ := h
  obtain ⟨ds, hds⟩ := h'
  exact ⟨cs, c, cs' ++ ds, by rw [hds, hcs, List.append_assoc (s.trace ++ cs)]; rfl, hc⟩

/-- A command that ends appends. -/
theorem Ends.grows {n : Nat} {s s' : Ui} (h : Ends n s s') : Grows s s' := by
  obtain ⟨cs, m, hcs, -⟩ := h.said
  exact ⟨cs ++ m, by rw [hcs, List.append_assoc]⟩

/-- So does a chunk. -/
theorem grows_emit (s : Ui) (what : What) (bytes : Bytes) :
    Grows s (s.emit what bytes) := ⟨_, rfl⟩

/-- So does the release of what was held back. -/
theorem grows_flushHeld (s : Ui) : Grows s s.flushHeld := by
  have hfold : ∀ (blocks : List Bytes) (t : Ui), Grows t
    (blocks.foldl (fun s block => s.emit (.event block) block) t) := by
    intro blocks
    induction blocks with
    | nil => exact Grows.refl
    | cons block blocks ih => exact fun t => (grows_emit t _ _).trans (ih _)
  exact hfold s.held { s with held := [] }

/-- So does what follows Enter. -/
theorem grows_afterEnter (s : Ui) : Grows s s.afterEnter := by
  unfold afterEnter
  split
  · split
    · exact (grows_flushHeld s).trans (grows_emit _ _ _)
    · exact grows_emit _ _ _
  · exact .refl s

/-- So does a request. -/
theorem grows_sendRequest (lay : Layout) (s : Ui) (op : UInt8) (payload : Bytes)
    (rq : PendingRq) :
    Grows s (s.sendRequest lay op payload rq) := by
  unfold sendRequest
  split
  · exact (ends_refuse lay s rq.seq _ _ _).grows
  · exact grows_emit s _ _

/-- Two sessions that differ in what they said and in settings have the same lines waiting. -/
theorem bare_queued {s s' : Ui} (h : bare s' = bare s) : s'.queued = s.queued :=
  show (bare s').queued = (bare s).queued by rw [h]

/-- Where nothing is typed ahead, nothing follows a command. -/
theorem commandDone_idle (lay : Layout) {s : Ui} (hqueued : s.queued = []) :
    commandDone lay s false = { s with userBusy := false } := by
  unfold commandDone
  rw [hqueued]
  simp [drain]

/-- An answer is taken. -/
theorem loud_confirmAnswer (lay : Layout) (s : Ui) (answer : Bytes) (queued : Bool)
    (hqueued : s.queued = []) :
    Loud s (confirmAnswer lay (commandDone lay · false) s answer queued) := by
  have hanswered : Loud s (s.mark (.answered s.confirmSeq answer queued)) :=
    ⟨[], ⟨.answered s.confirmSeq answer queued, [], s.raw⟩,
     [], by rw [List.append_nil]; rfl, nofun⟩
  unfold confirmAnswer
  simp only
  split
  · exact hanswered.grows (grows_sendRequest lay _ _ _ _)
  · generalize hrest :
      ({ s.mark (.answered s.confirmSeq answer queued) with confirming := .none } : Ui) = t
    generalize (s.mark (.answered s.confirmSeq answer queued)).confirmSeq = n
    have ht : Loud s t := by
      rw [← hrest]
      exact hanswered
    have hend := ends_refuse lay t n "cmd.cancelled" (b "cancelled") none
    have hnone : (t.refuse lay n "cmd.cancelled" (b "cancelled") none).queued = [] := by
      rw [bare_queued hend.rest, ← hrest]
      exact hqueued
    generalize t.refuse lay n "cmd.cancelled" (b "cancelled") none = u at hend hnone
    rw [commandDone_idle lay (s := { u with confirmPayload := [] }) hnone]
    exact ht.grows hend.grows

/-- Enter answers a question: the session that waits for an answer is one in which it runs
something. -/
theorem loud_onEnter (lay : Layout) {s : Ui} (hwaits : Awaits s) : Loud s (s.onEnter lay) := by
  obtain ⟨hconfirm, hsearch, -, -, hqueued⟩ := hwaits
  unfold onEnter
  extract_lets line t u
  have hu : Grows s u ∧ u.confirming = s.confirming ∧ u.searching = s.searching
    ∧ u.queued = s.queued := by
    show Grows s (if t.lineMode then t.emit .text crlf else t)
      ∧ (if t.lineMode then t.emit .text crlf else t).confirming = _
      ∧ (if t.lineMode then t.emit .text crlf else t).searching = _
      ∧ (if t.lineMode then t.emit .text crlf else t).queued = _
    split
    · exact ⟨⟨_, rfl⟩, rfl, rfl, rfl⟩
    · exact ⟨.refl s, rfl, rfl, rfl⟩
  obtain ⟨hgrows, hconfirm', hsearch', hqueued'⟩ := hu
  rw [if_neg (by rw [hsearch', hsearch]; decide), if_pos (by rwa [hconfirm'])]
  have hloud := (loud_confirmAnswer lay u line false (hqueued'.trans hqueued)).grows
    (grows_afterEnter _)
  obtain ⟨cs, hcs⟩ := hgrows
  obtain ⟨ds, c, ds', hds, hc⟩ := hloud
  exact ⟨cs ++ ds, c, ds', by rw [hds, hcs, ← List.append_assoc s.trace], hc⟩

/-- A view that is refreshed asks the core for its text. -/
theorem loud_setView (s : Ui) (v : Console.View) (now : Int) (hrefreshes : refreshes v = true)
    (hbusy : s.userBusy = false) (hrq : s.rq = []) : Loud s (s.setView v now) := by
  have hask (t : Ui) (kind : Rq) (htrace : t.trace = s.trace) (hb : t.userBusy = false)
    (hr : t.rq = []) :
      Loud s (t.requestView kind now) := by
    unfold requestView
    rw [hb, hr, if_neg (by simp [maxPendingRq])]
    simp only
    split
    · exact ⟨[], ⟨.request 0 kind cmdAdminUpgradeStatus [], [], t.raw⟩,
        [], by rw [List.append_nil, ← htrace]; rfl, nofun⟩
    · exact ⟨[], ⟨.request 0 kind cmdAdminStats [], [], t.raw⟩,
        [], by rw [List.append_nil, ← htrace]; rfl, nofun⟩
  unfold setView
  cases v with
  | upgrades => exact hask { s with view := .upgrades } .viewUpg rfl hbusy hrq
  | stats => exact hask { s with view := .stats } .viewStats rfl hbusy hrq
  | console => exact nomatch hrefreshes
  | log => exact nomatch hrefreshes
  | network => exact nomatch hrefreshes

/-- A key that runs something does so from one of the views that may be shown. -/
theorem loud_key {lineMode : Bool} {t : Scan} {k : Key} (h : keyHeard lineMode t k = .loud)
    (hshown : t.shown ≠ []) :
    ∃ v ∈ t.shown, ∀ (lay : Layout) (now : Int) (s : Ui), s.lineMode = lineMode → Awaits s →
      s.view = v → Loud s (s.handleKey lay k now) := by
  unfold keyHeard at h
  split at h
  · exact nomatch h
  split at h
  · rename_i henter
    obtain ⟨v, hv⟩ := List.exists_mem_of_ne_nil _ hshown
    refine ⟨v, hv, fun lay now s _ hwaits _ => ?_⟩
    rw [henter, handleKey]
    split
    · exact loud_onEnter lay hwaits
    · exact loud_onEnter lay hwaits
  split at h
  · exact nomatch h
  rename_i hmode
  split at h
  · exact nomatch h
  rename_i f hf
  split at h
  · rename_i hany
    obtain ⟨w, hw, hrefreshes⟩ := List.any_eq_true.mp hany
    obtain ⟨v, hv, rfl⟩ := List.mem_map.mp hw
    refine ⟨v, hv, fun lay now s hs hwaits hview => ?_⟩
    rw [handleKey, if_neg (by rwa [hs]), screenKey_view lay s now hf, hview]
    exact loud_setView s (f v) now hrefreshes hwaits.2.2.1 hwaits.2.2.2.1
  · exact nomatch h

/-- A byte that runs something does so in one of the sessions that wait for an answer. -/
theorem loud_inputByte {lineMode : Bool} {t : Scan} {x : UInt8}
    (h : scanByte lineMode t x = .loud) (hshown : t.shown ≠ []) :
    ∃ v ∈ t.shown, ∀ (lay : Layout) (now : Int) (s0 s : Ui), Ready lineMode s0 t s → Awaits s →
      s.view = v → ¬TextOnly s0 (s.inputByte lay x now).1 := by
  obtain ⟨esc, seq, hkey, hact⟩ := scanByte_heard (fun t' ht' => nomatch h.symm.trans ht')
  have hloud := hkey.symm.trans h
  obtain ⟨v, hv, hruns⟩ := loud_key hloud hshown
  refine ⟨v, hv, fun lay now s0 s hr hwaits hview => ?_⟩
  have hrun := hruns lay now { s with esc } hr.mode hwaits hview
  have hfeed : ({ s with esc } : Ui).feedSeq lay seq now = ({ s with esc } : Ui).handleKey lay
    (seqKey seq) now := by
    unfold feedSeq
    cases hk : seqKey seq
    case pasteBegin => rw [hk] at hloud; cases lineMode <;> exact nomatch hloud
    case pasteEnd => rw [hk] at hloud; exact nomatch hloud
    case none => rw [hk] at hloud; cases lineMode <;> exact nomatch hloud
    all_goals rfl
  rw [hact lay now s hr.esc, hfeed]
  generalize ({ s with esc } : Ui).handleKey lay (seqKey seq) now = u at hrun
  obtain ⟨cs, c, cs', hcs, hc⟩ := hrun
  have hloud' : Loud s { u with esc := [] } := ⟨cs, c, cs', hcs, hc⟩
  exact hloud'.not_quiet hr.quiet

/-! ### A paste -/

/-- Pasted as text: after every byte but the last nothing has run and the session is in the paste,
and after the last it is out of it. -/
structure PastedFrom (lay : Layout) (now : Int) (s0 s : Ui) (bytes : Bytes) : Prop where
  inside : ∀ p, p <+: bytes → p ≠ bytes → TextOnly s0 (inputBytes lay now s p)
    ∧ (inputBytes lay now s p).pasting = true
  outside : TextOnly s0 (inputBytes lay now s bytes)
    ∧ (inputBytes lay now s bytes).pasting = false

/-- Bytes come one after the other, while the session is open. -/
theorem inputBytes_cons (lay : Layout) (now : Int) (s : Ui) (x : UInt8) (rest : Bytes)
    (hopen : (s.inputByte lay x now).1.closing = false) :
    inputBytes lay now s (x :: rest) = inputBytes lay now (s.inputByte lay x now).1 rest := by
  rw [inputBytes]
  simp only
  rw [hopen, Bool.and_false, if_neg Bool.false_ne_true]

/-- One byte. -/
theorem inputBytes_one (lay : Layout) (now : Int) (s : Ui) (x : UInt8) :
    inputBytes lay now s [x] = (s.inputByte lay x now).1 := by
  rw [inputBytes]
  simp only [inputBytes]
  split <;> rfl

/-- Bytes that the scan takes as a paste are pasted as text, by induction on them. The session has
to be open and where the scan is. -/
theorem pastedFrom_of_pastes (lay : Layout) (now : Int) {lineMode : Bool} {bytes : Bytes}
    {t : Scan} {s0 s : Ui} (hopen : s0.closing = false) (hr : Ready lineMode s0 t s)
    (h : pastes lineMode t bytes = true) :
    PastedFrom lay now s0 s bytes := by
  induction bytes generalizing t s with
  | nil => exact nomatch h
  | cons x rest ih =>
    rw [pastes] at h
    cases hheard : scanByte lineMode t x with
    | quiet t' =>
      rw [hheard] at h
      obtain ⟨f, hears⟩ := hears_inputByte lay now hheard
      have hr' := hears.ready s0 s hr
      have hnext (p : Bytes) := inputBytes_cons lay now s x p (hr'.quiet.closing.trans hopen)
      have hrest := ih hr' h
      refine ⟨fun p hp hne => ?_, by rw [hnext]; exact hrest.outside⟩
      cases p with
      | nil => exact ⟨hr.quiet, hr.pasting⟩
      | cons y p =>
        obtain ⟨rfl, hp'⟩ := List.cons_prefix_cons.mp hp
        rw [hnext]
        exact hrest.inside p hp' fun heq => hne (by rw [heq])
    | ended =>
      rw [hheard] at h
      have hnil : rest = [] := List.isEmpty_iff.mp h
      subst hnil
      refine ⟨fun p hp hne => ?_, by rw [inputBytes_one]; exact ended_inputByte lay now hheard hr⟩
      cases p with
      | nil => exact ⟨hr.quiet, hr.pasting⟩
      | cons y p =>
        obtain ⟨rfl, hp'⟩ := List.cons_prefix_cons.mp hp
        rw [List.prefix_nil.mp hp'] at hne
        exact absurd rfl hne
    | loud =>
      rw [hheard] at h
      exact nomatch h

/-- Bytes that do not go through are not pasted as text by one of the sessions of a family, one
for each view. The byte that is heard is loud from one of the views, and the family has a session
there. -/
theorem not_pastedFrom (lay : Layout) (now : Int) {lineMode : Bool} {bytes : Bytes} {t : Scan}
    {views : List Console.View} {s0 s : Console.View → Ui} (hviews : views ≠ [])
    (hopen : ∀ v, (s0 v).closing = false) (hr : ∀ v ∈ views, Ready lineMode (s0 v) t (s v))
    (hwaits : ∀ v ∈ views, Awaits (s v)) (hshown : t.shown = views.map fun v => (s v).view)
    (h : pastes lineMode t bytes = false) :
    ∃ v ∈ views, ¬PastedFrom lay now (s0 v) (s v) bytes := by
  induction bytes generalizing t s with
  -- no byte is left, so the paste never ended
  | nil =>
    obtain ⟨v, hv⟩ := List.exists_mem_of_ne_nil _ hviews
    refine ⟨v, hv, fun hp => ?_⟩
    have hout : (s v).pasting = false := hp.outside.2
    rw [(hr v hv).pasting] at hout
    exact nomatch hout
  | cons x rest ih =>
    rw [pastes] at h
    -- what the scan makes of the next byte
    cases hheard : scanByte lineMode t x with
    -- it is taken as text by every session of the family: the induction goes on from there
    | quiet t' =>
      rw [hheard] at h
      obtain ⟨f, hears⟩ := hears_inputByte lay now hheard
      have hshown' : t'.shown = views.map fun v => ((s v).inputByte lay x now).1.view := by
        rw [hears.shown, hshown, List.map_map]
        exact List.map_congr_left fun v hv => (hears.view (s0 v) (s v) (hr v hv)).symm
      obtain ⟨v, hv, hnot⟩ := ih (fun v hv => hears.ready (s0 v) (s v) (hr v hv))
        (fun v hv => hears.waits (s0 v) (s v) (hr v hv) (hwaits v hv)) hshown' h
      have hr' := hears.ready (s0 v) (s v) (hr v hv)
      have hnext (p : Bytes) :=
        inputBytes_cons lay now (s v) x p (hr'.quiet.closing.trans (hopen v))
      refine ⟨v, hv, fun hp => hnot ⟨fun p hprefix hne => ?_, ?_⟩⟩
      · rw [← hnext]
        exact hp.inside (x :: p) (List.cons_prefix_cons.mpr ⟨rfl, hprefix⟩) fun heq =>
          hne (List.cons.inj heq).2
      · rw [← hnext]
        exact hp.outside
    -- the paste ends too early, with bytes to come
    | ended =>
      rw [hheard] at h
      obtain ⟨v, hv⟩ := List.exists_mem_of_ne_nil _ hviews
      refine ⟨v, hv, fun hp => ?_⟩
      have hne : [x] ≠ x :: rest := fun heq => by
        rw [← (List.cons.inj heq).2] at h
        exact nomatch h
      have hin := (hp.inside [x] (List.cons_prefix_cons.mpr ⟨rfl, List.nil_prefix⟩) hne).2
      rw [inputBytes_one, (ended_inputByte lay now hheard (hr v hv)).2] at hin
      exact nomatch hin
    -- a session of the family hears it as something else
    | loud =>
      have hne : t.shown ≠ [] := by
        rw [hshown]
        simpa using hviews
      obtain ⟨w, hw, hloud⟩ := loud_inputByte hheard hne
      rw [hshown] at hw
      obtain ⟨v, hv, hview⟩ := List.mem_map.mp hw
      have hnot := hloud lay now (s0 v) (s v) (hr v hv) (hwaits v hv) hview
      refine ⟨v, hv, fun hp => hnot ?_⟩
      rw [← inputBytes_one]
      by_cases hrest : rest = []
      · rw [hrest] at hp
        exact hp.outside.1
      · exact (hp.inside [x] (List.cons_prefix_cons.mpr ⟨rfl, List.nil_prefix⟩) fun heq =>
          hrest (List.cons.inj heq).2.symm).1

/-- A byte within a sequence is added to it, and the sequence is decoded once it is whole. Past 32
bytes a sequence is given up, hence `hlen`. -/
theorem inputByte_esc (lay : Layout) (now : Int) {s : Ui} {esc : Bytes} {x : UInt8}
    (hesc : s.esc = esc) (hne : esc ≠ []) (hlen : esc.length < 32) : (s.inputByte lay x now).1
      = if 0 < seqDone (esc ++ [x]) then
          { ({ s with esc := esc ++ [x] } : Ui).feedSeq lay
          ((esc ++ [x]).take (seqDone (esc ++ [x])).toNat) now with esc := [] }
        else if seqDone (esc ++ [x]) < 0 ∨ 32 ≤ (esc ++ [x]).length then { s with esc := [] }
        else { s with esc := esc ++ [x] } := by
  subst hesc
  rw [inputByte, if_pos (by simpa using hne), escByte, if_pos hlen]
  rfl

/-- A byte in the middle of a sequence. -/
theorem inputByte_more (lay : Layout) (now : Int) {s : Ui} {esc : Bytes} {x : UInt8}
    (hesc : s.esc = esc) (hne : esc ≠ []) (hmore : seqDone (esc ++ [x]) = 0)
    (hlen : (esc ++ [x]).length < 32) :
    (s.inputByte lay x now).1 = { s with esc := esc ++ [x] } := by
  rw [inputByte_esc lay now hesc hne (by rw [List.length_append] at hlen; omega), hmore,
    if_neg (by decide),
    if_neg (by omega)]

/-- The last byte of a sequence that a paste begins with. -/
theorem inputByte_begins (lay : Layout) (now : Int) {s : Ui} {esc : Bytes} {x : UInt8}
    (hesc : s.esc = esc) (hne : esc ≠ []) (hdone : seqDone (esc ++ [x]) = (esc ++ [x]).length)
    (hlen : esc.length < 32) (hkey : seqKey (esc ++ [x]) = .pasteBegin) :
    (s.inputByte lay x now).1 = { s with esc := [], pasting := true } := by
  have hpos : 0 < seqDone (esc ++ [x]) := by
    rw [hdone, List.length_append, List.length_singleton]
    omega
  rw [inputByte_esc lay now hesc hne hlen, if_pos hpos, hdone, Int.toNat_natCast,
    List.take_length, feedSeq, hkey]

/-- In the middle of a sequence. -/
def midSeq (s : Ui) (now : Int) (esc : Bytes) : Ui := { s with esc, escMs := now }

/-- A byte that leaves the sequence unfinished takes the session one byte on. -/
theorem inputBytes_midSeq (lay : Layout) (now : Int) {s : Ui} (hopen : s.closing = false)
    {esc : Bytes} {x : UInt8} (hne : esc ≠ []) (hmore : seqDone (esc ++ [x]) = 0)
    (hlen : (esc ++ [x]).length < 32) (more : Bytes) :
    inputBytes lay now (midSeq s now esc) (x :: more) = inputBytes lay now
      (midSeq s now (esc ++ [x])) more := by
  have hbyte : ((midSeq s now esc).inputByte lay x now).1 = midSeq s now (esc ++ [x]) :=
    inputByte_more lay now rfl hne hmore hlen
  rw [inputBytes_cons lay now _ x more (by rw [hbyte]; exact hopen), hbyte]

/-- The sequence a paste begins with, byte by byte, leaves a session in the paste. -/
theorem inputBytes_pasteBegin (lay : Layout) (now : Int) {s : Ui} (hesc : s.esc = [])
    (hutf8 : s.utf8 = []) (hopen : s.closing = false) (rest : Bytes) :
    inputBytes lay now s (pasteBegin ++ rest) = inputBytes lay now
      { s with escMs := now, pasting := true } rest := by
  have hfirst : (s.inputByte lay 0x1B now).1 = midSeq s now [0x1B] := by
    rw [inputByte, if_neg (by simp [hesc]), if_neg (by simp [hutf8]), if_pos rfl]
    rfl
  have hlast : ((midSeq s now [0x1B, 0x5B, 0x32, 0x30, 0x30]).inputByte lay 0x7E now).1
      = { s with esc := [], escMs := now, pasting := true } :=
    @inputByte_begins lay now (midSeq s now [0x1B, 0x5B, 0x32, 0x30, 0x30])
      [0x1B, 0x5B, 0x32, 0x30, 0x30] 0x7E rfl (List.cons_ne_nil _ _) (by decide)
      (by decide) (by decide)
  calc inputBytes lay now s (pasteBegin ++ rest)
      = inputBytes lay now (midSeq s now [0x1B])
        (0x5B :: 0x32 :: 0x30 :: 0x30 :: 0x7E :: rest) := by
        rw [← hfirst]
        exact inputBytes_cons lay now s 0x1B _ (by rw [hfirst]; exact hopen)
    _ = inputBytes lay now (midSeq s now [0x1B, 0x5B]) (0x32 :: 0x30 :: 0x30 :: 0x7E :: rest) :=
        inputBytes_midSeq lay now hopen (List.cons_ne_nil _ _) (by decide) (by decide) _
    _ = inputBytes lay now (midSeq s now [0x1B, 0x5B, 0x32]) (0x30 :: 0x30 :: 0x7E :: rest) :=
        inputBytes_midSeq lay now hopen (List.cons_ne_nil _ _) (by decide) (by decide) _
    _ = inputBytes lay now (midSeq s now [0x1B, 0x5B, 0x32, 0x30]) (0x30 :: 0x7E :: rest) :=
        inputBytes_midSeq lay now hopen (List.cons_ne_nil _ _) (by decide) (by decide) _
    _ = inputBytes lay now (midSeq s now [0x1B, 0x5B, 0x32, 0x30, 0x30]) (0x7E :: rest) :=
        inputBytes_midSeq lay now hopen (List.cons_ne_nil _ _) (by decide) (by decide) _
    _ = inputBytes lay now { s with escMs := now, pasting := true } rest := by
        rw [inputBytes_cons lay now _ 0x7E rest (by rw [hlast]; exact hopen), hlast, ← hesc]

/-- Pasted as text, from the sequence a paste begins with to the one it ends with. -/
structure PastedAsText (lay : Layout) (s : Ui) (text : Bytes) (now : Int) : Prop where
  inside : ∀ p, p <+: text ++ pasteEnd → p ≠ text ++ pasteEnd →
    TextOnly s (s.typeBytes lay (pasteBegin ++ p) now)
      ∧ (s.typeBytes lay (pasteBegin ++ p) now).pasting = true
  outside : TextOnly s (s.typeBytes lay (pasteBegin ++ (text ++ pasteEnd)) now)
    ∧ (s.typeBytes lay (pasteBegin ++ (text ++ pasteEnd)) now).pasting = false

/-- A paste is taken as text if it is once its begin mark has been read. -/
theorem pastedAsText_iff (lay : Layout) {s : Ui} (hesc : s.esc = []) (hutf8 : s.utf8 = [])
    (hopen : s.closing = false) (text : Bytes) (now : Int) : PastedAsText lay s text now
      ↔ PastedFrom lay now s { s with lastInputMs := now, nowMs := now, escMs := now,
                                      pasting := true } (text ++ pasteEnd) := by
  have hbegin (rest : Bytes) : s.typeBytes lay (pasteBegin ++ rest) now
      = inputBytes lay now { s with lastInputMs := now, nowMs := now, escMs := now,
                                    pasting := true } rest :=
    inputBytes_pasteBegin lay now (s := { s with lastInputMs := now, nowMs := now }) hesc
      hutf8 hopen rest
  constructor
  · intro h
    refine ⟨fun p hp hne => ?_, ?_⟩
    · rw [← hbegin]
      exact h.inside p hp hne
    · rw [← hbegin]
      exact h.outside
  · intro h
    refine ⟨fun p hp hne => ?_, ?_⟩
    · rw [hbegin]
      exact h.inside p hp hne
    · rw [hbegin]
      exact h.outside

/-- Pasted text is text in every session of a mode exactly where `pastes` reads it as such. -/
theorem pasted_iff (lay : Layout) (lineMode : Bool) (text : Bytes) :
    (∀ (s : Ui) (now : Int), s.lineMode = lineMode → s.esc = [] → s.utf8 = [] →
    s.closing = false →
      PastedAsText lay s text now) ↔ pastes lineMode {} (text ++ pasteEnd) = true := by
  have hall (v : Console.View) : v ∈ ({} : Scan).shown := by cases v <;> decide
  constructor
  · intro h
    by_contra hnot
    let s (v : Console.View) : Ui := { lineMode, confirming := .yn, view := v }
    have hr : ∀ v ∈ ({} : Scan).shown,
        Ready lineMode (s v) {} { s v with lastInputMs := 0, nowMs := 0, escMs := 0,
                                           pasting := true } :=
      fun v _ => ⟨⟨⟨[], rfl, fun _ hc => (nomatch hc)⟩, rfl⟩, rfl, rfl, rfl, rfl, hall v⟩
    have hopen (v : Console.View) : (s v).closing = false := rfl
    obtain ⟨v, -, hfails⟩ := not_pastedFrom lay 0 (List.cons_ne_nil _ _) hopen hr
      (fun _ _ => ⟨nofun, rfl, rfl, rfl, rfl⟩) rfl (Bool.not_eq_true _ ▸ hnot)
    exact hfails ((pastedAsText_iff lay rfl rfl rfl text 0).mp (h (s v) 0 rfl rfl rfl rfl))
  · intro h s now hmode hesc hutf8 hopen
    rw [pastedAsText_iff lay hesc hutf8 hopen]
    refine pastedFrom_of_pastes lay now hopen
      ⟨⟨⟨[], (List.append_nil _).symm, fun _ hc => (nomatch hc)⟩, rfl⟩, hesc, hutf8, rfl,
      hmode, hall _⟩ h

/-- A session in line mode with a command typed at the prompt. -/
def typedAhead : Ui := { lineMode := true, input := b "bot list", inCur := 8 }

/-- A layout that shows nothing. -/
def noLayout : Layout := ⟨fun _ _ _ _ => [], fun _ _ _ => [], fun _ ls => ls, fun _ => []⟩

/-- Pasted `ESC O M` is Enter: what is typed runs, and its request goes to the core. A pasted text
that ends in the middle of a character leaves the session in the paste. -/
theorem paste_runs :
    ((typedAhead.typeBytes noLayout (pasteBegin ++ ([0x1B, 0x4F, 0x4D] ++ pasteEnd)) 0).trace.any
    fun c =>
        decide (c.what = .request 1 .user cmdAdminListFull [])) = true
      ∧ (typedAhead.typeBytes noLayout (pasteBegin ++ ([0xC3] ++ pasteEnd)) 0).pasting
        = true := by
  decide +kernel

end IrcHub.Proofs
