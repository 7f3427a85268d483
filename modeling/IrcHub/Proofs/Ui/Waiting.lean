import IrcHub.Lib.Table
import IrcHub.Proofs.Ui.Held
import IrcHub.Proofs.Ui.Paste
import IrcHub.Proofs.Ui.Prompt
import IrcHub.Proofs.Ui.Typed

/-!
# `IrcHub.Proofs.Ui.Waiting`: the prompt of a session that waits

In line mode the prompt and the input stand after the last line end exactly while the session
waits for a line. Two things break this: a blank Enter during a command writes a prompt over it,
and a release of held lines that ends in a question writes none.

* `LineInv`: what holds of a session in line mode between two events
* `Prompted`: the session is closing, or keeps its invariant and its prompt
* one lemma for each thing that can happen: `coreFrameIn_prompted`, `onEnter_prompted`,
  `cancelInput_prompted`, `tick_prompted`, `inputBytes_prompted`
* `step_prompted`: one event, under `Clears`
* `prompt_of_run`: the prompt in every run whose events meet `Clears` where they come
* `prompt_lost`: what happens otherwise

The invariant is split in two, because in the middle of an event the flight and the question need
not be in order while the rest is (`LineBase`). A line that answers is read the same way whether
it was typed just now or had waited, so the lemmas about answers serve both.
-/

set_option autoImplicit false

namespace IrcHub.Proofs

open IrcHub.Console
open IrcHub.Console.Ui
open Terminal (Bytes)

/-! ### The invariant -/

/-- No command is in flight, and no line waits. -/
def Waiting (s : Ui) : Prop := s.userBusy = false ∧ s.queued = []

instance (s : Ui) : Decidable (Waiting s) := inferInstanceAs (Decidable (_ ∧ _))

/-- The prompt that is owed. -/
def prompt (s : Ui) : Bytes := if s.confirming ≠ .none then b "? " else b "> "

/-- The prompt and the input stand after the last line end exactly while the session waits. While
it does not, what stands there is at most an end of the input, and no prompt. -/
def PromptOk (s : Ui) : Prop :=
  if Waiting s then lineTail (output s) = prompt s ++ s.input else lineTail (output s) <:+ s.input

/-- What holds of a session in line mode at every moment: the cursor is at the end of the input,
the input has no line end, blocks that are held back are whole lines, and no line that waits is
blank. -/
structure LineBase (s : Ui) : Prop where
  mode : s.lineMode = true
  started : s.started = true
  plain : s.searching = false ∧ s.esc = [] ∧ s.pasting = false
  cursor : s.inCur = s.input.length
  typed : ∀ x ∈ s.input, x ≠ 0x0D ∧ x ≠ 0x0A
  held : ∀ block ∈ s.held, block = [] ∨ IsLine block
  ahead : ∀ line ∈ s.queued, line.dropWhile isBlank ≠ []
  kinds : Kinds s

/-- What holds of it between two events: at most one request is in flight, and a question is only
asked of a session that waits. -/
structure LineInv (s : Ui) : Prop extends LineBase s where
  flight : Flight s
  asking : s.confirming ≠ .none → Waiting s

/-- The parts of a session that `LineBase` reads, but for the lines that wait and what is
staged. -/
def typing (s : Ui) : Bool × Bool × Bool × Bytes × Bool × Nat × Bytes × List Bytes :=
  (s.lineMode, s.started, s.searching, s.esc, s.pasting, s.inCur, s.input, s.held)

/-- The invariant reads what is typed, the lines that wait and what is staged. A step that leaves
the first alone has only the other two to show. -/
theorem LineBase.congr {s s' : Ui} (h : LineBase s) (htyping : typing s' = typing s)
    (hahead : ∀ line ∈ s'.queued, line.dropWhile isBlank ≠ []) (hkinds : Kinds s') :
    LineBase s' := by
  simp only [typing, Prod.mk.injEq] at htyping
  obtain ⟨hmode, hstarted, hsearch, hesc, hpaste, hcur, hinput, hheld⟩ := htyping
  exact {
    mode := hmode.trans h.mode
    started := hstarted.trans h.started
    plain := ⟨hsearch.trans h.plain.1, hesc.trans h.plain.2.1, hpaste.trans h.plain.2.2⟩
    cursor := by rw [hcur, hinput]; exact h.cursor
    typed := by rw [hinput]; exact h.typed
    held := by rw [hheld]; exact h.held
    ahead := hahead
    kinds := hkinds }

/-- The session is closing, or keeps its invariant and its prompt. -/
def Prompted (s : Ui) : Prop := s.closing = true ∨ (LineInv s ∧ PromptOk s)

/-! ### Prompts -/

/-- A prompt has no line end in it. -/
theorem prompt_clean (s : Ui) : ∀ x ∈ prompt s, x ≠ 0x0D ∧ x ≠ 0x0A := by
  unfold prompt
  split
  · decide +kernel
  · decide +kernel

/-- A prompt over an empty line stands there with the input behind it. The line has to be empty,
as the prompt starts no line of its own. -/
theorem lmPrompt_tail {s : Ui} (h : LineBase s) (htail : lineTail (output s) = []) :
    lineTail (output s.lmPrompt) = prompt s ++ s.input := by
  have hout : output s.lmPrompt = output s ++ (prompt s ++ s.input) :=
    output_one ⟨.text, prompt s ++ s.input, s.raw⟩ rfl
  rw [hout, lineTail_append, htail, List.nil_append]
  intro x hx
  rcases List.mem_append.mp hx with hprompt | hinput
  · exact prompt_clean s x hprompt
  · exact h.typed x hinput

/-- A prompt over an empty line. -/
theorem LineInv.prompt {s : Ui} (h : LineInv s) (hwaits : Waiting s)
    (htail : lineTail (output s) = []) :
    Prompted s.lmPrompt := by
  have hinv : LineInv s.lmPrompt := ⟨h.toLineBase.congr rfl h.ahead h.kinds, h.flight, h.asking⟩
  refine .inr ⟨hinv, ?_⟩
  have hwaits' : Waiting s.lmPrompt := hwaits
  unfold PromptOk
  rw [if_pos hwaits']
  exact lmPrompt_tail h.toLineBase htail

/-- A session that does not wait owes no prompt, and an empty line is a start of any input. -/
theorem LineInv.empty {s : Ui} (h : LineInv s) (hwaits : ¬Waiting s)
    (htail : lineTail (output s) = []) : Prompted s := by
  refine .inr ⟨h, ?_⟩
  unfold PromptOk
  rw [if_neg hwaits, htail]
  exact List.nil_suffix

/-- The blocks that were held back are written one after the other. Nothing but the trace and the
count of what stands on the terminal changes. -/
theorem flushHeld_foldl (blocks : List Bytes) (s : Ui) : ∃ cs : List Chunk, ∃ len : Nat,
    blocks.foldl (fun s block => s.emit (.event block) block) s
      = { s with trace := s.trace ++ cs, termLen := len }
      ∧ ∀ c ∈ cs, c.bytes ∈ blocks := by
  induction blocks generalizing s with
  | nil => exact ⟨[], s.termLen, by rw [List.append_nil]; rfl, fun _ hc => (nomatch hc)⟩
  | cons block blocks ih =>
    obtain ⟨cs, len, heq, hcs⟩ := ih (s.emit (.event block) block)
    refine ⟨⟨.event block, block, s.raw⟩ :: cs, len, ?_, fun c hc => ?_⟩
    · rw [List.foldl_cons, heq]
      show _ = { s with trace := _, termLen := _ }
      rw [← List.singleton_append, ← List.append_assoc]
      rfl
    · rcases List.mem_cons.mp hc with rfl | hc
      · exact .head _
      · exact .tail _ (hcs c hc)

/-- The event lines that were held leave an empty line empty. -/
theorem LineInv.flushed {s : Ui} (h : LineInv s) (htail : lineTail (output s) = []) :
    LineInv s.flushHeld ∧ lineTail (output s.flushHeld) = [] ∧ (Waiting s → Waiting s.flushHeld)
      ∧ s.flushHeld.closing = s.closing := by
  obtain ⟨cs, len, heq, hcs⟩ := flushHeld_foldl s.held { s with held := [] }
  have hflush : s.flushHeld = { s with held := [], trace := s.trace ++ cs, termLen := len } := heq
  have hprints : Prints s s.flushHeld :=
    ⟨cs, by rw [hflush], fun c hc => h.held c.bytes (hcs c hc)⟩
  refine ⟨?_, hprints.tail.elim (·.trans htail) id, ?_, by rw [hflush]⟩
  · rw [hflush]
    exact {
      mode := h.mode
      started := h.started
      plain := h.plain
      cursor := h.cursor
      typed := h.typed
      held := fun _ hblock => (nomatch hblock)
      ahead := h.ahead
      kinds := h.kinds
      flight := h.flight
      asking := h.asking }
  · rw [hflush]
    exact id

/-- The prompt that is owed after a line, once it is empty. -/
theorem LineInv.owed {s : Ui} (h : LineInv s) (hwaits : Waiting s)
    (htail : lineTail (output s) = []) :
    Prompted (if s.confirming = .none then s.flushHeld else s).lmPrompt := by
  split
  · obtain ⟨hinv, htail', hwaits', -⟩ := h.flushed htail
    exact hinv.prompt (hwaits' hwaits) htail'
  · exact h.prompt hwaits htail

/-! ### The end of a command -/

/-- Everything of a session that its prompt depends on. -/
def lineView (s : Ui) : (Bool × Bool × Bool × Bytes × Bool × Nat × Bytes × List Bytes)
    × List Chunk × List Bytes × Bool × List PendingRq × Confirm × PendingRq × PendCmd × Bool :=
  (typing s, s.trace, s.queued, s.userBusy, s.rq, s.confirming, s.confirmRq, s.pend, s.closing)

/-- A step that leaves the frame keeps the invariant, if the lines that wait are some of the last
ones that did. -/
theorem LineBase.of_frame {s s' : Ui} (h : LineBase s) (hframe : frame s' = frame s)
    (hqueued : s'.queued <:+ s.queued) (hkinds : Kinds s') : LineBase s' :=
  h.congr (frame_congr typing (fun _ => rfl) hframe)
    (fun line hline => h.ahead line (hqueued.subset hline)) hkinds

/-- The lines typed ahead leave a session that waits, or that something is in flight for. -/
theorem drain_inv (lay : Layout) {s : Ui} (h : LineBase s) (hbusy : s.userBusy = false)
    (hrq : s.rq = []) {n : Nat} (hn : s.queued.length ≤ n) : (drain lay n s).closing = true
    ∨ LineInv (drain lay n s) := by
  have hleads := drain_leads lay n h.mode h.ahead hbusy hrq h.kinds
  have hstops := drain_stops lay n s hn
  generalize drain lay n s = t at hleads hstops ⊢
  rcases Bool.eq_false_or_eq_true t.closing with hclosing | hopen
  · exact .inl hclosing
  refine .inr ⟨h.of_frame hleads.frame hleads.queued hleads.kinds, hleads.flight, fun hasks => ?_⟩
  have hfree : t.userBusy = false := Bool.not_eq_true _ ▸ fun hbusy' => hasks (hleads.asks hbusy')
  rcases hstops with hbusy' | hclosing | hqueued | ⟨hnone, -⟩
  · exact absurd (hfree.symm.trans hbusy') (by decide)
  · exact absurd (hopen.symm.trans hclosing) (by decide)
  · exact ⟨hfree, hqueued⟩
  · exact absurd hnone hasks

/-- A command the core's answer ended: the lines that waited are let go, and then the prompt is
owed. -/
theorem commandDone_prompted (lay : Layout) {s : Ui} (h : LineBase s) (hrq : s.rq = [])
    (htail : lineTail (output s) = []) :
    Prompted (commandDone lay s true) := by
  have hbase : LineBase { s with userBusy := false } := h.congr rfl h.ahead h.kinds
  have hinv := drain_inv lay hbase rfl hrq (Nat.le_refl _)
  have hleads := drain_leads lay s.queued.length hbase.mode hbase.ahead rfl hrq hbase.kinds
  have htail' : lineTail (output (drain lay s.queued.length { s with userBusy := false })) = [] :=
    hleads.prints.tail.elim (·.trans htail) id
  unfold commandDone
  simp only
  generalize drain lay s.queued.length { s with userBusy := false } = t at hinv htail' ⊢
  rcases hinv with hclosing | hinv
  · rw [if_neg (by simp [hclosing])]
    exact .inl hclosing
  split
  · rename_i hwaits
    simp only [Bool.and_eq_true, Bool.not_eq_true', List.isEmpty_iff] at hwaits
    exact hinv.owed ⟨hwaits.1.1.2, hwaits.1.2⟩ htail'
  · rename_i hwaits
    rcases Bool.eq_false_or_eq_true t.closing with hclosing | hopen
    · exact .inl hclosing
    · exact hinv.empty (fun hw => hwaits (by simp [hinv.mode, hw.1, hw.2, hopen])) htail'

/-- Enter is done. -/
theorem LineInv.afterEnter {s : Ui} (h : LineInv s) (htail : lineTail (output s) = []) :
    Prompted s.afterEnter := by
  unfold Ui.afterEnter
  split
  · rename_i hwaits
    simp only [Bool.and_eq_true, Bool.not_eq_true', List.isEmpty_iff] at hwaits
    exact h.owed ⟨hwaits.1.2, hwaits.2⟩ htail
  · rename_i hwaits
    rcases Bool.eq_false_or_eq_true s.closing with hclosing | hopen
    · exact .inl hclosing
    · exact h.empty (fun hw => hwaits (by simp [h.mode, hw.1, hw.2, hopen])) htail

/-! ### Replies -/

/-- A session after lines, an answer, or the end of a command, with its line empty. -/
structure Ended (s t : Ui) : Prop where
  base : LineBase t
  rq : t.rq = s.rq
  tail : lineTail (output t) = []

/-- Lines of text keep it. -/
theorem Says.base {s t : Ui} (h : Says s t) (hbase : LineBase s) : LineBase t := by
  rw [h.same]
  exact hbase.congr rfl hbase.ahead hbase.kinds

/-- A command that ends leaves the line ended, and what is in flight. -/
theorem Ends.ended {n : Nat} {s t : Ui} (h : Ends n s t) (hbase : LineBase s) : Ended s t := by
  have hrq := bare_congr Ui.rq (fun _ => rfl) h.rest
  have hconfirm := bare_congr Ui.confirmRq (fun _ => rfl) h.rest
  have hpend := bare_congr Ui.pend (fun _ => rfl) h.rest
  have hqueued := bare_congr Ui.queued (fun _ => rfl) h.rest
  exact {
    base := hbase.of_frame (frame_of_bare h.rest) (hqueued ▸ List.suffix_refl _)
      ⟨by rw [hconfirm]; exact hbase.kinds.1, by rw [hpend]; exact hbase.kinds.2⟩
    rq := hrq
    tail := (h.breaks hbase.mode).tail }

/-- So does a question. -/
theorem askConfirm_ended {s : Ui} (hbase : LineBase s) (kind : Confirm) (want q : Bytes) :
    Ended s (s.askConfirm kind want q) := by
  have hmode : ({ s with confirming := kind, confirmWant := cCut want 128 } : Ui).lineMode
    = true := hbase.mode
  unfold askConfirm
  simp only
  rw [if_pos hmode]
  exact {
    base := hbase.congr rfl hbase.ahead hbase.kinds
    rq := rfl
    tail := by
      rw [output_one (s := s) _ rfl]
      exact lineTail_line ⟨_, rfl⟩ _ }

/-- After the end of a command the next line runs or the prompt comes. Nothing else may be in
flight: `hrq`. -/
theorem Ended.prompted (lay : Layout) {s t : Ui} (h : Ended s t) (hrq : s.rq = []) :
    Prompted (commandDone lay t true) :=
  commandDone_prompted lay h.base (h.rq.trans hrq) h.tail

/-- The reply to a command, which was the only thing in flight. -/
theorem userReply_prompted (lay : Layout) {s : Ui} (h : LineBase s) (hrq : s.rq = [])
    (rq : PendingRq) (text : Bytes) :
    Prompted (s.userReply lay rq text) := by
  have hlines := says_showReply lay s text rq.words rq.mode
  have hrq' : (s.showReply lay text rq.words rq.mode).rq = [] := by
    rw [hlines.same]
    exact hrq
  unfold userReply
  extract_lets rep t u
  have hended : Ended t u := by
    show Ended t (if rep.err then _ else _)
    split
    · exact (ends_markerErr t rq.seq _ _).ended (hlines.base h)
    · exact (ends_markerOk t rq.seq _).ended (hlines.base h)
  exact hended.prompted lay hrq'

/-- The reply to what was read before a command: the command goes on, asks, or ends with it. -/
theorem preReply_prompted (lay : Layout) {s : Ui} (h : LineBase s) (hrq : s.rq = [])
    (rq : PendingRq) (text : Bytes) :
    Prompted (s.preReply lay rq text) := by
  have hmark : LineBase (s.mark (.readBack rq.seq text)) := h.congr rfl h.ahead h.kinds
  unfold preReply
  extract_lets rep t u pc v w
  split
  · have hlines := says_showReply lay t text rq.words .normal
    have hrq' : u.rq = [] := by
      show (t.showReply lay text rq.words .normal).rq = []
      rw [hlines.same]
      exact hrq
    exact ((ends_markerErr u rq.seq _ _).ended (hlines.base hmark)).prompted lay hrq'
  · have hv : LineBase v := hmark.congr rfl hmark.ahead ⟨hmark.kinds.2, hmark.kinds.2⟩
    have hrqv : v.rq = [] := hrq
    clear_value v
    cases preVerdict v.ctx pc rep with
    | fail code msg hint =>
        exact ((ends_refuseHub lay v rq.seq code msg hint).ended hv).prompted lay hrqv
    | ask kind want q =>
      have hlines : Says v w := by
        show Says v (if pc.pre = .peerDel then v.showReply lay text rq.words .normal
          else if pc.pre = .upgStart && !v.raw then emitFlines lay v (lay.plan v pc rep) else v)
        split
        · exact says_showReply lay v text rq.words .normal
        · split
          · exact says_emitFlines lay v _
          · exact .refl v
      have hrq' : w.rq = [] := by
        rw [hlines.same]
        exact hrqv
      exact (askConfirm_ended (hlines.base hv) kind want _).prompted lay hrq'

/-- A reply, to the one request that is in flight. -/
theorem onReply_prompted (lay : Layout) {s : Ui} (h : Prompted s) (hopen : s.closing = false)
    (text : Bytes) :
    Prompted (s.onReply lay text) := by
  rcases h with hclosing | ⟨hinv, hok⟩
  · exact absurd (hopen.symm.trans hclosing) (by decide)
  unfold onReply
  rcases hinv.flight with ⟨hbusy, rq, hrq, hkind⟩ | ⟨hfree, hrq⟩
  · rw [hrq]
    have hbase : LineBase { s with rq := [] } := hinv.toLineBase.congr rfl hinv.ahead hinv.kinds
    rcases hkind with hkind | hkind
    · simp only [hkind]
      exact userReply_prompted lay hbase rfl rq text
    · simp only [hkind]
      exact preReply_prompted lay hbase rfl rq text
  · rw [hrq]
    exact .inr ⟨hinv, hok⟩

/-! ### Events -/

/-- The prompt is owed to what a session shows, so sessions that show the same owe the same. -/
theorem Prompted.congr {s s' : Ui} (h : Prompted s) (hview : lineView s' = lineView s) :
    Prompted s' := by
  have htyping : typing s' = typing s := congrArg Prod.fst hview
  have htrace : s'.trace = s.trace := congrArg (·.2.1) hview
  have hqueued : s'.queued = s.queued := congrArg (·.2.2.1) hview
  have hbusy : s'.userBusy = s.userBusy := congrArg (·.2.2.2.1) hview
  have hrq : s'.rq = s.rq := congrArg (·.2.2.2.2.1) hview
  have hconfirming : s'.confirming = s.confirming := congrArg (·.2.2.2.2.2.1) hview
  have hconfirm : s'.confirmRq = s.confirmRq := congrArg (·.2.2.2.2.2.2.1) hview
  have hpend : s'.pend = s.pend := congrArg (·.2.2.2.2.2.2.2.1) hview
  have hclosing : s'.closing = s.closing := congrArg (·.2.2.2.2.2.2.2.2) hview
  have hinput : s'.input = s.input := congrArg (·.2.2.2.2.2.2.1) htyping
  rcases h with hclosing' | ⟨hinv, hok⟩
  · exact .inl (hclosing.trans hclosing')
  · have hkinds : Kinds s' :=
      ⟨by rw [hconfirm]; exact hinv.kinds.1, by rw [hpend]; exact hinv.kinds.2⟩
    have hwaits : Waiting s' ↔ Waiting s := by rw [Waiting, Waiting, hbusy, hqueued]
    refine .inr ⟨⟨hinv.toLineBase.congr htyping (by rw [hqueued]; exact hinv.ahead) hkinds, ?_,
      fun hasks => ?_⟩, ?_⟩
    · unfold Flight
      rw [hbusy, hrq]
      exact hinv.flight
    · rw [hconfirming] at hasks
      exact hwaits.mpr (hinv.asking hasks)
    · unfold PromptOk output prompt at hok ⊢
      rw [htrace, hconfirming, hinput]
      simpa only [hwaits] using hok

/-- What an event writes is a whole line, or nothing. -/
theorem eventBlock_line (text : Bytes) : eventBlock text = [] ∨ IsLine (eventBlock text) := by
  unfold eventBlock
  extract_lets lines
  generalize (if lines.getLast? = some [] then lines.dropLast else lines) = ls
  rcases List.eq_nil_or_concat ls with rfl | ⟨ls, l, rfl⟩
  · exact .inl rfl
  · refine .inr ⟨(ls.map (· ++ crlf)).flatten ++ l, ?_⟩
    rw [List.concat_eq_append, List.map_append, List.flatten_append, List.map_singleton,
      List.flatten_singleton, List.append_assoc]

/-- Whatever arrives stands over the prompt, or waits. Over a prompt it is written as whole lines
from the first column, and the prompt is written again. -/
theorem lmAsync_prompted {s : Ui} (h : Prompted s) (text : Bytes) :
    Prompted (s.lmAsync text) := by
  unfold lmAsync
  split
  · exact h.congr rfl
  extract_lets block t
  have ht : Prompted t := by
    rcases h with hclosing | ⟨hinv, hok⟩
    · exact .inl hclosing
    · have hout : output t = output s :=
        (output_one (s := s) ⟨.arrived block, [], s.raw⟩ rfl).trans (List.append_nil _)
      refine .inr ⟨⟨hinv.toLineBase.congr rfl hinv.ahead hinv.kinds, hinv.flight, hinv.asking⟩,
        ?_⟩
      unfold PromptOk at hok ⊢
      rw [hout]
      exact hok
  have hblock : block = [] ∨ IsLine block := eventBlock_line _
  split
  · rename_i hpending
    rcases ht with hclosing | ⟨hinv, hok⟩
    · exact .inl hclosing
    · refine .inr ⟨⟨⟨hinv.mode, hinv.started, hinv.plain, hinv.cursor, hinv.typed, fun x hx => ?_,
        hinv.ahead, hinv.kinds⟩, hinv.flight, hinv.asking⟩, hok⟩
      rcases List.mem_append.mp hx with hx | hx
      · exact hinv.held x hx
      · rw [List.mem_singleton.mp hx]
        exact hblock
  · rename_i hpending
    rcases ht with hclosing | ⟨hinv, hok⟩
    · exact .inl hclosing
    · simp only [linePending, Bool.or_eq_true, Bool.not_eq_true', decide_eq_true_eq, not_or,
        Bool.not_eq_true, List.isEmpty_eq_false_iff, not_not] at hpending
      obtain ⟨⟨hbusy, hnone⟩, hqueued⟩ := hpending
      have hinv' : LineInv (t.emit (.event block) (0x0D :: block)) :=
        ⟨hinv.toLineBase.congr rfl hinv.ahead hinv.kinds, hinv.flight, hinv.asking⟩
      refine hinv'.prompt ⟨hbusy, hqueued⟩ ?_
      rw [output_one (s := t) _ rfl]
      rcases hblock with hnil | hline
      · rw [hnil]
        exact lineTail_end (.inl rfl) _
      · obtain ⟨l, hl⟩ := hline
        exact lineTail_line ⟨0x0D :: l, by rw [hl]; rfl⟩ _

/-- An event in words: it is written over the line and the prompt comes back, or it is held back
while a command is in flight. -/
theorem humanEvent_prompted {s : Ui} (h : Prompted s) (text : Bytes) :
    Prompted (s.humanEvent text) := by
  unfold humanEvent
  split
  · exact lmAsync_prompted h text
  · exact h

/-- An event about the hub. -/
theorem statusEvent_prompted {s : Ui} (h : Prompted s) (data : Bytes) :
    Prompted (s.statusEvent data) := by
  unfold statusEvent
  extract_lets clean t u
  have ht : Prompted t := h.congr rfl
  have hu : Prompted u := by
    show Prompted (if t.lineMode then _ else t)
    split
    · exact lmAsync_prompted ht _
    · exact ht
  unfold greetStatus
  extract_lets v dot l1
  have hv : Prompted v := hu.congr rfl
  split
  · exact hu
  · split
    · exact hv
    · exact lmAsync_prompted (lmAsync_prompted hv _) _

/-- An event about the mesh. -/
theorem treeEvent_prompted {s : Ui} (h : Prompted s) (data : Bytes) :
    Prompted (s.treeEvent data) := by
  have hfold (lines : List Bytes) (t : Ui) (ht : Prompted t) :
    Prompted (lines.foldl humanEvent t) := by
    induction lines generalizing t with
    | nil => exact ht
    | cons l lines ih => exact ih _ (humanEvent_prompted ht l)
  unfold treeEvent
  extract_lets rows tree t u
  have ht : Prompted t := by
    show Prompted (if s.lineMode then _ else s)
    split
    · exact lmAsync_prompted h _
    · exact h
  have hu : Prompted u := by
    unfold u
    cases t.tree with
    | some old =>
      show Prompted (if t.humanEvents then (treeEvents t.ctx old tree).foldl humanEvent t else t)
      split
      · exact hfold _ t ht
      · exact ht
    | none => exact ht
  exact hu.congr rfl

/-- An upgrade event reads no view in line mode. -/
theorem upgEvent_prompted {s : Ui} (h : Prompted s) (hmode : s.lineMode = true) (data : Bytes)
    (now : Int) :
    Prompted (s.upgEvent data now) := by
  unfold upgEvent
  extract_lets clean t u
  have ht : Prompted t := by
    show Prompted (if s.lineMode then _ else _)
    rw [if_pos hmode]
    exact lmAsync_prompted h _
  have hu : Prompted u := by
    show Prompted (if t.humanEvents && clean ≠ t.lastUpg && !clean.isEmpty then _ else t)
    split
    · exact humanEvent_prompted ht _
    · exact ht
  exact hu.congr rfl

/-- A line of the log. -/
theorem logEvent_prompted {s : Ui} (h : Prompted s) (data : Bytes) :
    Prompted (s.logEvent data) := by
  unfold logEvent
  extract_lets level clean word head
  split
  · exact h
  · split
    · exact h
    · exact lmAsync_prompted h _

/-- A frame from the core. The cases are its opcodes. -/
theorem coreFrameIn_prompted (lay : Layout) {s : Ui} (h : Prompted s) (hmode : s.lineMode = true)
    (hopen : s.closing = false) (op : UInt8) (payload : Bytes) (now nowS : Int) :
    Prompted (s.coreFrameIn lay op payload now nowS) := by
  unfold coreFrameIn
  extract_lets t
  have ht : Prompted t := h.congr rfl
  split
  · exact onReply_prompted lay ht hopen payload
  · split
    · unfold onEvent
      extract_lets topic data
      split
      · exact ht
      split
      · exact ht.congr rfl
      split
      · exact statusEvent_prompted ht _
      split
      · exact treeEvent_prompted ht _
      split
      · exact upgEvent_prompted ht hmode _ _
      split
      · exact logEvent_prompted ht _
      split
      · exact ht.congr rfl
      · exact ht
    · exact ht

/-! ### Typed characters -/

/-- A character goes after what is typed, and is shown behind it. -/
theorem inInsert_prompted {s : Ui} (h : LineInv s) (hok : PromptOk s) {bytes : Bytes}
    (hbytes : ∀ x ∈ bytes, x ≠ 0x0D ∧ x ≠ 0x0A) :
    Prompted (s.inInsert bytes) := by
  unfold inInsert
  split
  · exact .inr ⟨h, hok⟩
  extract_lets t
  have hinput : t.input = s.input ++ bytes := by
    show s.input.take s.inCur ++ bytes ++ s.input.drop s.inCur = _
    rw [h.cursor, List.take_length, List.drop_length, List.append_nil]
  rw [if_pos h.mode]
  have hout : output (t.emit .text bytes) = output s ++ bytes := by
    rw [output_one (s := s) _ rfl]
  have hinput' : (t.emit .text bytes).input = s.input ++ bytes := hinput
  refine .inr ⟨⟨⟨h.mode, h.started, h.plain, ?_, ?_, h.held, h.ahead, h.kinds⟩, h.flight,
    h.asking⟩, ?_⟩
  · rw [hinput', List.length_append]
    show s.inCur + bytes.length = _
    rw [h.cursor]
  · rw [hinput']
    intro x hx
    exact (List.mem_append.mp hx).elim (h.typed x) (hbytes x)
  · have hwaits : Waiting (t.emit .text bytes) ↔ Waiting s := Iff.rfl
    have hprompt : prompt (t.emit .text bytes) = prompt s := rfl
    unfold PromptOk at hok ⊢
    rw [hout, lineTail_append hbytes, hinput', hprompt]
    by_cases hw : Waiting s
    · rw [if_pos hw] at hok
      rw [if_pos (hwaits.mpr hw), hok, List.append_assoc]
    · rw [if_neg hw] at hok
      rw [if_neg (mt hwaits.mp hw)]
      obtain ⟨before, hbefore⟩ := hok
      exact ⟨before, by rw [← hbefore, List.append_assoc]⟩

/-! ### Enter and Ctrl-C -/

/-- An answer from the prompt, where no line waits. -/
theorem confirmAnswer_idle (lay : Layout) {s : Ui} (hqueued : s.queued = []) (answer : Bytes)
    (queued : Bool) :
    confirmAnswer lay (commandDone lay · false) s answer queued = confirmAnswer lay clear s answer
      queued := by
  have hanswer := answers_confirmAnswer lay s answer queued
  have hlen := hanswer.queued
  rw [confirmAnswer_done] at hlen ⊢
  rw [confirmAnswer_done lay clear]
  split
  · rfl
  · rename_i hno
    rw [if_neg hno] at hlen
    exact commandDone_idle lay (hlen.trans hqueued)

/-- A line without anything on it: the session after Enter, before the line is looked at. -/
def Emptied (s t : Ui) : Prop := LineInv t ∧ lineTail (output t) = [] ∧ t.queued = s.queued
    ∧ t.userBusy = s.userBusy
  ∧ t.confirming = s.confirming ∧ t.closing = s.closing

/-- The input was taken, and its line ended. -/
theorem emptied_of_line {s t : Ui} (h : LineInv s)
    (htyping : (t.lineMode, t.started, t.searching, t.esc, t.pasting, t.held)
      = (s.lineMode, s.started, s.searching, s.esc, s.pasting, s.held)) (hinput : t.input = [])
        (hcur : t.inCur = 0)
    {l : Bytes} (hl : IsLine l) (hout : output t = output s ++ l)
    (hrest : (t.queued, t.userBusy, t.rq, t.confirming,
      t.confirmRq, t.pend, t.closing) = (s.queued, s.userBusy, s.rq, s.confirming, s.confirmRq,
        s.pend, s.closing)) :
    Emptied s t := by
  simp only [Prod.mk.injEq] at htyping hrest
  obtain ⟨hmode, hstarted, hsearch, hesc, hpaste, hheld⟩ := htyping
  obtain ⟨hqueued, hbusy, hrq, hconfirming, hconfirm, hpend, hclosing⟩ := hrest
  refine ⟨⟨⟨hmode.trans h.mode, hstarted.trans h.started,
    ⟨hsearch.trans h.plain.1, hesc.trans h.plain.2.1, hpaste.trans h.plain.2.2⟩, by
     rw [hcur, hinput]; rfl,
    by rw [hinput]; exact fun _ hx => (nomatch hx), by rw [hheld]; exact h.held, by
      rw [hqueued]; exact h.ahead,
    ⟨by rw [hconfirm]; exact h.kinds.1, by rw [hpend]; exact h.kinds.2⟩⟩, ?_, fun hasks => ?_⟩,
     ?_, hqueued, hbusy, hconfirming,
    hclosing⟩
  · unfold Flight
    rw [hbusy, hrq]
    exact h.flight
  · rw [hconfirming] at hasks
    unfold Waiting
    rw [hbusy, hqueued]
    exact h.asking hasks
  · rw [hout]
    exact lineTail_line hl _

/-- What an answer at the prompt leaves. -/
theorem answer_inv (lay : Layout) {s : Ui} (h : LineInv s) (hwaits : Waiting s)
    (htail : lineTail (output s) = []) (answer : Bytes) :
    LineInv (confirmAnswer lay clear s answer false)
      ∧ lineTail (output (confirmAnswer lay clear s answer false)) = [] := by
  have hanswer := answers_confirmAnswer lay s answer false
  have hqueued := hanswer.queued
  obtain ⟨hframe, -, hprints, hflight, hkinds, hnone, -⟩ :=
    hanswer.leads h.mode (h.flight.idle hwaits.1) h.kinds
  generalize confirmAnswer lay clear s answer false = t at *
  exact ⟨⟨h.toLineBase.of_frame hframe (hqueued ▸ List.suffix_refl _) hkinds, hflight,
    fun hasks => absurd hnone hasks⟩, hprints.tail.elim (·.trans htail) id⟩

/-- A line that waits is put behind the others. It is not blank (`hline`), and it is no answer,
since no question is asked (`hnone`). Nothing is written unless there are too many, and then a
whole line, so an empty line stays empty. -/
theorem holdLine_inv {s : Ui} (h : LineInv s) (hnone : s.confirming = .none)
    (htail : lineTail (output s) = []) {line : Bytes} (hline : line.dropWhile isBlank ≠ []) :
    LineInv (s.holdLine line) ∧ lineTail (output (s.holdLine line)) = [] := by
  unfold holdLine
  split
  · have hout : output { s.mark (.typed line) with queued := s.queued ++ [line] } = output s := by
      exact (output_one ⟨.typed line, [], s.raw⟩ rfl).trans (List.append_nil _)
    refine ⟨⟨h.toLineBase.congr rfl (fun l hl => ?_) h.kinds, h.flight, fun hasks =>
      absurd hnone hasks⟩, by rw [hout]; exact htail⟩
    rcases List.mem_append.mp hl with hl | hl
    · exact h.ahead l hl
    · rw [List.mem_singleton.mp hl]
      exact hline
  · have hlines := says_note s (b "busy: line dropped")
    have htail' := hlines.prints.tail.elim (·.trans htail) id
    generalize s.note (b "busy: line dropped") = t at hlines htail' ⊢
    refine ⟨?_, htail'⟩
    rw [hlines.same]
    exact ⟨h.toLineBase.congr rfl h.ahead h.kinds, h.flight, h.asking⟩

/-- A line from the prompt: it runs at once, or waits where a command is in flight, another line
waits or the command rate says so. -/
theorem runLine_inv (lay : Layout) {s : Ui} (h : LineInv s) (hnone : s.confirming = .none)
    (htail : lineTail (output s) = []) (line : Bytes) : LineInv (s.runLine lay line)
    ∧ lineTail (output (s.runLine lay line)) = [] := by
  unfold runLine
  extract_lets words
  split
  -- an empty line
  · exact ⟨h, htail⟩
  rename_i hwords
  have hline : words.dropWhile isBlank ≠ [] := by
    show (line.dropWhile isBlank).dropWhile isBlank ≠ []
    rw [List.dropWhile_idempotent]
    exact fun hnil => hwords (List.isEmpty_iff.mpr hnil)
  split
  -- something is pending: the line waits
  · exact holdLine_inv h hnone htail hline
  rename_i hidle
  simp only [linePending, Bool.or_eq_true, Bool.not_eq_true', decide_eq_true_eq, not_or,
    Bool.not_eq_true, List.isEmpty_eq_false_iff, not_not] at hidle
  -- the rate is asked, which changes nothing else
  obtain ⟨start, used, hrate⟩ := rateTake_same s
  have hinv : LineInv s.rateTake.1 := by
    rw [hrate]
    exact ⟨h.toLineBase.congr rfl h.ahead h.kinds, h.flight, h.asking⟩
  have htail' : lineTail (output s.rateTake.1) = [] := by
    rw [hrate]
    exact htail
  have hnone' : s.rateTake.1.confirming = .none := by
    rw [hrate]
    exact hnone
  have hbusy : s.rateTake.1.userBusy = false := by
    rw [hrate]
    exact hidle.1.1
  split
  rename_i t ok heq
  have ht : t = s.rateTake.1 := by rw [heq]
  rw [← ht] at hinv htail' hnone' hbusy
  split
  -- it lets the line through, and the command starts
  · have hmark : Prints t (t.mark (.typed words)) := prints_mark t _
    have hbase : LineInv (t.mark (.typed words)) :=
      ⟨hinv.toLineBase.congr rfl hinv.ahead hinv.kinds, hinv.flight, hinv.asking⟩
    obtain ⟨hframe, -, hprints, hflight, hkinds, hasks, -⟩ :=
      startLine_leads lay (s := t.mark (.typed words)) words hbase.mode hbusy
        (hbase.flight.idle hbusy) hnone' hbase.kinds
    have hqueued := (ran_startLine lay (t.mark (.typed words)) words).queued
    generalize (t.mark (.typed words)).startLine lay words = u at *
    have hempty : t.queued = [] := by
      rw [ht, hrate]
      exact hidle.2
    refine ⟨⟨hbase.toLineBase.of_frame hframe (hqueued ▸ List.suffix_refl _) hkinds, hflight,
      fun hasked => ?_⟩, ?_⟩
    · exact ⟨Bool.not_eq_true _ ▸ fun hbusy' => hasked (hasks hbusy'), hqueued.trans hempty⟩
    · exact (hmark.trans hprints).tail.elim (·.trans htail') id
  -- it holds the line
  · exact holdLine_inv hinv hnone' htail' hline

/-- Enter, but not on a blank line during a command. A blank line at the prompt gets the prompt
again, a line after a question answers it, and any other one runs or waits. -/
theorem onEnter_prompted (lay : Layout) {s : Ui} (h : LineInv s)
    (hblank : s.confirming = .none → s.input.all isBlank = true → Waiting s) :
    Prompted (s.onEnter lay) := by
  unfold onEnter
  extract_lets line t u
  have hu : Emptied s u := by
    have hmode : t.lineMode = true := h.mode
    have heq : u = t.emit .text crlf := if_pos hmode
    rw [heq]
    refine emptied_of_line h rfl rfl rfl ⟨[], rfl⟩ ?_ rfl
    exact output_one (s := s) ⟨.text, crlf, s.raw⟩ rfl
  have hsearch : u.searching = false := hu.1.plain.1
  obtain ⟨hinv, htail, hqueued, hbusy, hconfirming, -⟩ := hu
  clear_value u
  rw [if_neg (by rw [hsearch]; decide)]
  split
  · rename_i hasks
    have hwaits := hinv.asking hasks
    rw [confirmAnswer_idle lay hwaits.2]
    obtain ⟨hinv', htail'⟩ := answer_inv lay hinv hwaits htail line
    exact hinv'.afterEnter htail'
  rename_i hnone
  rw [not_not] at hnone
  split
  · rename_i hline
    rw [if_pos hinv.mode]
    have hwaits : Waiting s := hblank (hconfirming.symm.trans hnone) hline
    exact hinv.prompt ⟨hbusy.trans hwaits.1, hqueued.trans hwaits.2⟩ htail
  · have hhist : ∃ hist, u.histAdd line = { u with hist } := by
      unfold histAdd
      split
      · exact ⟨_, rfl⟩
      · exact ⟨_, rfl⟩
    obtain ⟨hist, hhist⟩ := hhist
    have hv : LineInv { u.histAdd line with histPos := (u.histAdd line).hist.length } := by
      rw [hhist]
      exact ⟨hinv.toLineBase.congr rfl hinv.ahead hinv.kinds, hinv.flight, hinv.asking⟩
    have hvtail : lineTail
      (output { u.histAdd line with histPos := (u.histAdd line).hist.length }) = [] := by
      rw [hhist]
      exact htail
    have hvnone : ({ u.histAdd line
      with histPos := (u.histAdd line).hist.length } : Ui).confirming = .none := by
      rw [hhist]
      exact hnone
    obtain ⟨hinv', htail'⟩ := runLine_inv lay hv hvnone hvtail line
    exact hinv'.afterEnter htail'

/-- A question that is given up: its command ends. -/
theorem confirmCancel_inv (lay : Layout) {s : Ui} (h : LineInv s) (hwaits : Waiting s) :
    LineInv (confirmCancel lay (commandDone lay · false) s)
      ∧ lineTail (output (confirmCancel lay (commandDone lay · false) s)) = []
      ∧ (confirmCancel lay (commandDone lay · false) s).confirming = .none := by
  have hends := ends_refuse lay { s.mark (.cancelled s.confirmSeq) with confirming := .none }
    s.confirmSeq "cmd.cancelled" (b "cancelled") none
  have hbase : LineBase ({ s.mark (.cancelled s.confirmSeq) with confirming := .none } : Ui) :=
    h.toLineBase.congr rfl h.ahead h.kinds
  obtain ⟨hbase', hrq, htail⟩ := hends.ended hbase
  have hqueued := (bare_queued hends.rest).trans hwaits.2
  have hnone := bare_congr Ui.confirming (fun _ => rfl) hends.rest
  have hidle := h.flight.idle hwaits.1
  have hdone : confirmCancel lay (commandDone lay · false) s = { (Ui.refuse lay
      { s.mark (.cancelled s.confirmSeq) with confirming := .none } s.confirmSeq "cmd.cancelled"
      (b "cancelled") none) with
      confirmPayload := [], userBusy := false } := commandDone_idle lay hqueued
  rw [hdone]
  generalize Ui.refuse lay _ s.confirmSeq "cmd.cancelled" (b "cancelled") none = t at *
  exact ⟨⟨hbase'.congr rfl hbase'.ahead hbase'.kinds, .inr ⟨rfl, hrq.trans hidle⟩, fun hasks =>
    absurd hnone hasks⟩, htail, hnone⟩

/-- Ctrl-C: a question is given up, or what is typed is dropped. Either way the line ends and the
prompt is written where the session waits. -/
theorem cancelInput_prompted (lay : Layout) {s : Ui} (h : LineInv s) :
    Prompted (s.cancelInput lay) := by
  unfold cancelInput
  extract_lets t u v
  have hu : Emptied s u := by
    have heq : t = s.emit .text (b "^C" ++ crlf) := if_pos h.mode
    show Emptied s { t with input := [], inCur := 0 }
    rw [heq]
    refine emptied_of_line h rfl rfl rfl ⟨b "^C", rfl⟩ ?_ rfl
    exact output_one (s := s) ⟨.text, b "^C" ++ crlf, s.raw⟩ rfl
  obtain ⟨hinv, htail, -⟩ := hu
  have hv : LineInv v ∧ lineTail (output v) = [] ∧ v.confirming = .none := by
    show LineInv (if u.searching then _ else _)
      ∧ lineTail (output (if u.searching then _ else _)) = []
      ∧ (if u.searching then _ else _ : Ui).confirming = .none
    rw [if_neg (by rw [hinv.plain.1]; decide)]
    split
    · rename_i hasks
      exact confirmCancel_inv lay hinv (hinv.asking hasks)
    · rename_i hnone
      exact ⟨hinv, htail, not_not.mp hnone⟩
  obtain ⟨hinv', htail', hnone⟩ := hv
  clear_value v
  split
  · rename_i hidle
    simp only [linePending, Bool.and_eq_true, Bool.not_eq_true', Bool.or_eq_false_iff,
      decide_eq_false_iff_not, not_not, Bool.not_eq_false', List.isEmpty_iff] at hidle
    obtain ⟨hinv'', htail'', hwaits, -⟩ := hinv'.flushed htail'
    exact hinv''.prompt (hwaits ⟨hidle.2.1.1, hidle.2.2⟩) htail''
  · rename_i hpending
    refine hinv'.empty (fun hwaits => hpending ?_) htail'
    simp [linePending, hinv'.mode, hnone, hwaits.1, hwaits.2]

/-! ### Timers -/

/-- The lines the command rate held, where they leave no question. -/
theorem releaseHeld_prompted (lay : Layout) {s : Ui} (h : LineInv s) (hok : PromptOk s)
    (hleaves : s.queued ≠ [] → s.userBusy = false →
    leavesQuestion s.queued s.confirming s.confirmWant s = false) :
    Prompted (s.releaseHeld lay) := by
  unfold releaseHeld
  split
  -- lines are waiting, and nothing runs and nothing is asked
  · rename_i hgo
    simp only [Bool.and_eq_true, Bool.not_eq_true', List.isEmpty_eq_false_iff, decide_eq_true_eq]
      at hgo
    obtain ⟨⟨⟨⟨hqueued, hbusy⟩, hnone⟩, -⟩, -⟩ := hgo
    extract_lets before t
    have hidle := h.flight.idle hbusy
    -- the release is a drain of all the lines
    have ht : t = drain lay s.queued.length { s with userBusy := false } := by
      show commandDone lay s false = _
      unfold commandDone
      simp
    have hbase : LineBase { s with userBusy := false } := h.toLineBase.congr rfl h.ahead h.kinds
    have hinv := drain_inv lay hbase rfl hidle (Nat.le_refl _)
    have hleads := drain_leads lay s.queued.length hbase.mode hbase.ahead rfl hidle hbase.kinds
    have hquestion := drain_leaves lay s.queued.length (r := s)
      (s := { s with userBusy := false }) (Nat.le_refl _) h.ahead (fun _ => hidle) rfl
      (fun hasks => absurd hnone hasks) (hleaves hqueued hbusy)
    rw [← ht] at hinv hleads hquestion
    clear_value t
    -- it ended the session, or the session goes on
    rcases hinv with hclosing | hinv
    · rw [if_neg (by simp [hclosing])]
      exact .inl hclosing
    split
    -- the prompt is shown again after what was printed
    · rename_i hprompt
      simp only [linePending, Bool.and_eq_true, Bool.not_eq_true', Bool.or_eq_false_iff,
        decide_eq_false_iff_not, not_not, Bool.not_eq_false', List.isEmpty_iff, decide_eq_true_eq]
        at hprompt
      obtain ⟨⟨⟨-, hshorter⟩, ⟨⟨hfree, -⟩, hdrained⟩⟩, -⟩ := hprompt
      have htail := (hleads.broke (fun heq => by
        rw [heq] at hdrained
        exact hqueued hdrained) hfree).tail
      obtain ⟨hinv', htail', hwaits, -⟩ := hinv.flushed htail
      exact hinv'.prompt (hwaits ⟨hfree, hdrained⟩) htail'
    -- no prompt is due: a line waits still, a command runs, or nothing was printed
    · rename_i hprompt
      rcases hquestion with hclosing | hquestion
      · exact .inl hclosing
      by_cases hclosing : t.closing = true
      · exact .inl hclosing
      refine .inr ⟨hinv, ?_⟩
      have hwaits : ¬Waiting t := by
        intro hwaits
        -- had it come to waiting for the user, a line would have been released and a prompt been
        -- due
        refine hprompt ?_
        have hnone' : t.confirming = .none := by
          rcases hquestion with hbusy' | hnone'
          · exact absurd (hwaits.1.symm.trans hbusy') (by decide)
          · exact hnone'
        have hshorter : 0 < before := List.length_pos_iff.mpr hqueued
        simp [linePending, hinv.mode, hnone', hwaits.1, hwaits.2, hclosing, hshorter]
      have hwaits' : ¬Waiting s := fun hw => hqueued hw.2
      unfold PromptOk at hok ⊢
      rw [if_neg hwaits'] at hok
      have hinput : t.input = s.input := frame_congr Ui.input (fun _ => rfl) hleads.frame
      rw [if_neg hwaits, hinput]
      rcases hleads.prints.tail with htail | htail
      · rw [htail]
        exact hok
      · rw [htail]
        exact List.nil_suffix
  · exact .inr ⟨h, hok⟩

/-- What was dropped for want of room is told the same way. -/
theorem tellDropped_prompted {s : Ui} (h : Prompted s) : Prompted s.tellDropped := by
  unfold tellDropped
  split
  · have h' : Prompted { s with dropped := 0 } := h.congr rfl
    extract_lets n t
    split
    · exact lmAsync_prompted h' _
    · exact h'
  · exact h

/-- A tick that lets the lines go that wait, while they leave a question. A tick that closes an
idle session lets none go. -/
def QuestionLeft (s : Ui) (now nowS : Int) : Prop :=
  s.queued ≠ [] ∧ s.userBusy = false ∧ now - s.lastInputMs < s.idleS * 1000
    ∧ leavesQuestion s.queued s.confirming s.confirmWant { s with nowMs := now, nowS := nowS }
      = true

/-- A view that is asked for does not end the session. -/
theorem closing_requestView (s : Ui) (kind : Rq) (now : Int) :
    (s.requestView kind now).closing = s.closing := by
  unfold requestView
  split
  · rfl
  · extract_lets t
    split
    · rfl
    · rfl

/-- Nor do all views together. -/
theorem closing_refreshViews (s : Ui) (now : Int) : (s.refreshViews now).closing = s.closing := by
  unfold refreshViews
  extract_lets t
  have ht : t.closing = s.closing := by
    show (if s.view = .upgrades && 10000 ≤ now - s.upgAt then _ else s).closing = _
    split
    · exact closing_requestView s _ _
    · rfl
  split
  · exact (closing_requestView t _ _).trans ht
  · exact ht

/-- A tick lets lines go that the rate held. If they leave a question with no line after it, the
prompt over the question is not written, which is what `hleft` excludes. -/
theorem tick_prompted (lay : Layout) {s : Ui} (h : LineInv s) (hok : PromptOk s) {now nowS : Int}
    (hleft : ¬QuestionLeft s now nowS) : Prompted (s.tick lay now nowS) := by
  unfold tick
  rw [if_neg (by simp [h.started])]
  extract_lets t e u w
  have hu : u = t := by
    show (if !t.esc.isEmpty && 50 ≤ now - t.escMs then _ else t) = t
    rw [if_neg (by
      have hesc : t.esc = [] := h.plain.2.1
      simp [hesc])]
  have hw : w = (t.releaseHeld lay).tellDropped := by
    show (u.releaseHeld lay).tellDropped = _
    rw [hu]
  clear_value w u
  rw [hu, hw]
  split
  · exact .inl rfl
  rename_i hidle
  have hinv : LineInv t := ⟨h.toLineBase.congr rfl h.ahead h.kinds, h.flight, h.asking⟩
  have hheld : Prompted (t.releaseHeld lay) := by
    rcases Bool.eq_false_or_eq_true t.closing with hclosing | hopen
    · unfold releaseHeld
      rw [if_neg (by simp [hclosing])]
      exact .inl hclosing
    · have hsoon : now - s.lastInputMs < s.idleS * 1000 := by
        have hidle' : ¬(s.idleS * 1000 ≤ now - s.lastInputMs) := by simpa [hopen] using hidle
        omega
      exact releaseHeld_prompted lay hinv hok fun hqueued hbusy =>
        Bool.not_eq_true _ ▸ fun hleaves => hleft ⟨hqueued, hbusy, hsoon, hleaves⟩
  rcases tellDropped_prompted hheld with hclosing | hprompted
  · split
    · exact .inl hclosing
    · exact .inl ((closing_refreshViews _ _).trans hclosing)
  · rw [if_pos hprompted.1.mode]
    exact .inr hprompted

/-! ### Typed bytes -/

/-- A byte of a printable character, Enter or Ctrl-C. -/
def Typable (x : UInt8) : Prop := x = 0x0D ∨ x = 0x0A ∨ x = 0x03 ∨ (0x20 ≤ x ∧ x ≠ 0x7F)

instance (x : UInt8) : Decidable (Typable x) := inferInstanceAs (Decidable (_ ∨ _))

/-- Enter on a blank line, while a command is in flight or a line waits. A line feed right after a
carriage return is the same Enter. -/
def BlankEnter (s : Ui) (x : UInt8) : Prop :=
  s.utf8 = [] ∧ (x = 0x0D ∨ (x = 0x0A ∧ s.lastCr = false)) ∧ s.confirming = .none
    ∧ s.input.all isBlank = true ∧ ¬Waiting s

/-- Text in the line does not end the session. -/
theorem closing_inInsert (s : Ui) (bytes : Bytes) : (s.inInsert bytes).closing = s.closing := by
  unfold inInsert
  split
  · rfl
  · extract_lets t
    split
    · rfl
    · rfl

/-- In line mode with no search and no paste a character goes into the line, whichever it is. -/
theorem feedChar_line (lay : Layout) {s : Ui} (h : LineInv s) (cp : Nat) (now : Int) :
    s.feedChar lay cp now = s.inInsert (utf8Encode cp) := by
  unfold feedChar handleKey
  rw [if_pos h.mode, h.plain.2.2]
  rfl

/-- The bytes of a visible character are no line ends. -/
theorem visible_typed {c : Char} (h : Visible c) : ∀ x ∈ utf8Encode c.toNat, x ≠ 0x0D
    ∧ x ≠ 0x0A := by
  rw [utf8Encode_toNat]
  intro x hx
  have hlow := (visible_bytes h x hx).1
  exact ⟨fun heq => by rw [heq] at hlow; exact absurd hlow (by decide),
    fun heq => by rw [heq] at hlow; exact absurd hlow (by decide)⟩

/-- Nor are those of a printable ASCII character. -/
theorem ascii_typed {x : UInt8} (hlow : 0x20 ≤ x) (hhigh : x < 0x80) :
    ∀ y ∈ utf8Encode x.toNat, y ≠ 0x0D ∧ y ≠ 0x0A := by
  have hhigh' : x.toNat < 0x80 := hhigh
  have hlow' : 0x20 ≤ x.toNat := hlow
  unfold utf8Encode
  rw [if_pos hhigh']
  intro y hy
  rw [List.mem_singleton.mp hy, UInt8.ofNat_toNat]
  exact ⟨fun heq => by rw [heq] at hlow'; exact absurd hlow' (by decide),
    fun heq => by rw [heq] at hlow'; exact absurd hlow' (by decide)⟩

/-- A byte at the prompt: part of a character, a character, Enter or Ctrl-C. -/
theorem plainByte_prompted (lay : Layout) {s : Ui} (h : LineInv s) (hok : PromptOk s) {x : UInt8}
    (now : Int) (hx : Typable x) (hblank : x = 0x0D ∨ x = 0x0A → s.confirming = .none →
    s.input.all isBlank = true → Waiting s) :
    Prompted (s.plainByte lay x now) := by
  have hpaste := h.plain.2.2
  unfold plainByte
  split
  · rename_i henter
    rw [hpaste, if_neg Bool.false_ne_true]
    unfold handleKey
    rw [if_pos h.mode]
    exact onEnter_prompted lay h (hblank henter)
  rename_i henter
  rw [not_or] at henter
  rcases hx with hcr | hlf | hctrl | ⟨hlow, hdel⟩
  · exact absurd hcr henter.1
  · exact absurd hlf henter.2
  · subst hctrl
    rw [if_neg (by decide), if_neg (by decide), if_pos (by decide), hpaste,
      if_neg Bool.false_ne_true]
    unfold handleKey
    rw [if_pos h.mode]
    exact cancelInput_prompted lay h
  · have hlow' : 0x20 ≤ x.toNat := hlow
    rw [if_neg (not_or.mpr
      ⟨hdel, fun heq => by rw [heq] at hlow'; exact absurd hlow' (by decide)⟩),
      if_neg (fun heq => by rw [heq] at hlow'; exact absurd hlow' (by decide)),
        if_neg (UInt8.not_lt.mpr hlow)]
    split
    · rename_i hascii
      rw [feedChar_line lay h]
      exact inInsert_prompted h hok (ascii_typed hlow hascii)
    · have hsame : Prompted s := .inr ⟨h, hok⟩
      split
      · exact hsame.congr rfl
      · exact hsame

/-- A typed byte, and whether the bytes after it are still read. -/
theorem inputByte_prompted (lay : Layout) {s : Ui} (h : LineInv s) (hok : PromptOk s)
    (hopen : s.closing = false) {x : UInt8} (now : Int) (hx : Typable x)
    (hblank : ¬BlankEnter s x) :
    Prompted (s.inputByte lay x now).1
      ∧ ((s.inputByte lay x now).2 = false → (s.inputByte lay x now).1.closing = false) := by
  have hsame : Prompted s := .inr ⟨h, hok⟩
  unfold inputByte
  rw [if_neg (by simp [h.plain.2.1])]
  split
  · simp only [forall_const]
    rcases utf8Byte_cases lay s x now with ⟨u, hu⟩ | ⟨c, hc, hu⟩
    · rw [hu]
      exact ⟨hsame.congr rfl, hopen⟩
    · rw [hu, feedChar_line lay h]
      exact ⟨(inInsert_prompted h hok (visible_typed hc)).congr rfl,
        (closing_inInsert s _).trans hopen⟩
  rename_i hutf8
  have hutf8' : s.utf8 = [] := by simpa using hutf8
  rw [if_neg (fun heq => by rw [heq] at hx; exact absurd hx (by decide))]
  extract_lets wasCr t
  have ht : LineInv t := ⟨h.toLineBase.congr rfl h.ahead h.kinds, h.flight, h.asking⟩
  split
  · exact ⟨hsame.congr rfl, fun _ => hopen⟩
  · rename_i hcrlf
    refine ⟨plainByte_prompted lay ht hok now hx fun henter hnone hall => ?_, fun hfalse =>
      (nomatch hfalse)⟩
    by_contra hwaits
    refine hblank ⟨hutf8', henter.imp_right fun hlf => ⟨hlf, ?_⟩, hnone, hall, hwaits⟩
    exact Bool.not_eq_true _ ▸ fun hwas => hcrlf ⟨hlf, hwas⟩

/-- Typed bytes, none of them a blank Enter during a command. By induction on the bytes. -/
theorem inputBytes_prompted (lay : Layout) (now : Int) {data : Bytes} {s : Ui} (h : Prompted s)
    (hopen : s.closing = false) (hdata : ∀ x ∈ data, Typable x)
    (hblank : ∀ before x rest, data = before ++ x :: rest →
    ¬BlankEnter (inputBytes lay now s before) x) :
    Prompted (inputBytes lay now s data) := by
  induction data generalizing s with
  | nil => exact h
  | cons x rest ih =>
    rcases h with hclosing | ⟨hinv, hok⟩
    · exact absurd (hopen.symm.trans hclosing) (by decide)
    obtain ⟨hnext, hstays⟩ :=
      inputByte_prompted lay hinv hok hopen now (hdata x (.head _)) (hblank [] x rest rfl)
    rw [inputBytes]
    simp only
    split
    · exact hnext
    · rename_i hgoes
      have hopen' : (s.inputByte lay x now).1.closing = false := by
        rcases Bool.eq_false_or_eq_true (s.inputByte lay x now).2 with hstops | hstops
        · rw [hstops, Bool.true_and] at hgoes
          exact Bool.not_eq_true _ ▸ hgoes
        · exact hstays hstops
      refine ih hnext hopen' (fun y hy => hdata y (.tail _ hy)) fun before y after heq => ?_
      have := hblank (x :: before) y after (by rw [heq]; rfl)
      rwa [inputBytes_cons lay now s x before hopen'] at this

/-! ### Runs -/

/-- A session starts with its greeting and its prompt. -/
theorem start_prompted (c : Setup) (hline : c.lineMode = true) : Prompted (start c) := by
  have hnew : (new c).lineMode = c.lineMode
    ∧ typing (new c) = typing ({ lineMode := c.lineMode } : Ui)
      ∧ (new c).queued = [] ∧ (new c).userBusy = false ∧ (new c).rq = []
      ∧ (new c).confirming = .none
      ∧ (new c).confirmRq = {} ∧ (new c).pend = {} ∧ (new c).trace = [] := by
    unfold new setLimits
    simp only
    split <;> split <;> exact ⟨rfl, rfl, rfl, rfl, rfl, rfl, rfl, rfl, rfl⟩
  obtain ⟨hmode, htyping, hqueued, hbusy, hrq, hnone, hconfirm, hpend, htrace⟩ := hnew
  simp only [typing, Prod.mk.injEq] at htyping
  obtain ⟨-, -, hsearch, hesc, hpaste, hcur, hinput, hheld⟩ := htyping
  unfold start
  extract_lets t v u hub hello
  have hmode' : u.lineMode = true := hmode.trans hline
  rw [if_pos hmode']
  have hinv : LineInv (u.lmLine (cCut hello 320)) := {
    mode := hmode'
    started := rfl
    plain := ⟨hsearch, hesc, hpaste⟩
    cursor := by
      show (new c).inCur = (new c).input.length
      rw [hcur, hinput]
      rfl
    typed := by
      show ∀ x ∈ (new c).input, _
      rw [hinput]
      exact fun _ hx => (nomatch hx)
    held := by
      show ∀ x ∈ (new c).held, _
      rw [hheld]
      exact fun _ hx => (nomatch hx)
    ahead := by
      show ∀ x ∈ (new c).queued, _
      rw [hqueued]
      exact fun _ hx => (nomatch hx)
    kinds := by
      show (new c).confirmRq.kind = .user ∧ (new c).pend.rq.kind = .user
      rw [hconfirm, hpend]
      exact ⟨rfl, rfl⟩
    flight := .inr ⟨hbusy, hrq⟩
    asking := fun hasks => absurd hnone hasks }
  refine hinv.prompt ⟨hbusy, hqueued⟩ ?_
  rw [output_one (s := u) _ rfl]
  exact lineTail_line ⟨_, rfl⟩ _

/-- What a session in line mode goes through: printable characters, Enter and Ctrl-C, frames,
ticks, and its writer. -/
def LineEvent : Ev → Prop
  | .typed data _ => ∀ x ∈ data, Typable x
  | .goodbye _ => False
  | _ => True

/-- No blank line is entered during a command, and no tick leaves a question. -/
def Clears (lay : Layout) (s : Ui) : Ev → Prop
  | .typed data now =>
      ∀ before x rest, data = before ++ x :: rest → ¬BlankEnter (s.typeBytes lay before now) x
  | .tick now nowS => ¬QuestionLeft s now nowS
  | _ => True

/-- One event. It may not be the Enter on a blank line while a command is in flight, nor let lines
go that leave a question: `hclears` says so of each kind of event. -/
theorem step_prompted (lay : Layout) {s : Ui} (h : Prompted s) (hopen : s.closing = false)
    {ev : Ev} (hev : LineEvent ev) (hclears : Clears lay s ev) : Prompted (s.step lay ev) := by
  rcases h with hclosing | ⟨hinv, hok⟩
  · exact absurd (hopen.symm.trans hclosing) (by decide)
  have hsame : Prompted s := .inr ⟨hinv, hok⟩
  cases ev with
  | typed data now =>
    have hdata : ∀ x ∈ data, Typable x := hev
    exact inputBytes_prompted lay now (s := { s with lastInputMs := now, nowMs := now })
      (hsame.congr rfl) hopen hdata hclears
  | frame op payload now nowS =>
      exact coreFrameIn_prompted lay hsame hinv.mode hopen op payload now nowS
  | tick now nowS => exact tick_prompted lay hinv hok hclears
  | resize cols => exact hsame.congr rfl
  | taken backlog => exact hsame.congr rfl
  | goodbye why => exact absurd hev not_false

/-- A whole run, by induction from its end. Each event of it must be of a kind a terminal sends
and meet the condition in the state it finds. -/
theorem prompted_run (lay : Layout) (c : Setup) (hline : c.lineMode = true) (evs : List Ev)
    (hevs : ∀ before ev after, evs = before ++ ev :: after →
      (run lay c before).closing = false ∧ LineEvent ev ∧ Clears lay (run lay c before) ev) :
      Prompted (run lay c evs) := by
  induction evs using List.reverseRecOn with
  | nil => exact start_prompted c hline
  | append_singleton evs ev ih =>
    have hrun : run lay c (evs ++ [ev]) = (run lay c evs).step lay ev := by
      rw [run, List.foldl_append]
      rfl
    obtain ⟨hopen, hev, hclears⟩ := hevs evs ev [] rfl
    rw [hrun]
    refine step_prompted lay (ih fun before ev' after heq => ?_) hopen hev hclears
    exact hevs before ev' (after ++ [ev]) (by rw [heq, List.append_assoc]; rfl)

instance (s : Ui) : Decidable (PromptOk s) :=
  inferInstanceAs (Decidable (if Waiting s then lineTail (output s) = prompt s ++ s.input
    else lineTail (output s) <:+ s.input))

instance (ev : Ev) : Decidable (LineEvent ev) :=
  match ev with
  | .typed data _ => List.decidableBAll Typable data
  | .goodbye _ => isFalse id
  | .frame _ _ _ _ => isTrue trivial
  | .tick _ _ => isTrue trivial
  | .resize _ => isTrue trivial
  | .taken _ => isTrue trivial

/-- A session in line mode that takes one command in ten seconds. -/
def lineSetup : Setup := ⟨true, 80, b "ann", b "10.0.0.1", b "hub", 1800, 1, 10, b "1.0", 0⟩

instance (s : Ui) (x : UInt8) : Decidable (BlankEnter s x) := inferInstanceAs (Decidable (_ ∧ _))

instance (s : Ui) (now nowS : Int) : Decidable (QuestionLeft s now nowS) :=
  inferInstanceAs (Decidable (_ ∧ _))

instance (lay : Layout) (s : Ui) (ev : Ev) : Decidable (Clears lay s ev) :=
  match ev with
  | .typed data now => inferInstanceAs (Decidable (∀ before x rest, data = before ++ x :: rest →
      ¬BlankEnter (s.typeBytes lay before now) x))
  | .tick now nowS => inferInstanceAs (Decidable (¬QuestionLeft s now nowS))
  | .frame .. | .resize .. | .taken .. | .goodbye .. => inferInstanceAs (Decidable True)

/-- A command and its reply, an event, a blank line on the idle session, a command that waits for
the rate with a character after it, the tick that lets it go, and its reply. -/
def heldCommand : List Ev :=
  [.typed (b "bot list\r") 0, .frame consoleReply (b "bot nick=alpha\n.ok") 100 0,
    .frame cmdConsole (b "status|hub=north|bots=1") 200 0, .typed (b "\rhub list\rx") 300,
    .tick 9000 9, .tick 10000 10, .frame consoleReply (b ".ok") 10100 10]

/-- Enter on a blank line, over a command in flight. -/
def enterOverCommand : List Ev := [.typed (b "bot list\r") 0, .typed (b "\r") 0]

/-- A line that waits for the command rate, asks its question when its window opens, and is the
last one. -/
def questionHeld : List Ev :=
  [.typed (b "help\r") 0, .typed (b "acl del deny 1.2.3.4\r") 0, .tick 10000 10]

end IrcHub.Proofs
