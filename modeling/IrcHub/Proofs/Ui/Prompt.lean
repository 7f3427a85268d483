import IrcHub.Proofs.Ui.Runs
import Mathlib.Data.List.DropRight

/-!
# `IrcHub.Proofs.Ui.Prompt`: what stands after the last line end

Lines end where they end: a session that writes whole lines leaves what follows the last line end,
or nothing. A command, an answer and the lines typed ahead write whole lines, and leave at most
one request in flight.

* `lineTail`, `lineTail_append`: what follows the last line end, and how it grows
* `Prints.tail`, `Breaks.tail`: what whole lines leave of it
* `Leads`: what a command or an answer leads to in line mode
* `startLine_leads`, `answer_leads`, `drain_leads`: a line, an answer, and all that was typed
  ahead

`Prints` allows nothing to be written and `Breaks` asks for a line. The difference decides whether
the prompt that stood there is still the last thing on the terminal.
-/

set_option autoImplicit false

namespace IrcHub.Proofs

open IrcHub.Console
open IrcHub.Console.Ui
open Terminal (Bytes)

/-! ### After the last line end -/

/-- Everything the session wrote to the terminal. -/
def output (s : Ui) : Bytes := (s.trace.map (·.bytes)).flatten

/-- What follows the last carriage return or line feed. -/
def lineTail (bytes : Bytes) : Bytes := bytes.rtakeWhile fun x => x ≠ 0x0D && x ≠ 0x0A

/-- Text without a line end comes after what stands there. -/
theorem lineTail_append {t : Bytes} (ht : ∀ x ∈ t, x ≠ 0x0D ∧ x ≠ 0x0A) (bytes : Bytes) :
    lineTail (bytes ++ t) = lineTail bytes ++ t := by
  induction t using List.reverseRecOn generalizing bytes with
  | nil => rw [List.append_nil, List.append_nil]
  | append_singleton t x ih =>
    have hx := ht x (by simp)
    rw [← List.append_assoc, ← List.append_assoc, lineTail,
      List.rtakeWhile_concat_pos _ _ _ (by simpa using hx)]
    exact congrArg (· ++ [x]) (ih (fun y hy => ht y (List.mem_append_left _ hy)) bytes)

/-- After a line end nothing stands there. -/
theorem lineTail_end {x : UInt8} (hx : x = 0x0D ∨ x = 0x0A) (bytes : Bytes) :
    lineTail (bytes ++ [x]) = [] := by
  rw [lineTail, List.rtakeWhile_concat_neg]
  rcases hx with rfl | rfl <;> decide

/-- After a whole line nothing stands there. -/
theorem lineTail_line {t : Bytes} (ht : IsLine t) (bytes : Bytes) :
    lineTail (bytes ++ t) = [] := by
  obtain ⟨t, rfl⟩ := ht
  have hsplit : bytes ++ (t ++ crlf) = bytes ++ t ++ [0x0D] ++ [0x0A] := by
    rw [crlf]
    simp
  rw [hsplit, lineTail_end (.inr rfl)]

/-- A chunk of whole lines. -/
def Whole (c : Chunk) : Prop := c.bytes = [] ∨ IsLine c.bytes

/-- Whole lines leave what follows the last line end, or nothing. -/
theorem lineTail_chunks {cs : List Chunk} (hcs : ∀ c ∈ cs, Whole c) (bytes : Bytes) :
    (lineTail (bytes ++ (cs.map (·.bytes)).flatten) = lineTail bytes ∧ ∀ c ∈ cs, c.bytes = [])
      ∨ lineTail (bytes ++ (cs.map (·.bytes)).flatten) = [] := by
  induction cs generalizing bytes with
  | nil => exact .inl ⟨by rw [List.map_nil, List.flatten_nil, List.append_nil], fun _ hc =>
      (nomatch hc)⟩
  | cons c cs ih =>
    rw [List.map_cons, List.flatten_cons, ← List.append_assoc]
    have hrest := ih (fun d hd => hcs d (.tail _ hd)) (bytes ++ c.bytes)
    rcases hcs c (.head _) with hempty | hline
    · rw [hempty, List.append_nil] at hrest ⊢
      refine hrest.imp_left fun h => ⟨h.1, fun d hd => ?_⟩
      rcases List.mem_cons.mp hd with rfl | hd
      · exact hempty
      · exact h.2 d hd
    · rw [lineTail_line hline bytes] at hrest
      exact .inr (hrest.elim (·.1) id)

/-- Whole lines were written. -/
def Prints (s s' : Ui) : Prop := ∃ cs, s'.trace = s.trace ++ cs ∧ ∀ c ∈ cs, Whole c

/-- A line was written. -/
def Breaks (s s' : Ui) : Prop := ∃ cs, s'.trace = s.trace ++ cs ∧ (∀ c ∈ cs, Whole c)
    ∧ ∃ c ∈ cs, c.bytes ≠ []

/-- What was written is what its chunks hold. -/
theorem output_append {s s' : Ui} {cs : List Chunk} (h : s'.trace = s.trace ++ cs) :
    output s' = output s ++ (cs.map (·.bytes)).flatten := by
  rw [output, h, List.map_append, List.flatten_append]
  rfl

/-- One chunk more. -/
theorem output_one {s s' : Ui} (c : Chunk) (h : s'.trace = s.trace ++ [c]) :
    output s' = output s ++ c.bytes := by
  rw [output_append h, List.map_singleton, List.flatten_singleton]

/-- After whole lines the line stands as it was, or nothing does. -/
theorem Prints.tail {s s' : Ui} (h : Prints s s') : lineTail (output s') = lineTail (output s)
    ∨ lineTail (output s') = [] := by
  obtain ⟨cs, hcs, hwhole⟩ := h
  rw [output_append hcs]
  exact (lineTail_chunks hwhole _).imp_left (·.1)

/-- After a line was ended nothing stands there. -/
theorem Breaks.tail {s s' : Ui} (h : Breaks s s') : lineTail (output s') = [] := by
  obtain ⟨cs, hcs, hwhole, c, hc, hne⟩ := h
  rw [output_append hcs]
  exact (lineTail_chunks hwhole _).resolve_left fun hall => hne (hall.2 c hc)

/-- Nothing was written. -/
theorem Prints.refl (s : Ui) : Prints s s :=
  ⟨[], (List.append_nil _).symm, fun _ hc => (nomatch hc)⟩

/-- Whole lines after whole lines. -/
theorem Prints.trans {s t u : Ui} (h : Prints s t) (h' : Prints t u) : Prints s u := by
  obtain ⟨cs, hcs, hwhole⟩ := h
  obtain ⟨ds, hds, hwhole'⟩ := h'
  refine ⟨cs ++ ds, by rw [hds, hcs, List.append_assoc], fun c hc => ?_⟩
  rcases List.mem_append.mp hc with hleft | hright
  · exact hwhole c hleft
  · exact hwhole' c hright

/-- A line that was ended is a whole one. -/
theorem Breaks.prints {s s' : Ui} (h : Breaks s s') : Prints s s' := by
  obtain ⟨cs, hcs, hwhole, -⟩ := h
  exact ⟨cs, hcs, hwhole⟩

/-- Whole lines and then one more: the last end counts. -/
theorem Breaks.after {s t u : Ui} (h : Prints s t) (h' : Breaks t u) : Breaks s u := by
  obtain ⟨cs, hcs, hwhole⟩ := h
  obtain ⟨ds, hds, hwhole', c, hc, hne⟩ := h'
  refine ⟨cs ++ ds, by rw [hds, hcs, List.append_assoc], fun c hc => ?_, c,
    List.mem_append_right _ hc, hne⟩
  rcases List.mem_append.mp hc with hleft | hright
  · exact hwhole c hleft
  · exact hwhole' c hright

/-- A marker without bytes writes nothing. -/
theorem prints_mark (s : Ui) (what : What) : Prints s (s.mark what) :=
  ⟨[_], rfl, fun _ hc => .inl (by rw [List.mem_singleton.mp hc])⟩

/-- A line has at least its end. -/
theorem IsLine.ne_nil {t : Bytes} (h : IsLine t) : t ≠ [] := by
  obtain ⟨t, rfl⟩ := h
  exact List.append_ne_nil_of_right_ne_nil _ (List.cons_ne_nil _ _)

/-- Lines of text are whole lines. -/
theorem Says.prints {s s' : Ui} (h : Says s s') : Prints s s' := by
  obtain ⟨cs, hcs, hlines⟩ := h.said
  exact ⟨cs, hcs, fun c hc => .inr (hlines c hc).2⟩

/-- In line mode the end of a command is a line. -/
theorem Ends.breaks {n : Nat} {s s' : Ui} (h : Ends n s s') (hmode : s.lineMode = true) :
    Breaks s s' := by
  obtain ⟨cs, m, hcs, hasides, hm⟩ := h.said
  rw [IsMarker, if_pos hmode] at hm
  obtain ⟨ok, bytes, raw, rfl, hline⟩ := hm
  refine ⟨cs ++ [⟨.marker n ok, bytes, raw⟩], by rw [hcs, List.append_assoc], fun c hc => ?_, _,
    List.mem_append_right _ (.head _), hline.ne_nil⟩
  rcases List.mem_append.mp hc with hleft | hright
  · rcases hasides c hleft with ⟨-, htext⟩ | ⟨p, -, hempty⟩
    · exact .inr htext
    · exact .inl hempty
  · rw [List.mem_singleton.mp hright]
    exact .inr hline

/-! ### What a line leads to -/

/-- At most one request is in flight, and the session is busy exactly with it. -/
def Flight (s : Ui) : Prop :=
  (s.userBusy = true ∧ ∃ rq, s.rq = [rq] ∧ (rq.kind = .user ∨ rq.kind = .pre))
  ∨ (s.userBusy = false ∧ s.rq = [])

/-- What is staged is a command's own entry. -/
def Kinds (s : Ui) : Prop := s.confirmRq.kind = .user ∧ s.pend.rq.kind = .user

/-- What a command or an answer leads to in line mode: whole lines, at most one request in flight,
and of the lines that waited the last ones. -/
structure Leads (s s' : Ui) : Prop where
  frame : frame s' = frame s
  queued : s'.queued <:+ s.queued
  closing : s.closing = true → s'.closing = true
  prints : Prints s s'
  flight : Flight s'
  kinds : Kinds s'
  asks : s'.userBusy = true → s'.confirming = .none
  broke : s'.queued ≠ s.queued → s'.userBusy = false → Breaks s s'

/-- Nothing is in flight while the session is not busy. -/
theorem Flight.idle {s : Ui} (h : Flight s) (hbusy : s.userBusy = false) : s.rq = [] := by
  rcases h with ⟨hbusy', -⟩ | ⟨-, hrq⟩
  · rw [hbusy] at hbusy'
    exact nomatch hbusy'
  · exact hrq

/-- A command that starts where nothing is in flight and nothing was asked. The cases are those of
`Ran`. -/
theorem Ran.leads {lay : Layout} {s s' : Ui} {line : Bytes} (h : Ran lay s line s')
    (hmode : s.lineMode = true) (hbusy : s.userBusy = false) (hrq : s.rq = [])
    (hnone : s.confirming = .none) (hkinds : Kinds s) :
    frame s' = frame s ∧ (s.closing = true → s'.closing = true) ∧ Prints s s'
      ∧ Flight s' ∧ Kinds s'
      ∧ (s'.userBusy = true → s'.confirming = .none) ∧ (s'.userBusy = false → Breaks s s') := by
  cases h with
  -- the command ended at once: what it printed breaks the line
  | ended h =>
    have hb := bare_congr Ui.userBusy (fun _ => rfl) h.rest
    have hr := bare_congr Ui.rq (fun _ => rfl) h.rest
    have hc := bare_congr Ui.confirmRq (fun _ => rfl) h.rest
    have hp := bare_congr Ui.pend (fun _ => rfl) h.rest
    have hbreaks := h.breaks hmode
    exact ⟨frame_of_bare h.rest, h.closing, hbreaks.prints, .inr ⟨hb.trans hbusy, hr.trans hrq⟩,
      ⟨by rw [hc]; exact hkinds.1, by rw [hp]; exact hkinds.2⟩, fun hbusy' =>
       (nomatch (hb.trans hbusy).symm.trans hbusy'),
      fun _ => hbreaks⟩
  -- the queue of requests is not full, for it is empty
  | full pc hfull h =>
    rw [hrq] at hfull
    exact absurd hfull (by decide)
  -- a request went out: it is the only one in flight
  | sent words hline hbuilt hconfirm hroom =>
    refine ⟨rfl, id, prints_mark s _, .inl ⟨rfl, _, by rw [hrq]; rfl, .inl rfl⟩, hkinds, fun _ =>
      hnone, fun hfree => nomatch hfree⟩
  -- a read goes before it: that is the request in flight
  | @read c ws argi bt pc op payload words hline hbuilt hconfirm hread hroom =>
    have hpend : pc.rq.kind = .user := by
      have := preRead_rq c (ws.args argi) bt ⟨.user, s.seq, words, bt.mode⟩
      rw [hread] at this
      rw [this]
    refine ⟨rfl, id, ⟨[_], rfl, fun _ hc => .inl (by rw [List.mem_singleton.mp hc])⟩,
      .inl ⟨rfl, _, by rw [hrq]; rfl, .inr rfl⟩, ⟨hkinds.1, hpend⟩, fun _ => hnone, fun hfree =>
        nomatch hfree⟩
  -- a question was asked: the line it takes is the break
  | @asked c ws argi bt t words kind want q hline hbuilt hconfirm hkind hlines =>
    have hb := bare_congr Ui.userBusy (fun _ => rfl) hlines.sets.rest
    have hr := bare_congr Ui.rq (fun _ => rfl) hlines.sets.rest
    have hc := bare_congr Ui.confirmRq (fun _ => rfl) hlines.sets.rest
    have hp := bare_congr Ui.pend (fun _ => rfl) hlines.sets.rest
    have hm := bare_lineMode hlines.sets.rest
    have hask : t.askConfirm kind want q = lmLineOf
      { t with confirming := kind, confirmWant := cCut want 128 }
        (.asked t.confirmSeq kind (cCut want 128) q)
        (cCut (b "[confirm #" ++ num t.confirmSeq ++ b "] " ++ q) consoleInputMax) := by
      unfold askConfirm
      exact if_pos (hm.trans hmode)
    have hbreaks : Breaks t (t.askConfirm kind want q) := by
      rw [hask]
      refine ⟨[_], rfl, fun _ hc => ?_, _, .head _,
        List.append_ne_nil_of_right_ne_nil _ (List.cons_ne_nil _ _)⟩
      rw [List.mem_singleton.mp hc]
      exact .inr ⟨_, rfl⟩
    have hbreaks' := hbreaks.after hlines.prints
    rw [hask] at hbreaks' ⊢
    have hbusy' : t.userBusy = false := hb.trans hbusy
    refine ⟨hlines.frame, fun hclosing => ?_, hbreaks'.prints, .inr ⟨hbusy', hr.trans hrq⟩,
      ⟨?_, ?_⟩, fun hbusy'' => ?_, fun _ => hbreaks'⟩
    · exact hlines.sets.closing hclosing
    · show t.confirmRq.kind = .user
      rw [hc]
      rfl
    · show t.pend.rq.kind = .user
      rw [hp]
      exact hkinds.2
    · exact nomatch hbusy'.symm.trans hbusy''

/-- A line under its number. -/
theorem startLine_leads (lay : Layout) {s : Ui} (line : Bytes) (hmode : s.lineMode = true)
    (hbusy : s.userBusy = false) (hrq : s.rq = []) (hnone : s.confirming = .none)
    (hkinds : Kinds s) :
    frame (s.startLine lay line) = frame s
      ∧ (s.closing = true → (s.startLine lay line).closing = true)
      ∧ Prints s (s.startLine lay line) ∧ Flight (s.startLine lay line)
      ∧ Kinds (s.startLine lay line)
      ∧ ((s.startLine lay line).userBusy = true → (s.startLine lay line).confirming = .none)
      ∧ ((s.startLine lay line).userBusy = false → Breaks s (s.startLine lay line)) := by
  have hmark : Prints s (({ s with seq := s.seq + 1, ncmds := s.ncmds + 1 } : Ui).mark
      (.started (s.seq + 1) line s.rateStartMs s.nowMs)) :=
    ⟨[_], rfl, fun _ hc => .inl (by rw [List.mem_singleton.mp hc])⟩
  obtain ⟨hframe, hclosing, hprints, hflight, hkinds', hasks, hbroke⟩ :=
    (ran_startLine lay s line).leads hmode hbusy hrq hnone hkinds
  exact ⟨hframe, hclosing, hmark.trans hprints, hflight, hkinds', hasks, fun hfree =>
    (hbroke hfree).after hmark⟩

/-- A line typed ahead that gets its turn: the line is shown first, so something was written. -/
theorem runQueued_leads (lay : Layout) {s0 s : Ui} {next : Bytes} {rest : List Bytes}
    (hmode : s0.lineMode = true) (hahead : ∀ line ∈ s0.queued, line.dropWhile isBlank ≠ [])
    (h : Leads s0 s) (hbusy : s.userBusy = false) (hqueued : s.queued = next :: rest)
    (hnone : s.confirming = .none) :
    Leads s0 (runQueued lay { s with queued := rest } next) := by
  have hmem : next ∈ s0.queued := h.queued.subset (by rw [hqueued]; exact .head _)
  have hmode' : s.lineMode = true := (frame_congr Ui.lineMode (fun _ => rfl) h.frame).trans hmode
  have hlen : (runQueued lay { s with queued := rest } next).queued = rest :=
    runQueued_queued lay _ next
  obtain ⟨start, used, hrate⟩ := rateTake_same { s with queued := rest }
  have hrun : runQueued lay { s with queued := rest } next
      = ({ s with queued := rest, rateStartMs := start, rateUsed := used } : Ui).startLine lay
        (next.dropWhile isBlank) := by
    unfold runQueued
    simp only
    rw [if_neg (by simpa using hahead next hmem), hrate]
  obtain ⟨hframe, hclosing, hprints, hflight, hkinds', hasks, hbroke⟩ :=
    startLine_leads lay (s := { s with queued := rest, rateStartMs := start, rateUsed := used })
      (next.dropWhile isBlank) hmode' hbusy (h.flight.idle hbusy) hnone h.kinds
  rw [hrun] at hlen ⊢
  exact {
    frame := hframe.trans h.frame
    queued := by
      rw [hlen]
      exact (List.suffix_cons next rest).trans (hqueued ▸ h.queued)
    closing := fun hc => hclosing (h.closing hc)
    prints := h.prints.trans hprints
    flight := hflight
    kinds := hkinds'
    asks := hasks
    broke := fun _ hfree => (hbroke hfree).after h.prints }

/-- The end of a question. -/
theorem Ends.answered {s t : Ui} {what : What} {n : Nat}
    (h : Ends n { s.mark what with confirming := .none } t) (hmode : s.lineMode = true) :
    frame t = frame s ∧ (s.closing = true → t.closing = true) ∧ Breaks s t ∧ t.rq = s.rq
      ∧ t.confirmRq = s.confirmRq ∧ t.pend = s.pend ∧ t.confirming = .none
      ∧ t.queued = s.queued := by
  have hb := (h.breaks hmode).after (s := s)
    ⟨[_], rfl, fun _ hc => .inl (by rw [List.mem_singleton.mp hc])⟩
  have hr := bare_congr Ui.rq (fun _ => rfl) h.rest
  have hc := bare_congr Ui.confirmRq (fun _ => rfl) h.rest
  have hp := bare_congr Ui.pend (fun _ => rfl) h.rest
  have hn := bare_congr Ui.confirming (fun _ => rfl) h.rest
  have hq := bare_congr Ui.queued (fun _ => rfl) h.rest
  have hf := frame_of_bare h.rest
  exact ⟨hf, h.closing, hb, hr, hc, hp, hn, hq⟩

/-- What an answer leads to: the request it was about, or the end of that command. -/
theorem AnswerRan.leads {lay : Layout} {s s' : Ui} {answer : Bytes} {queued : Bool}
    (h : AnswerRan lay s answer queued s') (hmode : s.lineMode = true) (hrq : s.rq = [])
    (hkinds : Kinds s) :
    frame s' = frame s ∧ (s.closing = true → s'.closing = true) ∧ Prints s s' ∧ Flight s'
      ∧ Kinds s' ∧ s'.confirming = .none
      ∧ (s'.userBusy = false → Breaks s s') := by
  cases h with
  | yes =>
    refine ⟨rfl, id, ?_, .inl ⟨rfl, s.confirmRq, by rw [hrq]; rfl, .inl hkinds.1⟩, hkinds, rfl,
      fun hfree => nomatch hfree⟩
    refine ⟨[_, _], (List.append_assoc _ _ _), fun c hc => .inl ?_⟩
    rcases List.mem_cons.mp hc with rfl | hc
    · rfl
    · rw [List.mem_singleton.mp hc]
  | full _ hfull h =>
    rw [hrq] at hfull
    exact absurd hfull (by decide)
  | no _ h =>
    obtain ⟨hframe, hclosing, hbreaks, hr, hc, hp, hn, -⟩ := Ends.answered (s := s) h hmode
    exact ⟨hframe, hclosing, hbreaks.prints, .inr ⟨rfl, hr.trans hrq⟩,
      ⟨by rw [hc]; exact hkinds.1, by rw [hp]; exact hkinds.2⟩,
      hn, fun _ => hbreaks⟩

/-- A line typed ahead that answers. -/
theorem answer_leads (lay : Layout) {s0 s : Ui} {next : Bytes} {rest : List Bytes}
    (hmode : s0.lineMode = true) (h : Leads s0 s) (hbusy : s.userBusy = false)
    (hqueued : s.queued = next :: rest) :
    Leads s0 (confirmAnswer lay clear { s with queued := rest } next true) := by
  have hmode' : s.lineMode = true := (frame_congr Ui.lineMode (fun _ => rfl) h.frame).trans hmode
  have hanswers := answers_confirmAnswer lay { s with queued := rest } next true
  have hlen := hanswers.queued
  obtain ⟨hframe, hclosing, hprints, hflight, hkinds', hnone, hbroke⟩ :=
    hanswers.leads hmode' (h.flight.idle hbusy) h.kinds
  exact {
    frame := hframe.trans h.frame
    queued := by
      rw [hlen]
      exact (List.suffix_cons next rest).trans (hqueued ▸ h.queued)
    closing := fun hc => hclosing (h.closing hc)
    prints := h.prints.trans hprints
    flight := hflight
    kinds := hkinds'
    asks := fun _ => hnone
    broke := fun _ hfree => (hbroke hfree).after h.prints }

/-- The lines typed ahead, by the induction rule of a drain. -/
theorem drain_leads (lay : Layout) {s : Ui} (n : Nat) (hmode : s.lineMode = true)
    (hahead : ∀ line ∈ s.queued, line.dropWhile isBlank ≠ []) (hbusy : s.userBusy = false)
    (hrq : s.rq = []) (hkinds : Kinds s) : Leads s (drain lay n s) := by
  have hstart : Leads s s := {
    frame := rfl
    queued := List.suffix_refl _
    closing := id
    prints := .refl s
    flight := .inr ⟨hbusy, hrq⟩
    kinds := hkinds
    asks := fun h => (nomatch hbusy.symm.trans h)
    broke := fun hne _ => absurd rfl hne }
  have hdrains : Drains lay (Leads s) :=
    ⟨fun t next rest h hb _ hq hn _ => runQueued_leads lay hmode hahead h hb hq hn,
      fun t next rest h hb _ hq _ => answer_leads lay hmode h hb hq⟩
  exact drain_induct hdrains n s hstart

end IrcHub.Proofs
