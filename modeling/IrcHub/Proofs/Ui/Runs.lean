import IrcHub.Proofs.Ui.Says

/-!
# `IrcHub.Proofs.Ui.Runs`: what running a line comes to

A line that is run gets a number and then ends, sends a request, reads first or asks (`Ran`). The
lines typed ahead are run one after the other, until something is in flight or none is left.

* `ran_runNumbered`, `ran_startLine`: running a line does one of the things `Ran` lists
* `answers_confirmAnswer`: so does taking a line as the answer, with the cases of `AnswerRan`
* `drain_induct`: what each step of a drain keeps, the drain keeps
* `drain_stops`: a drain ends where nothing more can go on

The two outcome types carry what was checked on the way: the command of the line, the payload that
was built, the room there was. Later proofs go by cases on them and unfold no command.
-/

set_option autoImplicit false

namespace IrcHub.Proofs

open IrcHub.Console
open IrcHub.Console.Ui
open Terminal (Bytes)

/-! ### One line -/

/-- A line's command, its words, and the index of its first argument. -/
structure Commands (line : Bytes) (c : CmdDef) (ws : Words) (argi : Nat) : Prop where
  words : ws = splitLine (commandLine line)
  found : findCmd ws = some (c, argi)

/-- What a line under number `s.seq` comes to. -/
inductive Ran (lay : Layout) (s : Ui) (line : Bytes) : Ui → Prop
  /-- It ended at once. -/
  | ended {s' : Ui} (h : Ends s.seq s s') : Ran lay s line s'
  /-- Too much was in flight for its read. -/
  | full {s' : Ui} (pc : PendCmd) (hfull : maxPendingRq ≤ s.rq.length)
      (h : Ends s.seq { s with pend := pc } s') :
      Ran lay s line s'
  /-- Its request went to the core. -/
  | sent {c : CmdDef} {ws : Words} {argi : Nat} {bt : Built} (words : Bytes)
      (hline : Commands line c ws argi) (hbuilt : buildPayload c ws argi = .ok bt)
      (hconfirm : bt.confirm = .none) (hroom : s.rq.length < maxPendingRq) :
      Ran lay s line { s.mark (.request s.seq .user bt.op bt.payload) with
        rq := s.rq ++ [⟨.user, s.seq, words, bt.mode⟩], userBusy := true }
  /-- A read goes before its question. -/
  | read {c : CmdDef} {ws : Words} {argi : Nat} {bt : Built} {pc : PendCmd} {op : UInt8}
      {payload : Bytes} (words : Bytes) (hline : Commands line c ws argi)
      (hbuilt : buildPayload c ws argi = .ok bt) (hconfirm : bt.confirm ≠ .none)
      (hread : preRead c (ws.args argi) bt ⟨.user, s.seq, words, bt.mode⟩ = (pc, op, payload))
      (hroom : s.rq.length < maxPendingRq) :
      Ran lay s line { ({ s with pend := pc } : Ui).mark (.request s.seq .pre op payload) with
        rq := s.rq ++ [⟨.pre, s.seq, words, bt.mode⟩], userBusy := true }
  /-- Its question was asked. -/
  | asked {c : CmdDef} {ws : Words} {argi : Nat} {bt : Built} {t : Ui} (words : Bytes)
      (kind : Confirm) (want q : Bytes) (hline : Commands line c ws argi)
      (hbuilt : buildPayload c ws argi = .ok bt) (hconfirm : bt.confirm ≠ .none)
      (hkind : kind ≠ .none)
      (hlines : Says (s.stageConfirm s.seq bt.op bt.payload ⟨.user, s.seq, words, bt.mode⟩) t) :
      Ran lay s line (t.askConfirm kind want q)

section Line

variable {lay : Layout} {s : Ui} {line : Bytes}

/-- A line that is refused ends at once. -/
theorem ran_refuse (code : String) (msg : Bytes) (hint : Option Bytes) :
    Ran lay s line (s.refuse lay s.seq code msg hint) :=
  .ended (ends_refuse lay s s.seq code msg hint)

/-- A request that must be confirmed has a question. -/
theorem directQuestion_ne_none (hubname : Bytes) (op : UInt8) (payload : Bytes) (c : CmdDef)
    (args : List Bytes) (words : Bytes) :
    (directQuestion hubname op payload c args words).1 ≠ .none := by
  unfold directQuestion
  simp only
  split <;> exact nofun

/-- A command whose payload was built: it goes out, or asks first. -/
theorem ran_runBuilt {c : CmdDef} {ws : Words} {argi : Nat} {bt : Built} (words : Bytes)
    (hline : Commands line c ws argi) (hbuilt : buildPayload c ws argi = .ok bt) :
    Ran lay s line (s.runBuilt lay c (ws.args argi) bt words) := by
  unfold runBuilt
  simp only
  split
  · rename_i hconfirm
    unfold sendRequest
    split
    · exact ran_refuse _ _ _
    · rename_i hroom
      exact .sent words hline hbuilt hconfirm (by omega)
  · rename_i hconfirm
    split
    · unfold readFirst
      cases hread : preRead c (ws.args argi) bt ⟨.user, s.seq, words, bt.mode⟩ with
      | mk pc rest =>
        obtain ⟨op, payload⟩ := rest
        simp only
        unfold sendRequest
        split
        · rename_i hfull
          exact .full pc hfull (ends_refuse lay _ s.seq _ _ _)
        · rename_i hroom
          exact .read words hline hbuilt hconfirm hread (by simpa using hroom)
    · unfold askFirst
      cases hq : directQuestion s.hubname bt.op bt.payload c (ws.args argi) words with
      | mk kind rest =>
        obtain ⟨want, q⟩ := rest
        have hkind : kind ≠ .none := by
          have := directQuestion_ne_none s.hubname bt.op bt.payload c (ws.args argi) words
          rwa [hq] at this
        have hq' : directQuestion
          (s.stageConfirm s.seq bt.op bt.payload ⟨.user, s.seq, words, bt.mode⟩).hubname
          bt.op bt.payload
            c (ws.args argi) words = (kind, want, q) := hq
        simp only [hq']
        refine .asked words kind want _ hline hbuilt hconfirm hkind ?_
        split
        · exact says_warnLines lay _ _
        · exact .refl _

/-- What a numbered line comes to, by the checks before its payload is built. -/
theorem ran_runNumbered (lay : Layout) (s : Ui) (line : Bytes) :
    Ran lay s line (s.runNumbered lay line) := by
  unfold runNumbered
  extract_lets ws
  split
  · exact ran_refuse _ _ _
  split
  · exact ran_refuse _ _ _
  cases hfound : findCmd ws with
  | none => exact ran_refuse _ _ _
  | some found =>
    obtain ⟨c, argi⟩ := found
    simp only
    split
    · exact ran_refuse _ _ _
    split
    · exact ran_refuse _ _ _
    unfold runCommand
    extract_lets words
    split
    · exact .ended (ends_localCommand lay s c ws argi s.seq words)
    cases hbuilt : buildPayload c ws argi with
    | error e => exact ran_refuse _ _ _
    | ok bt =>
      simp only
      split
      · exact ran_refuse _ _ _
      · exact ran_runBuilt words ⟨rfl, hfound⟩ hbuilt

end Line

/-- The read of a command carries the command's own entry. -/
theorem preRead_rq (c : CmdDef) (args : List Bytes) (bt : Built) (rq : PendingRq) :
    (preRead c args bt rq).1.rq = rq := by
  have htargets (pc : PendCmd) : (upgTargets args pc).rq = pc.rq := by
    unfold upgTargets
    induction args generalizing pc with
    | nil => rfl
    | cons w args ih =>
      rw [List.foldl_cons, ih]
      split <;> rfl
  unfold preRead
  cases c.pre with
  | upgStart => exact htargets _
  | _ => rfl

/-! ### The session around a command -/

/-- The session without its output, its display settings and the state of its commands. -/
def frame (s : Ui) : Ui :=
  { bare s with
    seq := 0, ncmds := 0, userBusy := false, rq := [], queued := [], rateStartMs := 0, rateUsed :=
      0, confirming := .none
    confirmSeq := 0, confirmWant := [], confirmOp := 0, confirmPayload := [], confirmRq := {},
      pend := {} }

/-- A field of the frame is the same in sessions with the same frame. -/
theorem frame_congr {α : Type} (f : Ui → α) (hf : ∀ s, f (frame s) = f s) {s s' : Ui}
    (h : frame s' = frame s) : f s' = f s := by
  rw [← hf, h, hf]

/-- What depends on the bare session only is the same for sessions that are bare the same. -/
theorem bare_congr {α : Type} (f : Ui → α) (hf : ∀ s, f (bare s) = f s) {s s' : Ui}
    (h : bare s' = bare s) : f s' = f s := by
  rw [← hf, h, hf]

/-- The frame is part of the bare session. -/
theorem frame_of_bare {s s' : Ui} (h : bare s' = bare s) : frame s' = frame s := by
  unfold frame
  rw [h]

/-- Lines of text leave the frame. -/
theorem Says.frame {s s' : Ui} (h : Says s s') : frame s' = frame s := frame_of_bare h.sets.rest

/-! ### The lines typed ahead -/

/-- Nothing is in flight any more. -/
def clear (s : Ui) : Ui := { s with userBusy := false }

/-- An answer, with what follows a command that ends at it. `done` is the only difference between
an answer that is typed and one that waited. -/
theorem confirmAnswer_done (lay : Layout) (done : Ui → Ui) (s : Ui) (answer : Bytes)
    (queued : Bool) :
    confirmAnswer lay done s answer queued
      = if accepts s.confirming s.confirmWant answer then confirmAnswer lay clear s answer queued
        else done { ({ s.mark (.answered s.confirmSeq answer queued)
          with confirming := .none } : Ui).refuse lay s.confirmSeq "cmd.cancelled"
          (b "cancelled") none with confirmPayload := [] } := by
  unfold confirmAnswer
  simp only
  split
  · rename_i hyes
    have hyes' : accepts s.confirming s.confirmWant answer = true := hyes
    rw [if_pos hyes']
  · rename_i hno
    have hno' : ¬accepts s.confirming s.confirmWant answer = true := hno
    rw [if_neg hno']
    rfl

/-- What each of the lines typed ahead keeps: one that is run and one that answers. -/
structure Drains (lay : Layout) (P : Ui → Prop) : Prop where
  line : ∀ s next rest, P s → s.userBusy = false → s.closing = false → s.queued = next :: rest →
    s.confirming = .none → s.rateReady = true → P (runQueued lay { s with queued := rest } next)
  answer : ∀ s next rest, P s → s.userBusy = false → s.closing = false → s.queued = next :: rest →
    s.confirming ≠ .none → P (confirmAnswer lay clear { s with queued := rest } next true)

/-- What each of the steps of a drain keeps, the drain keeps, by induction on its steps. -/
theorem drain_induct {lay : Layout} {P : Ui → Prop} (hP : Drains lay P) (n : Nat) (s : Ui)
    (h : P s) : P (drain lay n s) := by
  induction n generalizing s with
  | zero => exact h
  | succ n ih =>
    rw [drain]
    split
    · exact h
    rename_i hidle
    rw [Bool.or_eq_true, not_or, Bool.not_eq_true, Bool.not_eq_true] at hidle
    split
    · exact h
    rename_i next rest hqueued
    split
    · rename_i hnone
      split
      · rename_i hready
        exact ih _ (hP.line s next rest h hidle.1 hidle.2 hqueued hnone hready)
      · exact h
    · rename_i hconfirm
      have hanswer := hP.answer s next rest h hidle.1 hidle.2 hqueued hconfirm
      refine ih _ ?_
      rw [confirmAnswer_done] at hanswer ⊢
      split
      · rename_i hyes
        rw [if_pos hyes] at hanswer
        exact hanswer
      · rename_i hno
        rw [if_neg hno] at hanswer
        exact ih _ hanswer

/-- What a line comes to that is taken as the answer. -/
inductive AnswerRan (lay : Layout) (s : Ui) (answer : Bytes) (queued : Bool) : Ui → Prop
  /-- The staged request goes to the core. -/
  | yes (haccepts : accepts s.confirming s.confirmWant answer = true)
      (hroom : s.rq.length < maxPendingRq) :
      AnswerRan lay s answer queued
        { ({ s.mark (.answered s.confirmSeq answer queued)
        with confirming := .none, confirmPayload := [] } : Ui).mark
            (.request s.confirmRq.seq s.confirmRq.kind s.confirmOp s.confirmPayload) with
          rq := s.rq ++ [s.confirmRq], userBusy := true }
  /-- Too much is in flight for it. -/
  | full {s' : Ui} (haccepts : accepts s.confirming s.confirmWant answer = true)
      (hfull : maxPendingRq ≤ s.rq.length) (h : Ends s.confirmRq.seq
        { s.mark (.answered s.confirmSeq answer queued)
        with confirming := .none, confirmPayload := [] } s') :
      AnswerRan lay s answer queued s'
  /-- The command ends. -/
  | no {t : Ui} (hno : accepts s.confirming s.confirmWant answer = false)
      (h : Ends s.confirmSeq { s.mark (.answered s.confirmSeq answer queued)
      with confirming := .none } t) :
      AnswerRan lay s answer queued { t with confirmPayload := [], userBusy := false }

/-- An answer sends the staged request or ends the command it was for. -/
theorem answers_confirmAnswer (lay : Layout) (s : Ui) (answer : Bytes) (queued : Bool) :
    AnswerRan lay s answer queued (confirmAnswer lay clear s answer queued) := by
  unfold confirmAnswer
  simp only
  split
  · rename_i hyes
    have hyes' : accepts s.confirming s.confirmWant answer = true := hyes
    unfold sendRequest
    split
    · rename_i hfull
      have hfull' : maxPendingRq ≤ s.rq.length := hfull
      exact .full hyes' hfull' (ends_refuse lay _ s.confirmRq.seq _ _ _)
    · rename_i hroom
      have hroom' : s.rq.length < maxPendingRq := not_le.mp hroom
      exact .yes hyes' hroom'
  · rename_i hno
    have hno' : accepts s.confirming s.confirmWant answer = false := Bool.not_eq_true _ ▸ hno
    have hend := ends_refuse lay { s.mark (.answered s.confirmSeq answer queued)
      with confirming := .none } s.confirmSeq "cmd.cancelled" (b "cancelled") none
    have hends := @AnswerRan.no lay s answer queued _ hno' hend
    exact hends

/-- A line that is run leaves the lines that wait. -/
theorem Ran.queued {lay : Layout} {s s' : Ui} {line : Bytes} (h : Ran lay s line s') :
    s'.queued = s.queued := by
  cases h with
  | ended h =>
    have hrest := bare_congr Ui.queued (fun _ => rfl) h.rest
    exact hrest
  | full pc _ h =>
    have hrest := bare_congr Ui.queued (fun _ => rfl) h.rest
    exact hrest
  | sent => rfl
  | read => rfl
  | asked words kind want q _ _ _ _ hlines =>
    have htext := bare_congr Ui.queued (fun _ => rfl) hlines.sets.rest
    unfold askConfirm
    simp only
    split
    · exact htext
    · exact htext

/-- So does an answer. -/
theorem AnswerRan.queued {lay : Layout} {s s' : Ui} {answer : Bytes} {queued : Bool}
    (h : AnswerRan lay s answer queued s') :
    s'.queued = s.queued := by
  cases h with
  | yes => rfl
  | full _ _ h =>
    have hrest := bare_congr Ui.queued (fun _ => rfl) h.rest
    exact hrest
  | no _ h =>
    have hrest := bare_congr Ui.queued (fun _ => rfl) h.rest
    exact hrest

/-- A token changes nothing but the window of the command rate. -/
theorem rateTake_same (s : Ui) :
    ∃ start used, s.rateTake.1 = { s with rateStartMs := start, rateUsed := used } := by
  unfold rateTake
  extract_lets t
  have ht : ∃ start used, t = { s with rateStartMs := start, rateUsed := used } := by
    show ∃ start used, (if (s.cmdS : Int) * 1000 ≤ s.nowMs - s.rateStartMs
      then { s with rateStartMs := s.nowMs, rateUsed := 0 } else s)
      = { s with rateStartMs := start, rateUsed := used }
    split
    · exact ⟨_, _, rfl⟩
    · exact ⟨_, _, rfl⟩
  obtain ⟨start, used, ht⟩ := ht
  split
  · exact ⟨start, used, ht⟩
  · rw [ht]
    exact ⟨_, _, rfl⟩

/-- So does what the rate takes for a line. -/
theorem rateTake_queued (s : Ui) : s.rateTake.1.queued = s.queued := by
  obtain ⟨start, used, hrate⟩ := rateTake_same s
  rw [hrate]

/-- A line from those typed ahead, under its number. -/
theorem ran_startLine (lay : Layout) (s : Ui) (line : Bytes) :
    Ran lay (({ s with seq := s.seq + 1, ncmds := s.ncmds + 1 } : Ui).mark
      (.started (s.seq + 1) line s.rateStartMs s.nowMs)) line (s.startLine lay line) :=
      ran_runNumbered lay _ line

/-- So does a line that had waited. -/
theorem runQueued_queued (lay : Layout) (s : Ui) (line : Bytes) :
    (runQueued lay s line).queued = s.queued := by
  unfold runQueued
  simp only
  split
  · rfl
  · exact (ran_startLine lay _ _).queued.trans (rateTake_queued s)

/-- Nothing more of what is typed ahead can go on. -/
def Stopped (s : Ui) : Prop :=
  s.userBusy = true ∨ s.closing = true ∨ s.queued = []
    ∨ (s.confirming = .none ∧ s.rateReady = false)

/-- A drain that is stopped does nothing, however many steps it may take. -/
theorem drain_of_stopped (lay : Layout) (n : Nat) {s : Ui} (h : Stopped s) :
    drain lay n s = s := by
  cases n with
  | zero => rfl
  | succ n =>
    rw [drain]
    rcases h with hbusy | hclosing | hqueued | ⟨hnone, hready⟩
    · rw [if_pos (by simp [hbusy])]
    · rw [if_pos (by simp [hclosing])]
    · rw [hqueued]
      split <;> rfl
    · split
      · rfl
      · split
        · rfl
        · rw [if_neg (by simp [hready])]

/-- The lines typed ahead go on until nothing more can. Each step takes a line off, so as many
steps as there are lines are enough (`hn`). -/
theorem drain_stops (lay : Layout) (n : Nat) (s : Ui) (hn : s.queued.length ≤ n) :
    Stopped (drain lay n s) := by
  induction n generalizing s with
  | zero => exact .inr (.inr (.inl (List.length_eq_zero_iff.mp (Nat.le_zero.mp hn))))
  | succ n ih =>
    rw [drain]
    split
    · rename_i hbusy
      rw [Bool.or_eq_true] at hbusy
      rcases hbusy with h | h
      · exact .inl h
      · exact .inr (.inl h)
    split
    · rename_i hnil
      exact .inr (.inr (.inl hnil))
    rename_i next rest hqueued
    have hrest : rest.length ≤ n := by
      rw [hqueued, List.length_cons] at hn
      omega
    split
    · rename_i hnone
      split
      · exact ih _ (by rw [runQueued_queued]; exact hrest)
      · rename_i hready
        exact .inr (.inr (.inr ⟨hnone, Bool.not_eq_true _ ▸ hready⟩))
    · have hanswer := answers_confirmAnswer lay { s with queued := rest } next true
      have hlen := hanswer.queued
      extract_lets done
      rw [confirmAnswer_done] at hanswer hlen ⊢
      split
      · rename_i hyes
        rw [if_pos hyes] at hlen
        exact ih _ (by rw [hlen]; exact hrest)
      · rename_i hno
        rw [if_neg hno] at hlen
        rw [if_neg hno] at hanswer
        have hinner := ih _ (show (clear _).queued.length ≤ n by rw [hlen]; exact hrest)
        have hstays := drain_of_stopped lay n hinner
        rw [← hstays] at hinner
        exact hinner

end IrcHub.Proofs
