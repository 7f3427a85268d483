import IrcHub.Proofs.Ui.Runs

/-!
# `IrcHub.Proofs.Ui.Held`: the lines that wait, and the question they leave

What a line comes to depends on the line, the admin's flags and the hub's name alone (`comes`,
`startLine_comes`). So does whether the lines that wait leave a question with no line after it to
answer (`leavesQuestion`).

* `runNumbered_comes`: a line that is run does what `comes` says
* `Ran.pace`: running a line leaves alone what the release of the next lines goes by
* `drain_leaves`: where the lines leave no question, the release ends with the session closing,
  with a request in flight, or with no question

`leavesQuestion` reads the lines without running them, so it is a condition on the state before a
tick. It goes by the command rate too: a line that must wait for its window asks nothing yet.
-/

set_option autoImplicit false

namespace IrcHub.Proofs

open IrcHub.Console
open IrcHub.Console.Ui
open Terminal (Bytes)

/-! ### One line -/

/-- What a line comes to. -/
inductive Comes
  /-- It ends at once. -/
  | ends
  /-- It ends the session. -/
  | quits
  /-- A request goes to the core. -/
  | goes
  /-- It asks its question. -/
  | asks (kind : Confirm) (want : Bytes)
  deriving Repr, DecidableEq

/-- What a line comes to, from its words. The checks are those of the session, in its order. -/
def comes (flags : Option (List Char)) (hubname line : Bytes) : Comes :=
  let ws := splitLine (commandLine line)
  if ws.n = 0 then .ends
  else if ws.more then .ends
  else
    match findCmd ws with
    | none => .ends
    | some (c, argi) =>
      let na := ws.n - argi
      let restArg := (c.build = .localCmd ∧ c.sub = some "filter")
        ∨ (c.build = .ban ∧ c.sub = some "add")
      if na < c.nargs ∨ (¬restArg ∧ c.nargs + c.optargs < na) then .ends
      else if c.build ≠ .localCmd ∧ (ws.args argi).any (·.contains 0x7C) then .ends
      else if c.build = .localCmd then (if c.cmd = "quit" then .quits else .ends)
      else
        match buildPayload c ws argi with
        | .error _ => .ends
        | .ok bt =>
          match lacksFlag flags (uiFlagNeeded c ws argi) with
          | some _ => .ends
          | none =>
            if bt.confirm = .none then .goes
            else if c.pre ≠ .none then .goes
            else
              let q := directQuestion hubname bt.op bt.payload c (ws.args argi)
                (cCut (cmdWords c) 32)
              .asks q.1 (cCut q.2.1 128)

/-- What a session shows of a line that was run. The other parts of the session may change. -/
def Came (s s' : Ui) : Comes → Prop
  | .ends => s'.confirming = s.confirming
  | .quits => s'.closing = true
  | .goes => s'.userBusy = true
  | .asks kind want => s'.confirming = kind ∧ s'.confirmWant = want

/-- A line that is refused ends at once. -/
theorem came_refuse (lay : Layout) (s : Ui) (n : Nat) (code : String) (msg : Bytes)
    (hint : Option Bytes) :
    Came s (s.refuse lay n code msg hint) .ends := by
  have hrest := bare_congr Ui.confirming (fun _ => rfl) (ends_refuse lay s n code msg hint).rest
  exact hrest

/-- With nothing in flight a request always goes out, and the session is busy after. -/
theorem sendRequest_room (lay : Layout) {s : Ui} (op : UInt8) (payload : Bytes) (rq : PendingRq)
    (hrq : s.rq = []) :
    (s.sendRequest lay op payload rq).userBusy = true := by
  unfold sendRequest
  rw [if_neg (by rw [hrq]; decide)]

/-- A question is staged with what it wants to hear, cut to the room for it. -/
theorem askConfirm_asks (s : Ui) (kind : Confirm) (want q : Bytes) :
    (s.askConfirm kind want q).confirming = kind
    ∧ (s.askConfirm kind want q).confirmWant = cCut want 128 := by
  unfold askConfirm
  simp only
  split
  · exact ⟨rfl, rfl⟩
  · exact ⟨rfl, rfl⟩

/-- What a numbered line comes to, where nothing is in flight. -/
theorem runNumbered_comes (lay : Layout) {s : Ui} (line : Bytes) (hrq : s.rq = []) :
    Came s (s.runNumbered lay line) (comes s.flags s.hubname line) := by
  unfold runNumbered comes
  extract_lets ws
  split
  · exact came_refuse lay s _ _ _ _
  split
  · exact came_refuse lay s _ _ _ _
  cases findCmd ws with
  | none => exact came_refuse lay s _ _ _ _
  | some found =>
    obtain ⟨c, argi⟩ := found
    simp only
    split
    · exact came_refuse lay s _ _ _ _
    split
    · exact came_refuse lay s _ _ _ _
    unfold runCommand
    extract_lets words
    split
    · split
      · rename_i hquit
        show (s.localCommand lay c ws argi s.seq words).closing = true
        unfold localCommand
        simp only
        rw [if_neg (by rw [hquit]; decide), if_pos hquit]
        rfl
      · have hends := ends_localCommand lay s c ws argi s.seq words
        have hrest := bare_congr Ui.confirming (fun _ => rfl) hends.rest
        exact hrest
    cases buildPayload c ws argi with
    | error e => exact came_refuse lay s _ _ _ _
    | ok bt =>
      simp only
      cases lacksFlag s.flags (uiFlagNeeded c ws argi) with
      | some f => exact came_refuse lay s _ _ _ _
      | none =>
        simp only
        unfold runBuilt
        simp only
        split
        · exact sendRequest_room lay _ _ _ hrq
        split
        · unfold readFirst
          exact sendRequest_room lay (s := { s with pend := _ }) _ _ _ hrq
        · unfold askFirst
          exact askConfirm_asks _ _ _ _

/-- What a line comes to under its number. -/
theorem startLine_comes (lay : Layout) {s : Ui} (line : Bytes) (hrq : s.rq = []) :
    Came s (s.startLine lay line) (comes s.flags s.hubname line) :=
  runNumbered_comes lay (s := ({ s with seq := s.seq + 1, ncmds := s.ncmds + 1 } : Ui).mark _)
    line hrq

/-! ### The lines that wait -/

/-- What a release goes by besides the lines: the admin's flags, the hub's name and the command
rate. -/
def pace (s : Ui) : Option (List Char) × Bytes × Nat × Nat × Int × Int × Nat :=
  (s.flags, s.hubname, s.cmdN, s.cmdS, s.nowMs, s.rateStartMs, s.rateUsed)

/-- Whether the lines that wait leave a question with no line after it. The session gives the
pace. A question is answered by the next line, whatever that is: one that accepts sends the
request, and any other ends the command and lets the lines after it go on. -/
def leavesQuestion : List Bytes → Confirm → Bytes → Ui → Bool
  | [], kind, _, _ => kind ≠ .none
  | line :: rest, kind, want, s =>
    if kind = .none then
      if s.rateReady then
        match comes s.flags s.hubname (line.dropWhile isBlank) with
        | .ends => leavesQuestion rest .none want s.rateTake.1
        | .asks kind want => leavesQuestion rest kind want s.rateTake.1
        | .quits => false
        | .goes => false
      else false
    else if accepts kind want line then false
    else leavesQuestion rest .none want s

/-- Whether a line may run now depends on the pace of the session alone. -/
theorem rateReady_pace {r s : Ui} (h : pace r = pace s) : r.rateReady = s.rateReady := by
  simp only [pace, Prod.mk.injEq] at h
  obtain ⟨-, -, hn, hs, hnow, hstart, hused⟩ := h
  unfold rateReady
  rw [hn, hs, hnow, hstart, hused]

/-- So does the pace it has once a line was taken. -/
theorem rateTake_pace {r s : Ui} (h : pace r = pace s) :
    pace r.rateTake.1 = pace s.rateTake.1 := by
  simp only [pace, Prod.mk.injEq] at h
  obtain ⟨hflags, hname, hn, hs, hnow, hstart, hused⟩ := h
  unfold rateTake
  by_cases hwindow : (s.cmdS : Int) * 1000 ≤ s.nowMs - s.rateStartMs
  · simp only [hs, hnow, hstart, hn, if_pos hwindow]
    split
    · simp only [pace, hflags, hname]
    · simp only [pace, hflags, hname]
  · simp only [hs, hnow, hstart, hn, hused, if_neg hwindow]
    split
    · simp only [pace, hflags, hname, hn, hs, hnow, hstart, hused]
    · simp only [pace, hflags, hname]

/-- A line that is run leaves the pace alone, so that the lines after it are read with the same
one. -/
theorem Ran.pace {lay : Layout} {s s' : Ui} {line : Bytes} (h : Ran lay s line s') :
    pace s' = pace s := by
  cases h with
  | ended h =>
    have hrest := bare_congr Proofs.pace (fun _ => rfl) h.rest
    exact hrest
  | full pc _ h =>
    have hrest := bare_congr Proofs.pace (fun _ => rfl) h.rest
    exact hrest
  | sent => rfl
  | read => rfl
  | asked words kind want q _ _ _ _ hlines =>
    have htext := bare_congr Proofs.pace (fun _ => rfl) hlines.sets.rest
    unfold askConfirm
    simp only
    split
    · exact htext
    · exact htext

/-- A command that is not in flight left nothing in flight. -/
theorem Ran.idle {lay : Layout} {s s' : Ui} {line : Bytes} (h : Ran lay s line s')
    (hrq : s.rq = []) (hfree : s'.userBusy = false) : s'.rq = [] := by
  cases h with
  | ended h =>
    have hrest := bare_congr Ui.rq (fun _ => rfl) h.rest
    exact hrest.trans hrq
  | full pc _ h =>
    have hrest := bare_congr Ui.rq (fun _ => rfl) h.rest
    exact hrest.trans hrq
  | sent => exact nomatch hfree
  | read => exact nomatch hfree
  | asked words kind want q _ _ _ _ hlines =>
    have htext := bare_congr Ui.rq (fun _ => rfl) hlines.sets.rest
    have htext' := htext.trans hrq
    unfold askConfirm
    simp only
    split
    · exact htext'
    · exact htext'

/-- A line that accepts sends the request. -/
theorem AnswerRan.accepted {lay : Layout} {s s' : Ui} {answer : Bytes} {queued : Bool}
    (h : AnswerRan lay s answer queued s')
    (hyes : accepts s.confirming s.confirmWant answer = true) (hrq : s.rq = []) :
    s'.userBusy = true := by
  cases h with
  | yes => rfl
  | full _ hfull _ =>
    rw [hrq] at hfull
    exact absurd hfull (by decide)
  | no hno _ => exact absurd (hyes.symm.trans hno) (by decide)

/-- A line that does not accept leaves no question and nothing in flight. -/
theorem AnswerRan.refused {lay : Layout} {s s' : Ui} {answer : Bytes} {queued : Bool}
    (h : AnswerRan lay s answer queued s')
    (hno : accepts s.confirming s.confirmWant answer = false) :
    s'.rq = s.rq ∧ s'.confirming = .none ∧ Proofs.pace s' = Proofs.pace s := by
  cases h with
  | yes hyes => exact absurd (hyes.symm.trans hno) (by decide)
  | full hyes => exact absurd (hyes.symm.trans hno) (by decide)
  | no _ h =>
    have hrq := bare_congr Ui.rq (fun _ => rfl) h.rest
    have hnone := bare_congr Ui.confirming (fun _ => rfl) h.rest
    have hpace := bare_congr Proofs.pace (fun _ => rfl) h.rest
    exact ⟨hrq, hnone, hpace⟩

/-- No question is left where the lines leave none. By induction on the steps of the release; `r`
is the session the lines were read with, which the release changes as it goes on. -/
theorem drain_leaves (lay : Layout) (n : Nat) {r s : Ui} {want : Bytes} (hn : s.queued.length ≤ n)
    (hahead : ∀ line ∈ s.queued, line.dropWhile isBlank ≠ [])
    (hrq : s.userBusy = false → s.rq = []) (hpace : pace r = pace s)
    (hwant : s.confirming ≠ .none → want = s.confirmWant)
    (hleaves : leavesQuestion s.queued s.confirming want r = false) :
    (drain lay n s).closing = true ∨ (drain lay n s).userBusy = true
    ∨ (drain lay n s).confirming = .none := by
  induction n generalizing r s want with
  -- no line is left, so there is no question
  | zero =>
    rw [List.length_eq_zero_iff.mp (Nat.le_zero.mp hn)] at hleaves
    have hnone : s.confirming = .none := by simpa [leavesQuestion] using hleaves
    exact .inr (.inr hnone)
  | succ n ih =>
    rw [drain]
    -- the release stops while a command runs, or at the end
    split
    · rename_i hstop
      rw [Bool.or_eq_true] at hstop
      exact hstop.elim (fun h => .inr (.inl h)) .inl
    rename_i hidle
    rw [Bool.or_eq_true, not_or, Bool.not_eq_true, Bool.not_eq_true] at hidle
    -- no line is left
    split
    · rename_i hnil
      rw [hnil] at hleaves
      exact .inr (.inr (by simpa [leavesQuestion] using hleaves))
    rename_i next rest hqueued
    rw [hqueued] at hleaves hahead hn
    have hrest : rest.length ≤ n := by
      rw [List.length_cons] at hn
      omega
    have hahead' : ∀ line ∈ rest, line.dropWhile isBlank ≠ [] :=
      fun line hline => hahead line (.tail _ hline)
    rw [leavesQuestion] at hleaves
    -- no question stands: the next line is a command
    split
    · rename_i hnone
      rw [if_pos hnone, rateReady_pace hpace] at hleaves
      -- the rate lets it through
      split
      · rename_i hready
        rw [if_pos hready] at hleaves
        have hrun : runQueued lay { s with queued := rest } next
            = (({ s with queued := rest } : Ui).rateTake.1).startLine lay
              (next.dropWhile isBlank) := by
          unfold runQueued
          simp only
          rw [if_neg (by simpa using hahead next (.head _))]
        obtain ⟨start, used, hrate⟩ := rateTake_same { s with queued := rest }
        have hpace' := rateTake_pace (r := r) (s := { s with queued := rest }) hpace
        have hflags : r.flags = s.flags := congrArg Prod.fst hpace
        have hname : r.hubname = s.hubname := congrArg (·.2.1) hpace
        rw [hrun]
        rw [hrate] at hpace' ⊢
        have hran := ran_startLine lay { s with queued := rest, rateStartMs := start,
                                                rateUsed := used } (next.dropWhile isBlank)
        have hcame := startLine_comes lay
          (s := { s with queued := rest, rateStartMs := start, rateUsed := used })
          (next.dropWhile isBlank) (hrq hidle.1)
        have hqueued' := hran.queued
        have hpace'' := hpace'.trans hran.pace.symm
        have hidle' := hran.idle (hrq hidle.1)
        generalize startLine lay _ _ = t at hcame hqueued' hpace'' hidle' ⊢
        have hqueued'' : t.queued = rest := hqueued'
        rw [← hqueued''] at hleaves hrest hahead'
        rw [hflags, hname] at hleaves
        have hcame' : Came { s with queued := rest, rateStartMs := start, rateUsed := used } t
          (comes s.flags s.hubname (next.dropWhile isBlank)) := hcame
        -- what the line brings about is known before it runs
        cases hcomes : comes s.flags s.hubname (next.dropWhile isBlank) with
        | ends =>
          rw [hcomes] at hleaves hcame'
          have hnone' : t.confirming = .none := hcame'.trans hnone
          exact ih hrest hahead' hidle' hpace'' (fun h => absurd hnone' h)
            (by rw [hnone']; exact hleaves)
        | asks kind want' =>
          rw [hcomes] at hleaves hcame'
          obtain ⟨hkind, hwant'⟩ := hcame'
          exact ih hrest hahead' hidle' hpace'' (fun _ => hwant'.symm)
            (by rw [hkind]; exact hleaves)
        | quits =>
          rw [hcomes] at hcame'
          rw [drain_of_stopped lay n (.inr (.inl hcame'))]
          exact .inl hcame'
        | goes =>
          rw [hcomes] at hcame'
          rw [drain_of_stopped lay n (.inl hcame')]
          exact .inr (.inl hcame')
      -- the rate holds it back, and no question is asked
      · exact .inr (.inr hnone)
    -- a question stands: the next line answers it
    · rename_i hconfirm
      rw [if_neg hconfirm] at hleaves
      rw [hwant hconfirm] at hleaves
      have hanswer := answers_confirmAnswer lay { s with queued := rest } next true
      have hlen := hanswer.queued
      extract_lets done
      rw [confirmAnswer_done] at hanswer hlen ⊢
      -- accepted: the command goes out
      split
      · rename_i hyes
        rw [if_pos hyes] at hanswer
        have hbusy := hanswer.accepted hyes (hrq hidle.1)
        rw [drain_of_stopped lay n (.inl hbusy)]
        exact .inr (.inl hbusy)
      -- refused: the release goes on with the lines that are left
      · rename_i hno
        rw [if_neg hno] at hanswer hlen
        have hno' : accepts s.confirming s.confirmWant next = false := Bool.not_eq_true _ ▸ hno
        rw [if_neg (by rw [hno']; decide)] at hleaves
        obtain ⟨hrq', hnone, hpace'⟩ := hanswer.refused hno'
        have hdone (u : Ui) : done u = drain lay n (clear u) := rfl
        rw [hdone]
        generalize clear _ = u at hrq' hnone hpace' hlen ⊢
        have hlen' : u.queued = rest := hlen
        rw [← hlen'] at hrest hahead' hleaves
        rw [drain_of_stopped lay n (drain_stops lay n u hrest)]
        rw [← hnone] at hleaves
        exact ih hrest hahead' (fun _ => hrq'.trans (hrq hidle.1)) (hpace.trans hpace'.symm)
          (fun h => absurd hnone h) hleaves

end IrcHub.Proofs
