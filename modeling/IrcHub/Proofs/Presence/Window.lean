import IrcHub.Hub.Presence

/-!
# `IrcHub.Proofs.Presence.Window`: what the window of an origin remembers

A hub keeps one window for each origin of its map: the newest round it took, and a mask of the
chunks of that round. `Covers` says that a window will not take a round and chunk again. `judged`
is the window a frame is judged by. That is the one the hub keeps, or an empty one when the frame
names another start than the one the hub remembers.

`window_spec` says all that a later proof needs. After a frame, taken or not, the window covers
the frame, and it covers what the judged window covered. A frame that is taken was not covered,
and is of no older round.

The walk over the lines of a frame leaves every window alone (`rosterWalk_windows`). It changes
the start times that the entries remember, and nothing here depends on these.
-/

set_option autoImplicit false

namespace IrcHub.Proofs

open IrcHub.Hub Str

/-! ### One window -/

section Window

variable {h h' : MeshHub} {started round : Int} {chunk : Nat}

/-- The window will not take this round and chunk: it is at a newer round, or at this round with
the chunk marked. A chunk from 64 on has no mark, and is taken only with a new round. -/
def Covers (h : MeshHub) (round : Int) (chunk : Nat) : Prop :=
  round < h.round ∨ (round = h.round ∧ (64 ≤ chunk ∨ h.chunksSeen.getLsbD chunk = true))

/-- The frame names another start than the one that is remembered. -/
def Restarts (h : MeshHub) (started : Int) : Prop := 0 < started ∧ 0 < h.started
    ∧ started ≠ h.started

instance : Decidable (Covers h round chunk) := inferInstanceAs (Decidable (_ ∨ (_ ∧ (_ ∨ _))))

instance : Decidable (Restarts h started) := inferInstanceAs (Decidable (_ ∧ _ ∧ _))

/-- The window a frame is judged by. -/
def judged (h : MeshHub) (started : Int) : MeshHub :=
  if Restarts h started then { h with round := -1, chunksSeen := 0 } else h

/-- A window that is judged is of the same hub. -/
theorem judged_uuid (h : MeshHub) (started : Int) : (judged h started).uuid = h.uuid := by
  unfold judged
  split <;> rfl

/-- Coverage reads the round and the mask, and nothing else of an entry. -/
theorem Covers.congr (hc : Covers h round chunk) (hround : h'.round = h.round)
    (hseen : h'.chunksSeen = h.chunksSeen) : Covers h' round chunk := by
  unfold Covers
  rw [hround, hseen]
  exact hc

/-- The bit of a chunk. There are 64 places, so the chunk is bounded. -/
theorem getLsbD_chunkBit {n : Nat} (hn : n < 64) (chunk : Nat) :
    (chunkBit chunk).getLsbD n = decide (n = chunk) := by
  unfold chunkBit
  split
  · rename_i hlt
    rw [BitVec.getLsbD_shiftLeft]
    by_cases heq : n = chunk
    · subst heq
      simp [hn]
    · by_cases hle : n < chunk
      · simp [hle, heq]
      · have hpos : n - chunk ≠ 0 := by omega
        simp [BitVec.getLsbD_one, heq, hpos]
  · rename_i hge
    have hne : n ≠ chunk := by omega
    simp [hne]

/-- A chunk that is marked, or has no mark, is what the test for the bit finds. -/
theorem chunk_marked (seen : BitVec 64) (chunk : Nat) :
    (chunkBit chunk = 0 ∨ seen &&& chunkBit chunk ≠ 0)
      ↔ (64 ≤ chunk ∨ seen.getLsbD chunk = true) := by
  by_cases hlt : chunk < 64
  · have hbit : (chunkBit chunk).getLsbD chunk = true := by rw [getLsbD_chunkBit hlt]; simp
    have hne : chunkBit chunk ≠ 0 := by
      intro hzero
      rw [hzero] at hbit
      simp at hbit
    have hge : ¬ 64 ≤ chunk := by omega
    simp only [hne, hge, false_or]
    constructor
    · intro hand
      by_contra hno
      rw [Bool.not_eq_true] at hno
      refine hand (BitVec.eq_of_getLsbD_eq fun n hn => ?_)
      rw [BitVec.getLsbD_and, getLsbD_chunkBit hn]
      by_cases heq : n = chunk
      · rw [heq, hno]
        simp
      · simp [heq]
    · intro hseen hzero
      have hboth : (seen &&& chunkBit chunk).getLsbD chunk = true := by
        rw [BitVec.getLsbD_and, hseen, hbit]
        rfl
      rw [hzero] at hboth
      simp at hboth
  · have hge : 64 ≤ chunk := by omega
    simp [hge, chunkBit, hlt]

/-- The three branches of the window over the judged one: an older round, a chunk that is marked,
and news. In the first two the window is left as judged, so a restart is kept even by a frame that
is refused. -/
theorem window_cases (h : MeshHub) (started round : Int) (chunk : Nat) :
    (round < (judged h started).round
      ∧ h.window started round chunk = (judged h started, false))
    ∨ (round = (judged h started).round
      ∧ (64 ≤ chunk ∨ (judged h started).chunksSeen.getLsbD chunk = true)
      ∧ h.window started round chunk = (judged h started, false))
    ∨ (¬ Covers (judged h started) round chunk ∧ (judged h started).round ≤ round
      ∧ h.window started round chunk =
        let b := if round > (judged h started).round then
            { judged h started with round := round, chunksSeen := 0 } else judged h started
        ({ b with chunksSeen := b.chunksSeen ||| chunkBit chunk }, true)) := by
  have hjudged : judged h started = if started > 0 && h.started > 0 && started ≠ h.started then
      { h with round := -1, chunksSeen := 0 } else h := by
    by_cases hre : Restarts h started
    · rw [judged, if_pos hre, if_pos (by simpa [Restarts, and_assoc] using hre)]
    · rw [judged, if_neg hre, if_neg (by simpa [Restarts, and_assoc] using hre)]
  unfold MeshHub.window
  rw [← hjudged]
  generalize judged h started = b
  dsimp only
  have hmark := chunk_marked b.chunksSeen chunk
  by_cases hlt : round < b.round
  · exact .inl ⟨hlt, if_pos hlt⟩
  rw [if_neg hlt]
  by_cases hseen : round = b.round ∧ (chunkBit chunk = 0 ∨ b.chunksSeen &&& chunkBit chunk ≠ 0)
  · exact .inr (.inl ⟨hseen.1, hmark.mp hseen.2, if_pos (by simpa using hseen)⟩)
  · refine .inr (.inr ⟨?_, not_lt.mp hlt, if_neg (by simpa using hseen)⟩)
    rintro (hold | ⟨heq, hm⟩)
    · exact hlt hold
    · exact hseen ⟨heq, hmark.mpr hm⟩

/-- A window after a frame. It covers the frame and all that the judged window covered. If the
frame is news, then the judged window did not cover it and is of no newer round. -/
theorem window_spec (h : MeshHub) (started round : Int) (chunk : Nat) :
    (h.window started round chunk).1.uuid = h.uuid
      ∧ Covers (h.window started round chunk).1 round chunk
      ∧ (∀ r c, Covers (judged h started) r c → Covers (h.window started round chunk).1 r c)
      ∧ ((h.window started round chunk).2 = true →
        ¬ Covers (judged h started) round chunk ∧ (judged h started).round ≤ round) := by
  have huuid := judged_uuid h started
  rcases window_cases h started round chunk with ⟨hlt, heq⟩ | ⟨hr, hm, heq⟩ | ⟨hnot, hle, heq⟩
  · rw [heq]
    exact ⟨huuid, .inl hlt, fun _ _ hc => hc, fun hnews => absurd hnews Bool.false_ne_true⟩
  · rw [heq]
    exact ⟨huuid, .inr ⟨hr, hm⟩, fun _ _ hc => hc, fun hnews => absurd hnews Bool.false_ne_true⟩
  · rw [heq]
    generalize judged h started = b at huuid hnot hle
    dsimp only
    -- the bit of the chunk is set, whatever the mask was
    have hset : ∀ seen : BitVec 64, 64 ≤ chunk
      ∨ (seen ||| chunkBit chunk).getLsbD chunk = true := by
      intro seen
      by_cases hlt : chunk < 64
      · rw [BitVec.getLsbD_or, getLsbD_chunkBit hlt]
        simp
      · exact .inl (by omega)
    by_cases hgt : round > b.round
    · rw [if_pos hgt]
      refine ⟨huuid, .inr ⟨rfl, hset _⟩, fun r c hc => .inl ?_, fun _ => ⟨hnot, hle⟩⟩
      rcases hc with hlt | ⟨hr, -⟩
      · exact lt_trans hlt hgt
      · exact hr.trans_lt hgt
    · rw [if_neg hgt]
      have hr : round = b.round := by omega
      refine ⟨huuid, .inr ⟨hr, hset _⟩, fun r c hc => ?_, fun _ => ⟨hnot, hle⟩⟩
      rcases hc with hlt | ⟨hr', hm⟩
      · exact .inl hlt
      · refine .inr ⟨hr', hm.imp id fun hold => ?_⟩
        show (b.chunksSeen ||| chunkBit chunk).getLsbD c = true
        rw [BitVec.getLsbD_or, hold, Bool.true_or]

end Window

/-! ### The walk over the lines -/

section Walk

variable {now : Int} {link : Option FrameLink} {first : Bool} {mh : Option Nat} {w : RosterWalk}

/-- What a window is, and whose. -/
def hubMark (h : MeshHub) : Str × Int × BitVec 64 := (h.uuid, h.round, h.chunksSeen)

/-- A change to an entry that leaves its window alone leaves all windows alone. -/
theorem modifyHub_windows {f : MeshHub → MeshHub} (hf : ∀ h, hubMark (f h) = hubMark h) :
    (w.modifyHub mh f).state.meshHubs.map hubMark = w.state.meshHubs.map hubMark := by
  cases mh with
  | none => rfl
  | some mi =>
    show (w.state.meshHubs.modify mi _).map hubMark = _
    rw [List.modify_eq_set_getElem?]
    cases hget : w.state.meshHubs[mi]? with
    | none => rfl
    | some b =>
      show (w.state.meshHubs.set mi (if b.uuid == w.hubUuid then f b else b)).map _ = _
      rw [List.map_set]
      refine Table.set_of_getElem? ?_
      rw [List.getElem?_map, hget, Option.map_some]
      split
      · rw [hf]
      · rfl

/-- A note about a peer changes no window. -/
@[simp]
theorem modifyPeer_meshHubs (s : Presence) (u : Str) (f : PresencePeer → PresencePeer) :
    (modifyPeer s u f).meshHubs = s.meshHubs := by
  unfold modifyPeer
  split <;> rfl

/-- Nor does a bot of the roster. -/
@[simp]
theorem rosterUpsert_meshHubs (s : Presence) (e : BotRoster) :
    (rosterUpsert s e).meshHubs = s.meshHubs := by
  unfold rosterUpsert
  split
  · rfl
  · split
    · rfl
    · split <;> rfl

/-- A header sets the name, the version, the start and the time of the report. -/
theorem headerLine_windows (body : Str) :
    (headerLine now link mh w body).state.meshHubs.map hubMark
      = w.state.meshHubs.map hubMark := by
  unfold headerLine
  dsimp only
  split
  · rfl
  split
  · rfl
  · rw [modifyPeer_meshHubs]
    exact modifyHub_windows fun _ => rfl

/-- Nor does a line about a variant. -/
theorem variantLine_windows (v : Str) :
    (variantLine mh w v).state.meshHubs.map hubMark = w.state.meshHubs.map hubMark := by
  unfold variantLine
  split
  · rfl
  · dsimp only
    rw [modifyPeer_meshHubs]
    exact modifyHub_windows fun _ => rfl

/-- The links of an origin are a list of their own, so a link line changes no window. -/
theorem linkLine_windows (body : Str) :
    (linkLine mh first w body).state.meshHubs.map hubMark
      = w.state.meshHubs.map hubMark := by
  unfold linkLine
  split
  · rfl
  split
  · rfl
  dsimp only
  have hreset : (w.modifyHub mh fun h =>
      if w.linksReset then h else { h with links := [], haveLinks := true }).state.meshHubs.map
        hubMark = w.state.meshHubs.map hubMark :=
    modifyHub_windows fun h => by split <;> rfl
  split
  · split
    · exact hreset
    · exact (modifyHub_windows fun h => by split <;> rfl).trans hreset
  · exact hreset

/-- Nor does a line about a bot. -/
theorem botLine_windows (body : Str) :
    (botLine now w body).state.meshHubs.map hubMark = w.state.meshHubs.map hubMark := by
  unfold botLine
  split
  · rfl
  split
  · rfl
  dsimp only
  split
  · split
    · rfl
    · rw [rosterUpsert_meshHubs]
  · rfl

/-- So no line of a frame does. -/
theorem rosterLine_windows (line : Str) :
    (rosterLine now link mh first w line).state.meshHubs.map hubMark
      = w.state.meshHubs.map hubMark := by
  unfold rosterLine
  split
  · rfl
  split
  · exact headerLine_windows _
  · exact variantLine_windows _
  · exact linkLine_windows _
  · exact botLine_windows _
  · rfl

/-- The whole walk leaves every window alone. -/
theorem rosterWalk_windows (lines : List Str) :
    (lines.foldl (rosterLine now link mh first) w).state.meshHubs.map hubMark
      = w.state.meshHubs.map hubMark := by
  induction lines generalizing w with
  | nil => rfl
  | cons line lines ih =>
    rw [List.foldl_cons, ih, rosterLine_windows]

end Walk

end IrcHub.Proofs
