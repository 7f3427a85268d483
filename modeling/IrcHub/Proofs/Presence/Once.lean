import IrcHub.Lib.Lww
import IrcHub.Proofs.Presence.Window
import Mathlib.Data.List.Nodup

/-!
# `IrcHub.Proofs.Presence.Once`: a roster frame is applied and relayed once

A hub hears the frames of every origin in any order, late and more than once, and drops what it
has not heard of for a while (`RosterEvent`). `RosterRun` is the hub with a record of the frames
it heard, applied and relayed. For each origin it also has the frames that the window was asked
about since it was last empty (`RosterRun.seen`).

The window of an origin starts over when a frame names another start than the remembered one, the
older as well as the newer. So frames of a restarted origin that cross are applied again
(`crossed_starts_twice`). So are those of an origin with a start in the future, of one that does
not fit the map, or of one that was dropped from it.

`frames_once` is the rest. Nothing is applied or relayed twice, and no round after a newer one of
its start, in every run whose frames meet `FrameClear`. The condition is about the frames heard
before. Each one of the same origin and start is still in the window, or the window is past the
new frame anyway, or the old frame is another one of no newer round.

The proof carries `OnceInv`: the window of an origin covers all that it was asked about.
`processBotRoster_spec` says what a frame does to the windows, and it is the only lemma that opens
the source's function.
-/

set_option autoImplicit false

namespace IrcHub.Proofs

open IrcHub.Hub Str

/-! ### Runs -/

/-- What names a frame. -/
structure FrameName where
  origin : Str
  started : Int
  round : Int
  chunk : Nat
  deriving Repr, DecidableEq

/-- The hub listens to the frame: the frame names an origin, and that is not the hub itself. -/
def ListensTo (s : Presence) (payload : Str) : Prop :=
  let o := (rosterFramePeek payload).origin
  o ≠ [] ∧ o ≠ ['-'] ∧ ¬ (s.hubUuid ≠ [] ∧ o = s.hubUuid)

instance (s : Presence) (payload : Str) : Decidable (ListensTo s payload) :=
  inferInstanceAs (Decidable (_ ∧ _ ∧ ¬ (_ ∧ _)))

/-- The name of a frame that the hub listens to and that has a relay control. A frame without one
is taken every time, and nothing about it is remembered. -/
def heardName (s : Presence) (payload : Str) : Option FrameName :=
  let p := rosterFramePeek payload
  if ListensTo s payload then p.control.map fun g =>
    ⟨p.origin, p.started, g.round, g.chunk⟩ else none

/-- The map entry of an origin. -/
def hubEntry (s : Presence) (origin : Str) : Option MeshHub :=
  s.meshHubs.find? fun h => h.uuid == origin

/-- The entry that a frame of the origin is judged by: the one in the map, or a new one as long as
the map has room. -/
def hubPlace (s : Presence) (origin : Str) : Option MeshHub :=
  match hubEntry s origin with
  | some h => some h
  | none => if s.meshHubs.length ≥ maxMeshHubs then none else some { uuid := origin }

/-- A hub, with the names of the frames it heard, applied and relayed, the last one first. `seen`
has the frames of an origin that the window was asked about since it was last empty. -/
structure RosterRun where
  state : Presence
  heard : List FrameName := []
  applied : List FrameName := []
  relayed : List FrameName := []
  seen : Str → List FrameName := fun _ => []

/-- What happens: a frame comes in on a link, or the tick drops what nobody refreshed. -/
inductive RosterEvent
  | frame (now : Int) (link : Option FrameLink) (payload : Str)
  | tick (now : Int)

/-- The frames in the window that judges `f`. A frame of another start than the remembered one
empties the window before it is judged. -/
def RosterRun.window (r : RosterRun) (f : FrameName) : List FrameName :=
  if ∃ h ∈ hubPlace r.state f.origin, Restarts h f.started then [] else r.seen f.origin

/-- What the window has seen once it was asked about a frame. An origin without a place in the map
has no window. -/
def RosterRun.seeing (r : RosterRun) (f : FrameName) (o : Str) : List FrameName :=
  if o = f.origin ∧ (hubPlace r.state o).isSome = true then f :: r.window f else r.seen o

/-- One event. An origin that the tick drops from the map loses its window. -/
def RosterRun.step (r : RosterRun) : RosterEvent → RosterRun
  | .frame now link payload =>
    let x := processBotRoster now link r.state payload
    match heardName r.state payload with
    | none => { r with state := x.1 }
    | some f =>
      { state := x.1
        heard := f :: r.heard
        applied := if x.2.applied then f :: r.applied else r.applied
        relayed := if x.2.relayed.isSome then f :: r.relayed else r.relayed
        seen := r.seeing f }
  | .tick now =>
    { r with
      state := rosterExpire now r.state
      seen := fun o => if (hubEntry (rosterExpire now r.state) o).isSome then r.seen o else [] }

/-- The window is past the frame: at a newer round, or at its round with its chunk marked. -/
def PastWindow (s : Presence) (f : FrameName) : Prop :=
  ∃ h ∈ hubPlace s f.origin, Covers (judged h f.started) f.round f.chunk

instance (s : Presence) (f : FrameName) : Decidable (PastWindow s f) :=
  decidable_of_iff ((hubPlace s f.origin).any fun h =>
    decide (Covers (judged h f.started) f.round f.chunk))
      (by simp [PastWindow, Option.any_eq_true])

/-- What keeps a frame from being taken twice or too late. Of the frames heard before of its
origin and start, each is in the window that judges the frame. Or the window is past the frame
anyway. Or the one before is another frame, and of no newer round. The hub's own frames, frames
without a relay control and the tick may come at any time. -/
def FrameClear (r : RosterRun) : RosterEvent → Prop
  | .tick _ => True
  | .frame _ _ payload =>
    ∀ f ∈ heardName r.state payload, PastWindow r.state f ∨
      ∀ a ∈ r.heard, a.origin = f.origin → a.started = f.started →
        a ∈ r.window f ∨ (a ≠ f ∧ a.round ≤ f.round)

/-- Whether a frame meets the condition can be computed from the run so far. -/
instance (r : RosterRun) (now : Int) (link : Option FrameLink) (payload : Str) :
    Decidable (FrameClear r (.frame now link payload)) :=
  inferInstanceAs (Decidable (∀ f ∈ heardName r.state payload, PastWindow r.state f ∨
    ∀ a ∈ r.heard, a.origin = f.origin → a.started = f.started →
      a ∈ r.window f ∨ (a ≠ f ∧ a.round ≤ f.round)))

/-- Nothing twice, and no round after a newer one of its origin and start. -/
structure Once (r : RosterRun) : Prop where
  applied : r.applied.Nodup
  relayed : r.relayed.Nodup
  rounds : r.applied.Pairwise fun later earlier =>
    later.origin = earlier.origin → later.started = earlier.started → earlier.round ≤ later.round

/-! ### The windows of the map -/

section Map

variable {s t : Presence} {o : Str} {h b : MeshHub} {now : Int}

/-- The entry of an origin is the only one with its uuid. -/
theorem hubEntry_eq_some_iff (hnodup : (s.meshHubs.map MeshHub.uuid).Nodup) :
    hubEntry s o = some h ↔ h ∈ s.meshHubs ∧ h.uuid = o := by
  unfold hubEntry
  constructor
  · intro hfind
    have hp := List.find?_some hfind
    exact ⟨List.mem_of_find?_eq_some hfind, by simpa using hp⟩
  · rintro ⟨hmem, rfl⟩
    cases hfind : s.meshHubs.find? fun a => a.uuid == h.uuid with
    | none =>
      rw [List.find?_eq_none] at hfind
      exact absurd (hfind h hmem) (by simp)
    | some a =>
      have hp := List.find?_some hfind
      rw [List.inj_on_of_nodup_map hnodup (List.mem_of_find?_eq_some hfind) hmem
        (by simpa using hp)]

/-- The tick drops entries and keeps the rest. -/
theorem hubEntry_rosterExpire (hnodup : (s.meshHubs.map MeshHub.uuid).Nodup)
    (hfind : hubEntry (rosterExpire now s) o = some h) : hubEntry s o = some h := by
  have hsub : (rosterExpire now s).meshHubs.Sublist s.meshHubs := List.filter_sublist
  have hnodup' : ((rosterExpire now s).meshHubs.map MeshHub.uuid).Nodup :=
    (hsub.map _).nodup hnodup
  rw [hubEntry_eq_some_iff hnodup'] at hfind
  exact (hubEntry_eq_some_iff hnodup).mpr ⟨hsub.subset hfind.1, hfind.2⟩

/-- The window of an origin is found among the windows of all. -/
theorem hubEntry_mark (s : Presence) (o : Str) :
    (hubEntry s o).map hubMark = (s.meshHubs.map hubMark).find? fun m => m.1 == o := by
  rw [List.find?_map]
  rfl

/-- Two maps with the same windows cover the same. -/
theorem Covers.of_marks (hmarks : t.meshHubs.map hubMark = s.meshHubs.map hubMark)
    (hs : hubEntry s o = some b) {round : Int} {chunk : Nat} (hc : Covers b round chunk) :
    ∃ b', hubEntry t o = some b' ∧ Covers b' round chunk := by
  have heq : (hubEntry t o).map hubMark = some (hubMark b) := by
    rw [hubEntry_mark, hmarks, ← hubEntry_mark, hs, Option.map_some]
  obtain ⟨b', hb', hmark⟩ := Option.map_eq_some_iff.mp heq
  have hwin : b'.round = b.round ∧ b'.chunksSeen = b.chunksSeen :=
    ⟨congrArg (·.2.1) hmark, congrArg (·.2.2) hmark⟩
  exact ⟨b', hb', hc.congr hwin.1 hwin.2⟩

/-- The uuids of a map are part of its windows. -/
theorem uuids_of_marks (hmarks : t.meshHubs.map hubMark = s.meshHubs.map hubMark) :
    t.meshHubs.map MeshHub.uuid = s.meshHubs.map MeshHub.uuid := by
  have h := congrArg (List.map Prod.fst) hmarks
  rwa [List.map_map, List.map_map] at h

/-- An origin without a place changes nothing. -/
theorem meshHubGet_of_none (hplace : hubPlace s o = none) : meshHubGet s o = (s, none) := by
  unfold hubPlace at hplace
  cases hentry : hubEntry s o with
  | some h => rw [hentry] at hplace; cases hplace
  | none =>
    rw [hentry] at hplace
    have hfull : s.meshHubs.length ≥ maxMeshHubs := by
      by_contra hroom
      rw [if_neg hroom] at hplace
      cases hplace
    have hfind : meshHubFind s o = none := by
      rw [hubEntry, List.find?_eq_none] at hentry
      rw [meshHubFind, List.findIdx?_eq_none_iff]
      intro a ha
      exact Bool.eq_false_iff.mpr (hentry a ha)
    rw [meshHubGet, hfind]
    exact if_pos hfull

/-- The place of an origin: where its entry is, and that a new entry is one more at the end. -/
theorem meshHubGet_of_some (hnodup : (s.meshHubs.map MeshHub.uuid).Nodup)
    (hplace : hubPlace s o = some b) :
    ∃ mi, (meshHubGet s o).2 = some mi ∧ (meshHubGet s o).1.meshHubs[mi]? = some b ∧ b.uuid = o
      ∧ ((meshHubGet s o).1.meshHubs.map MeshHub.uuid).Nodup
      ∧ ∀ o', o' ≠ o → hubEntry (meshHubGet s o).1 o' = hubEntry s o' := by
  unfold hubPlace at hplace
  unfold meshHubGet
  cases hfind : meshHubFind s o with
  | some i =>
    obtain ⟨hi, hp, -⟩ := List.findIdx?_eq_some_iff_getElem.mp hfind
    have huuid : s.meshHubs[i].uuid = o := by simpa using hp
    rw [(hubEntry_eq_some_iff hnodup).mpr ⟨List.getElem_mem hi, huuid⟩, Option.some.injEq]
      at hplace
    exact ⟨i, rfl, by rw [List.getElem?_eq_getElem hi, hplace], hplace ▸ huuid, hnodup,
      fun _ _ => rfl⟩
  | none =>
    have hnew : ∀ a ∈ s.meshHubs, a.uuid ≠ o := by
      intro a ha
      have := List.findIdx?_eq_none_iff.mp hfind a ha
      simpa using this
    have hnone : hubEntry s o = none := by
      rw [hubEntry, List.find?_eq_none]
      intro a ha
      simpa using hnew a ha
    rw [hnone] at hplace
    by_cases hfull : s.meshHubs.length ≥ maxMeshHubs
    · rw [if_pos hfull] at hplace
      cases hplace
    · rw [if_neg hfull, Option.some.injEq] at hplace
      subst hplace
      dsimp only
      rw [if_neg hfull]
      refine ⟨_, rfl, List.getElem?_concat_length .., rfl, ?_, fun o' hne => ?_⟩
      · rw [List.map_append, List.nodup_append]
        refine ⟨hnodup, by simp, fun a ha c hc => ?_⟩
        obtain ⟨x, hx, rfl⟩ := List.mem_map.mp ha
        rw [List.map_cons, List.map_nil, List.mem_singleton] at hc
        rw [hc]
        exact hnew x hx
      · have hbne : (o == o') = false := beq_eq_false_iff_ne.mpr (Ne.symm hne)
        rw [hubEntry, List.find?_append, List.find?_singleton, hbne]
        simp [hubEntry]

/-- An entry changes in place, under its own uuid, and the entries of the other origins stay. -/
theorem hubEntry_set (hnodup : (s.meshHubs.map MeshHub.uuid).Nodup) {mi : Nat} {b' : MeshHub}
    (hget : s.meshHubs[mi]? = some b) (huuid : b'.uuid = b.uuid)
    (hset : t.meshHubs = s.meshHubs.set mi b') :
    (t.meshHubs.map MeshHub.uuid).Nodup ∧ hubEntry t b.uuid = some b'
      ∧ ∀ o', o' ≠ b.uuid → hubEntry t o' = hubEntry s o' := by
  obtain ⟨hmi, hb⟩ := List.getElem?_eq_some_iff.mp hget
  have hmap : t.meshHubs.map MeshHub.uuid = s.meshHubs.map MeshHub.uuid := by
    rw [hset, List.map_set, huuid]
    exact Table.set_of_getElem? (by rw [List.getElem?_map, hget]; rfl)
  have hnodup' : (t.meshHubs.map MeshHub.uuid).Nodup := hmap ▸ hnodup
  have hentry := (hubEntry_eq_some_iff hnodup').mpr ⟨hset ▸ List.mem_set hmi _, huuid⟩
  refine ⟨hnodup', hentry, fun o' hne => ?_⟩
  have hbne : (b.uuid == o') = false := beq_eq_false_iff_ne.mpr (Ne.symm hne)
  rw [hubEntry, hset, Table.find?_set_of_false hget hbne (by rw [huuid, hbne])]
  rfl

end Map

/-! ### One frame -/

section Frame

variable {s : Presence} {now : Int} {link : Option FrameLink} {payload : Str} {f : FrameName}

/-- A hub does nothing with a frame it does not listen to. -/
theorem processBotRoster_of_not_heard (hheard : ¬ ListensTo s payload) :
    processBotRoster now link s payload = (s, {}) := by
  unfold processBotRoster
  dsimp only
  split
  · rfl
  rename_i hnamed
  split
  · rfl
  rename_i hother
  refine absurd ⟨?_, ?_, ?_⟩ hheard
  · intro hempty
    simp [hempty] at hnamed
  · intro hdash
    simp [hdash] at hnamed
  · rintro ⟨hown, heq⟩
    simp [hown, heq] at hother

/-- A frame that the hub listens to is applied if the window takes it, and its lines leave the
windows as `takeFrame` left them. -/
theorem processBotRoster_of_heard (now : Int) (link : Option FrameLink)
    (hheard : ListensTo s payload) :
    let p := rosterFramePeek payload
    let r := meshHubGet s p.origin
    let x := processBotRoster now link s payload
    x.1.meshHubs.map hubMark = (takeFrame r.1 r.2 p).1.meshHubs.map hubMark
      ∧ x.2.applied = (takeFrame r.1 r.2 p).2
      ∧ (x.2.relayed.isSome = true → (takeFrame r.1 r.2 p).2 = true) := by
  obtain ⟨hempty, hdash, hown⟩ := hheard
  have hnamed : ((rosterFramePeek payload).origin.isEmpty
      || (rosterFramePeek payload).origin == ['-']) = false := by
    simp [hempty, hdash]
  have hother : (!s.hubUuid.isEmpty && (rosterFramePeek payload).origin == s.hubUuid)
    = false := by
    simpa [← Bool.not_eq_true] using hown
  unfold processBotRoster
  dsimp only
  rw [hnamed, hother, if_neg Bool.false_ne_true, if_neg Bool.false_ne_true]
  generalize meshHubGet s (rosterFramePeek payload).origin = r
  generalize takeFrame r.1 r.2 (rosterFramePeek payload) = q
  cases hnews : q.2 with
  | false => exact ⟨rfl, rfl, fun h => by cases h⟩
  | true =>
    rw [Bool.not_true, if_neg Bool.false_ne_true]
    split
    · exact ⟨rosterWalk_windows _, rfl, fun _ => rfl⟩
    · exact ⟨rosterWalk_windows _, rfl, fun _ => rfl⟩

/-- The name of a frame is what the relay control says, before anything is applied. -/
theorem heardName_eq_some (hname : heardName s payload = some f) :
    ListensTo s payload ∧ f.origin = (rosterFramePeek payload).origin
      ∧ f.started = (rosterFramePeek payload).started
      ∧ ∃ g, (rosterFramePeek payload).control = some g ∧ f.round = g.round
      ∧ f.chunk = g.chunk := by
  unfold heardName at hname
  dsimp only at hname
  split at hname
  · rename_i hheard
    obtain ⟨g, hg, rfl⟩ := Option.map_eq_some_iff.mp hname
    exact ⟨hheard, rfl, rfl, g, hg, rfl, rfl⟩
  · cases hname

/-- What the window of the origin is asked, and what it answers. An origin without a place changes
nothing and takes every frame. A frame without a relay control leaves the window as it is, a new
one included. A refused frame has still emptied the window when it names another start. -/
theorem takeFrame_spec (hnodup : (s.meshHubs.map MeshHub.uuid).Nodup) (p : FramePeek) :
    let r := meshHubGet s p.origin
    let q := takeFrame r.1 r.2 p
    (q.1.meshHubs.map MeshHub.uuid).Nodup
      ∧ (∀ o, o ≠ p.origin → hubEntry q.1 o = hubEntry s o)
      ∧ (hubPlace s p.origin = none → q = (s, true))
      ∧ (∀ b, hubPlace s p.origin = some b → p.control = none → hubEntry q.1 p.origin = some b)
      ∧ ∀ b g, hubPlace s p.origin = some b → p.control = some g →
        hubEntry q.1 p.origin = some (b.window p.started g.round g.chunk).1
          ∧ q.2 = (b.window p.started g.round g.chunk).2 := by
  intro r q
  -- the origin has no place
  cases hplace : hubPlace s p.origin with
  | none =>
    have hr : r = (s, none) := meshHubGet_of_none hplace
    have hq : q = (s, true) := by
      show takeFrame r.1 r.2 p = _
      rw [hr]
      cases hcontrol : p.control <;> simp [takeFrame, hcontrol]
    rw [hq]
    exact ⟨hnodup, fun _ _ => rfl, fun _ => rfl, fun _ h => (by cases h), fun _ _ h =>
      (by cases h)⟩
  -- it has one: its window is asked if the frame carries a relay control
  | some b =>
    obtain ⟨mi, hmi, hget, huuid, hnodup₁, hothers⟩ := meshHubGet_of_some hnodup hplace
    have hentry : hubEntry r.1 p.origin = some b :=
      (hubEntry_eq_some_iff hnodup₁).mpr ⟨List.mem_of_getElem? hget, huuid⟩
    cases hcontrol : p.control with
    | none =>
      have hq : q = (r.1, true) := by
        show takeFrame r.1 r.2 p = _
        simp [takeFrame, hcontrol]
      rw [hq]
      refine ⟨hnodup₁, hothers, fun h => (by cases h), fun c hc _ => ?_,
        fun _ _ _ h => by cases h⟩
      rw [← Option.some.inj hc]
      exact hentry
    -- the window that answers goes back into the table, also where it refuses
    | some g =>
      have hq : q = ({ r.1 with
          meshHubs := r.1.meshHubs.set mi (b.window p.started g.round g.chunk).1 },
          (b.window p.started g.round g.chunk).2) := by
        show takeFrame r.1 r.2 p = _
        have hbind : r.2.bind (fun mi => (r.1.meshHubs[mi]?).map (mi, ·)) = some (mi, b) := by
          rw [hmi, Option.bind_some, hget, Option.map_some]
        rw [takeFrame, hcontrol, hbind]
      have hwin := (window_spec b p.started g.round g.chunk).1
      obtain ⟨hnodup₂, hafter, hothers₂⟩ := hubEntry_set hnodup₁ hget hwin
        (t := { r.1 with meshHubs := r.1.meshHubs.set mi (b.window p.started g.round g.chunk).1 })
        rfl
      rw [huuid] at hafter hothers₂
      rw [hq]
      refine ⟨hnodup₂, fun o ho => (hothers₂ o ho).trans (hothers o ho), fun h => (by cases h),
        fun _ _ h => (by cases h), fun c g' hc hg' => ?_⟩
      rw [← Option.some.inj hc, ← Option.some.inj hg']
      exact ⟨hafter, rfl⟩

/-- What a frame does to the windows.

What a window covers, it covers after the frame too, as long as the frame does not restart it. The
window of the frame's origin covers the frame. The frame is applied only if it is news to the
judged window, and relayed only if it is applied. -/
theorem processBotRoster_spec (now : Int) (link : Option FrameLink)
    (hnodup : (s.meshHubs.map MeshHub.uuid).Nodup) (payload : Str) :
    let x := processBotRoster now link s payload
    (x.1.meshHubs.map MeshHub.uuid).Nodup
      ∧ (x.2.relayed.isSome = true → x.2.applied = true)
      ∧ (∀ o b round chunk, hubEntry s o = some b → Covers b round chunk →
        (∀ f ∈ heardName s payload, f.origin = o → ¬ Restarts b f.started) →
        ∃ b', hubEntry x.1 o = some b' ∧ Covers b' round chunk)
      ∧ ∀ f ∈ heardName s payload, ∀ b ∈ hubPlace s f.origin,
        (∃ b', hubEntry x.1 f.origin = some b' ∧ Covers b' f.round f.chunk)
          ∧ (x.2.applied = true →
            ¬ Covers (judged b f.started) f.round f.chunk
              ∧ (judged b f.started).round ≤ f.round) := by
  intro x
  by_cases hheard : ListensTo s payload
  swap
  · have hx : x = (s, {}) := processBotRoster_of_not_heard hheard
    have hname : heardName s payload = none := if_neg hheard
    rw [hx, hname]
    exact ⟨hnodup, fun h => (by cases h), fun o b _ _ hb hc _ => ⟨b, hb, hc⟩,
      fun f hf => (by cases hf)⟩
  obtain ⟨hmarks, happlied, hrelayed⟩ :=
    processBotRoster_of_heard now link hheard
  obtain ⟨hnodup', hothers, hfull, hplain, hasked⟩ :=
    takeFrame_spec hnodup (rosterFramePeek payload)
  -- what holds of the windows after `takeFrame` holds of them after the lines
  have hlines : ∀ {o b round chunk}, hubEntry
    (takeFrame (meshHubGet s (rosterFramePeek payload).origin).1
      (meshHubGet s (rosterFramePeek payload).origin).2 (rosterFramePeek payload)).1 o = some b →
      Covers b round chunk → ∃ b', hubEntry x.1 o = some b' ∧ Covers b' round chunk :=
    fun hb hc => Covers.of_marks hmarks hb hc
  refine ⟨(uuids_of_marks hmarks).symm ▸ hnodup', fun h => happlied.trans (hrelayed h),
    fun o b round chunk hb hc hkeep => ?_, fun f hf b hb => ?_⟩
  -- a window of another origin, or of the frame's own
  · by_cases ho : o = (rosterFramePeek payload).origin
    · subst ho
      have hplace : hubPlace s (rosterFramePeek payload).origin = some b := by rw [hubPlace, hb]
      -- without a relay control the window is as it was
      cases hcontrol : (rosterFramePeek payload).control with
      | none => exact hlines (hplain b hplace hcontrol) hc
      | some g =>
        have hname : heardName s payload = some
            ⟨(rosterFramePeek payload).origin, (rosterFramePeek payload).started, g.round,
             g.chunk⟩ := by
          rw [heardName, if_pos hheard, hcontrol, Option.map_some]
        -- the frame does not restart the window, so what it covered it still covers
        have hstays : judged b (rosterFramePeek payload).started = b := if_neg (hkeep _ hname rfl)
        refine hlines (hasked b g hplace hcontrol).1 ?_
        exact (window_spec b _ g.round g.chunk).2.2.1 round chunk (hstays.symm ▸ hc)
    · exact hlines ((hothers o ho).trans hb) hc
  -- the frame itself, and what its window answered
  · obtain ⟨-, horigin, hstarted, g, hcontrol, hround, hchunk⟩ := heardName_eq_some hf
    rw [horigin] at hb ⊢
    rw [hstarted, hround, hchunk]
    obtain ⟨hentry, hnews⟩ := hasked b g hb hcontrol
    obtain ⟨-, hcovers, -, hfresh⟩ :=
      window_spec b (rosterFramePeek payload).started g.round g.chunk
    exact ⟨hlines hentry hcovers, fun h => hfresh (hnews.symm.trans (happlied.symm.trans h))⟩

end Frame

/-! ### Whole runs -/

section Runs

variable {r : RosterRun} {now : Int} {link : Option FrameLink} {payload : Str} {f : FrameName}

/-- What the hub knows of the frames it heard. An applied frame was heard, a relayed one was
applied, and the window of an origin covers all that it was asked about. -/
structure OnceInv (r : RosterRun) : Prop where
  once : Once r
  sub : r.relayed.Sublist r.applied
  heard : ∀ a ∈ r.applied, a ∈ r.heard
  uuids : (r.state.meshHubs.map MeshHub.uuid).Nodup
  covered : ∀ o, ∀ a ∈ r.seen o, a.origin = o ∧ ∃ h, hubEntry r.state o = some h
    ∧ Covers h a.round a.chunk

/-- The tick empties the windows of the origins it drops, and leaves the rest. -/
theorem OnceInv.tick (h : OnceInv r) : OnceInv (r.step (.tick now)) where
  once := ⟨h.once.applied, h.once.relayed, h.once.rounds⟩
  sub := h.sub
  heard := h.heard
  uuids := by
    have hsub : (rosterExpire now r.state).meshHubs.Sublist r.state.meshHubs :=
      List.filter_sublist
    exact (hsub.map _).nodup h.uuids
  covered o a ha := by
    change a ∈ (if (hubEntry (rosterExpire now r.state) o).isSome then r.seen o else []) at ha
    split at ha
    · rename_i hsome
      obtain ⟨b, hb⟩ := Option.isSome_iff_exists.mp hsome
      obtain ⟨horigin, c, hc, hcovers⟩ := h.covered o a ha
      rw [hubEntry_rosterExpire h.uuids hb, Option.some.injEq] at hc
      exact ⟨horigin, b, hb, hc ▸ hcovers⟩
    · exact absurd ha List.not_mem_nil

/-- A frame that is in the window that judges `f` is of the same origin, and the window covers
it. -/
theorem OnceInv.window_covered (h : OnceInv r) {a : FrameName} (ha : a ∈ r.window f) :
    a.origin = f.origin ∧ ∃ b, hubEntry r.state f.origin = some b
      ∧ hubPlace r.state f.origin = some b ∧ ¬ Restarts b f.started
      ∧ Covers b a.round a.chunk := by
  unfold RosterRun.window at ha
  split at ha
  · exact absurd ha List.not_mem_nil
  · rename_i hno
    obtain ⟨horigin, b, hb, hcovers⟩ := h.covered f.origin a ha
    have hplace : hubPlace r.state f.origin = some b := by rw [hubPlace, hb]
    exact ⟨horigin, b, hb, hplace, fun hre => hno ⟨b, hplace, hre⟩, hcovers⟩

/-- A frame that is applied is another one than the frames applied before, and of no older round
than those of its origin and start. This is where the condition is used: a frame that was heard
before is in the window and so covered, or is another one and of no newer round. -/
theorem OnceInv.news (h : OnceInv r) (hclear : FrameClear r (.frame now link payload))
    (hf : heardName r.state payload = some f)
    (happ : (processBotRoster now link r.state payload).2.applied = true) :
    ∀ a ∈ r.applied, a.origin = f.origin → a.started = f.started → a ≠ f ∧ a.round ≤ f.round := by
  obtain ⟨-, -, -, hasked⟩ := processBotRoster_spec now link h.uuids payload
  intro a ha ho hs
  rcases hclear f hf with ⟨b, hb, hpast⟩ | hbefore
  · -- a frame that the window is past is not applied
    exact absurd hpast ((hasked f hf b hb).2 happ).1
  rcases hbefore a (h.heard a ha) ho hs with hin | hother
  · obtain ⟨-, b, -, hplace, hno, hcovers⟩ := h.window_covered hin
    obtain ⟨hnot, hle⟩ := (hasked f hf b hplace).2 happ
    rw [judged, if_neg hno] at hnot hle
    refine ⟨fun heq => hnot (heq ▸ hcovers), ?_⟩
    rcases hcovers with hlt | ⟨heq, -⟩
    · omega
    · omega
  · exact hother

/-- The window covers what it was asked about, the frame included. -/
theorem OnceInv.seeing (h : OnceInv r) (now : Int) (link : Option FrameLink)
    (hf : heardName r.state payload = some f) (o : Str) :
    ∀ a ∈ r.seeing f o, a.origin = o
      ∧ ∃ b, hubEntry (processBotRoster now link r.state payload).1 o = some b
        ∧ Covers b a.round a.chunk := by
  obtain ⟨-, -, hkeep, hasked⟩ := processBotRoster_spec now link h.uuids payload
  intro a ha
  unfold RosterRun.seeing at ha
  split at ha
  · rename_i hcond
    obtain ⟨ho, hsome⟩ := hcond
    subst ho
    obtain ⟨b, hb⟩ := Option.isSome_iff_exists.mp hsome
    rcases List.mem_cons.mp ha with rfl | hin
    · exact ⟨rfl, (hasked a hf b hb).1⟩
    · obtain ⟨horigin, c, hc, -, hno, hcovers⟩ := h.window_covered hin
      refine ⟨horigin, hkeep _ c _ _ hc hcovers fun g hg _ => ?_⟩
      rw [Option.mem_def, hf, Option.some.injEq] at hg
      rw [← hg]
      exact hno
  · rename_i hcond
    obtain ⟨horigin, c, hc, hcovers⟩ := h.covered o a ha
    refine ⟨horigin, hkeep o c _ _ hc hcovers fun g hg hgo => ?_⟩
    -- the window of another origin
    rw [Option.mem_def, hf, Option.some.injEq] at hg
    refine absurd ⟨?_, ?_⟩ hcond
    · rw [← hgo, ← hg]
    · rw [hubPlace, hc]
      rfl

/-- A frame without a name leaves the record as it is, and covers what was covered. -/
theorem OnceInv.unnamed (h : OnceInv r) (hname : heardName r.state payload = none) :
    OnceInv { r with state := (processBotRoster now link r.state payload).1 } := by
  obtain ⟨huuids, -, hkeep, -⟩ := processBotRoster_spec now link h.uuids payload
  refine ⟨⟨h.once.applied, h.once.relayed, h.once.rounds⟩, h.sub, h.heard, huuids,
    fun o a ha => ?_⟩
  obtain ⟨horigin, b, hb, hcovers⟩ := h.covered o a ha
  refine ⟨horigin, hkeep o b _ _ hb hcovers fun f hf => ?_⟩
  rw [hname] at hf
  cases hf

/-- One frame that meets the condition keeps the invariant. A frame that is not applied changes
the record of what was heard only. -/
theorem OnceInv.frame (h : OnceInv r) (hclear : FrameClear r (.frame now link payload)) :
    OnceInv (r.step (.frame now link payload)) := by
  unfold RosterRun.step
  dsimp only
  cases hf : heardName r.state payload with
  | none => exact h.unnamed hf
  | some f =>
    obtain ⟨huuids, hrelay, -, -⟩ := processBotRoster_spec now link h.uuids payload
    have hnews := h.news hclear hf
    have hseeing := h.seeing now link hf
    generalize processBotRoster now link r.state payload = x at huuids hrelay hnews hseeing
    have hheard : ∀ a ∈ r.applied, a ∈ f :: r.heard :=
      fun a ha => List.mem_cons_of_mem _ (h.heard a ha)
    dsimp only
    cases happ : x.2.applied with
    | false =>
      have hrel : x.2.relayed.isSome = false := by
        rw [Bool.eq_false_iff]
        exact fun hsome => Bool.false_ne_true (happ.symm.trans (hrelay hsome))
      rw [hrel]
      exact ⟨⟨h.once.applied, h.once.relayed, h.once.rounds⟩, h.sub, hheard, huuids, hseeing⟩
    | true =>
      have hother := hnews happ
      have hnew : f ∉ r.applied := fun hmem => (hother f hmem rfl rfl).1 rfl
      have happlied : (f :: r.applied).Nodup := List.nodup_cons.mpr ⟨hnew, h.once.applied⟩
      have hrounds : (f :: r.applied).Pairwise fun later earlier =>
          later.origin = earlier.origin → later.started = earlier.started →
            earlier.round ≤ later.round :=
        List.pairwise_cons.mpr
          ⟨fun a ha ho hs => (hother a ha ho.symm hs.symm).2, h.once.rounds⟩
      have hheard' : ∀ a ∈ f :: r.applied, a ∈ f :: r.heard := by
        intro a ha
        rcases List.mem_cons.mp ha with rfl | hold
        · exact List.mem_cons_self
        · exact hheard a hold
      cases hrel : x.2.relayed.isSome with
      | false =>
          exact ⟨⟨happlied, h.once.relayed, hrounds⟩, h.sub.cons f, hheard', huuids, hseeing⟩
      | true =>
        have hrelayed : (f :: r.relayed).Nodup :=
          List.nodup_cons.mpr ⟨fun hmem => hnew (h.sub.subset hmem), h.once.relayed⟩
        exact ⟨⟨happlied, hrelayed, hrounds⟩, h.sub.cons_cons f, hheard', huuids, hseeing⟩

/-- A hub that hears frames of any text in any order, late and more than once, applies and relays
none twice, and applies no round after a newer one of its origin and start, in every run whose
frames meet the condition. -/
theorem frames_once {s : Presence} (hempty : s.meshHubs = []) {es : List RosterEvent}
    (hclear : Lww.Along FrameClear RosterRun.step { state := s } es) :
    Once (es.foldl RosterRun.step { state := s }) := by
  have hstart : OnceInv { state := s } :=
    ⟨⟨.nil, .nil, .nil⟩, .slnil, fun a ha =>
     absurd ha List.not_mem_nil, by rw [hempty]; exact .nil,
      fun _ a ha => absurd ha List.not_mem_nil⟩
  have hstep : ∀ (r : RosterRun) (ev : RosterEvent), OnceInv r → FrameClear r ev →
    OnceInv (r.step ev) := by
    intro r ev hr hev
    cases ev with
    | frame now link payload => exact hr.frame hev
    | tick now => exact hr.tick
  exact (Lww.inv_run hstep hstart hclear).once

end Runs

/-! ### A restarted hub -/

/-- A frame of the hub `far`, started at 1700000000. -/
def frameBefore : Str :=
  "h|far|Far|1700000000|2.5.2\nv|rs\ng|1700000100000|0|16\nl|mid|Mid|1\n".toList

/-- Its first frame after a restart. -/
def frameAfter : Str :=
  "h|far|Far|1700000150|2.5.2\nv|rs\ng|1700000160000|0|16\nl|mid|Mid|1\n".toList

/-- A frame of a hub that does not write relay controls. -/
def framePlain : Str := "h|old|Old|1700000000|2.4.0\n".toList

/-- A frame of the hub itself, back around a cycle. -/
def frameOwn : Str := "h|me|Me|1700000000|2.5.2\ng|1700000100000|0|15\n".toList

/-- A hub that has heard nothing. -/
def quietHub : Presence := { hubUuid := "me".toList }

/-- The frame from before the restart comes by one path in time, by another after the first frame
from after it. -/
theorem crossed_starts_twice :
    ([RosterEvent.frame 1700000161 none frameBefore, .frame 1700000162 none frameAfter,
        .frame 1700000163 none frameBefore].foldl RosterRun.step { state := quietHub }).relayed
      = [⟨"far".toList, 1700000000, 1700000100000, 0⟩,
        ⟨"far".toList, 1700000150, 1700000160000, 0⟩,
        ⟨"far".toList, 1700000000, 1700000100000, 0⟩]
      ∧ ¬ Once ([RosterEvent.frame 1700000161 none frameBefore, .frame 1700000162 none frameAfter,
        .frame 1700000163 none frameBefore].foldl RosterRun.step { state := quietHub }) := by
  have hrelayed : ([RosterEvent.frame 1700000161 none frameBefore,
    .frame 1700000162 none frameAfter,
      .frame 1700000163 none frameBefore].foldl RosterRun.step { state := quietHub }).relayed
      = [⟨"far".toList, 1700000000, 1700000100000, 0⟩,
        ⟨"far".toList, 1700000150, 1700000160000, 0⟩,
        ⟨"far".toList, 1700000000, 1700000100000, 0⟩] := by decide +kernel
  refine ⟨hrelayed, fun honce => ?_⟩
  have hnodup := honce.relayed
  rw [hrelayed] at hnodup
  exact absurd hnodup (by decide)

/-- The frames of the two starts in order and each of them twice, with frames of other hubs and
copies of the hub's own gossip between them: the hub takes each once. -/
theorem frames_once_restart :
    let es := [RosterEvent.frame 1700000161 none frameBefore, .frame 1700000161 none framePlain,
      .frame 1700000161 none frameBefore, .frame 1700000161 none frameOwn,
      .frame 1700000162 none frameAfter, .frame 1700000162 none frameOwn,
      .frame 1700000162 none framePlain, .tick 1700000163, .frame 1700000163 none frameAfter]
    (es.foldl RosterRun.step { state := quietHub }).applied
        = [⟨"far".toList, 1700000150, 1700000160000, 0⟩,
          ⟨"far".toList, 1700000000, 1700000100000, 0⟩]
      ∧ Once (es.foldl RosterRun.step { state := quietHub }) := by
  refine ⟨by decide +kernel, frames_once (s := quietHub) rfl ?_⟩
  exact ⟨by decide +kernel, by decide +kernel, by decide +kernel, by decide +kernel,
    by decide +kernel, by decide +kernel, by decide +kernel, trivial, by decide +kernel, trivial⟩

end IrcHub.Proofs
