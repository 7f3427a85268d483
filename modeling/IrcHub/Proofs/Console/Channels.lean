import IrcHub.Proofs.Console.ReadBack
import IrcHub.Proofs.Convergence.Channels

/-!
# `IrcHub.Proofs.Console.Channels`: the record a channel command leaves

The record a channel command leaves. `channel add` and `channel del` hand one record to the store
and send its line, whatever the store says. So the answer of the console is true or false by what
the store does.

- `ChanHeld`: the record as the hub reads it back: key, modes, op and stamp, under a spelling of
  the name
- `update_of_held`, `update_of_new`: what the store does with a record of a channel that is held,
  and of a new one
- `chanHeld_update_iff`: when the hub holds the record it handed to the store
- `chanHeld_next_iff`: the same for a record stamped past what is there, as the commands stamp it
- `ChanSaid`: the hub holds it and its last line says so. `chanSaid_iff`: the line always does
- `channelAdded_iff`, `channelRemoved_iff`: when the two answers are true

A stamp can be refused: where the held record is stamped as far ahead as a stamp may be, the next
one would be too far ahead. That is the case `AddTaken` excludes. And at the last stamp there is,
the next one is that stamp again, so the record that is there may be the very one the command asks
for; the equivalences have this as a case of its own.

`SaneClock` is a clock after 1970 whose bound on stamps is a 64-bit number. Every clock of this
millennium is one.
-/

set_option autoImplicit false

namespace IrcHub.Proofs

open IrcHub.Hub Str
open String (utf8Len)

/-- The hub holds a channel with this key, modes, op and stamp, under a spelling of the name. -/
def ChanHeld (s : HubState) (name key : Str) (modes : Int) (op : Str) (ts : Int) : Prop :=
  ∃ e u, chanEntry s name = some e ∧ e.timestamp = ts
    ∧ parseGlobalChannelValue e.value = some (u, key, modes, op) ∧ eqIc u name = true

/-! ### The fields of a record -/

/-- Key and modes between the name and the op. -/
def midFields (extra : Str) : Str × Int :=
  match rsplitOnce '|' (trunc extra 128) with
  | some (key, modes) => (key, atoi modes)
  | none => (trunc extra 128, 0)

/-- The text of a record is read back, with the name as it is spelled there. -/
theorem parse_text (r : ChanRecord) {u : Str} (hu : '|' ∉ u) :
    parseGlobalChannelValue (u ++ '|' :: (r.extra ++ '|' :: r.op))
      = some (u, (midFields r.extra).1, (midFields r.extra).2, r.op) := by
  have hsplit : splitOnce '|' (u ++ '|' :: (r.extra ++ '|' :: r.op)) = some
    (u, r.extra ++ '|' :: r.op) :=
    splitOnce_eq_some_iff.mpr ⟨rfl, hu⟩
  have hlast : rsplitOnce '|' (r.extra ++ '|' :: r.op) = some (r.extra, r.op) :=
    rsplitOnce_eq_some_iff.mpr ⟨rfl, r.opBar⟩
  unfold parseGlobalChannelValue midFields
  simp only [hsplit, hlast]
  cases rsplitOnce '|' (trunc r.extra 128) <;> rfl

/-- The name of a value that can be read is its first field, and has no bar. -/
theorem firstField_of_parse {v u key op : Str} {modes : Int}
    (h : parseGlobalChannelValue v = some (u, key, modes, op)) : firstField v = u ∧ '|' ∉ u := by
  unfold parseGlobalChannelValue at h
  split at h
  · cases h
  rename_i chan rest hsplit
  obtain ⟨rfl, hbar⟩ := splitOnce_eq_some_iff.mp hsplit
  have hchan : chan = u := by
    split at h
    · cases h
      rfl
    · simp only [] at h
      split at h
      · cases h
        rfl
      · cases h
        rfl
  subst hchan
  exact ⟨firstField_append_bar hbar, hbar⟩

/-- A value has room for its name, a bar and its op. It bounds the op of a value that was cut. -/
theorem utf8Len_of_parse {v u key op : Str} {modes : Int}
    (h : parseGlobalChannelValue v = some (u, key, modes, op)) :
    utf8Len u + 1 + utf8Len op ≤ utf8Len v := by
  have hsize : Char.utf8Size '|' = 1 := rfl
  unfold parseGlobalChannelValue at h
  split at h
  · cases h
  rename_i chan rest hsplit
  obtain ⟨rfl, -⟩ := splitOnce_eq_some_iff.mp hsplit
  rw [String.utf8Len_append, String.utf8Len_cons, hsize]
  split at h
  · cases h
    omega
  rename_i mid op' hlast
  obtain ⟨rfl, -⟩ := rsplitOnce_eq_some_iff.mp hlast
  rw [String.utf8Len_append, String.utf8Len_cons, hsize]
  simp only [] at h
  split at h
  · cases h
    omega
  · cases h
    omega

/-- The key and the modes of an add are read back from between name and op. The bounds keep them
from being cut. -/
theorem midFields_key {key : Str} {modes : Int} (hkey : utf8Len key < 64)
    (hmodes : 0 ≤ modes ∧ modes < 1000) :
    midFields (key ++ '|' :: ofInt modes) = (key, modes) := by
  have hnum : Fit (fun _ => True) 3 (ofInt modes) :=
    fit_ofInt_small hmodes.1 hmodes.2 (fun _ _ => trivial)
  have hlen := hnum.len
  have hshort : utf8Len (key ++ '|' :: ofInt modes) < 128 := by
    rw [String.utf8Len_append, String.utf8Len_cons]
    have hbar : Char.utf8Size '|' = 1 := rfl
    omega
  have hlast : rsplitOnce '|' (key ++ '|' :: ofInt modes) = some (key, ofInt modes) :=
    rsplitOnce_eq_some_iff.mpr ⟨rfl, bar_notMem_ofInt _⟩
  have hread : atoi (ofInt modes) = modes := by
    have hi64 : i64Max = 9223372036854775807 := rfl
    unfold atoi toI32
    rw [atoll_ofInt hmodes.1 (by omega)]
    omega
  unfold midFields
  rw [trunc_of_lt hshort, hlast]
  simp only [hread]

/-! ### The store -/

section Store

variable {clk : Clock} {s : HubState} {r : ChanRecord}

/-- A stamp ahead of the clock is not stored. -/
theorem update_of_ahead (h : tsAhead clk r.ts = true) :
    (updateGlobalEntry clk s .c r.chan r.extra r.op r.ts).1 = s := by
  unfold updateGlobalEntry
  simp only [keyIsModes, Bool.false_eq_true, if_false, h, if_true]
  split
  · split
    · rfl
    · rw [if_neg]
      unfold lwwAccepts
      rw [h]
      exact Bool.false_ne_true
  · rfl

/-- A held channel takes a record that wins, under its own spelling as far as it fits. One that
does not win changes nothing. -/
theorem update_of_held (clk : Clock) (hs : StoreInv s) {i : Nat} {e : GlobalEntry}
    (hfind : globalFind s .c r.chan = some i) (hget : s.globalEntries[i]? = some e) :
    if lwwAccepts clk r.ts r.active e.timestamp (globalValueActive e.value) then
      ∃ e', chanEntry (updateGlobalEntry clk s .c r.chan r.extra r.op r.ts).1 r.chan = some e'
        ∧ e'.timestamp = r.ts
        ∧ e'.value = trunc (firstField e.value) (maxChan + 8) ++ '|' :: (r.extra ++ '|' :: r.op)
    else (updateGlobalEntry clk s .c r.chan r.extra r.op r.ts).1 = s := by
  have hname := hs.nameHeld_of_find hfind hget
  have hle := hname.le
  rw [firstField_of_bar_notMem r.chanBar] at hle
  let u := trunc (firstField e.value) (maxChan + 8)
  have hu : '|' ∉ u := fun hm => bar_notMem_firstField e.value (mem_of_mem_trunc hm)
  have hcomb : combinedValue .c (updateChan .c e.value r.chan) r.extra (safeOp r.op)
      = u ++ '|' :: (r.extra ++ '|' :: r.op) := by
    rw [r.safeOp_op]
    exact combinedValue_eq r (Nat.le_trans (String.utf8Len_le_of_prefix (trunc_isPrefix _ _)) hle)
  have hact : globalValueActive (u ++ '|' :: (r.extra ++ '|' :: r.op)) = r.active := by
    rw [globalValueActive_append_bar, ← r.globalValueActive_text, ChanRecord.text,
      globalValueActive_append_bar r.chan]
  by_cases hacc : lwwAccepts clk r.ts r.active e.timestamp (globalValueActive e.value) = true
  case neg =>
    rw [if_neg hacc]
    unfold updateGlobalEntry
    simp only [keyIsModes, Bool.false_eq_true, if_false, hfind, hget, hcomb, hact, hacc]
  rw [if_pos hacc]
  have heq : (updateGlobalEntry clk s .c r.chan r.extra r.op r.ts).1
      = replaceOld clk s i e (u ++ '|' :: (r.extra ++ '|' :: r.op)) r.ts u := by
    unfold updateGlobalEntry
    simp only [keyIsModes, Bool.false_eq_true, if_false, hfind, hget, hcomb, hact, hacc, if_true]
    rfl
  have hkey := hs.key_of_find hfind hget
  have hold : keyIsModes e.key = false := by
    rw [hkey]
    rfl
  obtain ⟨hsame, -⟩ := sameOld_replaceOld hs hfind hget hu
    (hname.trunc (Nat.le_refl _) (firstField_append_bar hu)) clk u
  let e' : GlobalEntry :=
    { e with value := u ++ '|' :: (r.extra ++ '|' :: r.op), timestamp := r.ts }
  have hset : (s.globalEntries.set i e')[i]? = some e' :=
    List.getElem?_set_self (List.getElem?_eq_some_iff.mp hget).1
  refine ⟨e', ?_, rfl, rfl⟩
  rw [heq, chanEntry, globalFind, hsame.map]
  have hmap : s.globalIdx.map (gkey .c r.chan) = some i := hfind
  show (s.globalIdx.map (gkey .c r.chan)).bind _ = some e'
  rw [hmap]
  exact (hsame.entry i e' hold).mpr hset

/-- A channel the hub does not hold is appended, if the floor and the room let it in. -/
theorem update_of_new (hs : StoreInv s) (hahead : tsAhead clk r.ts = false)
    (hfind : globalFind s .c r.chan = none) :
    chanEntry (updateGlobalEntry clk s .c r.chan r.extra r.op r.ts).1 r.chan
      = if r.admitted s ⟨.update, clk⟩ = true ∧ globalRoom s .c = true then
          some (newEntry .c r.text r.ts) else none := by
  have hstore : (updateGlobalEntry clk s .c r.chan r.extra r.op r.ts).1 = r.store
    ⟨.update, clk⟩ s := rfl
  rw [hstore, store_of_new hahead hfind]
  split
  · rename_i hroom
    have hland := landed_push hs hfind hroom.2
    rw [chanEntry, hland.find, Option.bind_some, globalPush_eq]
    simp
  · rw [chanEntry, hfind]
    rfl

/-- When the hub holds the record it handed to the store: a stamp ahead of the clock changes
nothing, a held channel takes it under a name that fits, another one is let in or not. `hpast`
says that a held record is older, so that it is not the record asked for by chance. -/
theorem chanHeld_update_iff (hs : StoreInv s)
    (hpast : tsAhead clk r.ts = false → ∀ e, chanEntry s r.chan = some e →
      eqIc (firstField e.value) r.chan = true → e.timestamp < r.ts) :
    ChanHeld (updateGlobalEntry clk s .c r.chan r.extra r.op r.ts).1 r.chan (midFields r.extra).1
        (midFields r.extra).2 r.op r.ts
      ↔ if tsAhead clk r.ts = true then
          ChanHeld s r.chan (midFields r.extra).1 (midFields r.extra).2 r.op r.ts
        else if (chanEntry s r.chan).isSome then utf8Len r.chan < maxChan + 8
        else r.admitted s ⟨.update, clk⟩ = true ∧ globalRoom s .c = true := by
  -- a stamp too far ahead is not taken
  by_cases hahead : tsAhead clk r.ts = true
  case pos => rw [update_of_ahead hahead, if_pos hahead]
  rw [if_neg hahead]
  rw [Bool.not_eq_true] at hahead
  -- a channel that is new
  cases hentry : chanEntry s r.chan with
  | none =>
    have hfind : globalFind s .c r.chan = none := by
      cases hf : globalFind s .c r.chan with
      | none => rfl
      | some i =>
        obtain ⟨e, hget, -⟩ := hs.sound.held .c r.chan i hf
        rw [chanEntry, hf, Option.bind_some, hget] at hentry
        cases hentry
    have hnew := update_of_new hs hahead hfind
    rw [if_neg (by simp)]
    -- it is let in if the floor and the room allow it
    by_cases hin : r.admitted s ⟨.update, clk⟩ = true ∧ globalRoom s .c = true
    · rw [if_pos hin] at hnew
      refine iff_of_true ⟨_, r.chan, hnew, rfl, parse_text r r.chanBar, ?_⟩ hin
      exact eqIc_iff.mpr rfl
    · rw [if_neg hin] at hnew
      refine iff_of_false ?_ hin
      rintro ⟨e, u, he, -⟩
      rw [hnew] at he
      cases he
  -- a channel that is held
  | some e =>
    obtain ⟨i, hfind, hget⟩ := Option.bind_eq_some_iff.mp hentry
    have hheld := update_of_held clk hs hfind hget
    have hname := hs.nameHeld_of_find hfind hget
    have hbar : '|' ∉ trunc (firstField e.value) (maxChan + 8) :=
      fun hm => bar_notMem_firstField e.value (mem_of_mem_trunc hm)
    rw [if_pos (by rfl)]
    -- under the name asked for: the stamp is newer, and the record is taken
    by_cases hsame : eqIc (firstField e.value) r.chan = true
    · have hacc : lwwAccepts clk r.ts r.active e.timestamp (globalValueActive e.value)
        = true := by
        unfold lwwAccepts
        rw [hahead]
        simp [hpast hahead e hentry hsame]
      rw [if_pos hacc] at hheld
      obtain ⟨e', he', hts, hval⟩ := hheld
      have hparse := parse_text r hbar
      rw [← hval] at hparse
      constructor
      · rintro ⟨a, u, ha, -, hu, heq⟩
        rw [he'] at ha
        cases ha
        rw [hparse] at hu
        cases hu
        rw [← utf8Len_eq_of_lower_eq (eqIc_iff.mp heq)]
        exact utf8Len_trunc_lt _ (by decide)
      -- the name is kept whole if it fits
      · intro hshort
        have hlow := eqIc_iff.mp hsame
        refine ⟨e', _, he', hts, hparse, eqIc_iff.mpr ?_⟩
        rw [trunc_of_lt (by rw [utf8Len_eq_of_lower_eq hlow]; exact hshort)]
        exact hlow
    · -- the channel is held under a name that was cut
      refine iff_of_false ?_ fun hshort => hsame (eqIc_iff.mpr ?_)
      · rintro ⟨a, u, ha, -, hu, heq⟩
        split at hheld
        · obtain ⟨e', he', -, hval⟩ := hheld
          rw [he'] at ha
          cases ha
          have hfirst := (firstField_of_parse hu).1
          rw [hval, firstField_append_bar hbar] at hfirst
          have hlong : utf8Len (trunc (firstField e.value) (maxChan + 8)) < maxChan + 8 :=
            utf8Len_trunc_lt _ (by decide)
          have hlow := hname.short
          rw [firstField_of_bar_notMem r.chanBar] at hlow
          refine hsame (eqIc_iff.mpr (hlow ?_))
          rw [← utf8Len_eq_of_lower_eq (eqIc_iff.mp heq), ← hfirst]
          exact hlong
        · rw [hheld, hentry] at ha
          cases ha
          rw [(firstField_of_parse hu).1] at hsame
          exact hsame heq
      · have hlow := hname.short
        rw [firstField_of_bar_notMem r.chanBar] at hlow
        exact hlow hshort

end Store

/-! ### The line -/

/-- The payload that was sent to the peers last. -/
def sentLast (s : HubState) : Str := s.peerOut.getLast?.getD []

/-- What was broadcast last. -/
@[simp] theorem sentLast_broadcast (s : HubState) (payload : Str) :
    sentLast (broadcastSyncToPeers s payload) = payload := by
  unfold sentLast broadcastSyncToPeers
  simp

/-- A hub holds a channel with this content, and its last payload is one line with the same
content. A channel is spelled in either case. -/
structure ChanSaid (s : HubState) (name key : Str) (modes : Int) (op : Str)
    (ts : Int) : Prop where
  held : ChanHeld s name key modes op ts
  sent : ∃ line u, frameLines (sentLast s) = [line]
    ∧ readLine line = some (.chan u key modes op ts)
    ∧ eqIc u name = true

/-- One line without line end and NUL in it. -/
theorem frameLines_line {body : Str} (hne : body ≠ []) (hend : '\n' ∉ body) (hnul : '\x00' ∉ body)
    (hlen : utf8Len body + 1 < maxSyncPayload) : frameLines (body ++ ['\n']) = [body] := by
  have hline : ∀ l ∈ [body ++ ['\n']], IsLine '\n' l :=
    fun l hl => ⟨body, List.mem_singleton.mp hl, hend, hne⟩
  have h := frameLines_flatten hline (by simpa using hnul) (by
    rw [List.flatten_singleton, String.utf8Len_append]
    exact hlen)
  simpa using h

/-- The body of the line of a record. -/
def chanLine (r : ChanRecord) : Str := GlobalKey.c.tag :: '|' :: (r.text ++ '|' :: ofInt r.ts)

/-- The peers get the line of a value of at most 1024 bytes as it is: neither the NUL nor the line
end cuts it. -/
theorem frameLines_chanLine {v : Str} {ts : Int} (hts : 0 ≤ ts ∧ ts ≤ i64Max) (hend : '\n' ∉ v)
    (hnul : '\x00' ∉ v) (hv : utf8Len v ≤ 1024) :
    frameLines (GlobalKey.c.tag :: '|' :: (v ++ '|' :: ofInt ts) ++ ['\n'])
      = [GlobalKey.c.tag :: '|' :: (v ++ '|' :: ofInt ts)] := by
  have hnum : Fit (fun c => c ≠ '\n' ∧ c ≠ '\x00') 20 (ofInt ts) := fit_ofInt (by omega) hts.2
    (fun c hc => ⟨by rintro rfl; exact absurd hc (by decide), by
    rintro rfl; exact absurd hc (by decide)⟩)
  have hchars : ∀ c ∈ GlobalKey.c.tag :: '|' :: (v ++ '|' :: ofInt ts), c ≠ '\n'
    ∧ c ≠ '\x00' := by
    intro c hc
    rcases List.mem_cons.mp hc with rfl | hc
    · exact ⟨by decide, by decide⟩
    rcases List.mem_cons.mp hc with rfl | hc
    · exact ⟨by decide, by decide⟩
    rcases List.mem_append.mp hc with hc | hc
    · exact ⟨fun h => hend (h ▸ hc), fun h => hnul (h ▸ hc)⟩
    rcases List.mem_cons.mp hc with rfl | hc
    · exact ⟨by decide, by decide⟩
    · exact hnum.chars c hc
  refine frameLines_line (List.cons_ne_nil _ _) (fun h => (hchars _ h).1 rfl)
    (fun h => (hchars _ h).2 rfl) ?_
  have htag : Char.utf8Size GlobalKey.c.tag = 1 := rfl
  have hbar : Char.utf8Size '|' = 1 := rfl
  have hcap : 1100 < maxSyncPayload := by decide
  have hshort := hnum.len
  rw [String.utf8Len_cons, String.utf8Len_cons, String.utf8Len_append, String.utf8Len_cons]
  omega

/-- The record is said exactly if the hub holds it: its line always carries it. -/
theorem chanSaid_iff {t : HubState} {r : ChanRecord} (hts : 0 ≤ r.ts ∧ r.ts ≤ i64Max)
    (hend : '\n' ∉ r.text) (hnul : '\x00' ∉ r.text) {key op : Str} {modes ts : Int} :
    ChanSaid (broadcastSyncToPeers t (chanLine r ++ ['\n'])) r.chan key modes op ts
      ↔ (key = (midFields r.extra).1 ∧ modes = (midFields r.extra).2 ∧ op = r.op ∧ ts = r.ts)
        ∧ ChanHeld t r.chan key modes op ts := by
  have hfits : utf8Len r.text < 1024 := r.fits
  have hlines : frameLines (chanLine r ++ ['\n']) = [chanLine r] :=
    frameLines_chanLine hts hend hnul (Nat.le_of_lt hfits)
  have hread : readLine (chanLine r)
      = some (.chan r.chan (midFields r.extra).1 (midFields r.extra).2 r.op r.ts) := by
    have hparse : parseGlobalChannelValue r.text = _ := parse_text r r.chanBar
    unfold chanLine
    rw [readLine_chan r.text hts, trunc_of_lt hfits, hparse]
    rfl
  have hheld : ∀ k m o x, ChanHeld (broadcastSyncToPeers t (chanLine r ++ ['\n'])) r.chan k m o x
      ↔ ChanHeld t r.chan k m o x := fun _ _ _ _ => Iff.rfl
  constructor
  · rintro ⟨hh, line, u, hline, hu, -⟩
    rw [sentLast_broadcast, hlines, List.cons.injEq] at hline
    rw [← hline.1, hread] at hu
    cases hu
    exact ⟨⟨rfl, rfl, rfl, rfl⟩, (hheld _ _ _ _).mp hh⟩
  · rintro ⟨⟨rfl, rfl, rfl, rfl⟩, hh⟩
    exact ⟨(hheld _ _ _ _).mpr hh, chanLine r, r.chan, by rw [sentLast_broadcast, hlines], hread,
      eqIc_iff.mpr rfl⟩

/-! ### Stamps -/

/-- A clock after 1970 whose bound on stamps is still a 64-bit number, of a hub that runs. -/
structure SaneClock (clk : Clock) : Prop where
  running : clk.loading = false
  positive : 0 < clk.now
  room : clk.now + lwwMaxFuture < i64Max

section Stamps

variable {clk : Clock} {prev : Int}

/-- The stamp of an edit is between the clock and the greatest there is. -/
theorem lwwNextTs_range (h : SaneClock clk) (hprev : prev ≤ i64Max) :
    clk.now ≤ lwwNextTs clk prev ∧ lwwNextTs clk prev ≤ i64Max := by
  have hroom := h.room
  have hfuture : lwwMaxFuture = 3600 := rfl
  unfold lwwNextTs satSucc
  split
  · omega
  · omega

/-- The stamp after `prev` is refused exactly if `prev` is as far ahead as a stamp may be. -/
theorem tsAhead_lwwNextTs (h : SaneClock clk) :
    tsAhead clk (lwwNextTs clk prev) = true ↔ clk.now + lwwMaxFuture ≤ prev := by
  have hroom := h.room
  have hfuture : lwwMaxFuture = 3600 := rfl
  unfold tsAhead
  rw [h.running, Bool.not_false, Bool.true_and, decide_eq_true_eq]
  unfold lwwNextTs satSucc
  split
  · omega
  · omega

/-- The stamp after `prev` is past it, unless `prev` is the last one there is. -/
theorem lt_lwwNextTs (clk : Clock) (h : prev < i64Max) : prev < lwwNextTs clk prev := by
  unfold lwwNextTs satSucc
  split
  · omega
  · omega

/-- Above the greatest stamp there is none, so it is used again. -/
theorem lwwNextTs_last (h : SaneClock clk) : lwwNextTs clk i64Max = i64Max := by
  have hroom := h.room
  have hfuture : lwwMaxFuture = 3600 := rfl
  unfold lwwNextTs satSucc
  split
  · omega
  · omega

/-- The same for a record stamped past `prev`, which no held record of the channel is past.
Refused for its stamp, it may still be what the hub holds: under the last stamp there is. -/
theorem chanHeld_next_iff {s : HubState} {r : ChanRecord} (hclk : SaneClock clk) (hs : StoreInv s)
    (hprev : ∀ e, chanEntry s r.chan = some e → eqIc (firstField e.value) r.chan = true →
      e.timestamp ≤ prev) (hmax : prev ≤ i64Max)
    (hts : r.ts = lwwNextTs clk prev) :
    ChanHeld (updateGlobalEntry clk s .c r.chan r.extra r.op r.ts).1 r.chan (midFields r.extra).1
        (midFields r.extra).2 r.op r.ts
      ↔ if clk.now + lwwMaxFuture ≤ prev then
          ChanHeld s r.chan (midFields r.extra).1 (midFields r.extra).2 r.op i64Max
        else if (chanEntry s r.chan).isSome then utf8Len r.chan < maxChan + 8
        else r.admitted s ⟨.update, clk⟩ = true ∧ globalRoom s .c = true := by
  have hahead : tsAhead clk r.ts = true ↔ clk.now + lwwMaxFuture ≤ prev := by
    rw [hts]
    exact tsAhead_lwwNextTs hclk
  have hroom := hclk.room
  have hpast : tsAhead clk r.ts = false → ∀ e, chanEntry s r.chan = some e →
      eqIc (firstField e.value) r.chan = true → e.timestamp < r.ts := by
    intro hnot e he hsame
    have hnear : ¬ clk.now + lwwMaxFuture ≤ prev := by
      rw [← hahead, hnot]
      exact Bool.false_ne_true
    have hfuture : lwwMaxFuture = 3600 := rfl
    rw [hts]
    exact Int.lt_of_le_of_lt (hprev e he hsame) (lt_lwwNextTs clk (by omega))
  rw [chanHeld_update_iff hs hpast]
  by_cases hfar : clk.now + lwwMaxFuture ≤ prev
  case neg => rw [if_neg (fun h => hfar (hahead.mp h)), if_neg hfar]
  rw [if_pos (hahead.mpr hfar), if_pos hfar]
  constructor
  · rintro ⟨e, u, he, hstamp, hrest⟩
    have hle := hprev e he (by rw [(firstField_of_parse hrest.1).1]; exact hrest.2)
    have hlast : ¬ prev < i64Max := by
      intro hlt
      have hpast := lt_lwwNextTs clk hlt
      omega
    have hmax' : r.ts = i64Max := by
      have heq : prev = i64Max := by omega
      rw [hts, heq, lwwNextTs_last hclk]
    exact ⟨e, u, he, hstamp.trans hmax', hrest⟩
  · rintro ⟨e, u, he, hstamp, hrest⟩
    have hle := hprev e he (by rw [(firstField_of_parse hrest.1).1]; exact hrest.2)
    have heq : prev = i64Max := by omega
    exact ⟨e, u, he, by rw [hts, heq, lwwNextTs_last hclk, hstamp], hrest⟩

end Stamps

/-! ### `channel add` -/

section Commands

variable {clk : Clock} {s : HubState} {payload name key : Str}

/-- The stamp of a channel, zero when there is none. -/
theorem globalTs_eq (s : HubState) (name : Str) :
    globalTs s .c name = ((chanEntry s name).map (·.timestamp)).getD 0 := by
  unfold globalTs chanEntry
  cases globalFind s .c name <;> rfl

/-- A field of a payload ends at a bar. -/
private theorem bar_notMem_wireField {idx cap : Nat} {f : Str}
    (h : wireField payload idx cap = some f) :
    '|' ∉ f := by
  unfold wireField at h
  split at h
  · cases h
  rename_i rest _
  cases hsplit : splitOnce '|' rest with
  | some p =>
    simp only [hsplit, Option.ite_none_right_eq_some] at h
    cases h.2
    exact (splitOnce_eq_some_iff.mp hsplit).2
  | none =>
    simp only [hsplit, Option.ite_none_right_eq_some] at h
    cases h.2
    exact fun hbar => splitOnce_eq_none_iff.mp hsplit (List.takeWhile_subset _ hbar)

/-- What a `channel add` that is answered hands to the store: a name and a key that passed the
checks of the command. -/
private theorem addChannelReply_spec
    (h : addChannelReply payload = some (.channelAdded name key)) :
    addChannel clk s payload = chanStore clk s name key ∧ '|' ∉ name ∧ utf8Len name < maxChan
      ∧ utf8Len key < 64 ∧ (∀ c ∈ name, 0x20 < c.toNat) ∧ ∀ c ∈ key, 0x20 < c.toNat := by
  unfold addChannelReply at h
  simp only [] at h
  split at h
  · cases h
  rename_i hguard
  cases h
  have hadd : addChannel clk s payload
      = chanStore clk s ((wireField payload 0 128).getD [])
        ((wireTail payload 1 64).getD []) := by
    unfold addChannel
    simp only []
    rw [if_neg hguard]
  simp only [Bool.or_eq_true, Bool.not_eq_true', not_or, Bool.not_eq_false,
    List.any_eq_true, not_exists, not_and, decide_eq_true_eq] at hguard
  obtain ⟨⟨-, hname⟩, hkey⟩ := hguard
  simp only [chanNameValid, Bool.and_eq_true, List.all_eq_true, decide_eq_true_eq] at hname
  refine ⟨hadd, ?_, hname.1.1.2, ?_, fun c hc => (hname.2 c hc).1.1,
    fun c hc => Nat.lt_of_not_le (hkey c hc).1⟩
  · cases hf : wireField payload 0 128 with
    | none => exact List.not_mem_nil
    | some f => exact bar_notMem_wireField hf
  · unfold wireTail
    cases afterBars 1 payload with
    | none => exact (by decide : (0 : Nat) < 64)
    | some rest => exact utf8Len_trunc_lt _ (by decide)

/-- The modes the bots saw are a small number. -/
private theorem modes_range (h : Fits (fun _ => True) s) (name : Str) :
    0 ≤ globalChannelModes s name ∧ globalChannelModes s name < 1000 := by
  unfold globalChannelModes
  cases hget : (learnedIndex s name).bind (s.chanLearned[·]?) with
  | none => exact ⟨Int.le_refl 0, by decide⟩
  | some l =>
    obtain ⟨i, -, hl⟩ := Option.bind_eq_some_iff.mp hget
    exact (h.learned.get hl).modes

/-- The channel records before a `channel add` for which the store takes it: the held one is not
stamped as far ahead as may be, and a new one has room. -/
def AddTaken (clk : Clock) (s : HubState) (name : Str) : Prop :=
  (∀ e, chanEntry s name = some e → e.timestamp < clk.now + lwwMaxFuture)
    ∧ (chanEntry s name = none → globalRoom s .c = true)

/-- The answer to `channel add` is true exactly if the store takes the record, or holds it under
the last stamp there is. `h` is the invariant of the fields in the tables, which bounds the
stamps. -/
theorem channelAdded_iff (h : Fits (fun _ => True) s) (hclk : SaneClock clk)
    (hreply : addChannelReply payload = some (.channelAdded name key)) :
    (∃ modes ts, ChanSaid (addChannel clk s payload) name key modes "add".toList ts)
      ↔ AddTaken clk s name
        ∨ ChanHeld s name key (globalChannelModes s name) "add".toList i64Max := by
  obtain ⟨hadd, hbar, hname, hkey, hnameChars, hkeyChars⟩ := addChannelReply_spec hreply
  have hmodes := modes_range h name
  -- every stamp in the store is in range, so the next one is too
  have hstamp : ∀ e, chanEntry s name = some e → e.timestamp ≤ i64Max := by
    intro e he
    obtain ⟨i, -, hget⟩ := Option.bind_eq_some_iff.mp he
    exact (h.entries e (List.mem_of_getElem? hget)).stamp.2
  have hprev : globalTs s .c name ≤ i64Max := by
    rw [globalTs_eq]
    cases he : chanEntry s name with
    | none => exact (by decide : (0 : Int) ≤ i64Max)
    | some e => exact hstamp e he
  obtain ⟨hlo, hhi⟩ := lwwNextTs_range hclk hprev
  have hpos := hclk.positive
  have hnum : Fit (fun c => 0x20 ≤ c.toNat) 3 (ofInt (globalChannelModes s name)) :=
    fit_ofInt_small hmodes.1 hmodes.2 (fun _ hc => hc)
  -- the record the handler makes, with the bounds its line needs
  let r : ChanRecord :=
    { chan := name, extra := key ++ '|' :: ofInt (globalChannelModes s name), op := "add".toList,
      ts := lwwNextTs clk (globalTs s .c name), chanBar := hbar, opBar := by
        decide, opOk := by decide,
      fits := by
        have hlen := hnum.len
        have hadd : utf8Len "add".toList = 3 := rfl
        have hsize : Char.utf8Size '|' = 1 := rfl
        have hcap : maxChan = 65 := rfl
        simp only [String.utf8Len_append, String.utf8Len_cons, hadd, hsize]
        omega }
  have hmid : midFields r.extra = (key, globalChannelModes s name) := midFields_key hkey hmodes
  -- its line is plain text, so it is one line
  have hprint : ∀ c ∈ r.text, 0x20 ≤ c.toNat := by
    intro c hc
    rcases List.mem_append.mp hc with hc | hc
    · exact Nat.le_of_lt (hnameChars c hc)
    rcases List.mem_cons.mp hc with rfl | hc
    · decide
    rcases List.mem_append.mp hc with hc | hc
    · rcases List.mem_append.mp hc with hc | hc
      · exact Nat.le_of_lt (hkeyChars c hc)
      rcases List.mem_cons.mp hc with rfl | hc
      · decide
      · exact hnum.chars c hc
    rcases List.mem_cons.mp hc with rfl | hc
    · decide
    · exact toNat_of_printText (t := "add".toList) (by decide) c hc |>.1
  -- what the handler does is to put the record and to send its line
  have hstore : addChannel clk s payload
      = broadcastSyncToPeers (updateGlobalEntry clk s .c r.chan r.extra r.op r.ts).1
        (chanLine r ++ ['\n']) := by
    have htag : "c|".toList = [GlobalKey.c.tag, '|'] := rfl
    have hop : "|add|".toList = '|' :: ("add".toList ++ ['|']) := rfl
    rw [hadd]
    refine congrArg (broadcastSyncToPeers _) ?_
    show _ = GlobalKey.c.tag :: '|'
      :: ((name ++ '|' :: ((key ++ '|' :: ofInt (globalChannelModes s name)) ++
      '|' :: "add".toList)) ++ '|' :: ofInt (lwwNextTs clk (globalTs s .c name))) ++ ['\n']
    simp only [htag, hop, List.append_assoc, List.cons_append, List.nil_append]
  -- what is said is therefore what is held after the put
  have hsaid : (∃ modes ts, ChanSaid (addChannel clk s payload) name key modes "add".toList ts)
      ↔ ChanHeld (updateGlobalEntry clk s .c r.chan r.extra r.op r.ts).1 r.chan
        (midFields r.extra).1
          (midFields r.extra).2 r.op r.ts := by
    rw [hstore]
    have hpos' : 0 ≤ r.ts := Int.le_trans (Int.le_of_lt hpos) hlo
    have hiff : ∀ modes ts, ChanSaid _ r.chan key modes "add".toList ts ↔ _ := fun modes ts =>
      chanSaid_iff (t := (updateGlobalEntry clk s .c r.chan r.extra r.op r.ts).1) ⟨hpos', hhi⟩
        (fun hm => absurd (hprint _ hm) (by decide)) (fun hm => absurd (hprint _ hm) (by decide))
    constructor
    · rintro ⟨modes, ts, hs⟩
      obtain ⟨⟨-, rfl, -, rfl⟩, hheld⟩ := (hiff modes ts).mp hs
      rw [hmid] at hheld ⊢
      exact hheld
    · intro hheld
      refine ⟨(midFields r.extra).2, r.ts, (hiff _ _).mpr ⟨⟨by rw [hmid], rfl, rfl, rfl⟩, ?_⟩⟩
      rw [hmid] at hheld ⊢
      exact hheld
  -- the stamp that is passed over is the one of the entry
  have hts : ∀ e, chanEntry s name = some e → globalTs s .c name = e.timestamp := by
    intro e he
    rw [globalTs_eq, he]
    rfl
  rw [hsaid, chanHeld_next_iff hclk h.store (fun e he _ => Int.le_of_eq (hts e he).symm)
    hprev rfl, hmid]
  show (if clk.now + lwwMaxFuture ≤ globalTs s .c name then
      ChanHeld s name key (globalChannelModes s name) "add".toList i64Max
    else if (chanEntry s name).isSome then utf8Len name < maxChan + 8
    else r.admitted s ⟨.update, clk⟩ = true ∧ globalRoom s .c = true) ↔ _
  have hroom := hclk.room
  cases hentry : chanEntry s name with
  -- a new channel: taken if there is room
  | none =>
    have hnever : ¬ ChanHeld s name key (globalChannelModes s name) "add".toList i64Max := by
      rintro ⟨e, u, he, -⟩
      rw [hentry] at he
      cases he
    have hzero : globalTs s .c name = 0 := by
      rw [globalTs_eq, hentry]
      rfl
    have hfuture : lwwMaxFuture = 3600 := rfl
    rw [if_neg (by omega), if_neg (by exact Bool.false_ne_true)]
    constructor
    · intro hin
      refine .inl ⟨fun e he => ?_, fun _ => hin.2⟩
      rw [hentry] at he
      cases he
    · rintro (htaken | hheld)
      · exact ⟨rfl, htaken.2 hentry⟩
      · exact absurd hheld hnever
  | some e =>
    -- a held one: taken unless its stamp is too far ahead
    rw [hts e hentry]
    by_cases hfar : clk.now + lwwMaxFuture ≤ e.timestamp
    · rw [if_pos hfar]
      refine ⟨.inr, ?_⟩
      rintro (htaken | hheld)
      · exact absurd hfar (Int.not_le.mpr (htaken.1 e hentry))
      · exact hheld
    · rw [if_neg hfar, if_pos (by rfl)]
      refine iff_of_true (Nat.lt_trans hname (by decide)) (.inl ⟨?_, ?_⟩)
      · intro a ha
        rw [hentry] at ha
        cases ha
        exact Int.not_le.mp hfar
      · intro hnone
        rw [hentry] at hnone
        cases hnone

/-! ### `channel del` -/

/-- The record, the settings and the bans of a channel. -/
def chanRecords (s : HubState) (name : Str) : List GlobalEntry :=
  s.globalEntries.filter fun e => (e.key = .c || e.key = .C || e.key = .B) && entryChanEq e name

/-- The greatest of some stamps, 0 without one. -/
def maxStamp : List Int → Int
  | [] => 0
  | t :: ts => ts.foldl max t

/-- The fold is a bound, and one of the list. -/
private theorem foldl_max (ts : List Int) (t : Int) :
    (∀ x ∈ t :: ts, x ≤ ts.foldl max t) ∧ ts.foldl max t ∈ t :: ts := by
  induction ts generalizing t with
  | nil => exact ⟨fun x hx => Int.le_of_eq (List.mem_singleton.mp hx), List.mem_singleton_self t⟩
  | cons y ts ih =>
    obtain ⟨hle, hmem⟩ := ih (max t y)
    have hfirst := hle (max t y) List.mem_cons_self
    refine ⟨?_, ?_⟩
    · intro x hx
      show x ≤ ts.foldl max (max t y)
      rcases List.mem_cons.mp hx with rfl | hx
      · omega
      rcases List.mem_cons.mp hx with rfl | hx
      · omega
      · exact hle x (List.mem_cons_of_mem _ hx)
    · show ts.foldl max (max t y) ∈ t :: y :: ts
      rcases List.mem_cons.mp hmem with hmem | hmem
      · rw [hmem]
        rcases Int.le_total t y with h | h
        · rw [max_eq_right h]
          exact List.mem_cons_of_mem _ List.mem_cons_self
        · rw [max_eq_left h]
          exact List.mem_cons_self
      · exact List.mem_cons_of_mem _ (List.mem_cons_of_mem _ hmem)

/-- No stamp is above the greatest. -/
theorem le_maxStamp {l : List Int} {x : Int} (h : x ∈ l) : x ≤ maxStamp l := by
  cases l with
  | nil => exact (List.not_mem_nil h).elim
  | cons t ts => exact (foldl_max ts t).1 x h

/-- The greatest of some stamps is one of them. -/
theorem maxStamp_mem {l : List Int} (h : l ≠ []) : maxStamp l ∈ l := by
  cases l with
  | nil => exact (h rfl).elim
  | cons t ts => exact (foldl_max ts t).2

/-- The greatest stamp of a channel. -/
def chanPrev (s : HubState) (name : Str) : Int :=
  maxStamp ((chanRecords s name).map (·.timestamp))

/-- A delete is stamped above all records of the channel. -/
theorem chanDelStamp_eq (clk : Clock) (s : HubState) (name : Str) :
    chanDelStamp clk s name = lwwNextTs clk (chanPrev s name) := by
  unfold chanDelStamp chanPrev chanRecords
  simp only []
  cases (s.globalEntries.filter fun e =>
    (e.key = .c || e.key = .C || e.key = .B) && entryChanEq e name).map (·.timestamp) <;> rfl

/-- The greatest stamp of a channel is at least `x` exactly if one of its records has such a
stamp. -/
theorem le_chanPrev_iff {x : Int} (hx : 0 < x) :
    x ≤ chanPrev s name ↔ ∃ e ∈ chanRecords s name, x ≤ e.timestamp := by
  constructor
  · intro h
    have hne : (chanRecords s name).map (·.timestamp) ≠ [] := by
      intro hnil
      have hzero : chanPrev s name = 0 := by
        unfold chanPrev
        rw [hnil]
        rfl
      omega
    obtain ⟨e, he, hts⟩ := List.mem_map.mp (maxStamp_mem hne)
    exact ⟨e, he, Int.le_trans h (Int.le_of_eq hts.symm)⟩
  · rintro ⟨e, he, hle⟩
    exact Int.le_trans hle (le_maxStamp (List.mem_map_of_mem he))

/-- The records before a `channel del` for which the store takes it: none of the channel's stamps
is as far ahead as may be, a held name is not cut, and a new record has room and is not below the
floor of a purge. -/
structure DelTaken (clk : Clock) (s : HubState) (name : Str) : Prop where
  stamps : ∀ e ∈ chanRecords s name, e.timestamp < clk.now + lwwMaxFuture
  held : chanEntry s name ≠ none → utf8Len name < maxChan + 8
  new : chanEntry s name = none → globalRoom s .c = true
    ∧ (s.purgeFloorUntil ≤ clk.now ∨ s.purgeFloor ≤ clk.now
      ∨ ∃ e ∈ chanRecords s name, s.purgeFloor ≤ e.timestamp + 1)

/-- The floor blocks the delete exactly if it is past the clock and past the channel's records. -/
private theorem purgeFloor_chanDel (hclk : SaneClock clk) (hmax : chanPrev s name < i64Max) :
    purgeFloorBlocks clk s (chanDelStamp clk s name) = false
      ↔ s.purgeFloorUntil ≤ clk.now ∨ s.purgeFloor ≤ clk.now
        ∨ ∃ e ∈ chanRecords s name, s.purgeFloor ≤ e.timestamp + 1 := by
  have hpos := hclk.positive
  have hfloor : s.purgeFloor ≤ lwwNextTs clk (chanPrev s name)
      ↔ s.purgeFloor ≤ clk.now ∨ ∃ e ∈ chanRecords s name, s.purgeFloor ≤ e.timestamp + 1 := by
    by_cases hlow : s.purgeFloor ≤ clk.now
    · refine iff_of_true ?_ (.inl hlow)
      exact Int.le_trans hlow (lwwNextTs_range hclk (Int.le_of_lt hmax)).1
    have hone : ∀ e : GlobalEntry, s.purgeFloor ≤ e.timestamp + 1
      ↔ s.purgeFloor - 1 ≤ e.timestamp :=
      fun e => by omega
    simp only [hlow, false_or, hone]
    rw [← le_chanPrev_iff (by omega)]
    unfold lwwNextTs satSucc
    split
    · omega
    · omega
  rw [chanDelStamp_eq, ← hfloor]
  unfold purgeFloorBlocks
  rw [Bool.and_eq_false_iff, decide_eq_false_iff_not, decide_eq_false_iff_not]
  omega

/-- A channel record is what it was where only settings, bans and bindings changed. -/
private theorem SameOld.chanEntry {t : HubState} (h : SameOld s t) (hs : StoreInv s)
    (name : Str) :
    chanEntry t name = Proofs.chanEntry s name := by
  unfold Proofs.chanEntry globalFind
  rw [h.map]
  cases hfind : s.globalIdx.map (gkey .c name) with
  | none => rfl
  | some i =>
    obtain ⟨e, hget, hkey, -⟩ := hs.sound.held .c name i hfind
    have hold : keyIsModes e.key = false := by
      rw [hkey]
      rfl
    rw [Option.bind_some, Option.bind_some, hget]
    exact (h.entry i e hold).mpr hget

/-- The record a `channel del` hands to the store. -/
private def delRecord (clk : Clock) (s : HubState) (name : Str) (hbar : '|' ∉ name)
    (hlen : utf8Len name < 1019) : ChanRecord where
  chan := name
  extra := []
  op := "del".toList
  ts := chanDelStamp clk s name
  chanBar := hbar
  opBar := by decide
  opOk := by decide
  fits := by
    have hdel : utf8Len "|del".toList = 4 := rfl
    have hbar : Char.utf8Size '|' = 1 := rfl
    show utf8Len (name ++ '|' :: "|del".toList) < 1024
    rw [String.utf8Len_append, String.utf8Len_cons, hdel, hbar]
    omega

/-- The line of a `channel del` without its line end. -/
private def delLine (clk : Clock) (s : HubState) (name : Str) : Str :=
  GlobalKey.c.tag :: '|'
    :: ((name ++ '|' :: "|del".toList) ++ '|' :: ofInt (chanDelStamp clk s name))

/-- `channel del` with a name: the cascade, the tombstone and the broadcast. -/
private theorem delChannel_eq (hne : payload ≠ []) :
    delChannel clk s payload
      = broadcastSyncToPeers
          (updateGlobalEntry clk
          (chanCascadeDel clk s payload (chanDelStamp clk s payload) true).1 .c payload
            [] "del".toList (chanDelStamp clk s payload)).1
          (delLine clk s payload ++ ['\n']) := by
  have hempty : payload.isEmpty = false := List.isEmpty_eq_false_iff.mpr hne
  have htag : "c|".toList = [GlobalKey.c.tag, '|'] := rfl
  have hop : "||del|".toList = '|' :: ("|del".toList ++ ['|']) := rfl
  unfold delChannel
  rw [hempty]
  refine congrArg (broadcastSyncToPeers _) ?_
  unfold delLine
  simp only [htag, hop, List.append_assoc, List.cons_append, List.nil_append]

/-- The stamps of a channel are 64-bit numbers. -/
private theorem Fits.chanPrev_le (h : Fits (fun _ => True) s) (name : Str) :
    chanPrev s name ≤ i64Max := by
  unfold chanPrev
  by_cases hnil : (chanRecords s name).map (·.timestamp) = []
  · rw [hnil]
    exact (by decide : (0 : Int) ≤ i64Max)
  · obtain ⟨e, he, hts⟩ := List.mem_map.mp (maxStamp_mem hnil)
    rw [← hts]
    exact (h.entries e (List.mem_filter.mp he).1).stamp.2

/-- What follows the name in the line of a delete is plain. -/
private theorem plain_delTail : ∀ c ∈ '|' :: "|del".toList, c ≠ '\n' ∧ c ≠ '\x00' := by
  have hall : ('|' :: "|del".toList).all (fun c => c != '\n' && c != '\x00') = true := by decide
  intro c hc
  have h := List.all_eq_true.mp hall c hc
  simpa using h

/-- The peers get the line of a `channel del` as it is. The bounds on the name are those of the
answer's condition. -/
private theorem delLine_frame
    (hts : 0 ≤ chanDelStamp clk s payload ∧ chanDelStamp clk s payload ≤ i64Max)
    (hend : '\n' ∉ payload) (hnul : NoNul payload) (hlen : utf8Len payload ≤ 1019) :
    frameLines (delLine clk s payload ++ ['\n']) = [delLine clk s payload] := by
  have hop := plain_delTail
  refine frameLines_chanLine hts ?_ ?_ ?_
  · intro hc
    rcases List.mem_append.mp hc with hc | hc
    · exact hend hc
    · exact (hop _ hc).1 rfl
  · intro hc
    rcases List.mem_append.mp hc with hc | hc
    · exact hnul hc
    · exact (hop _ hc).2 rfl
  · have hdel : utf8Len ('|' :: "|del".toList) = 5 := rfl
    rw [String.utf8Len_append, hdel]
    omega

/-- The answer to `channel del` is false for a name with a bar or a line end, or one that leaves
no room for the op. The line is then cut or read under another name. -/
private theorem delName_of_said (h : Fits (fun _ => True) s) (hclk : SaneClock clk)
    (hne : payload ≠ []) (hnul : NoNul payload) {modes ts : Int}
    (hsaid : ChanSaid (delChannel clk s payload) payload key modes "del".toList ts) :
    '|' ∉ payload ∧ '\n' ∉ payload ∧ utf8Len payload < 1019 := by
  obtain ⟨⟨e, u, he, -, hparse, hu⟩, line, w, hline, hread, hw⟩ := hsaid
  -- a character that has no other case is in both spellings or in neither
  have hsame : ∀ {d : Char} {v : Str}, ¬ (97 ≤ d.toNat ∧ d.toNat ≤ 122) →
    ¬ (65 ≤ d.toNat ∧ d.toNat ≤ 90) →
      eqIc v payload = true → d ∈ payload → d ∈ v := by
    intro d v hlow hup hv hd
    rw [← List.count_pos_iff] at hd ⊢
    rwa [← count_lower hlow hup, eqIc_iff.mp hv, count_lower hlow hup]
  -- a bar would end the name in the stored value
  have hbar : '|' ∉ payload := fun hd =>
    (firstField_of_parse hparse).2 (hsame (by decide) (by decide) hu hd)
  -- a line end would end the line in the payload
  have hend : '\n' ∉ payload := by
    intro hd
    have hmem : '\n' ∈ line :=
      (readLine_texts hread w List.mem_cons_self).subset (hsame (by decide) (by decide) hw hd)
    have hsent : line ∈ frameLines (sentLast (delChannel clk s payload)) := by
      rw [hline]
      exact List.mem_singleton_self line
    exact lineEnd_notMem_frameLines hsent hmem
  refine ⟨hbar, hend, Nat.lt_of_not_le fun hlong => ?_⟩
  -- the stored value has room for the name and its op
  have hfit : utf8Len payload ≤ 1019 := by
    have hok : WireOk fun _ => True := fun _ _ _ => trivial
    have hroom := hclk.room
    have hpos := hclk.positive
    have hrange : InI64 clk.now := by
      have hfuture : lwwMaxFuture = 3600 := rfl
      unfold InI64 i64Min
      omega
    have hafter := h.delChannel hok hrange hnul (.inl fun _ => trivial)
    obtain ⟨i, -, hget⟩ := Option.bind_eq_some_iff.mp he
    have hshort := (hafter.store.entryOk e (List.mem_of_getElem? hget)).short
    have hparts := utf8Len_of_parse hparse
    have hdel : utf8Len "del".toList = 3 := rfl
    rw [utf8Len_eq_of_lower_eq (eqIc_iff.mp hu)] at hparts
    omega
  have hlen : utf8Len payload = 1019 := Nat.le_antisymm hfit hlong
  -- at that length the peers read the op cut by one character
  obtain ⟨hlo, hhi⟩ := lwwNextTs_range hclk (h.chanPrev_le payload)
  rw [← chanDelStamp_eq] at hlo hhi
  have hpos := hclk.positive
  have hlines := delLine_frame (And.intro (by omega) hhi) hend hnul (Nat.le_of_eq hlen)
  rw [delChannel_eq hne, sentLast_broadcast, hlines, List.cons.injEq] at hline
  have hcut : trunc (payload ++ '|' :: "|del".toList) 1024 = payload ++ '|' :: "|de".toList := by
    unfold trunc
    rw [takeBytes_append_of_le (by omega), hlen]
    rfl
  -- and that op is not a delete
  have hop : parseGlobalChannelValue (payload ++ '|' :: "|de".toList) = some
    (payload, [], 0, "de".toList) := by
    have hsplit : splitOnce '|' (payload ++ '|' :: "|de".toList) = some (payload, "|de".toList) :=
      splitOnce_eq_some_iff.mpr ⟨rfl, hbar⟩
    unfold parseGlobalChannelValue
    rw [hsplit]
    rfl
  rw [← hline.1] at hread
  unfold delLine at hread
  rw [readLine_chan _ ⟨by omega, hhi⟩, hcut, hop, Option.map_some, Option.some.injEq] at hread
  simp only [SyncRecord.chan.injEq] at hread
  exact absurd hread.2.2.2.1 (by decide)

/-- With such a name, the answer is true exactly if the store takes the delete, or holds it under
the last stamp there is. The cases are a channel that is held, one that is new, and the stamp at
the end of the range. -/
private theorem delSaid_iff (h : Fits (fun _ => True) s) (hclk : SaneClock clk)
    (hne : payload ≠ []) (hnul : NoNul payload) (hbar : '|' ∉ payload) (hend : '\n' ∉ payload)
    (hlen : utf8Len payload < 1019) :
    (∃ key modes ts, ChanSaid (delChannel clk s payload) payload key modes "del".toList ts)
      ↔ DelTaken clk s payload ∨ ChanHeld s payload [] 0 "del".toList i64Max := by
  let s₁ := (chanCascadeDel clk s payload (chanDelStamp clk s payload) true).1
  let r := delRecord clk s payload hbar hlen
  have hs₁ : StoreInv s₁ := h.store.chanCascadeDel clk payload _ true
  have hsame : SameOld s s₁ := sameOld_chanCascadeDel h.store clk payload _ true
  have hentry : ∀ name, chanEntry s₁ name = chanEntry s name := hsame.chanEntry h.store
  -- the cascade before the delete touches no record of a channel
  have hmid : midFields r.extra = ([], 0) := rfl
  have hmax := Fits.chanPrev_le h payload
  obtain ⟨hlo, hhi⟩ := lwwNextTs_range hclk hmax
  have hpos := hclk.positive
  have hroom := hclk.room
  have hfuture : lwwMaxFuture = 3600 := rfl
  -- the stamp of the delete is past every record of that name
  have hts : r.ts = lwwNextTs clk (chanPrev s payload) := chanDelStamp_eq clk s payload
  have hop := plain_delTail
  have htext : '\n' ∉ r.text ∧ '\x00' ∉ r.text := by
    constructor
    · intro hc
      rcases List.mem_append.mp hc with hc | hc
      · exact hend hc
      · exact (hop _ hc).1 rfl
    · intro hc
      rcases List.mem_append.mp hc with hc | hc
      · exact hnul hc
      · exact (hop _ hc).2 rfl
  -- what is said is what is held after the put
  have hsaid : (∃ key modes ts, ChanSaid (delChannel clk s payload) payload key modes
    "del".toList ts)
      ↔ ChanHeld (updateGlobalEntry clk s₁ .c r.chan r.extra r.op r.ts).1 r.chan
        (midFields r.extra).1
          (midFields r.extra).2 r.op r.ts := by
    have hiff : ∀ key modes ts, ChanSaid (delChannel clk s payload) payload key modes
      "del".toList ts
        ↔ (key = (midFields r.extra).1 ∧ modes = (midFields r.extra).2 ∧ "del".toList = r.op
          ∧ ts = r.ts)
          ∧ ChanHeld (updateGlobalEntry clk s₁ .c r.chan r.extra r.op r.ts).1 r.chan key modes
            "del".toList ts := by
      intro key modes ts
      rw [delChannel_eq hne]
      exact chanSaid_iff (r := r) ⟨by omega, by omega⟩ htext.1 htext.2
    constructor
    · rintro ⟨key, modes, ts, hs⟩
      obtain ⟨⟨rfl, rfl, -, rfl⟩, hheld⟩ := (hiff _ _ _).mp hs
      exact hheld
    · intro hheld
      exact ⟨_, _, _, (hiff _ _ _).mpr ⟨⟨rfl, rfl, rfl, rfl⟩, hheld⟩⟩
  -- no record of that name has a later stamp
  have hprev : ∀ e, chanEntry s₁ r.chan = some e → eqIc (firstField e.value) r.chan = true →
      e.timestamp ≤ chanPrev s payload := by
    intro e he hname
    rw [hentry] at he
    obtain ⟨i, hfind, hget⟩ := Option.bind_eq_some_iff.mp he
    have hkey := h.store.key_of_find hfind hget
    refine le_maxStamp (List.mem_map_of_mem (List.mem_filter.mpr ⟨List.mem_of_getElem? hget, ?_⟩))
    rw [hkey, Bool.and_eq_true]
    exact ⟨rfl, hname⟩
  have hheld : ∀ k m o x, ChanHeld s₁ payload k m o x ↔ ChanHeld s payload k m o x := by
    intro k m o x
    unfold ChanHeld
    rw [hentry]
  -- the floor lets the delete through before the cascade exactly if after it
  have hadmit : r.admitted s₁ ⟨.update, clk⟩ = true
    ↔ purgeFloorBlocks clk s (chanDelStamp clk s payload) = false := by
    have hfloor : purgeFloorBlocks clk s₁ (chanDelStamp clk s payload)
        = purgeFloorBlocks clk s (chanDelStamp clk s payload) := by
      unfold purgeFloorBlocks
      rw [hsame.floor.1, hsame.floor.2]
    show (false || !purgeFloorBlocks clk s₁ (chanDelStamp clk s payload)) = true ↔ _
    rw [hfloor, Bool.false_or, Bool.not_eq_true']
  rw [hsaid, chanHeld_next_iff hclk hs₁ hprev hmax hts, hmid]
  show (if clk.now + lwwMaxFuture ≤ chanPrev s payload
    then ChanHeld s₁ payload [] 0 "del".toList i64Max else if (chanEntry s₁ payload).isSome
    then utf8Len payload < maxChan + 8 else r.admitted s₁ ⟨.update, clk⟩ = true
    ∧ globalRoom s₁ .c = true) ↔ _
  rw [hheld, hentry, hadmit, globalRoom_chanCascadeDel h.store]
  -- a record too far ahead leaves the delete no stamp
  have hfar : clk.now + lwwMaxFuture ≤ chanPrev s payload
      ↔ ∃ e ∈ chanRecords s payload, clk.now + lwwMaxFuture ≤ e.timestamp :=
        le_chanPrev_iff (by omega)
  -- the stamp at the end of the range
  by_cases hstamps : clk.now + lwwMaxFuture ≤ chanPrev s payload
  · rw [if_pos hstamps]
    refine ⟨.inr, ?_⟩
    rintro (htaken | hlast)
    · obtain ⟨e, he, hle⟩ := hfar.mp hstamps
      exact absurd hle (Int.not_le.mpr (htaken.stamps e he))
    · exact hlast
  rw [if_neg hstamps, purgeFloor_chanDel hclk (by omega)]
  have hnear : ∀ e ∈ chanRecords s payload, e.timestamp < clk.now + lwwMaxFuture :=
    fun e he => Int.not_le.mp fun hle => hstamps (hfar.mpr ⟨e, he, hle⟩)
  -- otherwise nothing is held under the last stamp
  have hnever : ¬ ChanHeld s payload [] 0 "del".toList i64Max := by
    rintro ⟨e, u, he, hlast, hparse, hu⟩
    have hle := hprev e (by rw [hentry]; exact he)
      (by rw [(firstField_of_parse hparse).1]; exact hu)
    omega
  -- a new channel
  cases hget : chanEntry s payload with
  | none =>
    rw [if_neg (by exact Bool.false_ne_true)]
    constructor
    · rintro ⟨hin, hfree⟩
      exact .inl ⟨hnear, fun hc => absurd hget hc, fun _ => ⟨hfree, hin⟩⟩
    · rintro (htaken | hlast)
      · exact ⟨(htaken.new hget).2, (htaken.new hget).1⟩
      · exact absurd hlast hnever
  -- a held one
  | some e =>
    have hsome : chanEntry s payload ≠ none := by
      rw [hget]
      exact Option.some_ne_none e
    rw [if_pos (by rfl)]
    constructor
    · intro hshort
      exact .inl ⟨hnear, fun _ => hshort, fun hc => absurd hc hsome⟩
    · rintro (htaken | hlast)
      · exact htaken.held hsome
      · exact absurd hlast hnever

/-- The answer to `channel del` is true exactly if the name is one a line can carry and the store
takes the delete, or holds it under the last stamp there is. -/
theorem channelRemoved_iff (h : Fits (fun _ => True) s) (hclk : SaneClock clk)
    (hne : payload ≠ []) (hnul : NoNul payload) :
    (∃ key modes ts, ChanSaid (delChannel clk s payload) payload key modes "del".toList ts)
      ↔ ('|' ∉ payload ∧ '\n' ∉ payload ∧ utf8Len payload < 1019)
        ∧ (DelTaken clk s payload ∨ ChanHeld s payload [] 0 "del".toList i64Max) := by
  constructor
  · rintro ⟨key, modes, ts, hsaid⟩
    have hname := delName_of_said h hclk hne hnul hsaid
    exact ⟨hname, (delSaid_iff h hclk hne hnul hname.1 hname.2.1 hname.2.2).mp
      ⟨key, modes, ts, hsaid⟩⟩
  · rintro ⟨hname, hstore⟩
    exact (delSaid_iff h hclk hne hnul hname.1 hname.2.1 hname.2.2).mpr hstore

end Commands

end IrcHub.Proofs
