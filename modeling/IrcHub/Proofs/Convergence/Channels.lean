import IrcHub.Proofs.Global.Store

/-!
# `IrcHub.Proofs.Convergence.Channels`: two edits of one channel

Two edits of one channel. A channel record is ordered by its stamp and by delete over add, and by
nothing else. Two hubs that apply two records of a channel in opposite orders therefore agree
exactly when that order decides between them: two edits of one second with different contents
leave each hub with the one it saw first.

- `ChanRecord`, `Visit`: a `c` record, and one application of it to a hub, by either of the two
  paths
- `store_of_held`, `store_of_new`: what one application leaves, for a channel that is held and for
  a new one
- `chanState_store_store`, `chanState_store_store_new`: what two applications leave
- `RankDecides`, `FirstSightDecides`: what has to decide between the two records
- `channels_converge_iff`: when the two hubs agree
- `channels_diverge`: two edits of one second on which they do not

A channel that nobody holds is the harder case. The purge floor of a hub may stop the first record
and not the second, so which of them is there when the other arrives can differ between the hubs.
`FirstSightDecides` lists what may not happen.

What is compared is stamp, op, key and modes. The spelling of the name is the one that is stored
first and may differ.
-/

set_option autoImplicit false

namespace IrcHub.Proofs

open IrcHub.Hub Str
open String (utf8Len)

/-! ### Records and what a hub holds -/

/-- A `c` record: channel, what sits between the bars, op and stamp. The op has no bar and
fits the op buffer, the text fits the value buffer. -/
structure ChanRecord where
  chan : Str
  extra : Str
  op : Str
  ts : Int
  chanBar : '|' ∉ chan
  opBar : '|' ∉ op
  opOk : op ≠ [] ∧ utf8Len op < 16
  fits : utf8Len (chan ++ '|' :: (extra ++ '|' :: op)) < 1024

namespace ChanRecord

/-- The value of a record on the wire. -/
def text (r : ChanRecord) : Str := r.chan ++ '|' :: (r.extra ++ '|' :: r.op)

/-- Whether the record is an add. -/
def active (r : ChanRecord) : Bool := r.op != "del".toList

/-- What decides between two records. -/
def rank (r : ChanRecord) : Int ×ₗ Bool := lwwRank r.ts r.active

end ChanRecord

/-- Stamp, op, key and modes of an entry. -/
def chanFields (e : GlobalEntry) : Option (Int × Str × Str × Int) :=
  (parseGlobalChannelValue e.value).map fun p => (e.timestamp, p.2.2.2, p.2.1, p.2.2.1)

/-- The entry a hub holds for a channel. -/
def chanEntry (s : HubState) (chan : Str) : Option GlobalEntry :=
  (globalFind s .c chan).bind (s.globalEntries[·]?)

/-- Stamp, op, key and modes a hub holds for a channel. -/
def chanState (s : HubState) (chan : Str) : Option (Int × Str × Str × Int) :=
  (chanEntry s chan).bind chanFields

/-- Stamp, op, key and modes a record carries. -/
def ChanRecord.content (r : ChanRecord) : Option (Int × Str × Str × Int) :=
  chanFields (newEntry .c r.text r.ts)

/-- The two functions that store a channel record. -/
inductive StorePath
  | update
  | raw
  deriving DecidableEq

/-- One application of a record to a hub: which function stores it, and under which clock. -/
structure Visit where
  path : StorePath
  clk : Clock

/-- The hub after an application of the record. -/
def ChanRecord.store (r : ChanRecord) (v : Visit) (s : HubState) : HubState :=
  match v.path with
  | .update => (updateGlobalEntry v.clk s .c r.chan r.extra r.op r.ts).1
  | .raw => (storeGlobalEntryRaw v.clk s .c r.text r.ts).1

/-! ### The text of a record -/

/-- `e` holds the record, under some spelling of the channel. -/
structure Writes (r : ChanRecord) (e : GlobalEntry) : Prop where
  key : e.key = .c
  ts : e.timestamp = r.ts
  value : ∃ u, '|' ∉ u ∧ e.value = u ++ '|' :: (r.extra ++ '|' :: r.op)

/-- The fields behind the name do not depend on how the name is spelled. -/
theorem parseGlobalChannelValue_respell {u w r : Str} (hu : '|' ∉ u) (hw : '|' ∉ w) :
    (parseGlobalChannelValue (u ++ '|' :: r)).map Prod.snd
      = (parseGlobalChannelValue (w ++ '|' :: r)).map Prod.snd := by
  have h1 : splitOnce '|' (u ++ '|' :: r) = some (u, r) := splitOnce_eq_some_iff.mpr ⟨rfl, hu⟩
  have h2 : splitOnce '|' (w ++ '|' :: r) = some (w, r) := splitOnce_eq_some_iff.mpr ⟨rfl, hw⟩
  simp only [parseGlobalChannelValue, h1, h2]
  cases rsplitOnce '|' r with
  | none => rfl
  | some p =>
    simp only []
    cases rsplitOnce '|' (trunc p.1 128) <;> rfl

/-- An entry that a record has written has the record's fields. -/
theorem Writes.fields {r : ChanRecord} {e : GlobalEntry} (h : Writes r e) :
    chanFields e = r.content := by
  obtain ⟨u, hu, hv⟩ := h.value
  have hp := parseGlobalChannelValue_respell (r := r.extra ++ '|' :: r.op) hu r.chanBar
  have hfields : ∀ a : GlobalEntry, chanFields a
      = ((parseGlobalChannelValue a.value).map Prod.snd).map fun p =>
        (a.timestamp, p.2.2, p.1, p.2.1) := by
    intro a
    rw [Option.map_map]
    rfl
  rw [ChanRecord.content, hfields, hfields, hv, hp, h.ts]
  rfl

/-- It has the record's rank. -/
theorem Writes.rank {r : ChanRecord} {e : GlobalEntry} (h : Writes r e) :
    lwwRank e.timestamp (globalValueActive e.value) = r.rank := by
  obtain ⟨u, -, hv⟩ := h.value
  have hact : globalValueActive e.value = r.active := by
    have := globalValueActive_of_op (u := u ++ '|' :: r.extra) r.opBar
    rw [hv, ChanRecord.active, ← this, List.append_assoc]
    rfl
  rw [h.ts, hact, ChanRecord.rank]

/-- A new entry is what its record writes. -/
theorem writes_newEntry (r : ChanRecord) : Writes r (newEntry .c r.text r.ts) :=
  ⟨rfl, rfl, r.chan, r.chanBar, rfl⟩

/-- A record is live unless its operation is `del`. -/
theorem ChanRecord.globalValueActive_text (r : ChanRecord) :
    globalValueActive r.text = r.active := by
  have h := globalValueActive_of_op (u := r.chan ++ '|' :: r.extra) r.opBar
  rw [ChanRecord.active, ← h, ChanRecord.text, List.append_assoc]
  rfl

/-- The op of a record passes the op buffer unchanged. -/
theorem ChanRecord.safeOp_op (r : ChanRecord) : safeOp r.op = r.op := by
  have hdrop : ∀ s : Str, '|' ∉ s → s.dropWhile (· == '|') = s := by
    intro s hs
    cases s with
    | nil => rfl
    | cons c s =>
      have hc : c ≠ '|' := fun h => hs (by simp [h])
      simp [hc]
  have hrev : '|' ∉ r.op.reverse := fun h => r.opBar (List.mem_reverse.mp h)
  have hne : r.op.isEmpty = false := by simpa using r.opOk.1
  simp only [safeOp, trunc_of_lt r.opOk.2, hdrop _ r.opBar, hdrop _ hrev,
    List.reverse_reverse, hne]
  rfl

/-- A composed value with room in the buffer is the text with its three parts. -/
theorem combinedValue_eq {u : Str} (r : ChanRecord) (hu : utf8Len u ≤ utf8Len r.chan) :
    combinedValue .c u r.extra r.op = u ++ '|' :: (r.extra ++ '|' :: r.op) := by
  have hlen : utf8Len (u ++ '|' :: (r.extra ++ '|' :: r.op)) < 1024 := by
    have h := r.fits
    simp only [String.utf8Len_append] at h ⊢
    omega
  have hout : (if !r.extra.isEmpty then u ++ '|' :: r.extra ++ '|' :: r.op
      else u ++ "||".toList ++ r.op) = u ++ '|' :: (r.extra ++ '|' :: r.op) := by
    cases hx : r.extra with
    | nil => simp
    | cons c x => simp
  simp only [combinedValue, hout]
  exact trunc_of_lt hlen

/-- Its first field is the channel. -/
theorem ChanRecord.firstField_text (r : ChanRecord) : firstField r.text = r.chan :=
  firstField_append_bar r.chanBar

/-- It is looked up by the channel. -/
theorem ChanRecord.find_text (r : ChanRecord) (s : HubState) :
    globalFind s .c r.text = globalFind s .c r.chan := by
  rw [globalFind, globalFind]
  refine congrArg _ (gkey_c_eq_iff.mpr ?_)
  rw [r.firstField_text, firstField_of_bar_notMem r.chanBar]

/-! ### One application -/

section Step

variable {s : HubState} {r : ChanRecord} {v : Visit} {i : Nat} {e : GlobalEntry}

/-- The record now sits at entry `i`, and the lookups and the floor are as before. -/
structure Landed (r : ChanRecord) (s s' : HubState) (i : Nat) : Prop where
  store : StoreInv s'
  find : globalFind s' .c r.chan = some i
  entry : ∃ e, s'.globalEntries[i]? = some e ∧ Writes r e

/-- The write of a record into its entry, without what a delete takes along, is a change of the
entry's value and stamp only. -/
theorem sameOld_replaceOld (hs : StoreInv s) (hfind : globalFind s .c r.chan = some i)
    (hget : s.globalEntries[i]? = some e) {u : Str} (hu : '|' ∉ u)
    (hname : NameHeld (u ++ '|' :: (r.extra ++ '|' :: r.op)) r.chan) (clk : Clock) (chan : Str) :
    SameOld { s with
        globalEntries := s.globalEntries.set i
          { e with value := u ++ '|' :: (r.extra ++ '|' :: r.op), timestamp := r.ts } }
      (replaceOld clk s i e (u ++ '|' :: (r.extra ++ '|' :: r.op)) r.ts chan)
    ∧ StoreInv (replaceOld clk s i e (u ++ '|' :: (r.extra ++ '|' :: r.op)) r.ts chan) := by
  have hkey := hs.key_of_find hfind hget
  have hold : keyIsModes e.key = false := by rw [hkey]; rfl
  have hfirst : firstField (u ++ '|' :: (r.extra ++ '|' :: r.op)) = u := firstField_append_bar hu
  have hshort : utf8Len (u ++ '|' :: (r.extra ++ '|' :: r.op)) < 1024 := by
    have h := r.fits
    have hle := hname.le
    rw [hfirst, firstField_of_bar_notMem r.chanBar] at hle
    simp only [String.utf8Len_append] at h ⊢
    omega
  have hnames : ∀ w, globalFind s .c w = some i →
      NameHeld (u ++ '|' :: (r.extra ++ '|' :: r.op)) w :=
    fun w hw => hname.congr rfl (gkey_c_eq_iff.mp (hs.sound.inj .c r.chan .c w i hfind hw))
  let e' : GlobalEntry :=
    { e with value := u ++ '|' :: (r.extra ++ '|' :: r.op), timestamp := r.ts }
  have hset : StoreInv { s with globalEntries := s.globalEntries.set i e' } :=
    hs.setOld hget hold rfl hshort hnames
  refine ⟨?_, hs.replaceOld hget hold hshort hnames clk r.ts chan⟩
  -- the cascade of a delete leaves lookups and channel records alone
  unfold replaceOld
  simp only []
  split
  · exact sameOld_chanCascadeDel hset clk chan r.ts false
  · exact .refl _

/-- A record written over an entry that holds the name. -/
theorem landed_replaceOld (hs : StoreInv s) (hfind : globalFind s .c r.chan = some i)
    (hget : s.globalEntries[i]? = some e) {u : Str} (hu : '|' ∉ u)
    (hname : NameHeld (u ++ '|' :: (r.extra ++ '|' :: r.op)) r.chan) (clk : Clock) (chan : Str) :
    Landed r s (replaceOld clk s i e (u ++ '|' :: (r.extra ++ '|' :: r.op)) r.ts chan) i := by
  have hkey := hs.key_of_find hfind hget
  have hold : keyIsModes e.key = false := by rw [hkey]; rfl
  obtain ⟨hsame, hs'⟩ := sameOld_replaceOld hs hfind hget hu hname clk chan
  let e' : GlobalEntry :=
    { e with value := u ++ '|' :: (r.extra ++ '|' :: r.op), timestamp := r.ts }
  have hgett : (s.globalEntries.set i e')[i]? = some e' :=
    List.getElem?_set_self (List.getElem?_eq_some_iff.mp hget).1
  refine ⟨hs', ?_, e', (hsame.entry i e' hold).mpr hgett, hkey, rfl, u, hu, rfl⟩
  rw [globalFind, hsame.map]
  exact hfind

/-- The hub after the record replaced entry `i`: `u` is the spelling of the channel it is stored
under, `c` the channel a delete cascades over. -/
def Replaced (r : ChanRecord) (v : Visit) (s : HubState) (i : Nat) (e : GlobalEntry)
    (s' : HubState) : Prop :=
  ∃ u c, '|' ∉ u ∧ NameHeld (u ++ '|' :: (r.extra ++ '|' :: r.op)) r.chan
    ∧ (c = u ∨ c = trunc u maxChan)
    ∧ s' = replaceOld v.clk s i e (u ++ '|' :: (r.extra ++ '|' :: r.op)) r.ts c

/-- A held channel: the record replaces it exactly when it ranks higher. `hahead` leaves out
stamps ahead of the clock. -/
theorem store_of_held (hs : StoreInv s) (hahead : tsAhead v.clk r.ts = false)
    (hfind : globalFind s .c r.chan = some i) (hget : s.globalEntries[i]? = some e) :
    if lwwRank e.timestamp (globalValueActive e.value) < r.rank
      then Replaced r v s i e (r.store v s)
    else r.store v s = s := by
  have hname := hs.nameHeld_of_find hfind hget
  have hle := hname.le
  rw [firstField_of_bar_notMem r.chanBar] at hle
  -- the op decides whether the record is live, not the spelling of the name
  have hact : ∀ u : Str, globalValueActive (u ++ '|' :: (r.extra ++ '|' :: r.op)) = r.active := by
    intro u
    rw [globalValueActive_append_bar, ← r.globalValueActive_text, ChanRecord.text,
      globalValueActive_append_bar r.chan]
  cases hp : v.path with
  -- the path of an update keeps the spelling that was stored
  | update =>
    let u := trunc (firstField e.value) (maxChan + 8)
    have hu : '|' ∉ u := fun hm => bar_notMem_firstField e.value (mem_of_mem_trunc hm)
    have hlen : utf8Len u ≤ utf8Len r.chan :=
      Nat.le_trans (String.utf8Len_le_of_prefix (trunc_isPrefix _ _)) hle
    have hcomb : combinedValue .c (updateChan .c e.value r.chan) r.extra (safeOp r.op)
        = u ++ '|' :: (r.extra ++ '|' :: r.op) := by
      rw [r.safeOp_op]
      exact combinedValue_eq r hlen
    simp only [ChanRecord.store, hp, updateGlobalEntry, keyIsModes, hfind, hget, hcomb, hact,
      Bool.false_eq_true, if_false]
    by_cases hlt : lwwRank e.timestamp (globalValueActive e.value) < r.rank
    · rw [if_pos hlt, if_pos ((lwwAccepts_iff hahead).mpr hlt)]
      exact ⟨u, u, hu, hname.trunc (Nat.le_refl _) (firstField_append_bar hu), .inl rfl, rfl⟩
    · rw [if_neg hlt, if_neg (mt (lwwAccepts_iff hahead).mp hlt)]
  -- and so does the path of a peer's record
  | raw =>
    have htail : (cut '|' 0 r.text).2 = '|' :: (r.extra ++ '|' :: r.op) := by
      have h := cut_append '|' 0 r.text
      have hf : (cut '|' 0 r.text).1 = r.chan := r.firstField_text
      rw [hf] at h
      exact List.append_cancel_left h
    -- the value with that spelling has room
    have hlen : utf8Len (firstField e.value) + utf8Len ('|' :: (r.extra ++ '|' :: r.op))
      < 1024 := by
      have h := r.fits
      simp only [String.utf8Len_append] at h
      omega
    have hnorm : rawNorm .c e.value r.text
        = firstField e.value ++ '|' :: (r.extra ++ '|' :: r.op) := by
      simp only [rawNorm, if_true, htail, List.isEmpty_cons, Bool.not_false, Bool.true_and, hlen,
        decide_true]
    have htrunc : trunc (firstField e.value ++ '|' :: (r.extra ++ '|' :: r.op)) 1024
        = firstField e.value ++ '|' :: (r.extra ++ '|' :: r.op) :=
      trunc_of_lt (by rw [String.utf8Len_append]; exact hlen)
    have hno := bar_notMem_firstField e.value
    simp only [ChanRecord.store, hp, storeGlobalEntryRaw, keyIsModes, r.find_text, hfind, hget,
      hnorm, hact, htrunc, firstField_append_bar hno, Bool.false_eq_true, if_false]
    by_cases hlt : lwwRank e.timestamp (globalValueActive e.value) < r.rank
    · rw [if_pos hlt, if_pos ((lwwAccepts_iff hahead).mpr hlt)]
      exact ⟨firstField e.value, _, hno, hname.congr (by rw [firstField_append_bar hno]) rfl,
        .inr rfl, rfl⟩
    · rw [if_neg hlt, if_neg (mt (lwwAccepts_iff hahead).mp hlt)]

/-- So it lands wherever it replaces. -/
theorem Replaced.landed {s' : HubState} (h : Replaced r v s i e s') (hs : StoreInv s)
    (hfind : globalFind s .c r.chan = some i) (hget : s.globalEntries[i]? = some e) :
    Landed r s s' i := by
  obtain ⟨u, c, hu, hname, -, rfl⟩ := h
  exact landed_replaceOld hs hfind hget hu hname v.clk c

/-- The floor of a purge lets the record in. -/
def ChanRecord.admitted (r : ChanRecord) (s : HubState) (v : Visit) : Bool :=
  r.active || !purgeFloorBlocks v.clk s r.ts

/-- Two guards in a row are their conjunction. -/
private theorem pushed_eq (act blocked room : Bool) (s t : HubState) :
    (if (!act && blocked) = true then (s, false) else if room = true then (t, true)
      else (s, false)).1 = if (act || !blocked) = true ∧ room = true then t else s := by
  cases act <;> cases blocked <;> cases room <;> rfl

/-- A channel the hub does not hold: the record is appended, if the floor and the room of the
table let it in. -/
theorem store_of_new (hahead : tsAhead v.clk r.ts = false)
    (hfind : globalFind s .c r.chan = none) :
    r.store v s = if r.admitted s v = true ∧ globalRoom s .c = true then
      globalPush s (newEntry .c r.text r.ts) else s := by
  cases hp : v.path with
  | update =>
    have hcomb : combinedValue .c r.chan r.extra (safeOp r.op) = r.text := by
      rw [r.safeOp_op]
      exact combinedValue_eq r (Nat.le_refl _)
    simp only [ChanRecord.store, hp, updateGlobalEntry, keyIsModes, hfind, hcomb,
      r.globalValueActive_text, hahead, Bool.false_eq_true, if_false, ChanRecord.admitted]
    exact pushed_eq _ _ _ _ _
  | raw =>
    have htrunc : trunc r.text 1024 = r.text := trunc_of_lt r.fits
    simp only [ChanRecord.store, hp, storeGlobalEntryRaw, keyIsModes, r.find_text, hfind,
      r.globalValueActive_text, hahead, Bool.false_eq_true, if_false, ChanRecord.admitted, htrunc]
    exact pushed_eq _ _ _ _ _

/-- A record that is added, while there is room. -/
theorem landed_push (hs : StoreInv s) (hfind : globalFind s .c r.chan = none)
    (hroom : globalRoom s .c = true) :
    Landed r s (globalPush s (newEntry .c r.text r.ts)) s.globalEntries.length := by
  refine ⟨hs.pushOld rfl hroom r.fits r.ts, ?_, newEntry .c r.text r.ts, ?_, writes_newEntry r⟩
  · have hfind' : s.globalIdx.map (gkey .c r.chan) = none := hfind
    have hhash : gkey .c r.chan = hashOf (newEntry .c r.text r.ts) := by
      refine gkey_c_eq_iff.mpr ?_
      rw [show (newEntry .c r.text r.ts).value = r.text from rfl, r.firstField_text,
        firstField_of_bar_notMem r.chanBar]
    rw [globalFind, globalPush_eq]
    simp only []
    rw [note_map, if_pos hhash, hfind']
    rfl
  · rw [globalPush_eq]
    simp

/-- Where a record has landed the channel is what the record says. -/
theorem Landed.state_eq {s' : HubState} (h : Landed r s s' i) :
    chanState s' r.chan = r.content := by
  obtain ⟨e, he, hw⟩ := h.entry
  simp only [chanState, chanEntry, h.find, Option.bind_some, he, hw.fields]

end Step

/-! ### Two applications -/

/-- A record says something. -/
theorem ChanRecord.content_ne_none (r : ChanRecord) : r.content ≠ none := by
  have hsplit : splitOnce '|' r.text = some (r.chan, r.extra ++ '|' :: r.op) :=
    splitOnce_eq_some_iff.mpr ⟨rfl, r.chanBar⟩
  have hlast : rsplitOnce '|' (r.extra ++ '|' :: r.op) = some (r.extra, r.op) :=
    rsplitOnce_eq_some_iff.mpr ⟨rfl, r.opBar⟩
  simp only [ChanRecord.content, chanFields, newEntry, parseGlobalChannelValue, hsplit, hlast]
  cases rsplitOnce '|' (trunc r.extra 128) <;> exact Option.some_ne_none _

section Twice

variable {s : HubState} {r₁ r₂ : ChanRecord} {v₁ v₂ : Visit}

/-- Two spellings of a channel are looked up at one place. -/
theorem globalFind_respell (hchan : eqIc r₁.chan r₂.chan = true) (s : HubState) :
    globalFind s .c r₂.chan = globalFind s .c r₁.chan := by
  rw [globalFind, globalFind]
  refine congrArg _ (gkey_c_eq_iff.mpr ?_).symm
  rw [firstField_of_bar_notMem r₁.chanBar, firstField_of_bar_notMem r₂.chanBar]
  exact eqIc_iff.mp hchan

/-- And show one state. -/
theorem chanState_respell (hchan : eqIc r₁.chan r₂.chan = true) (s : HubState) :
    chanState s r₂.chan = chanState s r₁.chan := by
  rw [chanState, chanState, chanEntry, chanEntry, globalFind_respell hchan]

/-- On top of the first record the second one lands exactly when it ranks higher. -/
theorem Landed.state_store {s' : HubState} {i : Nat} (h : Landed r₁ s s' i)
    (hchan : eqIc r₁.chan r₂.chan = true) (hahead : tsAhead v₂.clk r₂.ts = false) :
    chanState (r₂.store v₂ s') r₁.chan
      = if r₁.rank < r₂.rank then r₂.content else r₁.content := by
  obtain ⟨e, he, hw⟩ := h.entry
  have hfind : globalFind s' .c r₂.chan = some i := (globalFind_respell hchan s').trans h.find
  have hstep := store_of_held h.store hahead hfind he
  rw [hw.rank] at hstep
  by_cases hlt : r₁.rank < r₂.rank
  · rw [if_pos hlt] at hstep ⊢
    rw [← chanState_respell hchan]
    exact (hstep.landed h.store hfind he).state_eq
  · rw [if_neg hlt] at hstep ⊢
    rw [hstep]
    exact h.state_eq

/-- Two records in a row over a held channel: the greatest rank, the earliest on a tie. -/
theorem chanState_store_store {e : GlobalEntry} (hs : StoreInv s)
    (hchan : eqIc r₁.chan r₂.chan = true) (h₁ : tsAhead v₁.clk r₁.ts = false)
    (h₂ : tsAhead v₂.clk r₂.ts = false) (he : chanEntry s r₁.chan = some e) :
    chanState (r₂.store v₂ (r₁.store v₁ s)) r₁.chan =
      if lwwRank e.timestamp (globalValueActive e.value) < r₁.rank then
        (if r₁.rank < r₂.rank then r₂.content else r₁.content)
      else if lwwRank e.timestamp (globalValueActive e.value) < r₂.rank then r₂.content
      else chanFields e := by
  obtain ⟨i, hfind, hget⟩ := Option.bind_eq_some_iff.mp he
  have hfirst := store_of_held hs h₁ hfind hget
  by_cases hlt : lwwRank e.timestamp (globalValueActive e.value) < r₁.rank
  · rw [if_pos hlt] at hfirst ⊢
    exact (hfirst.landed hs hfind hget).state_store hchan h₂
  · rw [if_neg hlt] at hfirst ⊢
    have hfind' := (globalFind_respell hchan s).trans hfind
    have hsecond := store_of_held hs h₂ hfind' hget
    rw [hfirst]
    by_cases hlt' : lwwRank e.timestamp (globalValueActive e.value) < r₂.rank
    · rw [if_pos hlt'] at hsecond ⊢
      rw [← chanState_respell hchan]
      exact (hsecond.landed hs hfind' hget).state_eq
    · rw [if_neg hlt'] at hsecond ⊢
      rw [hsecond, chanState, he, Option.bind_some]

/-- Two records in a row of a channel the hub does not hold, with room in the table: the greatest
rank the floor lets in, the earliest on a tie. -/
theorem chanState_store_store_new (hs : StoreInv s) (hchan : eqIc r₁.chan r₂.chan = true)
    (h₁ : tsAhead v₁.clk r₁.ts = false) (h₂ : tsAhead v₂.clk r₂.ts = false)
    (hnone : globalFind s .c r₁.chan = none) :
    chanState (r₂.store v₂ (r₁.store v₁ s)) r₁.chan =
      if globalRoom s .c = true then
        if r₁.admitted s v₁ = true then (if r₁.rank < r₂.rank then r₂.content else r₁.content)
        else if r₂.admitted s v₂ = true then r₂.content else none
      else none := by
  have hnone' : globalFind s .c r₂.chan = none := (globalFind_respell hchan s).trans hnone
  have hfirst := store_of_new h₁ hnone
  have hsecond := store_of_new h₂ hnone'
  have hbefore : chanState s r₁.chan = none := by
    rw [chanState, chanEntry, hnone]
    rfl
  by_cases hroom : globalRoom s .c = true
  · rw [if_pos hroom]
    by_cases hin : r₁.admitted s v₁ = true
    · rw [if_pos ⟨hin, hroom⟩] at hfirst
      rw [if_pos hin, hfirst]
      exact (landed_push hs hnone hroom).state_store hchan h₂
    · rw [if_neg fun h => hin h.1] at hfirst
      rw [if_neg hin, hfirst]
      by_cases hin' : r₂.admitted s v₂ = true
      · rw [if_pos ⟨hin', hroom⟩] at hsecond
        rw [if_pos hin', ← chanState_respell hchan, hsecond]
        exact (landed_push hs hnone' hroom).state_eq
      · rw [if_neg fun h => hin' h.1] at hsecond
        rw [if_neg hin', hsecond, hbefore]
  · rw [if_neg fun h => hroom h.2] at hfirst hsecond
    rw [if_neg hroom, hfirst, hsecond, hbefore]

end Twice

/-! ### When two hubs agree -/

/-- What decides between two records of a channel no one holds: `a` and `b` say which of them
the purge floor of either hub lets in. -/
structure FirstSightDecides (r₁ r₂ : ChanRecord) (a₁ a₂ b₁ b₂ : Bool) : Prop where
  /-- One hub takes something exactly when the other does. -/
  both : (a₁ = true ∨ a₂ = true) ↔ (b₁ = true ∨ b₂ = true)
  /-- Both hubs let their first record in: no tie between different records. -/
  noTie : a₁ = true → b₂ = true → r₁.rank = r₂.rank → r₁.content = r₂.content
  /-- A first record that only its own hub stops must not be the greater one. -/
  stopped₂ : a₁ = true → b₂ = false → r₁.rank < r₂.rank → r₁.content = r₂.content
  stopped₁ : a₁ = false → b₂ = true → r₂.rank < r₁.rank → r₁.content = r₂.content
  /-- Both hubs stop their first record. -/
  stoppedBoth : a₁ = false → b₂ = false → a₂ = true → r₁.content = r₂.content

/-- The order of ranks decides between the records: hub `a` applies `r₁` and then `r₂`, hub `b`
the other way round. -/
def RankDecides (s : HubState) (r₁ r₂ : ChanRecord) (a₁ a₂ b₁ b₂ : Visit) : Prop :=
  match chanEntry s r₁.chan with
  | some e => lwwRank e.timestamp (globalValueActive e.value) < r₁.rank → r₁.rank = r₂.rank →
      r₁.content = r₂.content
  | none => globalRoom s .c = true → FirstSightDecides r₁ r₂ (r₁.admitted s a₁) (r₂.admitted s a₂)
      (r₁.admitted s b₁) (r₂.admitted s b₂)

section Agree

variable {α : Type} {x₁ x₂ : Option α} {p₁ p₂ : Int ×ₗ Bool}

/-- Over a held record the winner depends on the order only if two greater ones tie. -/
private theorem held_agree_iff (x : Option α) (q : Int ×ₗ Bool) :
    (if q < p₁ then (if p₁ < p₂ then x₂ else x₁) else if q < p₂ then x₂ else x)
        = (if q < p₂ then (if p₂ < p₁ then x₁ else x₂) else if q < p₁ then x₁ else x)
      ↔ (q < p₁ → p₁ = p₂ → x₁ = x₂) := by
  rcases lt_trichotomy p₁ p₂ with hlt | rfl | hlt
  · by_cases hq : q < p₁
    · simp [hq, hq.trans hlt, hlt, hlt.not_gt, hlt.ne]
    · simp [hq, hlt.not_gt]
  · by_cases hq : q < p₁
    · simp [hq]
    · simp [hq]
  · by_cases hq : q < p₂
    · simp [hq, hq.trans hlt, hlt, hlt.not_gt, hlt.ne']
    · simp [hq, hlt.ne', hlt.not_gt]

/-- The same when nothing is held and the floor of either hub may stop a record. It is a statement
about two ranks and four answers of the floor alone, and its cases are those answers. -/
private theorem new_agree_iff {a₁ a₂ b₁ b₂ : Bool} (h₁ : x₁ ≠ none) (h₂ : x₂ ≠ none) :
    (if a₁ = true then (if p₁ < p₂ then x₂ else x₁) else if a₂ = true then x₂ else none)
        = (if b₂ = true then (if p₂ < p₁ then x₁ else x₂) else if b₁ = true then x₁ else none)
      ↔ ((a₁ = true ∨ a₂ = true) ↔ (b₁ = true ∨ b₂ = true))
        ∧ (a₁ = true → b₂ = true → p₁ = p₂ → x₁ = x₂)
        ∧ (a₁ = true → b₂ = false → p₁ < p₂ → x₁ = x₂)
        ∧ (a₁ = false → b₂ = true → p₂ < p₁ → x₁ = x₂)
        ∧ (a₁ = false → b₂ = false → a₂ = true → x₁ = x₂) := by
  have hne : none ≠ x₁ := h₁.symm
  have hne' : none ≠ x₂ := h₂.symm
  cases a₁ with
  | true =>
    cases b₂ with
    | true =>
      -- both hubs take their first record, the second one decides by rank
      rcases lt_trichotomy p₁ p₂ with hlt | rfl | hlt
      · simp [hlt, hlt.not_gt, hlt.ne]
      · simp
      · simp [hlt, hlt.not_gt, hlt.ne']
    | false =>
      by_cases hlt : p₁ < p₂
      · cases b₁ <;> simp [hlt, h₂, eq_comm]
      · cases b₁ <;> simp [hlt, h₁]
  | false =>
    cases b₂ with
    | true =>
      by_cases hlt : p₂ < p₁
      · cases a₂ <;> simp [hlt, hne, eq_comm]
      · cases a₂ <;> simp [hlt, hne']
    | false => cases a₂ <;> cases b₁ <;> simp [h₂, hne, eq_comm]

end Agree

/-- Two hubs that start from the same store and apply two records of a channel in opposite orders
end with the same stamp, op, key and modes exactly when the rank decides.

`hs`: the store is one that a run reaches. `h₁` and `h₂`: no stamp is ahead of the clock it is
applied under. The four visits say by which path and under which clock each record is applied. -/
theorem channels_converge_iff {s : HubState} (hs : StoreReachable s) (r₁ r₂ : ChanRecord)
    (hchan : eqIc r₁.chan r₂.chan = true) (a₁ a₂ b₁ b₂ : Visit)
    (h₁ : tsAhead a₁.clk r₁.ts = false ∧ tsAhead b₁.clk r₁.ts = false)
    (h₂ : tsAhead a₂.clk r₂.ts = false ∧ tsAhead b₂.clk r₂.ts = false) :
    chanState (r₂.store a₂ (r₁.store a₁ s)) r₁.chan
        = chanState (r₁.store b₁ (r₂.store b₂ s)) r₁.chan
      ↔ RankDecides s r₁ r₂ a₁ a₂ b₁ b₂ := by
  have hinv := storeInv_of_reachable hs
  have hchan' : eqIc r₂.chan r₁.chan = true := eqIc_iff.mpr (eqIc_iff.mp hchan).symm
  have hentry : chanEntry s r₂.chan = chanEntry s r₁.chan := by
    rw [chanEntry, chanEntry, globalFind_respell hchan]
  rw [← chanState_respell hchan (r₁.store b₁ (r₂.store b₂ s)), RankDecides]
  cases he : chanEntry s r₁.chan with
  | some e =>
    rw [chanState_store_store hinv hchan h₁.1 h₂.1 he,
      chanState_store_store hinv hchan' h₂.2 h₁.2 (hentry.trans he)]
    exact held_agree_iff (chanFields e) (lwwRank e.timestamp (globalValueActive e.value))
  | none =>
    -- a lookup that finds a position finds an entry there
    have hnone : globalFind s .c r₁.chan = none := by
      cases hfind : globalFind s .c r₁.chan with
      | none => rfl
      | some i =>
        obtain ⟨e, hget, -⟩ := hinv.sound.held .c r₁.chan i hfind
        simp [chanEntry, hfind, hget] at he
    have hnone' := (globalFind_respell hchan s).trans hnone
    rw [chanState_store_store_new hinv hchan h₁.1 h₂.1 hnone,
      chanState_store_store_new hinv hchan' h₂.2 h₁.2 hnone']
    by_cases hroom : globalRoom s .c = true
    · simp only [if_pos hroom]
      rw [new_agree_iff r₁.content_ne_none r₂.content_ne_none]
      constructor
      · rintro ⟨hboth, htie, hstop₂, hstop₁, hstop⟩ _
        exact ⟨hboth, htie, hstop₂, hstop₁, hstop⟩
      · intro h
        have hd := h hroom
        exact ⟨hd.both, hd.noTie, hd.stopped₂, hd.stopped₁, hd.stoppedBoth⟩
    · simp [hroom]

/-- The channel of the examples has no bar in it. -/
theorem barless_chan : '|' ∉ "#chan".toList := by decide

/-- An add of `#chan` with a key. -/
def keyedAdd (key : Str) (ts : Int) (hlen : utf8Len key < 900) : ChanRecord where
  chan := "#chan".toList
  extra := key
  op := "add".toList
  ts := ts
  chanBar := barless_chan
  opBar := by decide
  opOk := by decide
  fits := by
    simp only [String.utf8Len_append, String.utf8Len_cons]
    have h1 : utf8Len "#chan".toList = 5 := by decide
    have h2 : utf8Len "add".toList = 3 := by decide
    have h3 : Char.utf8Size '|' = 1 := rfl
    omega

/-- One hub, one function, one clock. -/
def plainVisit (path : StorePath) : Visit := ⟨path, { now := 1000 }⟩

/-- A newer key wins on both hubs, whichever function stores it. -/
theorem channels_converge_newerKey :
    chanState ((keyedAdd "two".toList 901 (by decide)).store (plainVisit .raw)
        ((keyedAdd "one".toList 900 (by decide)).store (plainVisit .update) {})) "#chan".toList
      = chanState ((keyedAdd "one".toList 900 (by decide)).store (plainVisit .update)
        ((keyedAdd "two".toList 901 (by decide)).store (plainVisit .raw) {})) "#chan".toList := by
  have hlt : (keyedAdd "one".toList 900 (by decide)).rank
      < (keyedAdd "two".toList 901 (by decide)).rank := by decide
  refine (channels_converge_iff ⟨[], rfl⟩ (keyedAdd "one".toList 900 (by decide))
    (keyedAdd "two".toList 901 (by decide)) (by decide) (plainVisit .update) (plainVisit .raw)
    (plainVisit .update) (plainVisit .raw) (by decide) (by decide)).mpr ?_
  intro _
  refine ⟨by decide, fun _ _ heq => absurd heq hlt.ne, ?_, ?_, ?_⟩
  · intro _ hno
    exact absurd hno (by decide)
  · intro hno
    exact absurd hno (by decide)
  · intro hno
    exact absurd hno (by decide)

/-- Two keys set in one second: each hub keeps the key it saw first. -/
theorem channels_diverge :
    StoreReachable {} ∧ tsAhead { now := 1000 } 900 = false
      ∧ chanState ((keyedAdd "two".toList 900 (by decide)).store (plainVisit .update)
          ((keyedAdd "one".toList 900 (by decide)).store (plainVisit .update) {})) "#chan".toList
        = some (900, "add".toList, "one".toList, 0)
      ∧ chanState ((keyedAdd "one".toList 900 (by decide)).store (plainVisit .update)
          ((keyedAdd "two".toList 900 (by decide)).store (plainVisit .update) {})) "#chan".toList
        = some (900, "add".toList, "two".toList, 0) := by
  refine ⟨⟨[], rfl⟩, by decide, by decide +kernel, by decide +kernel⟩

end IrcHub.Proofs
