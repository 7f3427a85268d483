import IrcHub.Proofs.Bans.Edits
import IrcHub.Proofs.Bans.Protected
import Mathlib.Data.List.Perm.Basic

/-!
# `IrcHub.Proofs.Bans.BotWrite`: a bot writes only its own bans

A bot may ban on its own, and what it may not do is touch the bans of others. `banBotWrite` reads
a value field by field and then hands it to `putRecord`, which may respell, revive, evict or
refuse it. So what the function checked and what is stored have to be brought together.

- `putRecord_refused`: a record that is refused leaves the hub as it is, for an eviction always
  makes room
- `ban_stored`: a ban that is stored changes one record (`BanStored`), under the spelling it had.
  The rest of the table is the same, but for one tombstone that may be dropped for room
- `banBotWrite_checks`: the checks of the function, on the fields of the value (`BotChecks`)
- `banBotWrite_own`: what they come to for the record in the table (`OwnBan`)

The checks are made on the ban as it was sent and the result is about the one that is stored. The
two are the same up to the case of channel and mask (`SameBan`), and everything that was checked
does not depend on it: `chanLive_congr`, `botBanCap_congr`.

The count of a bot's bans in a channel is over the table after the write. It is one more than
before only where the add takes a place of its own (`few_stored`).
-/

set_option autoImplicit false

namespace IrcHub.Proofs

open IrcHub.Hub Str
open String (utf8Len)

variable {clk : Clock} {s t : HubState} {ts : Int}

/-! ### Room -/

/-- Every entry is of one class. -/
theorem length_eq_classes (es : List GlobalEntry) :
    es.length = es.countP (fun e => !keyIsModes e.key) + es.countP (fun e => e.key = .C)
    + es.countP (fun e => e.key = .D) + es.countP (fun e => e.key = .B) := by
  induction es with
  | nil => rfl
  | cons e es ih =>
    have hone : (if (!keyIsModes e.key) = true then 1 else 0)
      + (if decide (e.key = .C) = true then 1 else 0)
        + (if decide (e.key = .D) = true then 1 else 0) + (if decide (e.key = .B) = true then 1
          else 0) = 1 := by
      cases e.key <;> rfl
    rw [List.length_cons, List.countP_cons, List.countP_cons, List.countP_cons,
      List.countP_cons, ih]
    omega

/-- All ceilings together bound the table. -/
theorem Capped.length_le {es : List GlobalEntry} (h : Capped es) :
    es.length ≤ maxGlobalEntries := by
  have hold := h.old
  have hC := h.chansets
  have hD := h.netsets
  have hB := h.bans
  rw [length_eq_classes]
  show _ ≤ maxBotEntries + maxChannels + 1 + maxBansTotal
  omega

/-- Where a tombstone was dropped there is room for a ban. The class was full and had one entry
more than it has now, by the counts of the index. -/
theorem room_of_evict (hs : StoreInv s) (hevict : evictOldestTombstone clk s .B = some t) :
    globalRoom t .B = true := by
  have ht := hs.evict hevict
  obtain ⟨b, e, hb, hkey, -, rfl⟩ := evictOldestTombstone_eq hevict
  have hlt := (List.getElem?_eq_some_iff.mp hb).1
  have hperm := Table.swapRemove_perm s.globalEntries hlt
  have hlen := hs.capped.length_le
  have hcount : (s.globalEntries.eraseIdx b).countP (fun e => e.key = .B) < maxBansTotal := by
    have hall := (List.getElem_cons_eraseIdx_perm hlt).countP_eq (fun e => decide (e.key = .B))
    have hget : s.globalEntries[b].key = .B := by rw [(List.getElem?_eq_some_iff.mp hb).2, hkey]
    rw [List.countP_cons_of_pos (by simpa using hget)] at hall
    exact Nat.lt_of_succ_le (hall.trans_le hs.capped.bans)
  unfold globalRoom
  simp only [Bool.and_eq_true, decide_eq_true_eq]
  rw [ht.counted.nB]
  refine ⟨?_, ?_⟩
  · show (Table.swapRemove s.globalEntries b).countP _ < maxBansTotal
    rw [hperm.countP_eq]
    exact hcount
  · show (Table.swapRemove s.globalEntries b).length < maxGlobalEntries
    rw [Table.length_swapRemove]
    omega

/-- A ban that is refused leaves the hub as it is. -/
theorem putRecord_refused (hs : StoreInv s) {v : Str} (h : (putRecord clk s .B v ts).2 = false) :
    (putRecord clk s .B v ts).1 = s := by
  have hres := putRecord_result clk s .B v ts
  generalize putRecord clk s .B v ts = r at h hres
  cases hres with
  | refused => rfl
  | rewrote => cases h
  | new => cases h
  | evicted => cases h
  | onlyEvicted s' hfull hevict hroom =>
    rw [room_of_evict hs hevict] at hroom
    cases hroom

/-! ### One record -/

/-- A ban with its channel and mask in another case. -/
structure SameBan (f g : BanFields) : Prop where
  chan : lower f.chan = lower g.chan
  mask : lower f.mask = lower g.mask
  expires : f.expires = g.expires
  flags : f.flags = g.flags
  setter : f.setter = g.setter
  op : f.op = g.op

/-- One record of a ban was written, over `old` if there was one. `evicted` is the tombstone that
was dropped for room, and `rest` is what both tables share. The tables are compared as
collections, since the eviction moves a row. -/
structure BanStored (s t : HubState) (f : BanFields) (ts : Int) (old evicted : Option GlobalEntry)
    (new : GlobalEntry) (rest : List GlobalEntry) : Prop where
  key : new.key = .B
  value : new.value = f.text
  stamp : new.timestamp = ts
  frame : t = { s with globalEntries := t.globalEntries, globalIdx := t.globalIdx }
  before : s.globalEntries.Perm (old.toList ++ (evicted.toList ++ rest))
  after : t.globalEntries.Perm (new :: rest)
  apart : ∀ e ∈ evicted.toList ++ rest, hashOf e ≠ hashOf new
  replaced : ∀ o ∈ old, hashOf o = hashOf new ∧ o ≠ new
  tombstone : ∀ e ∈ evicted, e.key = .B ∧ globalValueActive e.value = false

/-- The record of a ban that the hub holds. -/
def heldBan (s : HubState) (g : BanFields) : Option GlobalEntry :=
  (banFind s g.chan g.mask).bind (s.globalEntries[·]?)

/-- The lookup of a ban is by its channel and mask. It composes a value of these two and asks the
index, and the index looks at nothing else of the value. -/
theorem banFind_eq (s : HubState) (g : BanFields) :
    banFind s g.chan g.mask = globalFind s .B g.text := by
  have hbar : Char.utf8Size '|' = 1 := rfl
  have hlen : utf8Len (g.chan ++ '|' :: g.mask) < maxChan + banMaskMax + 4 := by
    have hchan := utf8Len_le_of_recChanOk g.chanOk
    have hmask := utf8Len_le_of_recMaskOk g.maskOk
    rw [String.utf8Len_append, String.utf8Len_cons]
    show _ < 65 + 120 + 4
    omega
  have hpair := foldIdent_pair [] (bar_notMem_of_recChanOk g.chanOk)
    (bar_notMem_of_recMaskOk g.maskOk) (.inl rfl)
  rw [List.append_nil] at hpair
  have htext : foldIdent .B g.text = lower g.chan ++ '|' :: lower g.mask := by
    show lower (ident .B g.text) = _
    rw [ident_ban, lower_append, lower_cons]
    rfl
  rw [banFind, trunc_of_lt hlen, globalFind, globalFind,
    gkey_eq_gkey_iff.mpr ⟨rfl, hpair.trans htext.symm⟩]

/-- A value stored over another spelling of its ban takes the spelling that is there. `hid` says
that the two name one ban. -/
theorem sameBan_recNorm {e : GlobalEntry} (g : BanFields) (hvalid : recordValid .B e.value = true)
    (hid : foldIdent .B e.value = foldIdent .B g.text) :
    ∃ f : BanFields, recNorm .B e.value g.text = f.text ∧ SameBan f g := by
  obtain ⟨q, hq⟩ := recordValid_ban_iff.mp hvalid
  refine ⟨{ g with chan := q.chan, mask := q.mask, chanOk := q.chanOk, maskOk := q.maskOk }, ?_,
    ?_⟩
  · rw [recNorm, if_neg (by decide), hq, ident_ban, identTail_ban]
    simp [BanFields.text, BanFields.headText]
  · have hlow : lower (q.chan ++ '|' :: q.mask) = lower (g.chan ++ '|' :: g.mask) := by
      rw [← ident_ban, ← ident_ban, ← hq]
      exact hid
    rw [lower_append, lower_append, lower_cons, lower_cons] at hlow
    have hbar : '|' ∉ lower q.chan := bar_notMem_lower (bar_notMem_of_recChanOk q.chanOk)
    have hbar' : '|' ∉ lower g.chan := bar_notMem_lower (bar_notMem_of_recChanOk g.chanOk)
    obtain ⟨hchan, hmask⟩ : lower q.chan = lower g.chan ∧ lower q.mask = lower g.mask := by
      have hsplit : splitOnce '|' (lower q.chan ++ '|' :: lower q.mask) = some
        (lower q.chan, lower q.mask) :=
        splitOnce_eq_some_iff.mpr ⟨rfl, hbar⟩
      have hsplit' : splitOnce '|' (lower g.chan ++ '|' :: lower g.mask) = some
        (lower g.chan, lower g.mask) :=
        splitOnce_eq_some_iff.mpr ⟨rfl, hbar'⟩
      have hpair := hsplit.symm.trans ((congrArg (splitOnce '|') hlow).trans hsplit')
      exact Prod.ext_iff.mp (Option.some.inj hpair)
    exact ⟨hchan, hmask, rfl, rfl, rfl, rfl⟩

/-- A ban that is stored over another record of its channel and mask changes this record. `hfind`
and `hget` are where that record stands, `hacc` that the new one wins. -/
theorem stored_over (hs : StoreInv s) (g : BanFields) {i : Nat} {e : GlobalEntry}
    (hok : PutOk clk .B g.text ts) (hfind : globalFind s .B g.text = some i)
    (hget : s.globalEntries[i]? = some e)
    (hacc : recAccepts clk ts (recNorm .B e.value g.text)
    (recActive .B g.text) e.timestamp e.value
      (entryActive e) = true) :
    ∃ f new rest, SameBan f g
      ∧ BanStored s (overwrite s i e (recNorm .B e.value g.text) ts (recActive .B g.text)) f ts
      (some e) none new rest := by
  obtain ⟨e', he', hkey, hid⟩ := hs.find_some rfl hfind
  rw [hget] at he'
  cases he'
  obtain ⟨hlt, hgeti⟩ := List.getElem?_eq_some_iff.mp hget
  have hvalid := ((hs.entryOk e (List.mem_of_getElem? hget)).modes (by rw [hkey]; rfl)).1
  rw [hkey] at hvalid
  obtain ⟨f, hnorm, hsame⟩ := sameBan_recNorm g hvalid hid
  have hr := respelled hvalid hok.valid hid
  have hperm := List.getElem_cons_eraseIdx_perm hlt
  rw [hgeti] at hperm
  have hhash : hashOf e = hashOf { e with value := f.text, timestamp := ts } := by
    refine gkey_eq_gkey_iff.mpr ⟨rfl, ?_⟩
    rw [hkey, ← hnorm]
    exact hr.ident.symm
  refine ⟨f, { e with value := f.text, timestamp := ts }, s.globalEntries.eraseIdx i, hsame, hkey,
    rfl, rfl, rfl, hperm.symm, ?_, fun a ha => ?_, fun o ho => ?_, fun o ho =>
    absurd ho (Option.not_mem_none o)⟩
  · rw [hnorm]
    exact List.set_perm_cons_eraseIdx hlt _
  · -- the other records have other names
    rw [← hhash]
    have hdist := (List.Perm.pairwise_iff
      (R := fun a b : GlobalEntry => keyIsModes a.key = true → hashOf a ≠ hashOf b)
      (fun hab hK heq => hab (key_eq_of_hashOf_eq heq ▸ hK) heq.symm) hperm.symm).mp hs.distinct
    exact ((List.pairwise_cons.mp hdist).1 a ha (by rw [hkey]; rfl)).symm
  · cases ho
    refine ⟨hhash, fun heq => ?_⟩
    -- a record that wins differs from the one it wins over
    have hts : e.timestamp = ts := congrArg ConfigEntry.timestamp heq
    have hval : e.value = f.text := congrArg ConfigEntry.value heq
    have hact : entryActive e = recActive .B g.text := by
      have hlive := hr.active.resolve_left (by decide)
      rw [hnorm, ← hval] at hlive
      rw [entryActive, hkey, recActive, recActive, hlive]
    rw [hnorm, ← hval, hact, hts] at hacc
    unfold recAccepts at hacc
    split at hacc
    · cases hacc
    · simp at hacc

/-- A ban that is stored changes one record, and drops a tombstone for room at most. The cases are
those of `putRecord`: over a record that is there, into a class with room, and into one that had
to make room. -/
theorem ban_stored (hs : StoreInv s) (g : BanFields)
    (h : (putRecord clk s .B g.text ts).2 = true) :
    ∃ f evicted new rest, SameBan f g
      ∧ BanStored s (putRecord clk s .B g.text ts).1 f ts (heldBan s g) evicted new rest := by
  have hres := putRecord_result clk s .B g.text ts
  have hheld : heldBan s g = (globalFind s .B g.text).bind (s.globalEntries[·]?) := by
    rw [heldBan, banFind_eq]
  generalize putRecord clk s .B g.text ts = r at h hres ⊢
  cases hres with
  | refused => cases h
  -- over the ban that is there
  | rewrote i e hok hfind hget hacc hban =>
    obtain ⟨f, new, rest, hsame, hstored⟩ := stored_over hs g hok hfind hget hacc
    have hsome : heldBan s g = some e := by
      rw [hheld, hfind]
      exact hget
    rw [hsome]
    exact ⟨f, none, new, rest, hsame, hstored⟩
  -- into a class with room
  | new hok hfind hban hroom =>
    have hnone : heldBan s g = none := by
      rw [hheld, hfind]
      rfl
    rw [hnone]
    refine ⟨g, none, newEntry .B g.text ts, s.globalEntries, ⟨rfl, rfl, rfl, rfl, rfl, rfl⟩, rfl,
      rfl, rfl, ?_, List.Perm.refl _, ?_, fun e he => hs.find_none rfl hfind e he, fun o ho =>
      absurd ho (Option.not_mem_none o), fun o ho => absurd ho (Option.not_mem_none o)⟩
    · rw [globalPush_eq]
    · rw [globalPush_eq]
      exact List.perm_append_singleton _ _
  -- into a class that made room: a tombstone goes
  | evicted s' hok hfind hban hfull hevict hroom =>
    obtain ⟨b, e, hb, hkey, hdead, rfl⟩ := evictOldestTombstone_eq hevict
    have hnone : heldBan s g = none := by
      rw [hheld, hfind]
      rfl
    obtain ⟨hlt, hgetb⟩ := List.getElem?_eq_some_iff.mp hb
    have hperm := List.getElem_cons_eraseIdx_perm hlt
    rw [hgetb] at hperm
    rw [hnone]
    refine ⟨g, some e, newEntry .B g.text ts, s.globalEntries.eraseIdx b,
      ⟨rfl, rfl, rfl, rfl, rfl, rfl⟩, rfl, rfl, rfl, ?_, hperm.symm, ?_, fun a ha => ?_,
      fun o ho => absurd ho (Option.not_mem_none o), fun o ho => ?_⟩
    · rw [globalPush_eq]
    · rw [globalPush_eq]
      exact (List.perm_append_singleton _ _).trans ((Table.swapRemove_perm _ hlt).cons _)
    · exact hs.find_none rfl hfind a (hperm.mem_iff.mp ha)
    · cases ho
      refine ⟨hkey, ?_⟩
      rw [entryActive, hkey] at hdead
      exact (Bool.or_eq_false_iff.mp hdead).2
  | onlyEvicted => cases h

/-! ### The checks -/

/-- The fields behind the mask, as `banBotWrite` reads them: by number from the left for the first
ones, and the op as the text after the last bar, since the reason may hold bars. -/
theorem field_ban_rest (f : BanFields) : field f.text 2 16 = f.expires
    ∧ field f.text 3 8 = f.flags
    ∧ field f.text 4 banSetterMax = f.setter
    ∧ trunc ((rsplitOnce '|' f.text).map (·.2) |>.getD []) 8 = f.op := by
  have hexpires := utf8Len_le_of_recNumOk f.expiresOk
  have hflags := utf8Len_le_of_recFlagsOk f.flagsOk
  have hsetter := utf8Len_lt_of_recSetterOk f.setterOk
  have hop := utf8Len_le_of_recOpOk f.opOk
  have hsplit : f.text.splitOn '|'
      = f.chan :: f.mask :: f.expires :: f.flags :: f.setter
        :: (f.reason ++ '|' :: f.op).splitOn '|' := by
    rw [BanFields.text, BanFields.headText, List.append_assoc, List.cons_append,
      List.splitOn_append_cons_self_of_not_mem (bar_notMem_of_recChanOk f.chanOk),
        List.append_assoc, List.cons_append,
      List.splitOn_append_cons_self_of_not_mem (bar_notMem_of_recMaskOk f.maskOk),
        List.append_assoc, List.cons_append,
      List.splitOn_append_cons_self_of_not_mem (bar_notMem_of_recNumOk f.expiresOk),
        List.append_assoc, List.cons_append,
      List.splitOn_append_cons_self_of_not_mem (bar_notMem_of_recFlagsOk f.flagsOk),
      List.splitOn_append_cons_self_of_not_mem (bar_notMem_of_recSetterOk f.setterOk)]
  have hlast : rsplitOnce '|' f.text = some (f.headText ++ '|' :: f.reason, f.op) := by
    refine rsplitOnce_eq_some_iff.mpr ⟨?_, bar_notMem_of_recOpOk f.opOk⟩
    rw [BanFields.text, List.append_assoc, List.cons_append]
  rw [field, field, field, hsplit, hlast]
  refine ⟨trunc_of_lt ?_, trunc_of_lt ?_, trunc_of_lt ?_, trunc_of_lt ?_⟩
  · show utf8Len f.expires < 16
    omega
  · show utf8Len f.flags < 8
    omega
  · exact hsetter
  · show utf8Len f.op < 8
    omega

/-- Whether a ban is live and was set by a bot. -/
def setBy (bot v : Str) : Bool := field v 4 banSetterMax == bot

/-- The longest a bot may ban in a channel, in seconds. A channel whose bans are permanent has a
year. -/
def botBanCap (s : HubState) (chan : Str) : Int :=
  (if chanBantime s chan > 0 then chanBantime s chan else 525600) * 60 + banBotSlack

/-- A condition on the record of a ban that the hub holds. -/
def heldIs (s : HubState) (g : BanFields) (p : Str → Bool) : Bool :=
  (heldBan s g).any fun e => p e.value

/-- What an add passed. -/
structure AddChecks (clk : Clock) (s : HubState) (bot : Str) (g : BanFields) : Prop where
  notSticky : g.flags = []
  timed : clk.now < atoll g.expires
  short : atoll g.expires - clk.now ≤ botBanCap s g.chan
  allowed : banProtected s g.mask = .ok
  place : heldIs s g globalValueActive = true ∨ liveBans s g.chan (setBy bot) < botBansPerChan

/-- What a ban that was handed to the store passed. -/
structure BotChecks (clk : Clock) (s : HubState) (bot : Str) (g : BanFields) : Prop where
  oneChan : g.chan.head? ≠ some '*'
  managed : (chanLive s g.chan).isSome = true
  signed : g.setter = bot
  own : ∀ o ∈ heldBan s g, globalValueActive o.value = true → setBy bot o.value = true
  add : g.op ≠ "del".toList → AddChecks clk s bot g

/-- What happens to a good value, with the reads of its fields replaced by the fields. `hts` and
`hfrozen` are the first checks of the function, which are about neither. -/
theorem banBotWrite_text {bot : Str} (g : BanFields) (hts : 0 < ts ∧ ts ≤ clk.now + 300)
    (hfrozen : configFrozen s = false) :
    banBotWrite clk s bot g.text ts
      = if decide (g.chan.head? = some '*') || (chanLive s g.chan).isNone || g.setter != bot
        then (s, false) else if g.op == "del".toList then
          if heldIs s g globalValueActive && heldIs s g (setBy bot)
            then putRecord clk s .B g.text ts else (s, false)
        else if decide (atoll g.expires ≤ clk.now) || !g.flags.isEmpty
            || decide (atoll g.expires - clk.now > botBanCap s g.chan) then (s, false)
        else if heldIs s g globalValueActive && !heldIs s g (setBy bot) then (s, false)
        else if banProtected s g.mask ≠ .ok then (s, false)
        else if !heldIs s g globalValueActive
          && decide (liveBans s g.chan (setBy bot) ≥ botBansPerChan) then (s, false)
        else putRecord clk s .B g.text ts := by
  obtain ⟨hchan, hmask⟩ := field_ban g
  obtain ⟨hexpires, hflags, hsetter, hop⟩ := field_ban_rest g
  have hvalid : recordValid .B g.text = true := recordValid_ban_iff.mpr ⟨g, rfl⟩
  have hheld : ((banFind s g.chan g.mask).bind fun i => s.globalEntries[i]?) = heldBan s g := rfl
  unfold banBotWrite
  rw [if_neg (by simp [hts.1, hts.2, hfrozen, hvalid]), hchan, hmask, hexpires, hflags,
    hsetter, hop]
  dsimp only
  unfold heldIs
  rw [hheld]
  cases heldBan s g <;> rfl

/-- A write is refused, or goes to the store after all checks. No hypothesis is needed: a value
that is no ban is among those refused. -/
theorem banBotWrite_checks (clk : Clock) (s : HubState) (bot value : Str) (ts : Int) :
    banBotWrite clk s bot value ts = (s, false) ∨ ∃ g : BanFields,
    value = g.text ∧ BotChecks clk s bot g
      ∧ banBotWrite clk s bot value ts = putRecord clk s .B value ts := by
  -- the checks on the stamp, the freeze and the shape of the record
  by_cases hguard : (0 < ts ∧ ts ≤ clk.now + 300) ∧ configFrozen s = false
    ∧ recordValid .B value = true
  · obtain ⟨hts, hfrozen, hvalid⟩ := hguard
    obtain ⟨g, rfl⟩ := recordValid_ban_iff.mp hvalid
    rw [banBotWrite_text g hts hfrozen]
    -- who set the held ban, and whether it is live
    have hown : ∀ o ∈ heldBan s g, heldIs s g (setBy bot) = setBy bot o.value
        ∧ heldIs s g globalValueActive = globalValueActive o.value := by
      intro o ho
      rw [heldIs, heldIs, Option.mem_def.mp ho]
      exact ⟨rfl, rfl⟩
    -- the checks on the channel and the sender
    split
    · exact .inl rfl
    rename_i hchan
    simp only [Bool.or_eq_true, decide_eq_true_eq, not_or, bne_iff_ne, ne_eq, not_not,
      Option.isNone_iff_eq_none] at hchan
    obtain ⟨⟨hone, hlive⟩, hsigned⟩ := hchan
    have hmanaged := Option.isSome_iff_ne_none.mpr hlive
    split
    · -- a delete: only of a live ban of the bot
      rename_i hdel
      rw [beq_iff_eq] at hdel
      split
      · rename_i hmine
        rw [Bool.and_eq_true] at hmine
        refine .inr ⟨g, rfl,
          ⟨hone, hmanaged, hsigned, fun o ho _ => ?_, fun hadd => absurd hdel hadd⟩, rfl⟩
        exact (hown o ho).1 ▸ hmine.2
      · exact .inl rfl
    -- an add: its expiry, its flag and its reason
    split
    · exact .inl rfl
    rename_i hterms
    simp only [Bool.or_eq_true, decide_eq_true_eq, not_or, Bool.not_eq_true', Bool.not_eq_false,
      List.isEmpty_iff, not_le, gt_iff_lt, not_lt] at hterms
    -- not over a live ban of somebody else
    split
    · exact .inl rfl
    rename_i hother
    -- not one that covers a protected user
    split
    · exact .inl rfl
    rename_i hallowed
    -- not one more than there is room for
    split
    · exact .inl rfl
    rename_i hplace
    simp only [Bool.and_eq_true, Bool.not_eq_true', decide_eq_true_eq, not_and, not_le,
      Bool.not_eq_false] at hother hplace
    refine .inr ⟨g, rfl,
      ⟨hone, hmanaged, hsigned, fun o ho hact => ?_, fun _ => ⟨hterms.1.2, hterms.1.1, hterms.2,
      not_not.mp hallowed, ?_⟩⟩, rfl⟩
    · obtain ⟨hset, hheld⟩ := hown o ho
      exact hset ▸ hother (hheld.trans hact)
    · cases hheld : heldIs s g globalValueActive with
      | true => exact .inl rfl
      | false => exact .inr (hplace hheld)
  -- refused by the first guard
  · left
    unfold banBotWrite
    rw [if_pos]
    by_contra hno
    simp only [Bool.or_eq_true, Bool.not_eq_true', decide_eq_true_eq, not_or, Bool.not_eq_false,
      not_le, gt_iff_lt, not_lt, Bool.not_eq_true] at hno
    exact hguard ⟨hno.1.1, hno.1.2, hno.2⟩

/-! ### The record in the table -/

/-- What a ban that a bot added keeps to. -/
structure OwnAdd (clk : Clock) (s t : HubState) (bot : Str) (f : BanFields) : Prop where
  notSticky : f.flags = []
  timed : clk.now < atoll f.expires
  short : atoll f.expires - clk.now ≤ botBanCap s f.chan
  allowed : banProtected s f.mask = .ok
  few : liveBans t f.chan (setBy bot) ≤ max botBansPerChan (liveBans s f.chan (setBy bot))

/-- One record was written, and it is the bot's own. -/
structure OwnBan (clk : Clock) (s t : HubState) (bot : Str) (ts : Int) (f : BanFields)
    (old evicted : Option GlobalEntry) (new : GlobalEntry) (rest : List GlobalEntry) : Prop where
  stored : BanStored s t f ts old evicted new rest
  oneChan : f.chan.head? ≠ some '*'
  managed : (chanLive s f.chan).isSome = true
  signed : f.setter = bot
  own : ∀ o ∈ old, globalValueActive o.value = true → setBy bot o.value = true
  add : f.op = "add".toList → OwnAdd clk s t bot f

section Spelling

variable {a b : Str} (hlow : lower a = lower b) (ha : '|' ∉ a) (hb : '|' ∉ b)
include hlow ha hb

/-- Whether a channel is managed does not depend on how it is spelled. -/
theorem chanLive_congr (s : HubState) : chanLive s a = chanLive s b := by
  have hfind : globalFind s .c a = globalFind s .c b := by
    rw [globalFind, globalFind, gkey_c_eq_iff.mpr]
    rw [firstField_of_bar_notMem ha, firstField_of_bar_notMem hb, hlow]
  rw [chanLive, chanLive, hfind]

/-- Nor does how many bans a bot may set there. -/
theorem botBanCap_congr (s : HubState) : botBanCap s a = botBanCap s b := by
  have hget : chansetGet s a = chansetGet s b := by
    have hfind : globalFind s .C a = globalFind s .C b := by
      rw [globalFind, globalFind, gkey_eq_gkey_iff.mpr ⟨rfl, ?_⟩]
      show lower (firstField a) = lower (firstField b)
      rw [firstField_of_bar_notMem ha, firstField_of_bar_notMem hb, hlow]
    rw [chansetGet, chansetGet, hfind]
  have htime : chanBantime s a = chanBantime s b := by
    rw [chanBantime, chanBantime, settingEffective, settingEffective, hget]
  rw [botBanCap, botBanCap, htime]

end Spelling

/-- A live ban of a channel that a condition holds of. -/
def countsIn (chan : Str) (p : Str → Bool) (e : GlobalEntry) : Bool :=
  decide (e.key = .B) && globalValueActive e.value && eqIc (field e.value 0 maxChan) chan
    && p e.value

variable {f g : BanFields} {old evicted : Option GlobalEntry} {new : GlobalEntry}
  {rest : List GlobalEntry} {bot : Str}

/-- The bans of a channel after one record was written. -/
theorem liveBans_stored (h : BanStored s t f ts old evicted new rest) (chan : Str)
    (p : Str → Bool) :
    liveBans s chan p = old.toList.countP (countsIn chan p) + rest.countP (countsIn chan p)
      ∧ liveBans t chan p ≤ rest.countP (countsIn chan p) + 1 := by
  have hevicted : evicted.toList.countP (countsIn chan p) = 0 := by
    refine List.countP_eq_zero.mpr fun e he => ?_
    have hdead := (h.tombstone e (Option.mem_toList.mp he)).2
    rw [countsIn, hdead, Bool.and_false, Bool.false_and, Bool.false_and]
    exact Bool.false_ne_true
  constructor
  · show s.globalEntries.countP (countsIn chan p) = _
    rw [h.before.countP_eq, List.countP_append, List.countP_append, hevicted, Nat.zero_add]
  · show t.globalEntries.countP (countsIn chan p) ≤ _
    rw [h.after.countP_eq, List.countP_cons]
    split <;> omega

/-- An add takes a place of its own only where there is one. `hown` says that a live record it
replaces is the bot's, so the bot has as many bans as before; `hplace` is the check for the other
case. -/
theorem few_stored (hs : StoreInv s) (h : BanStored s t f ts old evicted new rest)
    (hown : ∀ o ∈ old, globalValueActive o.value = true → setBy bot o.value = true)
    (hplace : old.any (fun e => globalValueActive e.value) = true
    ∨ liveBans s f.chan (setBy bot) < botBansPerChan) :
    liveBans t f.chan (setBy bot) ≤ max botBansPerChan (liveBans s f.chan (setBy bot)) := by
  obtain ⟨hbefore, hafter⟩ := liveBans_stored h f.chan (setBy bot)
  rcases hplace with hlive | hroom
  · obtain ⟨o, ho, hact⟩ := (Option.any_eq_true _ _).mp hlive
    have hmem : o ∈ s.globalEntries :=
      h.before.mem_iff.mpr (List.mem_append_left _ (Option.mem_toList.mpr ho))
    obtain ⟨hkey, hid⟩ := gkey_eq_gkey_iff.mp (h.replaced o ho).1
    rw [h.key] at hkey
    have hvalid := ((hs.entryOk o hmem).modes (by rw [hkey]; rfl)).1
    rw [hkey] at hvalid hid
    rw [h.key] at hid
    obtain ⟨q, hq⟩ := recordValid_ban_iff.mp hvalid
    have hchan : eqIc (field o.value 0 maxChan) f.chan = true := by
      rw [hq, (field_ban q).1, eqIc_iff, ← firstField_ban q, ← firstField_ban f, ← hq, ← h.value]
      exact lower_firstField_of_foldIdent_eq rfl rfl hid
    have hone : old.toList.countP (countsIn f.chan (setBy bot)) = 1 := by
      rw [Option.mem_def.mp ho]
      refine List.countP_eq_length.mpr fun e he => ?_
      rw [List.mem_singleton.mp he, countsIn, hact, hchan, hown o ho hact, hkey]
      rfl
    omega
  · omega

/-- A ban that a bot pushes is refused, and then the hub stays as it is, or one record changes: a
live channel's, signed by the bot, over nothing, a tombstone or a live ban of the bot. An add is
timed within the channel's bantime, hits nobody who is protected, and is one of few.

`hs` is the invariant of the store, which every run of the hub keeps. -/
theorem banBotWrite_own {s : HubState} (hs : StoreInv s) (clk : Clock) (bot value : Str)
    (ts : Int) :
    ((banBotWrite clk s bot value ts).2 = true → ∃ f old evicted new rest,
        OwnBan clk s (banBotWrite clk s bot value ts).1 bot ts f old evicted new rest)
      ∧ ((banBotWrite clk s bot value ts).2 = false →
        (banBotWrite clk s bot value ts).1 = s) := by
  rcases banBotWrite_checks clk s bot value ts with hno | ⟨g, rfl, hg, heq⟩
  · rw [hno]
    exact ⟨fun h => (Bool.false_ne_true h).elim, fun _ => rfl⟩
  rw [heq]
  refine ⟨fun hok => ?_, putRecord_refused hs⟩
  obtain ⟨f, evicted, new, rest, hsame, hstored⟩ := ban_stored hs g hok
  have hbar := bar_notMem_of_recChanOk f.chanOk
  have hbar' := bar_notMem_of_recChanOk g.chanOk
  refine ⟨f, heldBan s g, evicted, new, rest, hstored, ?_, ?_, hsame.setter.trans hg.signed,
    hg.own, fun hadd => ?_⟩
  · -- the star is no letter
    have hone := hg.oneChan
    have hhead : (lower f.chan).head? = (lower g.chan).head? := congrArg List.head? hsame.chan
    intro hstar
    rw [lower, lower, List.head?_map, List.head?_map, hstar] at hhead
    obtain ⟨c, hc, hlow⟩ := Option.map_eq_some_iff.mp hhead.symm
    have hstar' : c = '*' := (toLower_eq_iff (by decide) (by decide)).mp (hlow.trans (by decide))
    exact hone (hc.trans (congrArg some hstar'))
  · rw [chanLive_congr hsame.chan hbar hbar']
    exact hg.managed
  · have hchecks := hg.add (by rw [← hsame.op, hadd]; decide)
    have hcount : ∀ u, liveBans u f.chan (setBy bot) = liveBans u g.chan (setBy bot) := by
      intro u
      unfold liveBans eqIc
      rw [hsame.chan]
    refine ⟨hsame.flags.trans hchecks.notSticky, ?_, ?_, ?_, ?_⟩
    · rw [hsame.expires]
      exact hchecks.timed
    · rw [hsame.expires, botBanCap_congr hsame.chan hbar hbar']
      exact hchecks.short
    · rw [← banProtected_lower, hsame.mask, banProtected_lower]
      exact hchecks.allowed
    · refine few_stored hs hstored hg.own ?_
      rw [hcount]
      exact hchecks.place

/-- A hub that manages one channel, and the ban a bot pushes for it. -/
def managedRun : List (Clock × StoreOp) :=
  [⟨{ now := 1700000000 }, .raw .c "#a||add".toList 1700000000⟩]

def pushedBan : Str := "#a|*!*@198.51.100.7|1700000600||bot-1|flood|add".toList

/-- The hub of the example takes the bot's ban. -/
theorem banBotWrite_own_pushed :
    (banBotWrite { now := 1700000000 } (runStore {} managedRun)
    "bot-1".toList pushedBan 1700000000).2 = true
      ∧ ∃ f old evicted new rest, OwnBan { now := 1700000000 } (runStore {} managedRun)
          (banBotWrite { now := 1700000000 } (runStore {} managedRun)
          "bot-1".toList pushedBan 1700000000).1 "bot-1".toList 1700000000 f old evicted
          new rest := by
  have hok : (banBotWrite { now := 1700000000 } (runStore {} managedRun)
    "bot-1".toList pushedBan 1700000000).2 = true := by
    decide +kernel
  exact ⟨hok, (banBotWrite_own (storeInv_empty.runStore managedRun) _ _ _ _).1 hok⟩

end IrcHub.Proofs
