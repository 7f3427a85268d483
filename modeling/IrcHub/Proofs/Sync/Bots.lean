import IrcHub.Proofs.Bots.Update
import IrcHub.Proofs.Sync.Store

/-!
# `IrcHub.Proofs.Sync.Bots`: the writers of bots, revoke list and settings keep the caps

A value reaches a bot through `updateEntry` only, which checks its characters and its length, and
a bot keeps one entry per key. An entry of the revoke list comes from a line that was checked, or
from the entries of a bot. So both keep `Fits`.

* `fits_revokeParse`, `fits_revokeJoin`, `fits_revokeOf`: the three sources of a revocation
* `BotFits.put`: a bot that takes a checked value
* `Fits.updateEntry`: whatever is offered to a bot, the caps hold afterwards
* `Fits.gsettingIngest`, `fits_parseOptValue`: the settings of the hub
-/

set_option autoImplicit false

namespace IrcHub.Proofs

open IrcHub.Hub Str Table
open String (utf8Len)

variable {ok : Char → Prop} {s : HubState} {clk : Clock}

/-! ### The revoke list -/

/-- A cleaned nick fits its field: the characters that pass are printable and the rest is cut. -/
theorem fit_nickClean (hok : WireOk ok) (src : Str) : Fit ok 31 (nickClean src) := by
  unfold nickClean
  split
  · exact .nil
  · rename_i hguard
    simp only [Bool.or_eq_true, decide_eq_true_eq, not_or, not_le, List.any_eq_true, not_exists,
      not_and] at hguard
    obtain ⟨hlen, hall⟩ := hguard
    refine ⟨Nat.le_of_lt_succ hlen, ?_⟩
    intro c hc
    exact hok.print (Nat.le_of_lt (hall c hc).1.1.1)

/-- A key that passes its check has the length of a key. Its characters are those of the line it
came on, hence `hchars`. -/
theorem fit_pubOk {k : Str} (hchars : ∀ c ∈ k, ok c) (h : pubOk k = true) :
    Fit ok combinedKeyB64 k := by
  simp only [pubOk, Bool.and_eq_true, decide_eq_true_eq] at h
  exact ⟨Nat.le_of_eq h.1, hchars⟩

/-- A number of a revocation is a 64-bit one, or the line is refused. -/
theorem inI64_revokeNum {f : Str} {v : Int} (h : revokeNum f = some v) : InI64 v := by
  unfold revokeNum at h
  split at h
  · cases h
  simp only [] at h
  split at h
  · cases h
    exact inI64_strtoll f
  · cases h

/-- The entry of a line: each field was checked, or is a number of 64 bits. -/
theorem fits_revokeParse (hok : WireOk ok) {rest : Str} {r : Revoked} (hrest : ∀ c ∈ rest, ok c)
    (h : revokeParse rest = some r) : RevokedFits ok r := by
  unfold revokeParse at h
  split at h
  · rename_i uuid pk pubTs nick wiped del hsplit
    have hmem : ∀ f ∈ [uuid, pk, pubTs, nick, wiped, del], ∀ c ∈ f, ok c := by
      intro f hf c hc
      rw [← hsplit] at hf
      exact hrest c ((mem_splitOn hf).1.subset hc)
    split at h
    · cases h
    rename_i hguard
    simp only [Bool.or_eq_true, Bool.not_eq_true', not_or, Bool.not_eq_false] at hguard
    simp only [Option.bind_eq_bind, Option.bind_eq_some_iff] at h
    obtain ⟨p, hp, w, hw, d, hd, h⟩ := h
    split at h
    · cases h
      exact ⟨fit_uuidShape hok hguard.1, fit_pubOk (hmem pk (by simp)) hguard.2,
        fit_nickClean hok nick, inI64_revokeNum hp, inI64_revokeNum hw, inI64_revokeNum hd⟩
    · cases h
  · cases h

/-- The join of two revocations takes each field from one of them, and the later or earlier of two
stamps. -/
theorem fits_revokeJoin {r inp : Revoked} (hr : RevokedFits ok r) (hinp : RevokedFits ok inp) :
    RevokedFits ok (revokeJoin r inp) := by
  unfold revokeJoin
  simp only []
  refine ⟨hr.uuid, ?_, ?_, ?_, inI64_max hr.wiped hinp.wiped, inI64_min hr.deleted hinp.deleted⟩
  · simp only []
    split
    · exact hinp.key
    · exact hr.key
  · simp only []
    split
    · exact hinp.nick
    · exact hr.nick
  · simp only []
    split
    · exact hinp.keyTs
    · exact hr.keyTs

/-- A revocation of a uuid not on the list is added while there is room. -/
theorem Fits.revokeNew (h : Fits ok s) {inp : Revoked} (hinp : RevokedFits ok inp) :
    Fits ok (revokeNew s inp).1 := by
  unfold Hub.revokeNew
  split
  · exact h
  split
  · rename_i hfull
    split
    · exact h
    · rename_i i _
      refine { h with revoked := (h.revoked.swapRemove i).append ?_ hinp }
      rw [length_swapRemove]
      have hcap : maxRevoked = 1024 := rfl
      have hlen := h.revoked.len
      omega
  · rename_i hroom
    exact { h with revoked := h.revoked.append (Nat.lt_of_not_le hroom) hinp }

/-- A revocation is joined into its entry, or added. -/
theorem Fits.revokeMerge (h : Fits ok s) {inp : Revoked} (hinp : RevokedFits ok inp) :
    Fits ok (revokeMerge s inp).1 := by
  unfold Hub.revokeMerge
  split
  · exact h.revokeNew hinp
  split
  · exact h
  · rename_i i _ _ r hget
    exact { h with revoked := h.revoked.set i (fits_revokeJoin (h.revoked.get hget) hinp) }

/-- An entry is marked as wiped at a time of the clock. -/
theorem Fits.revokeMarkWiped (h : Fits ok s) (uuid : Str) {now : Int} (hnow : InI64 now) :
    Fits ok (revokeMarkWiped s uuid now) := by
  unfold Hub.revokeMarkWiped
  split
  · exact h
  · exact { h with
      revoked := h.revoked.modify _ fun r hr =>
        ⟨hr.uuid, hr.key, hr.nick, hr.keyTs, inI64_max hr.wiped hnow, hr.deleted⟩ }

/-- What the entries of a bot say about its revocation. -/
theorem fits_revokeOf (hok : WireOk ok) {b : BotConfig} (hb : BotFits ok b)
    (hshape : uuidShape b.uuid = true) : RevokedFits ok (revokeOf b).1 := by
  -- one entry at a time, from an entry without key, nick and delete
  unfold revokeOf
  refine List.foldlRecOn (motive := fun p : Revoked × Bool => RevokedFits ok p.1) b.entries _
    ⟨fit_uuidShape hok hshape, .nil, .nil, inI64_zero, inI64_zero, inI64_zero⟩ ?_
  intro p hp e hmem
  have he := hb.entries e hmem
  split
  · split
    · rename_i hpub
      exact ⟨hp.uuid, fit_pubOk he.value.chars hpub, hp.nick, he.stamp, hp.wiped, hp.deleted⟩
    · exact hp
  · exact ⟨hp.uuid, hp.key, fit_nickClean hok _, hp.keyTs, hp.wiped, hp.deleted⟩
  · exact ⟨hp.uuid, hp.key, hp.nick, hp.keyTs, hp.wiped, he.stamp⟩
  · exact hp

/-- A bot that is deleted goes on the list with the key and nick it had. -/
theorem Fits.revokeFromBot (h : Fits ok s) (hok : WireOk ok) {b : BotConfig} (hb : BotFits ok b) :
    Fits ok (revokeFromBot s b).1 := by
  unfold Hub.revokeFromBot
  split
  · exact h
  rename_i hguard
  simp only [Bool.or_eq_true, Bool.not_eq_true', not_or, Bool.not_eq_false] at hguard
  have hfits := fits_revokeOf hok hb hguard.2
  simp only []
  split
  · exact h
  · exact h.revokeMerge hfits

/-! ### One bot -/

/-- A bot that takes a checked value. An entry of the key is written over, or one is added. -/
theorem BotFits.put {b b' : BotConfig} (hb : BotFits ok b) {k : BotKey} {v : Str} {ts : Int}
    (hval : botValueOk k v = true) (hchars : ∀ c ∈ v, ok c) (hts : InI64 ts)
    (h : b.put k v ts = some b') : BotFits ok b' := by
  unfold BotConfig.put at h
  -- the timestamp of the bot itself
  split at h
  · split at h
    · cases h
      exact ⟨hb.uuid, hb.keys, hb.entries⟩
    · cases h
  rename_i ht
  split at h
  · cases h
  simp only [] at h
  -- the value is cut to what the checks allow
  have hfit : Fit ok (botValueMax k) (trunc v 1024) := by
    simp only [botValueOk, Bool.and_eq_true, decide_eq_true_eq] at hval
    exact Fit.sublist ⟨hval.1, hchars⟩ (trunc_isPrefix v 1024).sublist
  split at h
  -- an entry of the key is there
  · rename_i i hfind
    split at h
    · cases h
    rename_i e hget
    have hkey : e.key = k := by
      obtain ⟨hlt, hp, -⟩ := List.findIdx?_eq_some_iff_getElem.mp hfind
      obtain ⟨hlt', rfl⟩ := List.getElem?_eq_some_iff.mp hget
      simpa using hp
    split at h
    · cases h
    split at h
    · cases h
      refine ⟨hb.uuid, ?_, ?_⟩
      · -- the rewritten entry has the key it had
        show ((b.entries.set i { e with value := trunc v 1024, timestamp := ts }).map
          (·.key)).Nodup
        have hsame : (b.entries.map (·.key))[i]? = some e.key := by
          rw [List.getElem?_map, hget]
          rfl
        rw [List.map_set, Table.set_of_getElem? hsame]
        exact hb.keys
      · intro a ha
        rcases List.mem_or_eq_of_mem_set ha with ha | rfl
        · exact hb.entries a ha
        · exact ⟨hkey ▸ ht, by rw [hkey]; exact hfit, hts⟩
    · cases h
  -- none is there, and there is room for one
  · rename_i hfind
    split at h
    · cases h
      refine ⟨hb.uuid, ?_, ?_⟩
      · show ((b.entries
          ++ [({ key := k, value := trunc v 1024, timestamp := ts, lastUsed := 0 } :
          ConfigEntry BotKey)]).map (·.key)).Nodup
        rw [List.map_append, List.nodup_append]
        refine ⟨hb.keys, List.pairwise_singleton _ _, ?_⟩
        intro a ha c hc
        obtain ⟨e, he, rfl⟩ := List.mem_map.mp ha
        rw [List.map_singleton, List.mem_singleton] at hc
        rw [hc]
        simpa using List.findIdx?_eq_none_iff.mp hfind e he
      · intro a ha
        rcases List.mem_append.mp ha with ha | ha
        · exact hb.entries a ha
        · rw [List.mem_singleton.mp ha]
          exact ⟨ht, hfit, hts⟩
    · cases h

/-- A bot is made for a uuid. The uuid is cut to its field, so only its characters matter. -/
theorem Fits.getOrCreateBot {t : HubState} (h : Fits ok s) {uuid : Str} (huuid : ∀ c ∈ uuid, ok c)
    (hget : getOrCreateBot s uuid = some t) : Fits ok t := by
  unfold Hub.getOrCreateBot at hget
  split at hget
  · cases hget
    exact h
  split at hget
  · rename_i hroom
    cases hget
    exact { h with
      bots := h.bots.append hroom
        ⟨fit_trunc huuid 64, List.nodup_nil, fun _ he => (List.not_mem_nil he).elim⟩ }
  · cases hget

/-- A value of a bot is stored. It is cut to the room of its key. -/
theorem Fits.updateBot (h : Fits ok s) {uuid key value : Str} {ts : Int}
    (hchars : ∀ c ∈ value, ok c) (hts : InI64 ts) {q : HubState × Bool}
    (hq : updateBot s uuid key value ts = some q) :
    Fits ok q.1 := by
  unfold Hub.updateBot at hq
  split at hq
  · cases hq
    exact h
  split at hq
  · cases hq
    exact h
  rename_i hval
  split at hq
  · cases hq
  split at hq
  · cases hq
  rename_i b hget
  split at hq
  · cases hq
    exact h
  · rename_i b' hput
    cases hq
    exact { h with
      bots := h.bots.set _ ((h.bots.get hget).put (by simpa using hval) hchars hts hput) }

/-- After a change of a bot's key or life its revocation is brought up to date. -/
theorem Fits.revokeAfter (h : Fits ok s) (hok : WireOk ok) (uuid key : Str) :
    Fits ok (revokeAfter s uuid key) := by
  unfold Hub.revokeAfter
  split
  · exact h
  rename_i i _
  have hdead : Fits ok (if isRevoked s uuid then
      { s with bots := s.bots.modify i fun b => { b with isActive := false } } else s) := by
    split
    · exact { h with bots := h.bots.modify i fun b hb => ⟨hb.uuid, hb.keys, hb.entries⟩ }
    · exact h
  simp only []
  generalize (if isRevoked s uuid then
      { s with bots := s.bots.modify i fun b => { b with isActive := false } } else s)
      = t at hdead ⊢
  split
  · exact hdead
  rename_i b hget
  split
  · exact hdead.revokeFromBot hok (hdead.bots.get hget)
  · exact hdead

/-- A line about a bot: the value, the deletion and what they make of the revocation. -/
theorem Fits.updateEntryInner (h : Fits ok s) (hok : WireOk ok) {uuid key value extra op : Str}
    {ts : Int} (hts : InI64 ts) {q : HubState × Bool}
    (hq : updateEntryInner clk s uuid key value extra op ts = some q) : Fits ok q.1 := by
  unfold Hub.updateEntryInner at hq
  split at hq
  · cases hq
    exact h
  rename_i hguard
  simp only [Bool.or_eq_true, Bool.not_eq_true', not_or, Bool.not_eq_false] at hguard
  have hfields := hguard.1
  simp only [updateFieldsOk, Bool.and_eq_true] at hfields
  obtain ⟨⟨⟨⟨huuid, -⟩, hvalue⟩, hextra⟩, hop⟩ := hfields
  have huuid := chars_of_fieldOk hok huuid
  have hvalue := chars_of_fieldOk hok hvalue
  have hextra := chars_of_fieldOk hok hextra
  have hop := chars_of_fieldOk hok hop
  split at hq
  · cases hq
    exact h.updateGlobalEntry hok .c hvalue hextra hop hts
  · cases hq
    exact h.updateGlobalEntry hok .m hvalue hextra hop hts
  · cases hq
    exact h.updateGlobalEntry hok .o hvalue hextra hop hts
  · cases hq
    exact h
  split at hq
  · cases hq
    exact h
  split at hq
  · cases hq
    exact h
  · rename_i t hnew
    exact (h.getOrCreateBot huuid hnew).updateBot hvalue hts hq

/-- Whatever is offered to a bot, the caps hold afterwards. There is no condition on the key: one
that is not known is dropped. -/
theorem Fits.updateEntry (h : Fits ok s) (hok : WireOk ok)
    {uuid key value extra op : Str} {ts : Int} (hts : InI64 ts) {q : HubState × Bool}
    (hq : updateEntry clk s uuid key value extra op ts = some q) : Fits ok q.1 := by
  unfold Hub.updateEntry at hq
  split at hq
  · cases hq
    exact h
  split at hq
  · cases hq
  rename_i t stored hinner
  have ht := h.updateEntryInner hok hts hinner
  cases hq
  split
  · exact Fits.revokeAfter ht hok uuid key
  · exact ht

/-! ### Settings and opt flags -/

/-- The purge setting of a peer: a number of days. -/
theorem Fits.gsettingIngest (h : Fits ok s) (rest : Str) :
    Fits ok (gsettingIngest clk s rest).1 := by
  unfold Hub.gsettingIngest
  split
  · exact h
  rename_i v ts hparse
  have hfields : (0 ≤ v ∧ v ≤ autopurgeMax) ∧ InI64 ts := by
    unfold gsettingParse at hparse
    split at hparse
    · cases hparse
    split at hparse
    · cases hparse
    simp only [] at hparse
    split at hparse
    · split at hparse
      · cases hparse
      · rename_i hguard
        simp only [Bool.or_eq_true, decide_eq_true_eq, not_or, not_lt, not_le] at hguard
        cases hparse
        exact ⟨⟨hguard.1.1.1.1.2, hguard.1.1.1.2⟩, inI64_strtoll _⟩
    · cases hparse
  split
  · exact h
  split
  · exact { h with days := hfields.1, daysTs := hfields.2 }
  · exact h

/-- The purge setting as an admin sets it, stamped by the clock. -/
theorem Fits.gsettingSet (h : Fits ok s) (hclk : InI64 clk.now) (name : Str) (value : Int) :
    Fits ok (gsettingSet clk s name value).1 := by
  unfold Hub.gsettingSet
  split
  · exact h
  · rename_i hguard
    simp only [Bool.or_eq_true, decide_eq_true_eq, not_or, not_lt] at hguard
    exact { h with
      days := ⟨hguard.1.2, hguard.2⟩
      daysTs := inI64_lwwNextTs hclk h.daysTs }

/-- Letters and digits are allowed, and take a byte each. -/
theorem fit_alphanum (hok : WireOk ok) {t : Str} {n : Nat} (hlen : t.length ≤ n)
    (h : ∀ c ∈ t, c.isAlphanum = true) : Fit ok n t := by
  refine fit_of_ascii hlen ?_
  intro c hc
  have hrange := toNat_of_alphanum (h c hc)
  exact ⟨hrange.2, hok.print hrange.1⟩

/-- Option flags that parse fit their field and carry a 64-bit stamp. -/
theorem fits_parseOptValue (hok : WireOk ok) {v flags : Str} {ts : Int}
    (h : parseOptValue v = some (flags, ts)) : Fit ok maxOptFlags flags ∧ InI64 ts := by
  unfold parseOptValue at h
  split at h
  · cases h
  rename_i letters rest _
  simp only [] at h
  split at h
  · cases h
  have hfit : Fit ok maxOptFlags ((letters.filter Char.isAlphanum).take maxOptFlags) := by
    refine fit_alphanum hok (List.length_take_le _ _) ?_
    intro c hc
    exact (List.mem_filter.mp (List.mem_of_mem_take hc)).2
  split at h
  · cases h
    exact ⟨hfit, inI64_strtoll rest⟩
  · cases h
    exact ⟨hfit, inI64_strtoll rest⟩
  · cases h
    exact ⟨hfit, inI64_strtoll rest⟩
  · cases h

end IrcHub.Proofs
