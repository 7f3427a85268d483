import IrcHub.Hub.Replies
import IrcHub.Proofs.Convergence.Revoked
import IrcHub.Proofs.Sync.Packet

/-!
# `IrcHub.Proofs.Console.ReadBack`: what a peer reads in a line

What a peer reads in a line. `readLine` is the reading half of `syncLine` for the lines a console
command sends: the record a line carries, before the store decides about it. There is one lemma
per kind of line: the text of a record gives the record back.

- `SyncRecord`, `readLine`: a record as a line carries it, and the record of a line
- `frameLines_flatten`: the lines of a payload made of lines
- `readLine_user`, `readLine_mask`, `readLine_uflag`, `readLine_uchan`, `readLine_chan`: the
  records of the five kinds
- `readLine_texts`: a name or a mask that was read is part of its line, so it has no line end

The readers are those of the store functions. `readLine` only puts what they read into one type,
so that "the peers read what was written" can be said of a whole payload.

Each kind has its condition on the fields (`UserReads`, `MaskReads`): a text without a bar that
fits its buffer, and a stamp that is not negative. A negative stamp is written with a sign that
some readers do not take.
-/

set_option autoImplicit false

namespace IrcHub.Proofs

open IrcHub.Hub Str
open String (utf8Len)

/-! ### Reading a line -/

/-- A record as a line carries it. -/
inductive SyncRecord
  | chan (name key : Str) (modes : Int) (op : Str) (ts : Int)
  | user (u : UserRecord)
  | mask (m : MaskRecord)
  | uflag (r : UflagRecord)
  | uchan (r : UchanRecord)
  deriving DecidableEq

/-- The record of a flag line without its tag. -/
def readUflag (body : Str) : Option SyncRecord :=
  match (trimLineEnd body).splitOn '|' with
  | [uuid, flags, ts] => some (.uflag { uuid := uuid, flags := flags, timestamp := atoll ts })
  | _ => none

/-- The record of a binding line without its tag. -/
def readUchan (body : Str) : Option SyncRecord :=
  match (trimLineEnd body).splitOn '|' with
  | [uuid, chan, act, ts] =>
    if act ≠ "add".toList && act ≠ "del".toList then none
    else
      some (.uchan
        { uuid := uuid, chan := chan, isActive := act == "add".toList, timestamp := atoll ts })
  | _ => none

/-- The record of a channel line without its tag. -/
def readChan (vstart : Str) : Option SyncRecord :=
  match rsplitOnce '|' vstart with
  | none => none
  | some (v, ts) =>
    (parseGlobalChannelValue (trunc v 1024)).map fun p =>
    .chan p.1 p.2.1 p.2.2.1 p.2.2.2 (atoll ts)

/-- The record of a line of the global table. -/
def readGlobal : GlobalKey → Str → Option SyncRecord
  | .c, vstart => readChan vstart
  | .a, vstart => (parseUserRecord vstart GlobalKey.a.tag).map .user
  | .o, vstart => (parseUserRecord vstart GlobalKey.o.tag).map .user
  | .m, vstart => (parseMaskRecord vstart).map .mask
  | _, _ => none

/-- What a peer reads in a line. -/
def readLine (line : Str) : Option SyncRecord :=
  match afterTag "uf|".toList line with
  | some body => readUflag body
  | none =>
    match afterTag "uc|".toList line with
    | some body => readUchan body
    | none => (globalLine line).bind fun p => readGlobal p.1 p.2

/-! ### Frames -/

/-- The lines of a payload that is made of lines. -/
theorem frameLines_flatten {ls : List Str} (h : ∀ l ∈ ls, IsLine '\n' l)
    (hnul : '\x00' ∉ ls.flatten) (hlen : utf8Len ls.flatten < maxSyncPayload) :
    frameLines ls.flatten = ls.map List.dropLast := by
  have hcut : untilNul ls.flatten = ls.flatten := by
    refine List.takeWhile_eq_self_iff.mpr fun c hc => ?_
    rw [bne_iff_ne]
    rintro rfl
    exact hnul hc
  unfold frameLines
  rw [hcut, trunc_of_lt hlen]
  exact filter_splitOn_flatten_lines h

/-- A line of a frame has no line end. -/
theorem lineEnd_notMem_frameLines {frame line : Str} (h : line ∈ frameLines frame) :
    '\n' ∉ line :=
  (mem_splitOn (List.mem_of_mem_filter h)).2

/-! ### Fields -/

/-- A number with a stamp's range is read back. -/
theorem atoll_ofInt {x : Int} (hlo : 0 ≤ x) (hhi : x ≤ i64Max) : atoll (ofInt x) = x :=
  congrArg Prod.fst (strtoll_ofInt hlo hhi)

/-- `add` and `del` have no bar. -/
theorem bar_notMem_opText (active : Bool) : '|' ∉ opText active := by
  cases active <;> decide

/-- A text that ends in a digit has no line end to trim. -/
theorem trimLineEnd_ofInt (t : Str) {x : Int} (hlo : 0 ≤ x) :
    trimLineEnd (t ++ ofInt x) = t ++ ofInt x := by
  obtain ⟨n, rfl⟩ := Int.eq_ofNat_of_zero_le hlo
  show trimLineEnd (t ++ Nat.toDigits 10 n) = t ++ Nat.toDigits 10 n
  have hne := toDigits_ne_nil n
  obtain ⟨l, c, hl⟩ : ∃ l c, Nat.toDigits 10 n = l ++ [c] :=
    ⟨_, _, (List.dropLast_append_getLast hne).symm⟩
  have hc : c.isDigit = true := isDigit_of_mem_toDigits (n := n) (by rw [hl]; simp)
  have hkeep : (c == '\n' || c == '\r') = false := by
    have hrange := toNat_of_isDigit hc
    rw [Bool.or_eq_false_iff, beq_eq_false_iff_ne, beq_eq_false_iff_ne]
    constructor
    · rintro rfl
      exact absurd hrange.1 (by decide)
    · rintro rfl
      exact absurd hrange.1 (by decide)
  unfold trimLineEnd
  rw [hl]
  simp [hkeep]

/-- What follows a tag is found behind it. -/
theorem afterTag_append (tag body : Str) : afterTag tag (tag ++ body) = some body := by
  unfold afterTag
  rw [if_pos (by simp), List.drop_left]

/-- A line that starts with another letter has not this tag. -/
theorem afterTag_eq_none {tag line : Str} {c : Char} (htag : tag.head? = some c)
    (hline : line.head? ≠ some c) : afterTag tag line = none := by
  unfold afterTag
  refine if_neg fun hpre => ?_
  rw [List.isPrefixOf_iff_prefix] at hpre
  obtain ⟨rest, rfl⟩ := hpre
  cases tag with
  | nil => cases htag
  | cons d tag => exact hline htag

/-- A line of the global table is read by its kind. Its tag is one letter and a bar, which no
other reader takes. -/
theorem readLine_global {k : GlobalKey} (vstart : Str) :
    readLine (k.tag :: '|' :: vstart) = readGlobal k vstart := by
  have hu : k.tag ≠ 'u' := by cases k <;> decide
  have hnone : ∀ tag : Str, tag.head? = some 'u' → afterTag tag (k.tag :: '|' :: vstart) = none :=
    fun tag htag => afterTag_eq_none htag fun h => hu (Option.some.inj h)
  have hglobal : globalLine (k.tag :: '|' :: vstart) = some (k, vstart) := by
    have hsplit : splitOnce '|' (k.tag :: '|' :: vstart) = some ([k.tag], vstart) :=
      splitOnce_eq_some_iff.mpr ⟨rfl, by cases k <;> decide⟩
    have hkey : globalKeyOf [k.tag] = some k := by cases k <;> decide
    unfold globalLine
    rw [hsplit]
    show Option.map _ (globalKeyOf [k.tag]) = _
    rw [hkey]
    rfl
  unfold readLine
  rw [hnone "uf|".toList rfl, hnone "uc|".toList rfl, hglobal]
  rfl

/-! ### Texts of what was read -/

/-- The texts of a record that come straight from its line. -/
def SyncRecord.texts : SyncRecord → List Str
  | .chan name _ _ _ _ => [name]
  | .user u => [u.name]
  | .mask m => [m.mask]
  | .uflag _ => []
  | .uchan _ => []

/-- The text after the tag of a global line is part of the line. -/
private theorem globalLine_sublist {line vstart : Str} {k : GlobalKey}
    (h : globalLine line = some (k, vstart)) : vstart.Sublist line := by
  unfold globalLine at h
  split at h
  · cases h
  rename_i tag rest hsplit
  obtain ⟨k', -, heq⟩ := Option.map_eq_some_iff.mp h
  cases heq
  exact (splitOnce_sublist hsplit).2

/-- The texts of a channel that is read are parts of the line. -/
private theorem readChan_texts {vstart : Str} {x : SyncRecord} (h : readChan vstart = some x) :
    ∀ t ∈ x.texts, t.Sublist vstart := by
  unfold readChan at h
  split at h
  · cases h
  rename_i v ts hsplit
  obtain ⟨⟨name, key, modes, op⟩, hparse, rfl⟩ := Option.map_eq_some_iff.mp h
  intro t ht
  cases List.mem_singleton.mp ht
  have hv : (trunc v 1024).Sublist vstart :=
    (trunc_isPrefix _ _).sublist.trans (rsplitOnce_sublist hsplit).1
  refine List.Sublist.trans ?_ hv
  unfold parseGlobalChannelValue at hparse
  split at hparse
  · cases hparse
  rename_i chan rest hchan
  have hname : chan = name := by
    split at hparse
    · cases hparse
      rfl
    · simp only [] at hparse
      split at hparse
      · cases hparse
        rfl
      · cases hparse
        rfl
  rw [← hname]
  exact (splitOnce_sublist hchan).1

/-- So is the name of a user. -/
private theorem parseUserRecord_name {data : Str} {typ : Char} {u : UserRecord}
    (h : parseUserRecord data typ = some u) : u.name.Sublist data := by
  unfold parseUserRecord at h
  split at h
  case h_2 => cases h
  rename_i uuid name pk act seen ts rest hsplit
  have hmem : name ∈ splitFields data 8 := by
    rw [hsplit]
    simp
  have hname : u.name = name := by
    split at h
    · cases h
    split at h
    · cases h
    simp only [] at h
    split at h
    · cases h
      rfl
    · obtain ⟨key, -, rfl⟩ := Option.map_eq_some_iff.mp h
      rfl
  rw [hname]
  exact mem_splitFields hmem

/-- So is a mask. -/
private theorem parseMaskRecord_mask {data : Str} {m : MaskRecord}
    (h : parseMaskRecord data = some m) :
    m.mask.Sublist data := by
  unfold parseMaskRecord at h
  split at h
  case h_2 => cases h
  rename_i uuid mask act used ts hsplit
  cases h
  have hmem : mask ∈ splitFields data 5 := by
    rw [hsplit]
    simp
  exact (trunc_isPrefix _ _).sublist.trans (mem_splitFields hmem)

/-- A name or a mask that was read is part of the line. A name with a line end is therefore never
read. -/
theorem readLine_texts {line : Str} {x : SyncRecord} (h : readLine line = some x) :
    ∀ t ∈ x.texts, t.Sublist line := by
  unfold readLine at h
  split at h
  · rename_i body _
    unfold readUflag at h
    split at h
    · cases h
      exact fun t ht => (List.not_mem_nil ht).elim
    · cases h
  split at h
  · rename_i body _
    unfold readUchan at h
    split at h
    · split at h
      · cases h
      · cases h
        exact fun t ht => (List.not_mem_nil ht).elim
    · cases h
  · obtain ⟨⟨k, vstart⟩, hglobal, hread⟩ := Option.bind_eq_some_iff.mp h
    intro t ht
    refine List.Sublist.trans ?_ (globalLine_sublist hglobal)
    have huser : ∀ typ, (parseUserRecord vstart typ).map SyncRecord.user = some x →
      t.Sublist vstart := by
      intro typ hu
      obtain ⟨u, hparse, rfl⟩ := Option.map_eq_some_iff.mp hu
      cases List.mem_singleton.mp ht
      exact parseUserRecord_name hparse
    cases k with
    | c => exact readChan_texts hread t ht
    | a => exact huser _ hread
    | o => exact huser _ hread
    | m =>
      obtain ⟨m, hm, rfl⟩ := Option.map_eq_some_iff.mp (show Option.map _ _ = some x from hread)
      cases List.mem_singleton.mp ht
      exact parseMaskRecord_mask hm
    | p => cases hread
    | C => cases hread
    | D => cases hread
    | B => cases hread

/-! ### Lines of records -/

/-- The fields of a user a console may add: its line is read back as it is. -/
structure UserReads (u : UserRecord) : Prop where
  typ : u.typ = GlobalKey.a.tag ∨ u.typ = GlobalKey.o.tag
  uuid : uuidShape u.uuid = true
  name : u.name ≠ [] ∧ utf8Len u.name < 64 ∧ '|' ∉ u.name
  key : u.hasPubkey = true ∧ (pubkeyB64Decode u.pubkeyB64).isSome = true
  seen : 0 ≤ u.lastSeen ∧ u.lastSeen ≤ i64Max
  stamp : 0 ≤ u.timestamp ∧ u.timestamp ≤ i64Max

/-- The text of a key has its own length. -/
theorem utf8Len_of_pubkey {k : Str} (h : (pubkeyB64Decode k).isSome = true) :
    utf8Len k = combinedKeyB64 := by
  unfold pubkeyB64Decode at h
  split at h
  · cases h
  · rename_i hlen
    exact Decidable.not_not.mp hlen

/-- A key that decodes has no bar: the bar has no value in base64. -/
theorem bar_notMem_of_pubkey {k : Str} (h : (pubkeyB64Decode k).isSome = true) : '|' ∉ k := by
  intro hbar
  unfold pubkeyB64Decode at h
  split at h
  · cases h
  split at h
  · cases h
  rename_i hchars
  rw [Bool.not_eq_true, Bool.not_eq_false', List.all_eq_true] at hchars
  obtain ⟨i, hi⟩ := List.mem_iff_getElem?.mp hbar
  have hmem : ('|', i) ∈ k.zipIdx := List.mem_zipIdx_iff_getElem?.mpr hi
  have hok := hchars _ hmem
  split at hok
  · exact absurd (show ('|' == '=') = true from hok) (by decide)
  · exact absurd (show (Char.isAlphanum '|' || '|' == '+' || '|' == '/') = true from hok)
      (by decide)

/-- A user is read back from its fields, written one after the other. -/
theorem parseUserRecord_format {u : UserRecord} (h : UserReads u) :
    parseUserRecord (u.uuid ++ '|'
      :: (u.name ++ '|' :: (u.pubkeyB64 ++ '|' :: (opText u.isActive ++ '|' ::
      (ofInt u.lastSeen ++ '|' :: (ofInt u.timestamp ++ ['|'])))))) u.typ = some u := by
  have hlast : (ofInt u.timestamp ++ ['|']).splitOn '|' = [ofInt u.timestamp, []] := by
    rw [List.splitOn_append_cons_self_of_not_mem (bar_notMem_ofInt _)]
    rfl
  have hsplit : splitFields (u.uuid ++ '|' :: (u.name ++ '|' :: (u.pubkeyB64 ++ '|' ::
      (opText u.isActive ++ '|' :: (ofInt u.lastSeen ++ '|' :: (ofInt u.timestamp ++ ['|'])))))) 8
      = [u.uuid, u.name, u.pubkeyB64, opText u.isActive, ofInt u.lastSeen,
        ofInt u.timestamp, []] := by
    unfold splitFields
    rw [List.splitOn_append_cons_self_of_not_mem (bar_notMem_of_uuidShape h.uuid),
      List.splitOn_append_cons_self_of_not_mem h.name.2.2,
      List.splitOn_append_cons_self_of_not_mem (bar_notMem_of_pubkey h.key.2),
      List.splitOn_append_cons_self_of_not_mem (bar_notMem_opText _),
      List.splitOn_append_cons_self_of_not_mem (bar_notMem_ofInt _), hlast]
    rfl
  have hlen := utf8Len_of_pubkey h.key.2
  have hkey : fieldPubkey u.pubkeyB64 = some u.pubkeyB64 := by
    unfold fieldPubkey
    rw [if_neg (fun hne => hne hlen)]
    obtain ⟨d, hd⟩ := Option.isSome_iff_exists.mp h.key.2
    rw [hd]
    rfl
  have hne : u.pubkeyB64.isEmpty = false := by
    rw [List.isEmpty_eq_false_iff]
    intro hnil
    rw [hnil] at hlen
    exact absurd hlen (by decide)
  have hname : (u.name.isEmpty || decide (utf8Len u.name ≥ 64)) = false := by
    rw [List.isEmpty_eq_false_iff.mpr h.name.1, decide_eq_false (Nat.not_le.mpr h.name.2.1)]
    rfl
  have hact : (opText u.isActive == "add".toList) = u.isActive := by
    cases u.isActive <;> decide
  unfold parseUserRecord
  rw [hsplit]
  simp only [h.uuid, hname, hne, hkey, hact, Bool.not_true, Bool.false_eq_true, if_false,
    Option.map_some, atoll_ofInt h.seen.1 h.seen.2, atoll_ofInt h.stamp.1 h.stamp.2]
  obtain ⟨uuid, name, key, hasKey, typ, active, seen, ts⟩ := u
  cases h.key.1
  rfl

/-- And so from its line, without the newline at its end. -/
theorem readLine_user {u : UserRecord} (h : UserReads u) :
    readLine (formatUserRecord u).dropLast = some (.user u) := by
  have hbody : (formatUserRecord u).dropLast = u.typ :: '|' :: (u.uuid ++ '|' :: (u.name ++ '|' ::
      (u.pubkeyB64 ++ '|' :: (opText u.isActive ++ '|' :: (ofInt u.lastSeen ++ '|' ::
        (ofInt u.timestamp ++ ['|'])))))) := by
    have hend : "|\n".toList = ['|'] ++ ['\n'] := rfl
    unfold formatUserRecord
    rw [if_pos h.key.1, hend, ← List.append_assoc, List.dropLast_concat]
    simp only [List.append_assoc, List.cons_append]
  have hparse := parseUserRecord_format h
  rw [hbody]
  rcases h.typ with htyp | htyp
  · rw [htyp] at hparse ⊢
    rw [readLine_global]
    show Option.map _ _ = _
    rw [hparse]
    rfl
  · rw [htyp] at hparse ⊢
    rw [readLine_global]
    show Option.map _ _ = _
    rw [hparse]
    rfl

/-- The fields of a usermask a console may add. -/
structure MaskReads (m : MaskRecord) : Prop where
  uuid : uuidShape m.uuid = true
  mask : utf8Len m.mask < maxMaskLen ∧ '|' ∉ m.mask
  used : 0 ≤ m.lastUsed ∧ m.lastUsed ≤ i64Max
  stamp : 0 ≤ m.timestamp ∧ m.timestamp ≤ i64Max

/-- A mask is read back from its line, under the conditions of `MaskReads`. -/
theorem readLine_mask {m : MaskRecord} (h : MaskReads m) :
    readLine (formatMaskRecord m).dropLast = some (.mask m) := by
  have hbody : (formatMaskRecord m).dropLast = GlobalKey.m.tag :: '|'
    :: (m.uuid ++ '|' :: (m.mask ++ '|' ::
      (opText m.isActive ++ '|' :: (ofInt m.lastUsed ++ '|' :: ofInt m.timestamp)))) := by
    have htag : "m|".toList = [GlobalKey.m.tag, '|'] := rfl
    unfold formatMaskRecord
    rw [List.dropLast_concat, htag]
    simp only [List.append_assoc, List.cons_append, List.nil_append]
  have hsplit : splitFields (m.uuid ++ '|' :: (m.mask ++ '|' :: (opText m.isActive ++ '|' ::
      (ofInt m.lastUsed ++ '|' :: ofInt m.timestamp)))) 5
      = [m.uuid, m.mask, opText m.isActive, ofInt m.lastUsed, ofInt m.timestamp] := by
    unfold splitFields
    rw [List.splitOn_append_cons_self_of_not_mem (bar_notMem_of_uuidShape h.uuid),
      List.splitOn_append_cons_self_of_not_mem h.mask.2,
      List.splitOn_append_cons_self_of_not_mem (bar_notMem_opText _),
      List.splitOn_append_cons_self_of_not_mem (bar_notMem_ofInt _),
      List.splitOn_eq_singleton (bar_notMem_ofInt _)]
    rfl
  have huuid : trunc m.uuid 37 = m.uuid :=
    have hfit : Fit (fun _ => True) 36 m.uuid := fit_uuidShape (fun _ _ _ => trivial) h.uuid
    trunc_of_lt (Nat.lt_succ_of_le hfit.len)
  have hact : "add".toList.isPrefixOf (trunc (opText m.isActive) 8) = m.isActive := by
    cases m.isActive <;> decide
  rw [hbody, readLine_global]
  show Option.map _ _ = _
  unfold parseMaskRecord
  rw [hsplit]
  simp only [huuid, trunc_of_lt h.mask.1, hact, atoll_ofInt h.used.1 h.used.2,
    atoll_ofInt h.stamp.1 h.stamp.2, Option.map_some]

/-- A flag record with a stamp that can be read back. The flags have no bar, since they are
letters. -/
theorem readLine_uflag {r : UflagRecord} (huuid : uuidShape r.uuid = true)
    (hflags : '|' ∉ r.flags) (hstamp : 0 ≤ r.timestamp ∧ r.timestamp ≤ i64Max) :
    readLine (formatUflag r).dropLast = some (.uflag r) := by
  have hbody : (formatUflag r).dropLast
      = "uf|".toList ++ (r.uuid ++ '|' :: (r.flags ++ '|' :: ofInt r.timestamp)) := by
    unfold formatUflag
    rw [List.dropLast_concat]
    simp only [List.append_assoc, List.cons_append]
  have htrim : trimLineEnd (r.uuid ++ '|' :: (r.flags ++ '|' :: ofInt r.timestamp))
      = r.uuid ++ '|' :: (r.flags ++ '|' :: ofInt r.timestamp) := by
    have h := trimLineEnd_ofInt (r.uuid ++ '|' :: (r.flags ++ ['|'])) hstamp.1
    simpa using h
  unfold readLine
  rw [hbody, afterTag_append]
  show readUflag _ = _
  unfold readUflag
  rw [htrim, List.splitOn_append_cons_self_of_not_mem (bar_notMem_of_uuidShape huuid),
    List.splitOn_append_cons_self_of_not_mem hflags,
    List.splitOn_eq_singleton (bar_notMem_ofInt _)]
  simp only [atoll_ofInt hstamp.1 hstamp.2]

/-- A binding is. Its stamp is written with a sign and read without, so it must not be
negative. -/
theorem readLine_uchan {r : UchanRecord} (huuid : uuidShape r.uuid = true) (hchan : '|' ∉ r.chan)
    (hstamp : 0 ≤ r.timestamp ∧ r.timestamp ≤ i64Max) :
    readLine (formatUchan r).dropLast = some (.uchan r) := by
  have hbody : (formatUchan r).dropLast
      = "uc|".toList ++ (r.uuid ++ '|'
        :: (r.chan ++ '|' :: (opText r.isActive ++ '|' :: ofInt r.timestamp))) := by
    unfold formatUchan
    rw [List.dropLast_concat]
    simp only [List.append_assoc, List.cons_append]
    rfl
  have htrim : trimLineEnd
    (r.uuid ++ '|' :: (r.chan ++ '|' :: (opText r.isActive ++ '|' :: ofInt r.timestamp)))
      = r.uuid ++ '|' :: (r.chan ++ '|' :: (opText r.isActive ++ '|' :: ofInt r.timestamp)) := by
    have h := trimLineEnd_ofInt (r.uuid ++ '|' :: (r.chan ++ '|' :: (opText r.isActive ++ ['|'])))
      hstamp.1
    simpa using h
  have hnone : afterTag "uf|".toList
      ("uc|".toList ++ (r.uuid ++ '|'
      :: (r.chan ++ '|' :: (opText r.isActive ++ '|' :: ofInt r.timestamp))))
      = none := rfl
  have hact : (opText r.isActive == "add".toList) = r.isActive := by
    cases r.isActive <;> decide
  have hop : (decide (opText r.isActive ≠ "add".toList)
    && decide (opText r.isActive ≠ "del".toList)) = false := by
    cases r.isActive <;> decide
  unfold readLine
  rw [hbody, hnone, afterTag_append]
  show readUchan _ = _
  unfold readUchan
  rw [htrim, List.splitOn_append_cons_self_of_not_mem (bar_notMem_of_uuidShape huuid),
    List.splitOn_append_cons_self_of_not_mem hchan,
    List.splitOn_append_cons_self_of_not_mem (bar_notMem_opText _),
    List.splitOn_eq_singleton (bar_notMem_ofInt _)]
  simp only [hop, Bool.false_eq_true, if_false, hact, atoll_ofInt hstamp.1 hstamp.2]

/-- A channel line is read as its value, cut to the buffer. -/
theorem readLine_chan (v : Str) {ts : Int} (hts : 0 ≤ ts ∧ ts ≤ i64Max) :
    readLine (GlobalKey.c.tag :: '|' :: (v ++ '|' :: ofInt ts))
      = (parseGlobalChannelValue (trunc v 1024)).map fun p =>
        .chan p.1 p.2.1 p.2.2.1 p.2.2.2 ts := by
  have hsplit : rsplitOnce '|' (v ++ '|' :: ofInt ts) = some (v, ofInt ts) :=
    rsplitOnce_eq_some_iff.mpr ⟨rfl, bar_notMem_ofInt _⟩
  rw [readLine_global]
  show readChan _ = _
  unfold readChan
  rw [hsplit]
  simp only [atoll_ofInt hts.1 hts.2]

end IrcHub.Proofs
