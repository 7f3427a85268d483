import IrcHub.Proofs.Console.ReadBack

/-!
# `IrcHub.Proofs.Floor.Accepts`: what a peer stores from a line

What a peer stores from a line. The admin floor writes records and sends their lines, and it is of
use only if the peers store what it wrote. `Accepts` says that a peer stores the record of every
line of a payload, one after another. There is one lemma per kind of line the admin floor sends: a
user, a usermask and a flag record, each for a peer that holds the record the line replaces.

- `Accepts`: a peer stores the record of each line in turn, and counts it
- `syncLine_people`: a line of a user or of a usermask is taken for one
- `UserLine`, `parseUserRecord_wired`: a user whose line is read back
- `MaskLine`, `parseMaskRecord_format`: a usermask whose line is
- `accepts_user`, `accepts_mask`, `accepts_uflag`: the three kinds

A line carries the key of a user only if the user has one, and a line without a key does not erase
a stored one. So the user that is read is not always the one that was written (`wired`), and the
record that is stored is.
-/

set_option autoImplicit false

namespace IrcHub.Proofs

open IrcHub.Hub Str
open String (utf8Len)

/-- A peer stores the record of each line in turn. -/
inductive Accepts (clk : Clock) : HubState → List Str → HubState → Prop
  | nil (p : HubState) : Accepts clk p [] p
  | cons {p q r : HubState} {line : Str} {lines : List Str} {cnt : SyncCounters}
      (hline : syncLine clk (p, {}) line = some (q, cnt)) (hstored : cnt.updates = 1)
      (hrest : Accepts clk q lines r) : Accepts clk p (line :: lines) r

section Lines

variable {clk : Clock} {p q r : HubState}

/-- Lines accepted one after the other. -/
theorem Accepts.append {xs ys : List Str} (h : Accepts clk p xs q) (h' : Accepts clk q ys r) :
    Accepts clk p (xs ++ ys) r := by
  induction h with
  | nil p => exact h'
  | cons hline hstored _ ih => exact .cons hline hstored (ih h')

/-! ### Lines of people -/

/-- Text of one byte a character is looked up by character. -/
theorem byteAt_of_ascii {s : Str} (h : ∀ c ∈ s, c.toNat < 128) (i : Nat) :
    byteAt s i = s[i]? := by
  induction s generalizing i with
  | nil => rfl
  | cons c s ih =>
    have hsize : c.utf8Size = 1 := by
      have hc := h c List.mem_cons_self
      rw [Char.utf8Size_eq_one_iff]
      exact UInt32.le_iff_toNat_le.mpr (Nat.le_of_lt_succ hc)
    have hrest := ih fun d hd => h d (List.mem_cons_of_mem _ hd)
    cases i with
    | zero => rfl
    | succ i =>
      unfold byteAt
      rw [if_neg (Nat.succ_ne_zero i), hsize, if_pos (by omega), hrest]
      rfl

/-- The characters of a uuid are ASCII. -/
theorem toNat_of_isHexDigit {c : Char} (h : isHexDigit c = true) : c.toNat < 128 := by
  simp only [isHexDigit, Char.isDigit, Bool.or_eq_true, Bool.and_eq_true, decide_eq_true_eq,
    UInt32.le_iff_toNat_le, ge_iff_le, Char.le_def] at h
  have hn : c.toNat = c.val.toNat := rfl
  have h9 : '9'.val.toNat = 57 := rfl
  have hf : 'f'.val.toNat = 102 := rfl
  have hF : 'F'.val.toNat = 70 := rfl
  omega

/-- A uuid of the right shape has its dashes, where the reader of a line looks for them. -/
theorem hasUuidDashes_of_uuidShape {u : Str} (h : uuidShape u = true) :
    hasUuidDashes u = true := by
  have hascii : ∀ c ∈ u, c.toNat < 128 :=
    forall_of_uuidShape (P := fun c => c.toNat < 128) (by decide)
      (fun c hc => toNat_of_isHexDigit hc) h
  have hshape := h
  simp only [uuidShape, Bool.and_eq_true, beq_iff_eq, List.all_eq_true] at hshape
  obtain ⟨hlen, hall⟩ := hshape
  unfold hasUuidDashes
  rw [utf8Len_eq_length hascii, hlen, decide_eq_true rfl, Bool.true_and, List.all_eq_true]
  intro i hi
  have hlt : i < u.length := by
    have hmem : i = 8 ∨ i = 13 ∨ i = 18 ∨ i = 23 := by simpa using hi
    omega
  have hdash := hall (u[i], i)
    (List.mk_mem_zipIdx_iff_getElem?.mpr (List.getElem?_eq_getElem hlt))
  rw [if_pos hi] at hdash
  have hchar : u[i] = '-' := beq_iff_eq.mp hdash
  rw [byteAt_of_ascii hascii, List.getElem?_eq_getElem hlt, hchar]
  rfl

/-- A line of a user with flags, or of a usermask, is stored as one. The uuid in front is what
tells it from an old record of the global table. -/
theorem syncLine_people {k : GlobalKey} (hk : k = .a ∨ k = .m) (clk : Clock) (p : HubState)
    {uuid rest : Str} (huuid : uuidShape uuid = true) :
    syncLine clk (p, {}) (k.tag :: '|' :: (uuid ++ '|' :: rest))
      = some (if k = .a then syncUserRecord clk p k.tag (uuid ++ '|' :: rest) {}
          else syncMaskRecord clk p (uuid ++ '|' :: rest) (k.tag :: '|' :: (uuid ++ '|' :: rest))
            {}) := by
  have htagged : syncTagged clk p (k.tag :: '|' :: (uuid ++ '|' :: rest)) {} = none := by
    rcases hk with rfl | rfl
    · rfl
    · rfl
  have hbot : afterTag "b|".toList (k.tag :: '|' :: (uuid ++ '|' :: rest)) = none := by
    rcases hk with rfl | rfl
    · rfl
    · rfl
  have hglobal : globalLine (k.tag :: '|' :: (uuid ++ '|' :: rest)) = some
    (k, uuid ++ '|' :: rest) := by
    have hsplit : splitOnce '|' (k.tag :: '|' :: (uuid ++ '|' :: rest)) = some
      ([k.tag], uuid ++ '|' :: rest) :=
      splitOnce_eq_some_iff.mpr ⟨rfl, by rcases hk with rfl | rfl <;> decide⟩
    have hkey : globalKeyOf [k.tag] = some k := by
      rcases hk with rfl | rfl
      · rfl
      · rfl
    unfold globalLine
    rw [hsplit]
    show Option.map _ (globalKeyOf [k.tag]) = _
    rw [hkey]
    rfl
  have hfirst : firstValue (uuid ++ '|' :: rest) = uuid := by
    have hsplit : splitOnce '|' (uuid ++ '|' :: rest) = some (uuid, rest) :=
      splitOnce_eq_some_iff.mpr ⟨rfl, bar_notMem_of_uuidShape huuid⟩
    have hfit : Fit (fun _ => True) 36 uuid := fit_uuidShape (fun _ _ _ => trivial) huuid
    have hlen : utf8Len uuid ≤ 36 := hfit.len
    unfold firstValue
    rw [hsplit]
    show (if utf8Len uuid < 40 then uuid else []) = uuid
    rw [if_pos (by omega)]
  unfold syncLine
  rw [htagged, hbot, hglobal]
  show some (syncGlobal clk p k (uuid ++ '|' :: rest) _ {}) = _
  unfold syncGlobal
  rw [hfirst, hasUuidDashes_of_uuidShape huuid]
  rcases hk with rfl | rfl
  · rfl
  · rfl

/-! ### Users -/

/-- A user whose line can be read back: the fields are ones a line takes. -/
structure UserLine (u : UserRecord) : Prop where
  uuid : uuidShape u.uuid = true
  name : u.name ≠ [] ∧ utf8Len u.name < 64 ∧ '|' ∉ u.name
  key : u.hasPubkey = true → (pubkeyB64Decode u.pubkeyB64).isSome = true
  seen : InI64 u.lastSeen
  stamp : InI64 u.timestamp

/-- A line carries the key only where there is one. -/
def wired (u : UserRecord) : UserRecord :=
  { u with pubkeyB64 := if u.hasPubkey then u.pubkeyB64 else [] }

/-- The text of a user line after its tag. -/
def userBody (u : UserRecord) : Str :=
  u.name ++ '|' :: ((if u.hasPubkey then u.pubkeyB64 else []) ++ '|'
    :: (opText u.isActive ++ '|' :: (ofInt u.lastSeen ++ '|' :: (ofInt u.timestamp ++ ['|']))))

/-- The line of an admin that is restored is read as that admin, with its key where it has one. -/
theorem parseUserRecord_wired {u : UserRecord} (h : UserLine u) :
    parseUserRecord (u.uuid ++ '|' :: userBody u) u.typ = some (wired u) := by
  have hkeybar : '|' ∉ (if u.hasPubkey then u.pubkeyB64 else []) := by
    split
    · rename_i hkey
      exact bar_notMem_of_pubkey (h.key hkey)
    · exact List.not_mem_nil
  have hlast : (ofInt u.timestamp ++ ['|']).splitOn '|' = [ofInt u.timestamp, []] := by
    rw [List.splitOn_append_cons_self_of_not_mem (bar_notMem_ofInt _)]
    rfl
  have hsplit : splitFields (u.uuid ++ '|' :: userBody u) 8
      = [u.uuid, u.name, (if u.hasPubkey then u.pubkeyB64 else []), opText u.isActive,
        ofInt u.lastSeen, ofInt u.timestamp, []] := by
    unfold splitFields userBody
    rw [List.splitOn_append_cons_self_of_not_mem (bar_notMem_of_uuidShape h.uuid),
      List.splitOn_append_cons_self_of_not_mem h.name.2.2,
      List.splitOn_append_cons_self_of_not_mem hkeybar,
      List.splitOn_append_cons_self_of_not_mem (bar_notMem_opText _),
      List.splitOn_append_cons_self_of_not_mem (bar_notMem_ofInt _), hlast]
    rfl
  have hname : (u.name.isEmpty || decide (utf8Len u.name ≥ 64)) = false := by
    rw [List.isEmpty_eq_false_iff.mpr h.name.1, decide_eq_false (Nat.not_le.mpr h.name.2.1)]
    rfl
  have hact : (opText u.isActive == "add".toList) = u.isActive := by
    cases u.isActive <;> decide
  have hseen : atoll (ofInt u.lastSeen) = u.lastSeen := atoll_ofInt_i64 h.seen.1 h.seen.2
  have hstamp : atoll (ofInt u.timestamp) = u.timestamp := atoll_ofInt_i64 h.stamp.1 h.stamp.2
  unfold parseUserRecord
  rw [hsplit]
  simp only [h.uuid, hname, hact, hseen, hstamp, Bool.not_true, Bool.false_eq_true, if_false]
  obtain ⟨uuid, name, key, hasKey, typ, active, seen, ts⟩ := u
  cases hasKey with
  | false => rfl
  | true =>
    have hdec : (pubkeyB64Decode key).isSome = true := h.key rfl
    have hlen := utf8Len_of_pubkey hdec
    have hne : key.isEmpty = false := by
      rw [List.isEmpty_eq_false_iff]
      rintro rfl
      exact absurd hlen (by decide)
    have hfield : fieldPubkey key = some key := by
      unfold fieldPubkey
      rw [if_neg (fun hbad => hbad hlen)]
      obtain ⟨d, hd⟩ := Option.isSome_iff_exists.mp hdec
      rw [hd]
      rfl
    simp only [if_true, hne, Bool.false_eq_true, if_false, hfield, Option.map_some, wired]

/-- The line without its end. -/
theorem formatUserRecord_dropLast (u : UserRecord) :
    (formatUserRecord u).dropLast = u.typ :: '|' :: (u.uuid ++ '|' :: userBody u) := by
  have hend : "|\n".toList = ['|'] ++ ['\n'] := rfl
  unfold formatUserRecord userBody
  rw [hend, ← List.append_assoc, List.dropLast_concat]
  simp only [List.append_assoc, List.cons_append]

/-- A peer that holds an older record of the user stores the line. `hacc` is that the line wins
there. -/
theorem accepts_user {i : Nat} {cur u : UserRecord} (hfind : userFind p u.uuid = some i)
    (hget : p.userRecords[i]? = some cur) (htyp : u.typ = 'a') (hline : UserLine u)
    (hacc : lwwAccepts clk u.timestamp u.isActive cur.timestamp cur.isActive = true) :
    Accepts clk p [(formatUserRecord u).dropLast]
      { p with userRecords := p.userRecords.set i (userWrite (wired u) cur) } := by
  have hparse := parseUserRecord_wired hline
  rw [htyp] at hparse
  have hsync : syncLine clk (p, {}) (formatUserRecord u).dropLast
      = some (syncUserRecord clk p 'a' (u.uuid ++ '|' :: userBody u) {}) := by
    rw [formatUserRecord_dropLast, htyp]
    exact syncLine_people (.inl rfl) clk p hline.uuid
  have hslot : userSlot clk p (wired u) = some (p, i) := by
    have hfind' : userFind p (wired u).uuid = some i := hfind
    unfold userSlot
    rw [hfind']
  have hacc' : lwwAccepts clk (wired u).timestamp (wired u).isActive cur.timestamp cur.isActive
    = true := hacc
  obtain ⟨cnt, hcnt, hstored⟩ : ∃ cnt : SyncCounters,
      syncUserRecord clk p 'a' (u.uuid ++ '|' :: userBody u) {}
        = ({ p with userRecords := p.userRecords.set i (userWrite (wired u) cur) }, cnt)
      ∧ cnt.updates = 1 := by
    unfold syncUserRecord
    rw [hparse]
    simp only [hslot, hget, hacc', Bool.not_true, Bool.false_eq_true, if_false]
    refine ⟨_, rfl, ?_⟩
    split
    · unfold SyncCounters.send
      split
      · rfl
      · rfl
    · rfl
  exact .cons (hsync.trans (congrArg some hcnt)) hstored (.nil _)

/-! ### Usermasks -/

/-- A usermask whose line can be read back. -/
structure MaskLine (m : MaskRecord) : Prop where
  uuid : uuidShape m.uuid = true
  mask : utf8Len m.mask < maxMaskLen ∧ '|' ∉ m.mask
  used : InI64 m.lastUsed
  stamp : InI64 m.timestamp

/-- The text of a mask line after its uuid. -/
def maskBody (m : MaskRecord) : Str :=
  m.mask ++ '|' :: (opText m.isActive ++ '|' :: (ofInt m.lastUsed ++ '|' :: ofInt m.timestamp))

/-- The line of a mask is read as that mask. -/
theorem parseMaskRecord_format {m : MaskRecord} (h : MaskLine m) :
    parseMaskRecord (m.uuid ++ '|' :: maskBody m) = some m := by
  have hsplit : splitFields (m.uuid ++ '|' :: maskBody m) 5
      = [m.uuid, m.mask, opText m.isActive, ofInt m.lastUsed, ofInt m.timestamp] := by
    unfold splitFields maskBody
    rw [List.splitOn_append_cons_self_of_not_mem (bar_notMem_of_uuidShape h.uuid),
      List.splitOn_append_cons_self_of_not_mem h.mask.2,
      List.splitOn_append_cons_self_of_not_mem (bar_notMem_opText _),
      List.splitOn_append_cons_self_of_not_mem (bar_notMem_ofInt _),
      List.splitOn_eq_singleton (bar_notMem_ofInt _)]
    rfl
  have huuid : trunc m.uuid 37 = m.uuid :=
    have hfit : Fit (fun _ => True) 36 m.uuid := fit_uuidShape (fun _ _ _ => trivial) h.uuid
    trunc_of_lt (Nat.lt_succ_of_le hfit.len)
  have hact : "add".toList.isPrefixOf (trunc (opText m.isActive) 8) = m.isActive := by
    cases m.isActive <;> decide
  unfold parseMaskRecord
  rw [hsplit]
  simp only [huuid, trunc_of_lt h.mask.1, hact, atoll_ofInt_i64 h.used.1 h.used.2,
    atoll_ofInt_i64 h.stamp.1 h.stamp.2]

/-- The line of a mask without its end. -/
theorem formatMaskRecord_dropLast (m : MaskRecord) :
    (formatMaskRecord m).dropLast = GlobalKey.m.tag :: '|' :: (m.uuid ++ '|' :: maskBody m) := by
  have htag : "m|".toList = [GlobalKey.m.tag, '|'] := rfl
  unfold formatMaskRecord maskBody
  rw [List.dropLast_concat, htag]
  simp only [List.append_assoc, List.cons_append, List.nil_append]

/-- A peer that holds an older record of the mask stores the line. `huser`: it knows the user. -/
theorem accepts_mask {i : Nat} {cur m : MaskRecord} (huser : (userFind p m.uuid).isSome = true)
    (hfind : maskFind p m.uuid m.mask = some i) (hget : p.maskRecords[i]? = some cur)
    (hline : MaskLine m)
    (hacc : lwwAccepts clk m.timestamp m.isActive cur.timestamp cur.isActive = true) :
    Accepts clk p [(formatMaskRecord m).dropLast]
      { p with
        maskRecords := p.maskRecords.set i
          { cur with
            isActive := m.isActive
            lastUsed := max cur.lastUsed m.lastUsed
            timestamp := m.timestamp } } := by
  have hparse := parseMaskRecord_format hline
  have hsync : syncLine clk (p, {}) (formatMaskRecord m).dropLast
      = some (syncMaskRecord clk p (m.uuid ++ '|' :: maskBody m)
        (formatMaskRecord m).dropLast {}) := by
    rw [formatMaskRecord_dropLast]
    exact syncLine_people (.inr rfl) clk p hline.uuid
  have hslot : maskSlot clk p m = some (p, i) := by
    unfold maskSlot
    rw [hfind]
  have hknown : (userFind p m.uuid).isNone = false := by
    rw [← Option.not_isSome, huser]
    rfl
  obtain ⟨cnt, hcnt, hstored⟩ : ∃ cnt : SyncCounters,
      syncMaskRecord clk p (m.uuid ++ '|' :: maskBody m) (formatMaskRecord m).dropLast {}
        = ({ p with
              maskRecords := p.maskRecords.set i
                { cur with
                  isActive := m.isActive
                  lastUsed := max cur.lastUsed m.lastUsed
                  timestamp := m.timestamp } }, cnt)
      ∧ cnt.updates = 1 := by
    unfold syncMaskRecord
    rw [hparse]
    simp only [hknown, Bool.false_eq_true, if_false, hslot, hget, hacc, Bool.not_true]
    refine ⟨_, rfl, ?_⟩
    unfold SyncCounters.send
    split
    · rfl
    · rfl
  exact .cons (hsync.trans (congrArg some hcnt)) hstored (.nil _)

/-! ### Flag records -/

/-- A peer that holds the same flags stores the flag record the hub stored. `hput` says that the
put is one that stores. -/
theorem accepts_uflag {u : UserRecord} {r : UflagRecord} (huser : u ∈ p.userRecords)
    (huuid : u.uuid = r.uuid) (hshape : uuidShape r.uuid = true)
    (hflags : '|' ∉ r.flags ∧ utf8Len r.flags ≤ 6)
    (hstamp : 0 ≤ r.timestamp ∧ r.timestamp ≤ i64Max)
    (hput : (uflagPut clk p r.uuid r.flags r.timestamp).2 = true) :
    Accepts clk p [(formatUflag r).dropLast] (uflagPut clk p r.uuid r.flags r.timestamp).1 := by
  -- the line without its end
  have hbody : (formatUflag r).dropLast = "uf|".toList
    ++ (r.uuid ++ '|' :: (r.flags ++ '|' :: ofInt r.timestamp)) := by
    unfold formatUflag
    rw [List.dropLast_concat]
    simp only [List.append_assoc, List.cons_append]
  have htrim : trimLineEnd (r.uuid ++ '|' :: (r.flags ++ '|' :: ofInt r.timestamp))
      = r.uuid ++ '|' :: (r.flags ++ '|' :: ofInt r.timestamp) := by
    have h := trimLineEnd_ofInt (r.uuid ++ '|' :: (r.flags ++ ['|'])) hstamp.1
    simpa using h
  -- its three fields
  have hsplit : (r.uuid ++ '|' :: (r.flags ++ '|' :: ofInt r.timestamp)).splitOn '|'
      = [r.uuid, r.flags, ofInt r.timestamp] := by
    rw [List.splitOn_append_cons_self_of_not_mem (bar_notMem_of_uuidShape hshape),
      List.splitOn_append_cons_self_of_not_mem hflags.1,
      List.splitOn_eq_singleton (bar_notMem_ofInt _)]
  -- it is short enough for the reader
  have hlen : ¬ utf8Len (r.uuid ++ '|' :: (r.flags ++ '|' :: ofInt r.timestamp)) ≥ ucLineMax := by
    have hfit : Fit (fun _ => True) 36 r.uuid := fit_uuidShape (fun _ _ _ => trivial) hshape
    have huuidLen : utf8Len r.uuid ≤ 36 := hfit.len
    have hnum : utf8Len (ofInt r.timestamp) ≤ 20 := by
      have hmin : (-9223372036854775808 : Int) ≤ r.timestamp := by omega
      have htext : Fit (fun _ => True) 20 (ofInt r.timestamp) :=
        fit_ofInt hmin hstamp.2 fun _ _ => trivial
      exact htext.len
    have hbar : utf8Len ['|'] = 1 := rfl
    have hmax : ucLineMax = 160 := rfl
    rw [List.append_cons, List.append_cons r.flags]
    simp only [String.utf8Len_append, hbar]
    omega
  -- the user is known on the peer
  have hknown : (p.userRecords.any fun u => some u.uuid == some r.uuid) = true :=
    List.any_eq_true.mpr ⟨u, huser, by rw [huuid]; exact beq_self_eq_true _⟩
  have hread : atoll (ofInt r.timestamp) = r.timestamp := atoll_ofInt hstamp.1 hstamp.2
  -- so the reader puts just this record
  have hingest : accessIngest clk p 'f'
    (r.uuid ++ '|' :: (r.flags ++ '|' :: ofInt r.timestamp)) true
      = ((uflagPut clk p r.uuid r.flags r.timestamp).1, some true) := by
    unfold accessIngest
    rw [if_neg hlen, htrim, hsplit]
    simp only [List.head?_cons, hknown, Bool.not_true, Bool.and_false, Bool.false_eq_true,
      if_false, if_true, hread, hput]
  -- and counts it as an update
  obtain ⟨cnt, hcnt, hstored⟩ : ∃ cnt : SyncCounters,
      syncLine clk (p, {}) (formatUflag r).dropLast
        = some ((uflagPut clk p r.uuid r.flags r.timestamp).1, cnt) ∧ cnt.updates = 1 := by
    have hsync : syncLine clk (p, {}) (formatUflag r).dropLast
        = some ((accessIngest clk p 'f'
          (r.uuid ++ '|' :: (r.flags ++ '|' :: ofInt r.timestamp)) true).1,
          if (accessIngest clk p 'f' (r.uuid ++ '|' :: (r.flags ++ '|' :: ofInt r.timestamp))
            true).2 = some true
          then (SyncCounters.push {}).sendWithin ucLineMax ((formatUflag r).dropLast ++ ['\n'])
            else {}) := by
      rw [hbody]
      rfl
    rw [hsync, hingest]
    refine ⟨_, rfl, ?_⟩
    show ((SyncCounters.push {}).sendWithin ucLineMax _).updates = 1
    unfold SyncCounters.sendWithin
    split
    · rfl
    · rfl
  exact .cons hcnt hstored (.nil _)

end Lines

end IrcHub.Proofs
