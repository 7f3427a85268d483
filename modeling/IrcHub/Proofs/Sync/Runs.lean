import IrcHub.Proofs.Sync.Frames

/-!
# `IrcHub.Proofs.Sync.Runs`: every operation of a hub keeps the caps

The commands of the console, then all operations together, then whole runs (`fits_runHub`).

Two commands store text as it was typed, and a line end in it breaks the lines of the sync:

* `user add` the name and the mask (`userAddBreaks`)
* `channel del` the name of a channel the hub does not know (`chanDelBreaks`)

With the lines of `IrcHub.Proofs.Sync.Frames` these are all the ways a run can leave the invariant
for texts without line ends and NULs (`OpSafe`); the lengths hold without such a condition. The
other commands check what was typed before they store it, or store none of it.
-/

set_option autoImplicit false

namespace IrcHub.Proofs

open IrcHub.Hub Str Table
open String (utf8Len)

variable {ok : Char → Prop} {s : HubState} {clk : Clock}

/-! ### Typed text -/

/-- What was typed has no NUL. -/
def NoNul (t : Str) : Prop := '\x00' ∉ t

/-- A part of what was typed has no NUL either. -/
theorem NoNul.sublist {t u : Str} (h : NoNul t) (hsub : u.Sublist t) : NoNul u :=
  fun hc => h (hsub.subset hc)

/-- Typed text without a line end is allowed, and so is any text where every character is. -/
theorem NoNul.chars {t : Str} (h : NoNul t) (hok : WireOk ok) (hend : (∀ c, ok c) ∨ '\n' ∉ t) :
    ∀ c ∈ t, ok c := by
  intro c hc
  rcases hend with hall | hend
  · exact hall c
  · refine hok c ?_ ?_
    · rintro rfl
      exact hend hc
    · rintro rfl
      exact h hc

/-- The fields of a payload are part of it. -/
theorem mem_splitFields {t f : Str} {n : Nat} (h : f ∈ splitFields t n) : f.Sublist t :=
  (mem_splitOn (List.mem_of_mem_take h)).1

/-- A scanned word has no white space. -/
theorem scanWord_spec {f w : Str} {n : Nat} (h : scanWord f n = some w) :
    w.Sublist f ∧ utf8Len w ≤ n ∧ '\n' ∉ w := by
  unfold scanWord at h
  simp only [] at h
  split at h
  · cases h
  cases h
  have hsub := (trunc_isPrefix ((f.dropWhile isUnicodeSpace).takeWhile fun c => !isUnicodeSpace c)
    (n + 1)).sublist
  refine ⟨hsub.trans ((List.takeWhile_sublist _).trans (List.dropWhile_sublist _)),
    utf8Len_takeBytes_le _ _, ?_⟩
  intro hc
  have hall := List.all_eq_true.mp (List.all_takeWhile (l := f.dropWhile isUnicodeSpace)
    (p := fun c => !isUnicodeSpace c)) _ (hsub.subset hc)
  exact absurd hall (by decide)

/-- The characters of a key that decodes: those of base64. -/
theorem chars_of_pubkey (hok : WireOk ok) {b64 : Str} (h : (pubkeyB64Decode b64).isSome = true) :
    ∀ c ∈ b64, ok c := by
  unfold pubkeyB64Decode at h
  split at h
  · cases h
  split at h
  · cases h
  rename_i hall
  rw [Bool.not_eq_true, Bool.not_eq_false', List.all_eq_true] at hall
  intro c hc
  obtain ⟨i, hi, rfl⟩ := List.mem_iff_getElem.mp hc
  have hp := hall (b64[i], i) (List.mk_mem_zipIdx_iff_getElem?.mpr (List.getElem?_eq_getElem hi))
  simp only [] at hp
  refine hok.print ?_
  split at hp
  · rw [eq_of_beq hp]
    decide
  · simp only [Bool.or_eq_true, beq_iff_eq] at hp
    rcases hp with (hp | hp) | hp
    · exact (toNat_of_alphanum hp).1
    · rw [hp]
      decide
    · rw [hp]
      decide

/-- The digits of a byte. -/
private theorem hexByte_print (b : UInt8) : ∀ c ∈ hexByte b, 0x20 ≤ c.toNat ∧ c.toNat < 128 := by
  have hdigit : ∀ n < 16, 0x20 ≤ (Nat.digitChar n).toNat ∧ (Nat.digitChar n).toNat < 128 := by
    decide
  have hb : b.toNat < 256 := b.toNat_lt
  intro c hc
  simp only [hexByte, List.mem_cons, List.not_mem_nil, or_false] at hc
  rcases hc with rfl | rfl
  · exact hdigit _ (by omega)
  · exact hdigit _ (by omega)

/-- A uuid the hub draws. -/
theorem fit_genUuidV4 (hok : WireOk ok) (r : Fin 16 → UInt8) : Fit ok 36 (genUuidV4 r) := by
  have hlen : ∀ b, (hexByte b).length = 2 := fun _ => rfl
  refine fit_of_ascii ?_ ?_
  · simp [genUuidV4, hlen]
  · intro c hc
    have hprint : 0x20 ≤ c.toNat ∧ c.toNat < 128 := by
      simp only [genUuidV4, List.append_assoc, List.cons_append, List.mem_append, List.mem_cons,
        List.mem_flatMap] at hc
      rcases hc with ⟨_, -, hc⟩ | rfl | ⟨_, -, hc⟩ | rfl | ⟨_, -, hc⟩ | rfl | ⟨_, -, hc⟩ | rfl
        | ⟨_, -, hc⟩
      all_goals first
        | exact hexByte_print _ c hc
        | decide
    exact ⟨hprint.2, hok.print hprint.1⟩

/-! ### Users -/

/-- The user a name finds is in the table. -/
theorem userByName_get {name : Str} {u : UserRecord}
    (h : (userByName s name).bind (s.userRecords[·]?) = some u) : u ∈ s.userRecords := by
  obtain ⟨i, -, hget⟩ := Option.bind_eq_some_iff.mp h
  exact List.mem_of_getElem? hget

/-- An accepted `user add` whose name or mask has a line end. -/
def userAddBreaks (s : HubState) (typ : Char) (payload : Str) : Bool :=
  match userAddFields payload with
  | none => false
  | some u =>
    match userAddAccess s typ u.access with
    | none => false
    | some (_, chans) => userAddOk s typ u chans && (u.name.contains '\n' || u.mask.contains '\n')

/-- The flags and bindings that a new user is given. -/
private theorem Fits.userAddRights (h : Fits ok s) (hok : WireOk ok) (hclk : InI64 clk.now)
    (typ : Char) (uuid flags : Str) (chans : List Str) :
    Fits ok (userAddRights clk s typ uuid flags chans) := by
  unfold Hub.userAddRights
  split
  · exact h.uflagPut hok uuid flags hclk
  · have hchans : Fits ok
      (chans.foldl (fun s c => (Hub.uchanPut clk s uuid c true clk.now).1) s) :=
      Fits.foldl (fun t c ht => ht.uchanPut hok uuid c true hclk) h chans
    simp only []
    split
    · exact hchans
    · exact hchans.uchanPut hok uuid ['*'] false hclk

/-- The fields of a `user add`: parts of what was typed, cut to their buffers. -/
private theorem userAddFields_spec {payload : Str} {u : UserAdd}
    (h : userAddFields payload = some u) :
    u.name.Sublist payload ∧ utf8Len u.name ≤ 63 ∧ u.mask.Sublist payload
      ∧ utf8Len u.mask ≤ 255 := by
  unfold userAddFields at h
  split at h
  · rename_i name pubKey mask rest hsplit
    have hmem : ∀ f ∈ name :: pubKey :: mask :: rest, f.Sublist payload := by
      intro f hf
      rw [← hsplit] at hf
      exact mem_splitFields hf
    simp only [] at h
    generalize (if utf8Len mask ≥ maxMaskLen then [] else trunc (rest.head?.getD []) 512) = acc
      at h
    split at h
    · cases h
    · rename_i hguard
      simp only [scanOk, Bool.or_eq_true, Bool.not_eq_true', not_or, Bool.not_eq_false,
        Bool.and_eq_true, decide_eq_true_eq] at hguard
      cases h
      exact ⟨hmem name (by simp), hguard.1.1.1.2,
        (trunc_isPrefix _ _).sublist.trans (hmem mask (by simp)), utf8Len_takeBytes_le _ _⟩
  · cases h

/-- `user add`. A name or mask with a line end would break the lines of the user, so it is
excluded unless every character is allowed. -/
theorem Fits.addUserRecord (h : Fits ok s) (hok : WireOk ok) (hclk : InI64 clk.now)
    {payload : Str} (hnul : NoNul payload) {typ : Char} (htyp : Fit ok 1 [typ]) {uuid : Str}
    (huuid : Fit ok 36 uuid) (hsafe : (∀ c, ok c) ∨ userAddBreaks s typ payload = false) :
    Fits ok (addUserRecord clk s payload typ uuid) := by
  unfold Hub.addUserRecord
  unfold userAddBreaks at hsafe
  split
  · exact h
  rename_i u hfields
  rw [hfields] at hsafe
  obtain ⟨hname, hnameLen, hmask, hmaskLen⟩ := userAddFields_spec hfields
  split
  · exact h
  rename_i flags chans haccess
  simp only [haccess] at hsafe
  split
  · exact h
  rename_i hokAdd
  rw [Bool.not_eq_true, Bool.not_eq_false'] at hokAdd
  have hend : (∀ c, ok c) ∨ ('\n' ∉ u.name ∧ '\n' ∉ u.mask) := by
    refine hsafe.imp_right fun hno => ?_
    rw [hokAdd] at hno
    simpa using hno
  simp only [userAddOk, Bool.and_eq_true, decide_eq_true_eq] at hokAdd
  obtain ⟨⟨⟨⟨⟨⟨⟨-, hkey⟩, -⟩, -⟩, -⟩, husers⟩, hmasks⟩, -⟩ := hokAdd
  refine Fits.broadcast (Fits.userAddRights ?_ hok hclk typ uuid flags chans) _
  refine { h with users := ?_, masks := ?_ }
  · exact h.users.append husers
      ⟨huuid, ⟨hnameLen, (hnul.sublist hname).chars hok (hend.imp_right And.left)⟩,
        fit_of_pubkey (chars_of_pubkey hok hkey) hkey, htyp, inI64_zero, hclk⟩
  · exact h.masks.append hmasks
      ⟨huuid, ⟨hmaskLen, (hnul.sublist hmask).chars hok (hend.imp_right And.right)⟩,
       inI64_zero, hclk⟩

/-- `user del` changes the stamp and life of a user and of its rights. -/
theorem Fits.delUserRecord (h : Fits ok s) (hclk : InI64 clk.now) (payload : Str) :
    Fits ok (delUserRecord clk s payload) := by
  unfold Hub.delUserRecord
  split
  · exact h
  rename_i ui u hfind
  split
  · exact h
  have hu : UserFits ok u := by
    obtain ⟨i, -, hget⟩ := Option.bind_eq_some_iff.mp hfind
    obtain ⟨v, hv, heq⟩ := Option.map_eq_some_iff.mp hget
    cases heq
    exact h.users.get hv
  refine Fits.broadcast ?_ _
  refine { h with users := ?_, masks := ?_ }
  · exact h.users.set ui ⟨hu.uuid, hu.name, hu.key, hu.typ, hu.seen,
      inI64_lwwNextTs hclk hu.stamp⟩
  · refine h.masks.map fun m hm => ?_
    unfold dropMask
    split
    · exact ⟨hm.uuid, hm.mask, hm.used, inI64_lwwNextTs hclk hm.stamp⟩
    · exact hm

/-- The fields of `name|word`. -/
private theorem nameAndWord_spec {payload name w : Str} {n : Nat}
    (h : nameAndWord payload n = some (name, w)) : w.Sublist payload ∧ utf8Len w ≤ n
    ∧ '\n' ∉ w := by
  unfold nameAndWord at h
  split at h
  · rename_i name' f hsplit
    split at h
    · obtain ⟨w', hw', heq⟩ := Option.map_eq_some_iff.mp h
      cases heq
      obtain ⟨hsub, hlen, hend⟩ := scanWord_spec hw'
      have hf : f ∈ splitFields payload 2 := by
        rw [hsplit]
        simp
      exact ⟨hsub.trans (mem_splitFields hf), hlen, hend⟩
    · cases h
  · cases h

/-- A mask record is written at a place, or added when there is none. -/
theorem Fits.maskWrite (h : Fits ok s) (i : Nat) {m : MaskRecord} (hm : MaskFits ok m) :
    Fits ok (maskWrite s i m) := by
  refine Fits.broadcast ?_ _
  exact { h with masks := h.masks.set i hm }

/-- `user mask add`. The mask is cut and checked for what it may hold. -/
theorem Fits.addUsermask (h : Fits ok s) (hok : WireOk ok) (hclk : InI64 clk.now) {payload : Str}
    (hnul : NoNul payload) : Fits ok (addUsermask clk s payload) := by
  unfold Hub.addUsermask
  split
  · exact h
  rename_i name mask hword
  obtain ⟨hsub, hlen, hend⟩ := nameAndWord_spec hword
  split
  · exact h
  split
  · exact h
  rename_i u huser
  simp only []
  split
  · exact h
  split
  · rename_i m mi hlast
    have hmem := List.mem_of_getLast? hlast
    have hm := h.masks.get (List.mk_mem_zipIdx_iff_getElem?.mp (List.mem_filter.mp hmem).1)
    exact h.maskWrite mi ⟨hm.uuid, hm.mask, hm.used, inI64_lwwNextTs hclk hm.stamp⟩
  · split
    · exact h
    · rename_i hroom
      have hmask : Fit ok 255 mask := ⟨hlen, (hnul.sublist hsub).chars hok (.inr hend)⟩
      refine Fits.broadcast ?_ _
      exact { h with
        masks := h.masks.append (Nat.lt_of_not_le hroom)
          ⟨(h.users.all u (userByName_get huser)).uuid, hmask, inI64_zero, hclk⟩ }

/-- `user mask del`. -/
theorem Fits.delUsermask (h : Fits ok s) (hclk : InI64 clk.now) (payload : Str) :
    Fits ok (delUsermask clk s payload) := by
  unfold Hub.delUsermask
  split
  · exact h
  split
  · exact h
  split
  · exact h
  split
  · exact h
  rename_i mi _ _ m hget
  have hm := h.masks.get hget
  exact h.maskWrite mi ⟨hm.uuid, hm.mask, hm.used, inI64_lwwNextTs hclk hm.stamp⟩

/-- `user key`. The key has been decoded once, so it is as long as a key. -/
theorem Fits.setUserkey (h : Fits ok s) (hok : WireOk ok) (hclk : InI64 clk.now) (payload : Str) :
    Fits ok (setUserkey clk s payload) := by
  unfold Hub.setUserkey
  split
  · exact h
  rename_i name pubKey _
  split
  · exact h
  rename_i hkey
  split
  · exact h
  rename_i ti u hfind
  split
  · exact h
  have hu : UserFits ok u := by
    obtain ⟨i, -, hget⟩ := Option.bind_eq_some_iff.mp hfind
    obtain ⟨v, hv, heq⟩ := Option.map_eq_some_iff.mp hget
    cases heq
    exact h.users.get hv
  have hdec : (pubkeyB64Decode pubKey).isSome = true :=
    Option.isSome_iff_ne_none.mpr (by simpa using hkey)
  refine Fits.broadcast ?_ _
  exact { h with
    users := h.users.set ti
      ⟨hu.uuid, hu.name, fit_of_pubkey (chars_of_pubkey hok hdec) hdec, hu.typ, hu.seen,
        inI64_lwwNextTs hclk hu.stamp⟩ }

/-- `user access`: flags and bindings of a user. -/
theorem Fits.userAccess (h : Fits ok s) (hok : WireOk ok) (hclk : InI64 clk.now) (payload : Str) :
    Fits ok (userAccess clk s payload) := by
  have hflags : ∀ (t : UserRecord) (spec : Str), Fits ok (userSetFlags clk s t spec) := by
    intro t spec
    unfold userSetFlags
    split
    · exact h
    split
    · exact h
    rename_i flags _
    split
    · exact h
    have hput : Fits ok (Hub.uflagPut clk s t.uuid flags (accessNextTs clk s t.uuid)).1 :=
      h.uflagPut hok _ _ (h.inI64_accessNextTs hclk _)
    simp only []
    split
    · exact hput
    split
    · exact hput
    · exact hput.broadcast _
  have hchans : ∀ (t : UserRecord) (add : Bool) (chan : Str),
      Fits ok (userSetChan clk s t add chan) := by
    intro t add chan
    unfold userSetChan
    split
    · exact h
    have hchange : Fits ok (Hub.chanChange clk s t.uuid add chan).1 := h.chanChange hok hclk _ _ _
    simp only []
    split
    · exact hchange
    split
    · exact hchange
    · exact hchange.broadcast _
  unfold Hub.userAccess
  simp only []
  split
  · split
    · split
      · exact hflags _ _
      · exact h
    split
    · split
      · exact hchans _ _ _
      · exact h
    · exact h
  · exact h

/-! ### Channels, settings and bans -/

/-- The stamp of a record, zero when it is not there. -/
theorem Fits.inI64_globalTs (h : Fits ok s) (k : GlobalKey) (value : Str) :
    InI64 (globalTs s k value) := by
  unfold globalTs
  split
  · rename_i i _
    cases hget : s.globalEntries[i]? with
    | none => exact inI64_zero
    | some e => exact (h.entries e (List.mem_of_getElem? hget)).stamp
  · exact inI64_zero

/-- The modes the bots saw are a small number. -/
private theorem Fits.inI64_globalChannelModes (h : Fits ok s) (chan : Str) :
    InI64 (globalChannelModes s chan) := by
  unfold globalChannelModes
  cases hget : (learnedIndex s chan).bind (s.chanLearned[·]?) with
  | none => exact inI64_zero
  | some l =>
    obtain ⟨i, -, hl⟩ := Option.bind_eq_some_iff.mp hget
    obtain ⟨hlo, hhi⟩ := (h.learned.get hl).modes
    show InI64 l.modes
    unfold InI64 i64Min i64Max
    omega

/-- `channel add`, which checks the name first. -/
theorem Fits.addChannel (h : Fits ok s) (hok : WireOk ok) (hclk : InI64 clk.now) (payload : Str) :
    Fits ok (addChannel clk s payload) := by
  unfold Hub.addChannel
  simp only []
  split
  · exact h
  rename_i hguard
  simp only [Bool.or_eq_true, Bool.not_eq_true', not_or, Bool.not_eq_false,
    List.any_eq_true, not_exists, not_and, decide_eq_true_eq] at hguard
  obtain ⟨⟨-, hname⟩, hkey⟩ := hguard
  simp only [chanNameValid, Bool.and_eq_true, List.all_eq_true, decide_eq_true_eq] at hname
  have hchan : ∀ c ∈ (wireField payload 0 128).getD [], ok c := fun c hc =>
    hok.print (Nat.le_of_lt (hname.2 c hc).1.1)
  refine Fits.broadcast (h.updateGlobalEntry hok .c hchan ?_ ?_
    (inI64_lwwNextTs hclk (h.inI64_globalTs _ _))) _
  · intro c hc
    rcases List.mem_append.mp hc with hc | hc
    · exact hok.print (Nat.le_of_lt (Nat.lt_of_not_le (hkey c hc).1))
    rcases List.mem_cons.mp hc with rfl | hc
    · exact hok.print (by decide)
    · exact chars_ofInt hok (h.inI64_globalChannelModes _) c hc
  · exact chars_text hok (by decide)

/-- The stamp of a `channel del` is past stored ones. -/
private theorem Fits.inI64_chanDelStamp (h : Fits ok s) (hclk : InI64 clk.now) (chan : Str) :
    InI64 (chanDelStamp clk s chan) := by
  have hfold : ∀ (ts : List Int) (t : Int), InI64 t → (∀ x ∈ ts, InI64 x) →
    InI64 (ts.foldl max t) := by
    intro ts
    induction ts with
    | nil => exact fun t ht _ => ht
    | cons x ts ih =>
      intro t ht hts
      exact ih _ (inI64_max ht (hts x List.mem_cons_self)) fun y hy =>
        hts y (List.mem_cons_of_mem _ hy)
  have hstamps : ∀ x ∈ (s.globalEntries.filter fun e =>
      (e.key = .c || e.key = .C || e.key = .B) && entryChanEq e chan).map (·.timestamp),
      InI64 x := by
    intro x hx
    obtain ⟨e, he, rfl⟩ := List.mem_map.mp hx
    exact (h.entries e (List.mem_filter.mp he).1).stamp
  unfold chanDelStamp
  refine inI64_lwwNextTs hclk ?_
  split
  · exact inI64_zero
  · rename_i t ts heq
    rw [heq] at hstamps
    exact hfold ts t (hstamps t List.mem_cons_self) fun x hx =>
      hstamps x (List.mem_cons_of_mem _ hx)

/-- A `channel del` that stores a new record whose text has a line end. -/
def chanDelBreaks (clk : Clock) (s : HubState) (payload : Str) : Bool :=
  let t := chanDelStamp clk s payload
  let u := (chanCascadeDel clk s payload t true).1
  !payload.isEmpty && (globalFind u .c payload).isNone
    && (updateGlobalEntry clk u .c payload [] "del".toList t).2
    && (combinedValue .c payload [] (safeOp "del".toList)).contains '\n'

/-- `channel del`: the cascade and the tombstone. The name is stored as typed when the channel was
unknown, so it must have no line end unless those are allowed. -/
theorem Fits.delChannel (h : Fits ok s) (hok : WireOk ok) (hclk : InI64 clk.now) {payload : Str}
    (hnul : NoNul payload) (hsafe : (∀ c, ok c) ∨ chanDelBreaks clk s payload = false) :
    Fits ok (delChannel clk s payload) := by
  have hstamp := h.inI64_chanDelStamp hclk payload
  unfold Hub.delChannel
  split
  · exact h
  rename_i hempty
  refine Fits.broadcast (Fits.updateGlobalEntry_of (h.chanCascadeDel hok payload hstamp true) hok
    (fun c hc => (List.not_mem_nil hc).elim) (chars_text hok (by decide)) hstamp (.inl rfl)
    fun hfind hstored => ?_) _
  rcases hsafe with hall | hno
  · exact fun c _ => hall c
  · -- a new record: neither a NUL, as it was typed, nor a line end
    have hend : '\n' ∉ combinedValue .c payload [] (safeOp "del".toList) := by
      intro hmem
      have hbreaks : chanDelBreaks clk s payload = true := by
        unfold chanDelBreaks
        simp only []
        rw [hfind, hstored, List.contains_iff_mem.mpr hmem]
        simpa using hempty
      rw [hbreaks] at hno
      cases hno
    have hwire : WireOk (· ≠ '\x00') := fun c _ hne => hne
    have htyped : ∀ c ∈ combinedValue .c payload [] (safeOp "del".toList), c ≠ '\x00' :=
      chars_combinedValue hwire (fun c hc heq => hnul (heq ▸ hc))
        (fun c hc => (List.not_mem_nil hc).elim)
        (chars_safeOp hwire (chars_text hwire (by decide)))
    intro c hc
    refine hok c ?_ (htyped c hc)
    rintro rfl
    exact hend hc

/-- A checked record is stored above the stamp it had. -/
theorem Fits.storeRecord (h : Fits ok s) (hclk : InI64 clk.now) (k : GlobalKey) (value : Str)
    {prev : Int} (hprev : InI64 prev) : Fits ok (storeRecord clk s k value prev).1 := by
  have hput : Fits ok (Hub.putRecord clk s k value (lwwNextTs clk prev)).1 :=
    h.putRecord k value (inI64_lwwNextTs hclk hprev)
  unfold Hub.storeRecord
  simp only []
  split
  · unfold announceRecord
    simp only []
    split
    · exact hput.broadcast _
    · exact hput
  · exact hput

/-- `channel set`, by way of a record that is checked like a peer's. -/
theorem Fits.chansetPut (h : Fits ok s) (hclk : InI64 clk.now) (chan modes settings : Str) :
    Fits ok (chansetPut clk s chan modes settings).1 := by
  unfold Hub.chansetPut
  split
  · exact h
  split
  · exact h
  split
  · exact h
  split
  · exact h
  split
  · exact h
  split
  · exact h
  · exact h.storeRecord hclk .C _ (h.inI64_globalTs _ _)

/-- `net set`. -/
theorem Fits.netsetPut (h : Fits ok s) (hclk : InI64 clk.now) (modes settings : Str) :
    Fits ok (netsetPut clk s modes settings).1 := by
  unfold Hub.netsetPut
  split
  · exact h
  split
  · exact h
  split
  · exact h
  · exact h.storeRecord hclk .D _ (h.inI64_globalTs _ _)

/-- The stamp of a ban that is there, zero without one. -/
private theorem Fits.inI64_held (h : Fits ok s) {held : Option GlobalEntry}
    (hheld : ∀ e, held = some e → e ∈ s.globalEntries) :
    InI64 ((held.map (·.timestamp)).getD 0) := by
  cases held with
  | none => exact inI64_zero
  | some e => exact (h.entries e (hheld e rfl)).stamp

/-- The ban that was found is in the table. -/
private theorem mem_of_banFind {chan mask : Str} {e : GlobalEntry}
    (h : (banFind s chan mask).bind (s.globalEntries[·]?) = some e) : e ∈ s.globalEntries := by
  obtain ⟨i, -, hget⟩ := Option.bind_eq_some_iff.mp h
  exact List.mem_of_getElem? hget

/-- `ban add`. -/
theorem Fits.banAdd (h : Fits ok s) (hclk : InI64 clk.now) (chan mask : Str) (expires : Int)
    (sticky : Bool) (setter reason : Str) :
    Fits ok (banAdd clk s chan mask expires sticky setter reason).1 := by
  have hite : ∀ (c : Prop) [Decidable c] (p q : HubState × ModesStatus), Fits ok p.1 →
    Fits ok q.1 →
      Fits ok (if c then p else q).1 := fun c _ p q hp hq =>
    iteInduction (motive := fun r : HubState × ModesStatus => Fits ok r.1) (fun _ => hp) fun _ =>
      hq
  unfold Hub.banAdd
  refine hite _ _ _ h (hite _ _ _ h ?_)
  split
  · exact h
  refine hite _ _ _ h
    (hite _ _ _ h (hite _ _ _ h (hite _ _ _ h (hite _ _ _ h (hite _ _ _ h ?_)))))
  exact h.storeRecord hclk .B _ (h.inI64_held fun e he => mem_of_banFind he)

/-- `ban del`: the tombstone of the ban that is held. -/
theorem Fits.banDel (h : Fits ok s) (hclk : InI64 clk.now) (chan mask : Str) :
    Fits ok (banDel clk s chan mask).1 := by
  unfold Hub.banDel
  split
  · exact h
  split
  · exact h
  split
  · exact h
  split
  · exact h
  rename_i e hfind
  split
  · exact h
  · exact h.storeRecord hclk .B _ (h.entries e (mem_of_banFind hfind)).stamp

/-! ### Bots -/

/-- `bot add`: the nick and the key of a bot, under its uuid. -/
theorem Fits.createBotCmd {t : HubState} (h : Fits ok s) (hok : WireOk ok) (hclk : InI64 clk.now)
    {payload : Str} (ht : createBotCmd clk s payload = some t) : Fits ok t := by
  unfold Hub.createBotCmd at ht
  split at ht
  · rename_i nick uuid f hsplit
    split at ht
    · rename_i key _
      split at ht
      · unfold createBot at ht
        split at ht
        · cases ht
          exact h
        rename_i hguard
        simp only [Bool.or_eq_true, Bool.not_eq_true', not_or, Bool.not_eq_false] at hguard
        unfold addBotMemory at ht
        split at ht
        · cases ht
          exact h
        rename_i hroom
        simp only [Bool.or_eq_true, decide_eq_true_eq, not_or, not_le, ge_iff_le] at hroom
        simp only [Option.bind_eq_bind, Option.bind_eq_some_iff] at ht
        obtain ⟨p, hp, q, hq, r, hr, heq⟩ := ht
        cases heq
        have huuid : Fit ok 63 (trunc uuid 64) :=
          fit_trunc (fit_uuidShape hok hguard.1.1.1).chars 64
        have hnew : Fits ok { s with
            bots := s.bots ++ [{ uuid := trunc uuid 64, isActive := true }] } :=
          { h with
            bots := h.bots.append hroom.2
              ⟨huuid, List.nodup_nil, fun _ he => (List.not_mem_nil he).elim⟩ }
        have hp' := hnew.updateEntry hok hclk hp
        have hq' := hp'.updateEntry hok hclk hq
        exact hq'.updateEntry hok hclk hr
      · cases ht
        exact h
    · cases ht
      exact h
  · cases ht
    exact h

/-- `bot del`: the bot dies and its uuid is revoked. -/
theorem Fits.deleteBot {t : HubState} (h : Fits ok s) (hok : WireOk ok) (hclk : InI64 clk.now)
    {uuid : Str} (ht : deleteBot clk s uuid = some t) : Fits ok t := by
  unfold Hub.deleteBot at ht
  split at ht
  · cases ht
    exact h
  rename_i b hbot
  split at ht
  · cases ht
    exact h
  simp only [] at ht
  split at ht
  · cases ht
  rename_i p hupdate
  obtain ⟨i, -, hget⟩ := Option.bind_eq_some_iff.mp hbot
  have hp : Fits ok p.1 :=
    h.updateEntry hok (inI64_lwwNextTs hclk ((h.bots.get hget).inI64_entry .d)) hupdate
  split at ht
  · cases ht
    exact hp
  · cases ht
    exact hp.broadcast _

/-! ### The network -/

/-- The option flags are stored, stamped by the clock. -/
theorem Fits.optWrite (h : Fits ok s) (hclk : InI64 clk.now) {flags : Str}
    (hflags : Fit ok maxOptFlags flags) : Fits ok (optWrite clk s flags) := by
  refine Fits.broadcast ?_ _
  exact { h with opt := hflags, optTs := inI64_lwwNextTs hclk h.optTs }

/-- `option set`: letters and digits, each of them once. -/
theorem Fits.setOptFlags (h : Fits ok s) (hok : WireOk ok) (hclk : InI64 clk.now)
    (payload : Str) :
    Fits ok (setOptFlags clk s payload) := by
  -- letters and digits, each taken once, up to the cap
  have key : ∀ (cs acc : Str), (∀ c ∈ cs, c.isAlphanum = true) →
    (∀ c ∈ acc, c.isAlphanum = true) →
      acc.length ≤ maxOptFlags → Fit ok maxOptFlags (cs.foldl (fun (acc : Str) c =>
        if !acc.contains c && decide (acc.length < maxOptFlags) then acc ++ [c]
          else acc) acc) := by
    intro cs
    induction cs with
    | nil => exact fun acc _ hacc hlen => fit_alphanum hok hlen hacc
    | cons c cs ih =>
      intro acc hcs hacc hlen
      rw [List.foldl_cons]
      refine ih _ (fun d hd => hcs d (List.mem_cons_of_mem _ hd)) ?_ ?_
      · split
        · intro d hd
          rcases List.mem_append.mp hd with hd | hd
          · exact hacc d hd
          · rw [List.mem_singleton.mp hd]
            exact hcs c List.mem_cons_self
        · exact hacc
      · split
        · rename_i hroom
          simp only [Bool.and_eq_true, decide_eq_true_eq] at hroom
          rw [List.length_append]
          exact hroom.2
        · exact hlen
  refine h.optWrite hclk (key _ _ ?_ (fun c hc => (List.not_mem_nil hc).elim) (Nat.zero_le _))
  intro c hc
  exact (List.mem_filter.mp (List.mem_of_mem_take hc)).2

/-- One option flag is turned on or off. -/
theorem Fits.optFlagSet (h : Fits ok s) (hclk : InI64 clk.now) {flag : Char}
    (hflag : Fit ok 1 [flag]) (on : Bool) : Fits ok (optFlagSet clk s flag on) := by
  unfold Hub.optFlagSet
  split
  · exact h
  have hrest : Fit ok maxOptFlags (s.optFlags.filter (· != flag)) :=
    h.opt.sublist List.filter_sublist
  refine h.optWrite hclk ?_
  split
  · rename_i hroom
    simp only [Bool.and_eq_true, decide_eq_true_eq] at hroom
    have hcap : maxOptFlags = 32 := rfl
    have hfit := Fit.append ⟨Nat.le_refl _, hrest.chars⟩ hflag
    exact hfit.mono (by omega)
  · exact hrest

/-- The purge setting. -/
theorem Fits.setPurgeDays (h : Fits ok s) (hclk : InI64 clk.now) (payload : Str) :
    Fits ok (setPurgeDays clk s payload) := by
  unfold Hub.setPurgeDays
  split
  · exact h
  · exact Fits.broadcast (h.gsettingSet hclk _ _) _

/-- A purge with its broadcast. -/
theorem Fits.purgeAndBroadcast (h : Fits ok s) (cutoff : Int) (id : Str) :
    Fits ok (purgeAndBroadcast clk s cutoff id) :=
  Fits.broadcast ((h.executePurge cutoff).recordRecentPurge cutoff id) _

/-- `purge`, with a cutoff that was read from the command. -/
theorem Fits.purgeTombstones (h : Fits ok s) (payload id : Str) :
    Fits ok (purgeTombstones clk s payload id) := by
  unfold Hub.purgeTombstones
  split
  · exact h.purgeAndBroadcast _ _
  split
  · exact h
  split
  · exact h
  · exact h.purgeAndBroadcast _ _

/-! ### Runs -/

/-- The operation stores no line end and makes no user record without a type. -/
def OpSafe (clk : Clock) (s : HubState) : HubOp → Prop
  | .peerSync frame => FrameSafe clk s frame
  | .push id frame => PushSafe clk s id frame
  | .userAdd admin payload _ =>
      userAddBreaks s (if admin then 'a' else 'o') (untilNul payload) = false
  | .chanDel payload => chanDelBreaks clk s (untilNul payload) = false
  | _ => True

/-- One operation keeps the caps. The cases are the operations of a hub. -/
theorem Fits.run {t : HubState} (h : Fits ok s) (hok : WireOk ok) (hclk : InI64 clk.now)
    (op : HubOp) (hsafe : (∀ c, ok c) ∨ OpSafe clk s op) (ht : op.run clk s = some t) :
    Fits ok t := by
  -- a console payload ends at its first NUL
  have hnul : ∀ p : Str, NoNul (untilNul p) := not_mem_untilNul
  -- the letters the hub writes itself are one byte each
  have hletter : ∀ {c : Char}, 0x20 ≤ c.toNat ∧ c.toNat < 128 → Fit ok 1 [c] := by
    intro c hc
    refine fit_of_ascii (Nat.le_refl 1) fun d hd => ?_
    rw [List.mem_singleton.mp hd]
    exact ⟨hc.2, hok.print hc.1⟩
  cases op with
  -- the lines of a peer and of a bot, under what is asked of the step
  | peerSync frame => exact h.processPeerSync hok hsafe ht
  | push id frame => exact h.processBotConfigPush hok hclk hsafe ht
  | delta id frame => exact h.processBotDelta hok hclk ht
  -- the console's commands
  | userAdd admin payload random =>
    cases ht
    refine h.addUserRecord hok hclk (hnul payload) ?_ (fit_genUuidV4 hok random) hsafe
    split
    · exact hletter (by decide)
    · exact hletter (by decide)
  | userDel payload =>
    cases ht
    exact h.delUserRecord hclk _
  | maskAdd payload =>
    cases ht
    exact h.addUsermask hok hclk (hnul payload)
  | maskDel payload =>
    cases ht
    exact h.delUsermask hclk _
  | userKey payload =>
    cases ht
    exact h.setUserkey hok hclk _
  | userAccess payload =>
    cases ht
    exact h.userAccess hok hclk _
  | chanAdd payload =>
    cases ht
    exact h.addChannel hok hclk _
  | chanDel payload =>
    cases ht
    exact h.delChannel hok hclk (hnul payload) hsafe
  | chanset chan modes settings =>
    cases ht
    exact h.chansetPut hclk _ _ _
  | netset modes settings =>
    cases ht
    exact h.netsetPut hclk _ _
  | banAdd chan mask expires sticky setter reason =>
    cases ht
    exact h.banAdd hclk _ _ _ _ _ _
  | banDel chan mask =>
    cases ht
    exact h.banDel hclk _ _
  | botAdd payload => exact h.createBotCmd hok hclk ht
  | botDel payload => exact h.deleteBot hok hclk ht
  | optSet payload =>
    cases ht
    exact h.setOptFlags hok hclk _
  | purgeDays payload =>
    cases ht
    exact h.setPurgeDays hclk _
  | purge payload id =>
    cases ht
    exact h.purgeTombstones _ _
  | freeze on =>
    cases ht
    exact h.optFlagSet hclk (hletter (by decide)) on
  -- what the hub does by itself
  | autopurge id =>
    cases ht
    split
    · exact h.purgeAndBroadcast _ _
    · exact h
  | sweep =>
    cases ht
    exact h.bansSweep
  | activity slot ts =>
    cases ht
    exact h.raise slot ts.2
  | seen id ts =>
    obtain ⟨p, hp, rfl⟩ := Option.map_eq_some_iff.mp ht
    exact h.updateEntry hok ts.2 hp
  | wiped id =>
    cases ht
    exact h.revokeMarkWiped id hclk

/-- Every operation of a run is safe where it runs. -/
def RunWireSafe (es : List HubEvent) : Prop :=
  Lww.AlongM (fun s e => OpSafe e.clock s e.op) (fun s e => e.op.run e.clock s) {} es

/-- The caps hold after every run, for the characters of a line if the run was safe. -/
theorem fits_runHub (hok : WireOk ok) {es : List HubEvent} (hsafe : (∀ c, ok c) ∨ RunWireSafe es)
    (hrun : runHub es = some s) : Fits ok s := by
  have halong : Lww.AlongM (fun s e => (∀ c, ok c) ∨ OpSafe e.clock s e.op)
      (fun s (e : HubEvent) => e.op.run e.clock s) {} es := by
    rcases hsafe with hall | hsafe
    · exact Lww.alongM_of_forall (fun _ _ => .inl hall) _ _
    · exact hsafe.mono fun _ _ hop => .inr hop
  have hfold : es.foldlM (fun s (e : HubEvent) => e.op.run e.clock s) {} = some s := by
    rw [← Lww.foldl_bind_eq_foldlM]
    exact hrun
  refine Lww.inv_runM (I := Fits ok) (Q := fun _ => True) ?_ (fits_empty ok) (fun _ _ => trivial)
    halong hfold
  exact fun t e u ht _ hop hu => ht.run hok e.now.2 e.op hop hu

end IrcHub.Proofs
