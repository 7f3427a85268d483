import IrcHub.Proofs.Console.Channels

/-!
# `IrcHub.Proofs.Console.Users`: the records a `user add` leaves

The records a `user add` leaves. `user add` writes a user, its mask and its rights under a uuid it
just drew, and sends their lines in one payload. The store takes all of them, so the answer can
only be wrong about what the peers read: a name or a mask with a line end breaks its line.

- `uuidShape_genUuidV4`, `UnusedUuid`: the uuid is one, and no table has it
- `RightsAdded`, `userAddRights_added`: the rights the store takes
- `UserAsked`, `addUserReply_spec`: what an answer says about the payload
- `UserSaid`: the hub holds the user with its mask and its rights, and its last payload is their
  lines
- `Sends`, `readLines_of_sends`: lines that are one line each, and are read back as their records
- `userAdded_iff`: when the answer is true

The rights are appended one by one, and each put appends since the uuid is new. The one exception
is the `"*"` delete of an oper bound to channels, which the floor of a purge may stop
(`starDelete`); the answer does not speak of it.
-/

set_option autoImplicit false

namespace IrcHub.Proofs

open IrcHub.Hub Str
open String (utf8Len)

/-! ### The uuid -/

/-- The digits of a uuid are hexadecimal. -/
private theorem isHexDigit_digitChar {n : Nat} (h : n < 16) :
    isHexDigit (Nat.digitChar n) = true := by
  have hall : ∀ n < 16, isHexDigit (Nat.digitChar n) = true := by decide
  exact hall n h

/-- What the hub draws is a uuid. -/
theorem uuidShape_genUuidV4 (r : Fin 16 → UInt8) : uuidShape (genUuidV4 r) = true := by
  have hhi : ∀ b : UInt8, isHexDigit (Nat.digitChar (b.toNat / 16)) = true := fun b =>
    isHexDigit_digitChar (by have := b.toNat_lt; omega)
  have hlo : ∀ b : UInt8, isHexDigit (Nat.digitChar (b.toNat % 16)) = true := fun b =>
    isHexDigit_digitChar (by omega)
  simp [uuidShape, genUuidV4, hexByte, hhi, hlo, -UInt8.toNat_and, -UInt8.toNat_or]

/-- No table has a record of the uuid. -/
structure UnusedUuid (s : HubState) (uuid : Str) : Prop where
  users : ∀ u ∈ s.userRecords, u.uuid ≠ uuid
  masks : ∀ m ∈ s.maskRecords, m.uuid ≠ uuid
  flags : ∀ r ∈ s.uflagRecords, r.uuid ≠ uuid
  binds : ∀ r ∈ s.uchanRecords, r.uuid ≠ uuid

/-! ### The rights -/

section Rights

variable {clk : Clock} {s : HubState} {uuid : Str}

/-- The binding of a new oper. -/
def newBinding (clk : Clock) (uuid : Str) (active : Bool) (chan : Str) : UchanRecord :=
  { uuid := uuid, chan := chan, isActive := active, timestamp := clk.now }

/-- The time of a sane clock is not ahead of it. -/
theorem tsAhead_now (hclk : SaneClock clk) : tsAhead clk clk.now = false := by
  have hfuture : lwwMaxFuture = 3600 := rfl
  unfold tsAhead
  rw [hclk.running, Bool.not_false, Bool.true_and, decide_eq_false_iff_not]
  omega

/-- The flags of a new user are appended. `hfree` says that the uuid has none, `hroom` that the
table takes one more. -/
theorem uflagPut_new (hclk : SaneClock clk) (hshape : uuidShape uuid = true)
    (hfree : ∀ r ∈ s.uflagRecords, r.uuid ≠ uuid)
    (hroom : s.uflagRecords.length < maxHubUserFlags) {flags : Str}
    (hcanon : uflagsCanon flags = some flags) :
    (uflagPut clk s uuid flags clk.now).1
      = { s with uflagRecords := s.uflagRecords
                 ++ [{ uuid := uuid, flags := flags, timestamp := clk.now }] } := by
  have hpos := hclk.positive
  have hfind : uflagFind s uuid = none := by
    unfold uflagFind
    rw [List.findIdx?_eq_none_iff]
    intro r hr
    exact beq_eq_false_iff_ne.mpr (hfree r hr)
  unfold uflagPut
  rw [hcanon]
  simp only []
  rw [if_neg (by simp [hshape, tsAhead_now hclk, hpos]), hfind]
  simp only []
  rw [if_neg (Nat.not_le.mpr hroom)]
  unfold uflagSet
  simp [List.modify_eq_set_getElem?]

/-- A new binding is appended. A delete may be below the floor of a purge, and is then left
out. -/
theorem uchanPut_new (active : Bool) (hclk : SaneClock clk) (hshape : uuidShape uuid = true)
    {chan : Str} (hname : uchanNameOk chan = true)
    (hfree : ∀ r ∈ s.uchanRecords, r.uuid = uuid → eqIc r.chan chan = false)
    (hroom : s.uchanRecords.length < maxHubChanBinds) :
    (uchanPut clk s uuid chan active clk.now).1
      = if !active && purgeFloorBlocks clk s clk.now then s
        else { s with uchanRecords := s.uchanRecords ++ [newBinding clk uuid active chan] } := by
  have hpos := hclk.positive
  have hfind : uchanFind s uuid chan = none := by
    unfold uchanFind
    rw [List.findIdx?_eq_none_iff]
    intro r hr
    by_cases hu : r.uuid = uuid
    · rw [hfree r hr hu, Bool.and_false]
    · rw [beq_eq_false_iff_ne.mpr hu, Bool.false_and]
  unfold uchanPut
  rw [if_neg (by simp [hshape, hname, tsAhead_now hclk, hpos]), hfind]
  simp only []
  split
  · rfl
  rw [if_neg (Nat.not_le.mpr hroom)]
  simp [uchanSet, List.modify_eq_set_getElem?, newBinding]

/-- So are several of them, one after the other. The induction is on the channels; each of them is
new for the next one. -/
theorem foldl_uchanPut_new (hclk : SaneClock clk) (hshape : uuidShape uuid = true)
    {chans : List Str} (hnames : ∀ c ∈ chans, uchanNameOk c = true)
    (hdistinct : chans.Pairwise fun a b => eqIc a b = false)
    (hfree : ∀ r ∈ s.uchanRecords, r.uuid = uuid → ∀ c ∈ chans, eqIc r.chan c = false)
    (hroom : s.uchanRecords.length + chans.length ≤ maxHubChanBinds) :
    chans.foldl (fun s c => (uchanPut clk s uuid c true clk.now).1) s
      = { s with uchanRecords := s.uchanRecords ++ chans.map (newBinding clk uuid true) } := by
  induction chans generalizing s with
  | nil => simp
  | cons c chans ih =>
    obtain ⟨hfirst, hrest⟩ := List.pairwise_cons.mp hdistinct
    rw [List.length_cons] at hroom
    have hput := uchanPut_new true hclk hshape (hnames c List.mem_cons_self)
      (fun r hr hu => hfree r hr hu c List.mem_cons_self) (by omega)
    rw [if_neg (by simp)] at hput
    rw [List.foldl_cons, hput, ih (fun d hd => hnames d (List.mem_cons_of_mem _ hd)) hrest]
    · simp
    · intro r hr hu d hd
      rcases List.mem_append.mp hr with hr | hr
      · exact hfree r hr hu d (List.mem_cons_of_mem _ hd)
      · rw [List.mem_singleton.mp hr]
        exact hfirst d hd
    · rw [List.length_append, List.length_singleton]
      omega

end Rights

/-! ### What is asked for -/

/-- Flags an edit leaves are in canonical order. -/
theorem uflagsCanon_edit {cur spec fl : Str} (h : uflagsEdit cur spec = some fl) :
    uflagsCanon fl = some fl := by
  have hfilter : ∀ p : Char → Bool, uflagsCanon (userFlagLetters.filter p) = some
    (userFlagLetters.filter p) := by
    intro p
    unfold uflagsCanon
    rw [if_pos]
    · refine congrArg some (List.filter_congr fun c hc => ?_)
      rw [Bool.eq_iff_iff, List.contains_iff_mem, List.mem_filter]
      exact ⟨fun h => h.2, fun h => ⟨hc, h⟩⟩
    · rw [List.all_eq_true]
      intro c hc
      exact List.contains_iff_mem.mpr (List.mem_filter.mp hc).1
  have hcanon : ∀ t, uflagsCanon t = some fl → uflagsCanon fl = some fl := by
    intro t ht
    unfold uflagsCanon at ht
    split at ht
    · cases ht
      exact hfilter _
    · cases ht
  unfold uflagsEdit at h
  split at h
  · cases h
  split at h
  · simp only [Option.ite_none_left_eq_some] at h
    exact hcanon _ h.2
  · split at h
    · cases h
      exact hfilter _
    · cases h

/-- Bytes of some names with one separator each. -/
def joinedLen (l : List Str) : Nat := l.foldr (fun t n => utf8Len t + 1 + n) 0

/-- One name more, with its sign. -/
theorem joinedLen_cons (t : Str) (l : List Str) :
    joinedLen (t :: l) = utf8Len t + 1 + joinedLen l := rfl

/-- Two lists of names. -/
theorem joinedLen_append (l m : List Str) : joinedLen (l ++ m) = joinedLen l + joinedLen m := by
  induction l with
  | nil => exact (Nat.zero_add _).symm
  | cons t l ih =>
    rw [List.cons_append, joinedLen_cons, joinedLen_cons, ih]
    omega

/-- A text is its fields with a separator between them, so the lengths add up. -/
theorem joinedLen_splitOn (t : Str) : joinedLen (t.splitOn ',') = utf8Len t + 1 := by
  have hsize : Char.utf8Size ',' = 1 := rfl
  induction t with
  | nil => rfl
  | cons c t ih =>
    rw [List.splitOn_cons_eq_if_modifyHead, String.utf8Len_cons]
    by_cases hc : c = ','
    · subst c
      rw [if_pos (by rfl), joinedLen_cons, ih]
      show 0 + 1 + (utf8Len t + 1) = _
      omega
    · rw [if_neg (by simpa using hc)]
      cases hsplit : t.splitOn ',' with
      | nil => exact absurd hsplit (List.splitOn_ne_nil _ _)
      | cons f fs =>
        rw [hsplit, joinedLen_cons] at ih
        rw [List.modifyHead_cons, joinedLen_cons, String.utf8Len_cons]
        omega

/-- Names left out leave less. -/
theorem joinedLen_filter (p : Str → Bool) (l : List Str) :
    joinedLen (l.filter p) ≤ joinedLen l := by
  induction l with
  | nil => exact Nat.le_refl _
  | cons t l ih =>
    rw [List.filter_cons, joinedLen_cons]
    split
    · rw [joinedLen_cons]
      omega
    · omega

/-- The channels of an oper: usable names, each once, none with a comma, short enough to be
shown. -/
structure ChansOk (chans : List Str) (bytes : Nat) : Prop where
  names : ∀ c ∈ chans, uchanNameOk c = true
  distinct : chans.Pairwise fun a b => eqIc a b = false
  few : chans.length ≤ 16
  bytes : joinedLen chans ≤ bytes

/-- The names taken so far are distinct, valid and few, by induction on the pieces. `n` bounds the
bytes of those taken. -/
private theorem chansOk_foldlM {pieces chans res : List Str} {n : Nat} (h : ChansOk chans n)
    (hres : pieces.foldlM (fun (chans : List Str) t =>
      if chans.any (eqIc · t) then some chans
      else if !uchanNameOk t || chans.length ≥ 16 then none
      else some (chans ++ [t])) chans = some res) : ChansOk res (n + joinedLen pieces) := by
  induction pieces generalizing chans n with
  | nil =>
    cases hres
    exact h
  | cons t pieces ih =>
    rw [List.foldlM_cons] at hres
    rw [joinedLen_cons]
    split at hres
    · -- a name that is there already
      obtain ⟨hnames, hdistinct, hfew, hbytes⟩ := ih h hres
      exact ⟨hnames, hdistinct, hfew, by omega⟩
    rename_i hnew
    rw [Bool.not_eq_true, List.any_eq_false] at hnew
    split at hres
    · cases hres
    rename_i hguard
    simp only [Bool.or_eq_true, Bool.not_eq_true', decide_eq_true_eq, not_or, Bool.not_eq_false]
      at hguard
    have hpush : ChansOk (chans ++ [t]) (n + (utf8Len t + 1)) := by
      refine ⟨?_, ?_, ?_, ?_⟩
      · intro c hc
        rcases List.mem_append.mp hc with hc | hc
        · exact h.names c hc
        · rw [List.mem_singleton.mp hc]
          exact hguard.1
      · refine List.pairwise_append.mpr ⟨h.distinct, List.pairwise_singleton _ _, ?_⟩
        intro a ha b hb
        rw [List.mem_singleton.mp hb]
        exact Bool.eq_false_iff.mpr (hnew a ha)
      · rw [List.length_append, List.length_singleton]
        omega
      · have hbytes := h.bytes
        rw [joinedLen_append, joinedLen_cons]
        show joinedLen chans + (utf8Len t + 1 + 0) ≤ _
        omega
    obtain ⟨hnames, hdistinct, hfew, hbytes⟩ := ih hpush hres
    exact ⟨hnames, hdistinct, hfew, by omega⟩

/-- So are all that `user add` takes. They are pieces of one word, so together they are no longer.
-/
theorem chansOk_userAddChans {acc : Str} {chans : List Str} (h : userAddChans acc = some chans) :
    ChansOk chans (utf8Len acc + 1) := by
  have hempty : ChansOk [] 0 :=
    ⟨fun _ hc => (List.not_mem_nil hc).elim, .nil, by decide, Nat.le_refl _⟩
  have hres : ChansOk chans (0 + joinedLen ((acc.splitOn ',').filter fun t => !t.isEmpty)) :=
    chansOk_foldlM hempty h
  have hle := joinedLen_filter (fun t => !t.isEmpty) (acc.splitOn ',')
  rw [joinedLen_splitOn] at hle
  have hbytes := hres.bytes
  exact ⟨hres.names, hres.distinct, hres.few, by omega⟩

/-- A usable name has a byte and neither bar nor comma. -/
theorem uchanNameOk_spec {c : Str} (h : uchanNameOk c = true) : c ≠ [] ∧ '|' ∉ c ∧ ',' ∉ c := by
  unfold uchanNameOk at h
  rw [Bool.or_eq_true] at h
  rcases h with h | h
  · rw [beq_iff_eq.mp h]
    decide
  simp only [Bool.and_eq_true, List.all_eq_true, decide_eq_true_eq] at h
  refine ⟨?_, ?_, ?_⟩
  · rintro rfl
    exact absurd h.1.1.1 (by decide)
  · intro hc
    exact absurd (h.2 _ hc) (by decide)
  · intro hc
    exact absurd (h.2 _ hc) (by decide)

/-! ### The channels as text -/

/-- Names that fit are all shown, with a comma between them. -/
theorem joinChans_eq {out : Str} (hout : out ≠ []) {chans : List Str}
    (h : utf8Len out + joinedLen chans < 512) :
    joinChans out chans = [','].intercalate (out :: chans) := by
  have hsize : Char.utf8Size ',' = 1 := rfl
  induction chans generalizing out with
  | nil => exact List.intercalate_singleton.symm
  | cons c chans ih =>
    rw [joinedLen_cons] at h
    have hne : out.isEmpty = false := List.isEmpty_eq_false_iff.mpr hout
    rw [joinChans]
    simp only [hne, Bool.false_eq_true, if_false]
    rw [if_neg (by rw [List.singleton_append, String.utf8Len_cons]; omega)]
    rw [ih (by simp [hout]) (by
      rw [String.utf8Len_append, List.singleton_append, String.utf8Len_cons]
      omega)]
    cases chans with
    | nil => simp
    | cons d chans => simp

/-- The channels an oper has are read back from the text that shows them. `hlive` says which ones
it has, `hok` that they fit. -/
theorem splitOn_userChans {t : HubState} {uuid : Str} {chans : List Str}
    (hlive : liveBindings t uuid = chans) (hne : chans ≠ [])
    (hstar : ['*'] ∈ chans → chans = [['*']]) (hok : ChansOk chans 512) :
    (userChans t uuid).splitOn ',' = chans := by
  unfold userChans
  simp only [hlive]
  by_cases hmem : ['*'] ∈ chans
  · rw [if_pos (List.contains_iff_mem.mpr hmem), hstar hmem]
    rfl
  rw [if_neg (by rwa [List.contains_iff_mem])]
  cases chans with
  | nil => exact (hne rfl).elim
  | cons c chans =>
    have hbytes := hok.bytes
    rw [joinedLen_cons] at hbytes
    have hc := uchanNameOk_spec (hok.names c List.mem_cons_self)
    rw [joinChans]
    simp only [List.isEmpty_nil, if_true, List.nil_append]
    rw [if_neg (by show ¬ 0 + utf8Len c ≥ 512; omega), joinChans_eq hc.1 (by omega)]
    exact List.splitOn_intercalate ',' (fun l hl => (uchanNameOk_spec (hok.names l hl)).2.2) hne

/-! ### The records -/

section Records

variable {clk : Clock} {s : HubState} {uuid : Str} {typ : Char}

/-- The rights a `user add` may ask for. -/
structure RightsOk (typ : Char) (flags : Str) (chans : List Str) : Prop where
  admin : typ = 'a' → uflagsCanon flags = some flags ∧ chans = []
  oper : typ ≠ 'a' → chans ≠ [] ∧ (['*'] ∈ chans → chans = [['*']]) ∧ ChansOk chans 512

/-- The access word gives an admin flags and an oper channels. `hlen` bounds the word as the
payload does. -/
private theorem rightsOk_of_access {acc flags : Str} {chans : List Str} (hlen : utf8Len acc < 512)
    (h : userAddAccess s typ acc = some (flags, chans)) : RightsOk typ flags chans := by
  unfold userAddAccess at h
  split at h
  · rename_i htyp
    refine ⟨fun _ => ?_, fun hne => (hne htyp).elim⟩
    split at h
    · rename_i fl hedit
      simp only [Option.ite_none_left_eq_some, Option.some.injEq, Prod.mk.injEq] at h
      obtain ⟨-, rfl, rfl⟩ := h
      exact ⟨uflagsCanon_edit hedit, rfl⟩
    · cases h
  · rename_i htyp
    refine ⟨fun heq => (htyp heq).elim, fun _ => ?_⟩
    split at h
    · cases h
    rename_i cs hchans
    simp only [Option.ite_none_left_eq_some, Option.some.injEq, Prod.mk.injEq] at h
    obtain ⟨hguard, -, rfl⟩ := h
    simp only [Bool.or_eq_true, Bool.and_eq_true, decide_eq_true_eq, List.isEmpty_iff,
      not_or, not_and, List.contains_iff_mem] at hguard
    have hok := chansOk_userAddChans hchans
    refine ⟨hguard.1.1, fun hstar => ?_, hok.names, hok.distinct, hok.few,
      Nat.le_trans hok.bytes (by omega)⟩
    have hone := hguard.1.2 hstar
    cases hcs : cs with
    | nil => exact (hguard.1.1 hcs).elim
    | cons c rest =>
      rw [hcs] at hone hstar
      cases rest with
      | nil => rw [List.mem_singleton.mp hstar]
      | cons d rest =>
        rw [List.length_cons, List.length_cons] at hone
        omega

/-- The hub `t` is the hub `s` with these rights of the uuid appended. -/
structure RightsAdded (s t : HubState) (clk : Clock) (uuid : Str) (fl : List UflagRecord)
    (bs : List UchanRecord) : Prop where
  users : t.userRecords = s.userRecords
  masks : t.maskRecords = s.maskRecords
  flags : t.uflagRecords = s.uflagRecords ++ fl
  binds : t.uchanRecords = s.uchanRecords ++ bs

/-- The `"*"` delete of an oper bound to channels, if the floor of a purge lets it in. -/
def starDelete (clk : Clock) (s : HubState) (uuid : Str) (chans : List Str) : List UchanRecord :=
  if chans.head? = some ['*'] || purgeFloorBlocks clk s clk.now then []
  else [newBinding clk uuid false ['*']]

/-- The rights a `user add` writes: the flags of an admin, or the channels of an oper and the
`"*"` delete. -/
theorem userAddRights_added (hclk : SaneClock clk) (hshape : uuidShape uuid = true)
    (hflags : ∀ r ∈ s.uflagRecords, r.uuid ≠ uuid) (hbinds : ∀ r ∈ s.uchanRecords, r.uuid ≠ uuid)
    {flags : Str} {chans : List Str} (hrights : RightsOk typ flags chans)
    (hroom : if typ = 'a' then s.uflagRecords.length < maxHubUserFlags
      else s.uchanRecords.length + chans.length + 1 ≤ maxHubChanBinds) :
    RightsAdded s (userAddRights clk s typ uuid flags chans) clk uuid
      (if typ = 'a' then [{ uuid := uuid, flags := flags, timestamp := clk.now }] else [])
      (if typ = 'a' then [] else chans.map (newBinding clk uuid true) ++ starDelete clk s uuid
      chans) := by
  unfold userAddRights
  -- an admin gets one record of flags
  by_cases htyp : typ = 'a'
  · rw [if_pos htyp] at hroom
    simp only [if_pos htyp]
    rw [uflagPut_new hclk hshape hflags hroom (hrights.admin htyp).1]
    exact ⟨rfl, rfl, rfl, (List.append_nil _).symm⟩
  rw [if_neg htyp] at hroom
  simp only [if_neg htyp]
  obtain ⟨hne, hstar, hok⟩ := hrights.oper htyp
  -- an oper gets one record of each channel
  rw [foldl_uchanPut_new hclk hshape hok.names hok.distinct
    (fun r hr hu => absurd hu (hbinds r hr)) (by omega)]
  unfold starDelete
  -- bound to every channel, no delete is needed
  by_cases hhead : chans.head? = some ['*']
  · rw [if_pos hhead, if_pos (by simp [hhead])]
    exact ⟨rfl, rfl, (List.append_nil _).symm, by rw [List.append_nil]⟩
  rw [if_neg hhead]
  -- no channel is called `*`: that one goes alone
  have hnot : ['*'] ∉ chans := by
    intro hmem
    rw [hstar hmem] at hhead
    exact hhead rfl
  rw [uchanPut_new _ hclk hshape (by decide) ?_ ?_]
  -- the floor stands against a delete, or it does not
  · by_cases hfloor : purgeFloorBlocks clk s clk.now = true
    · have hfloor' : purgeFloorBlocks clk
          { s with uchanRecords := s.uchanRecords ++ chans.map (newBinding clk uuid true) }
          clk.now = true := hfloor
      rw [if_pos (by rw [hfloor']; rfl), if_pos (by simp [hfloor])]
      exact ⟨rfl, rfl, (List.append_nil _).symm, by rw [List.append_nil]⟩
    · have hfloor' : ¬ purgeFloorBlocks clk
          { s with uchanRecords := s.uchanRecords ++ chans.map (newBinding clk uuid true) }
          clk.now = true := hfloor
      rw [if_neg (by simpa using hfloor'), if_neg (by simp [hhead, hfloor])]
      exact ⟨rfl, rfl, (List.append_nil _).symm, by simp⟩
  · intro r hr hu
    rcases List.mem_append.mp hr with hr | hr
    · exact absurd hu (hbinds r hr)
    · obtain ⟨c, hc, rfl⟩ := List.mem_map.mp hr
      exact Bool.eq_false_iff.mpr fun heq => hnot (eqIc_star heq ▸ hc)
  · show (s.uchanRecords ++ chans.map (newBinding clk uuid true)).length < _
    rw [List.length_append, List.length_map]
    omega

/-- What a `user add` that is answered asks for, and what it leaves to be written. -/
private structure UserAsked (clk : Clock) (s : HubState) (payload : Str) (typ : Char) (uuid : Str)
    (u : UserAdd) (flags : Str) (chans : List Str) : Prop where
  name : u.name ≠ [] ∧ utf8Len u.name < 64 ∧ '|' ∉ u.name ∧ u.name.Sublist payload
  mask : utf8Len u.mask < maxMaskLen ∧ '|' ∉ u.mask ∧ u.mask.Sublist payload
  key : (pubkeyB64Decode u.pubKey).isSome = true
  rights : RightsOk typ flags chans
  room : if typ = 'a' then s.uflagRecords.length < maxHubUserFlags
    else s.uchanRecords.length + chans.length + 1 ≤ maxHubChanBinds

/-- The user a `user add` makes. -/
def addedUser (clk : Clock) (typ : Char) (uuid : Str) (u : UserAdd) : UserRecord :=
  { uuid := uuid, name := u.name, pubkeyB64 := u.pubKey, hasPubkey := true, typ := typ,
    isActive := true,
    lastSeen := 0, timestamp := clk.now }

/-- Its mask. -/
def addedMask (clk : Clock) (uuid : Str) (u : UserAdd) : MaskRecord :=
  { uuid := uuid, mask := u.mask, isActive := true, lastUsed := 0, timestamp := clk.now }

/-- The hub with user and mask, before the rights. -/
def withUser (clk : Clock) (s : HubState) (typ : Char) (uuid : Str) (u : UserAdd) : HubState :=
  { s with
    userRecords := s.userRecords ++ [addedUser clk typ uuid u]
    maskRecords := s.maskRecords ++ [addedMask clk uuid u] }

/-- Each field of `user add` is part of what was typed and fits. -/
private theorem userAddFields_text {payload : Str} {u : UserAdd}
    (h : userAddFields payload = some u) :
    (u.name ≠ [] ∧ utf8Len u.name < 64 ∧ '|' ∉ u.name ∧ u.name.Sublist payload)
      ∧ (utf8Len u.mask < maxMaskLen ∧ '|' ∉ u.mask ∧ u.mask.Sublist payload)
      ∧ utf8Len u.access < 512 := by
  unfold userAddFields at h
  split at h
  case h_2 => cases h
  rename_i name pubKey mask rest hsplit
  have hfield : ∀ f ∈ splitFields payload 4, f.Sublist payload ∧ '|' ∉ f :=
    fun f hf => mem_splitOn (List.mem_of_mem_take hf)
  rw [hsplit] at hfield
  have hacc : utf8Len (if utf8Len mask ≥ maxMaskLen then [] else trunc (rest.head?.getD []) 512)
    < 512 := by
    split
    · exact (by decide : (0 : Nat) < 512)
    · exact utf8Len_trunc_lt _ (by decide)
  simp only [Option.ite_none_left_eq_some, Option.some.injEq] at h
  obtain ⟨hguard, rfl⟩ := h
  simp only [scanOk, Bool.or_eq_true, Bool.not_eq_true', not_or, Bool.not_eq_false,
    Bool.and_eq_true, decide_eq_true_eq, List.isEmpty_eq_false_iff] at hguard
  have hname := hfield name (by simp)
  have hmask := hfield mask (by simp)
  exact ⟨⟨hguard.1.1.1.1, Nat.lt_succ_of_le hguard.1.1.1.2, hname.2, hname.1⟩,
    ⟨utf8Len_trunc_lt _ (by decide), fun hc => hmask.2 (mem_of_mem_trunc hc),
      (trunc_isPrefix _ _).sublist.trans hmask.1⟩, hacc⟩

/-- An answer means that every check has passed. It also says what the command then leaves, which
is the starting point of everything below. -/
private theorem addUserReply_spec {payload name pubKey mask access : Str} {typ' : Char}
    (h : addUserReply clk s payload typ uuid = some (.userAdded name typ' pubKey mask access)) :
    ∃ u flags chans, UserAsked clk s payload typ uuid u flags chans
      ∧ addUserRecord clk s payload typ uuid
        = broadcastSyncToPeers
          (userAddRights clk (withUser clk s typ uuid u) typ uuid flags chans)
          (formatUserRecord (addedUser clk typ uuid u) ++ formatMaskRecord (addedMask clk uuid u)
            ++ accessAppend (userAddRights clk (withUser clk s typ uuid u) typ uuid flags chans)
              (· == uuid))
      ∧ u.name = name ∧ typ = typ' ∧ u.pubKey = pubKey ∧ u.mask = mask
      ∧ access = if typ = 'a' then flags
        else userChans (addUserRecord clk s payload typ uuid) uuid := by
  unfold addUserReply at h
  split at h
  · cases h
  rename_i u hfields
  split at h
  · cases h
  rename_i flags chans haccess
  split at h
  · cases h
  rename_i hguard
  rw [Bool.not_eq_true, Bool.not_eq_false'] at hguard
  rw [Option.some.injEq, AdminReply.userAdded.injEq] at h
  obtain ⟨hname, htyp, hkey, hmask, hacc⟩ := h
  refine ⟨u, flags, chans, ?_, ?_, hname, htyp, hkey, hmask, hacc.symm⟩
  · obtain ⟨hnameOk, hmaskOk, haccLen⟩ := userAddFields_text hfields
    simp only [userAddOk, Bool.and_eq_true, decide_eq_true_eq] at hguard
    obtain ⟨⟨⟨⟨⟨⟨⟨-, hdec⟩, -⟩, -⟩, -⟩, -⟩, -⟩, hroom⟩ := hguard
    refine ⟨hnameOk, hmaskOk, hdec, rightsOk_of_access haccLen haccess, ?_⟩
    split
    · rename_i htyp'
      rw [if_pos htyp'] at hroom
      exact of_decide_eq_true hroom
    · rename_i htyp'
      rw [if_neg htyp'] at hroom
      exact of_decide_eq_true hroom
  · unfold addUserRecord
    simp only [hfields, haccess, hguard, Bool.not_true, Bool.false_eq_true, if_false]
    rfl

/-- A hub holds the user with its mask and its rights, and its last payload is their lines. -/
structure UserSaid (s : HubState) (u : UserRecord) (m : MaskRecord) (access : Str) : Prop where
  user : u ∈ s.userRecords ∧ u.isActive = true ∧ u.hasPubkey = true
  mask : m ∈ s.maskRecords ∧ m.isActive = true ∧ m.uuid = u.uuid
  flags : u.typ = 'a' → userFlags s u.uuid = access
  chans : u.typ ≠ 'a' → liveBindings s u.uuid = access.splitOn ','
  sent : (frameLines (sentLast s)).map readLine
    = (SyncRecord.user u :: .mask m
      :: ((s.uflagRecords.filter fun r => r.uuid == u.uuid).map .uflag
        ++ (s.uchanRecords.filter fun r => r.uuid == u.uuid).map .uchan)).map some

/-- Lines that are read as user and mask have no line end in name and mask. This is the one
direction of the equivalence. -/
private theorem UserSaid.no_lineEnd {t : HubState} {u : UserRecord} {m : MaskRecord}
    {access : Str} (h : UserSaid t u m access) : '\n' ∉ u.name ∧ '\n' ∉ m.mask := by
  have hsent := h.sent
  have hmem : ∀ line ∈ frameLines (sentLast t), '\n' ∉ line :=
    fun line => lineEnd_notMem_frameLines
  cases hl : frameLines (sentLast t) with
  | nil =>
    rw [hl] at hsent
    cases hsent
  | cons l₁ ls =>
    cases ls with
    | nil =>
      rw [hl] at hsent
      simp at hsent
    | cons l₂ ls =>
      rw [hl] at hsent hmem
      simp only [List.map_cons, List.cons.injEq] at hsent
      have h₁ := readLine_texts hsent.1 u.name (by simp [SyncRecord.texts])
      have h₂ := readLine_texts hsent.2.1 m.mask (by simp [SyncRecord.texts])
      exact ⟨fun hc => hmem l₁ (by simp) (h₁.subset hc), fun hc =>
        hmem l₂ (by simp) (h₂.subset hc)⟩

/-- The flags of a uuid that were appended are its flags. -/
private theorem filter_appended {α : Type} {l new : List α} {p : α → Bool}
    (hold : ∀ x ∈ l, p x = false) (hnew : ∀ x ∈ new, p x = true) : (l ++ new).filter p = new := by
  rw [List.filter_append,
    List.filter_eq_nil_iff.mpr (fun x hx => by rw [hold x hx]; exact Bool.false_ne_true),
    List.filter_eq_self.mpr hnew, List.nil_append]

/-- A character a line is made of. -/
private def LineChar (c : Char) : Prop := c ≠ '\n' ∧ c ≠ '\x00'

/-- Characters of a line are those that a frame can carry. -/
private theorem wireOk_lineChar : WireOk LineChar := fun _ hend hnul => ⟨hend, hnul⟩

/-- A record whose line is one line of at most 400 bytes and is read back as the record. -/
private def Sends (line : Str) (x : SyncRecord) : Prop :=
  (∃ n, n ≤ 400 ∧ LineFit LineChar n line) ∧ readLine line.dropLast = some x

/-- A payload of at most twenty such lines is read back record by record. More would not fit a
frame at this length. -/
private theorem readLines_of_sends {ls : List (Str × SyncRecord)} (h : ∀ p ∈ ls, Sends p.1 p.2)
    (hfew : ls.length ≤ 20) : (frameLines (ls.map (·.1)).flatten).map readLine
    = (ls.map (·.2)).map some := by
  have hline : ∀ l ∈ ls.map (·.1), ∃ n, n ≤ 400 ∧ LineFit LineChar n l := by
    intro l hl
    obtain ⟨p, hp, rfl⟩ := List.mem_map.mp hl
    exact (h p hp).1
  have hlines : ∀ l ∈ ls.map (·.1), IsLine '\n' l := by
    intro l hl
    obtain ⟨n, -, hfit⟩ := hline l hl
    exact hfit.isLine fun hc => hc.1 rfl
  have hnul : '\x00' ∉ (ls.map (·.1)).flatten := by
    intro hmem
    obtain ⟨l, hl, hc⟩ := List.mem_flatten.mp hmem
    obtain ⟨n, -, hfit⟩ := hline l hl
    rcases hfit.chars _ hc with hc | hc
    · exact hc.2 rfl
    · exact absurd hc (by decide)
  have hlen : utf8Len (ls.map (·.1)).flatten < maxSyncPayload := by
    have hshort : ∀ l ∈ ls.map (·.1), utf8Len l ≤ 401 := by
      intro l hl
      obtain ⟨n, hn, hfit⟩ := hline l hl
      exact Nat.le_trans hfit.len (Nat.add_le_add_right hn 1)
    have hle := utf8Len_flatten_le hshort
    rw [List.length_map] at hle
    have hcap : 20 * 401 < maxSyncPayload := by decide
    have hmul : ls.length * 401 ≤ 20 * 401 := Nat.mul_le_mul_right 401 hfew
    omega
  rw [frameLines_flatten hlines hnul hlen]
  simp only [List.map_map]
  exact List.map_congr_left fun p hp => (h p hp).2

/-- Now as a stamp. -/
private theorem SaneClock.stamp (h : SaneClock clk) : (0 ≤ clk.now ∧ clk.now ≤ i64Max)
    ∧ InI64 clk.now := by
  have hroom := h.room
  have hpos := h.positive
  have hfuture : lwwMaxFuture = 3600 := rfl
  unfold InI64 i64Min
  exact ⟨⟨by omega, by omega⟩, by omega, by omega⟩

/-- The line of the new user is read back as the user. `hend` is the condition of the
equivalence. -/
private theorem sends_user (hclk : SaneClock clk) {payload : Str} {u : UserAdd} {flags : Str}
    {chans : List Str} (hasked : UserAsked clk s payload typ uuid u flags chans)
    (htyp : typ = 'a' ∨ typ = 'o') (hshape : uuidShape uuid = true) (hnul : NoNul payload)
    (hend : '\n' ∉ u.name) :
    Sends (formatUserRecord (addedUser clk typ uuid u)) (.user (addedUser clk typ uuid u)) := by
  obtain ⟨hne, hlen, hbar, hsub⟩ := hasked.name
  have hok := wireOk_lineChar
  have hfits : UserFits LineChar (addedUser clk typ uuid u) := by
    refine ⟨fit_uuidShape hok hshape, ⟨Nat.le_of_lt_succ hlen, fun c hc => ⟨?_, ?_⟩⟩,
      fit_of_pubkey (chars_of_pubkey hok hasked.key) hasked.key, ?_, inI64_zero, hclk.stamp.2⟩
    · rintro rfl
      exact hend hc
    · rintro rfl
      exact hnul (hsub.subset hc)
    · show Fit LineChar 1 [typ]
      rcases htyp with rfl | rfl
      · exact fit_text hok (by decide) (by decide)
      · exact fit_text hok (by decide) (by decide)
  refine ⟨⟨238, by decide, hfits.line hok⟩,
    readLine_user ⟨?_, hshape, ⟨hne, hlen, hbar⟩, ⟨rfl, hasked.key⟩, ?_,
    hclk.stamp.1⟩⟩
  · exact htyp
  · exact ⟨Int.le_refl 0, (by decide : (0 : Int) ≤ i64Max)⟩

/-- The line of its mask is. -/
private theorem sends_mask (hclk : SaneClock clk) {payload : Str} {u : UserAdd} {flags : Str}
    {chans : List Str} (hasked : UserAsked clk s payload typ uuid u flags chans)
    (hshape : uuidShape uuid = true) (hnul : NoNul payload) (hend : '\n' ∉ u.mask) :
    Sends (formatMaskRecord (addedMask clk uuid u)) (.mask (addedMask clk uuid u)) := by
  obtain ⟨hlen, hbar, hsub⟩ := hasked.mask
  have hok := wireOk_lineChar
  have hfits : MaskFits LineChar (addedMask clk uuid u) := by
    refine ⟨fit_uuidShape hok hshape, ⟨Nat.le_of_lt_succ hlen, fun c hc => ⟨?_, ?_⟩⟩, inI64_zero,
      hclk.stamp.2⟩
    · rintro rfl
      exact hend hc
    · rintro rfl
      exact hnul (hsub.subset hc)
  refine ⟨⟨340, by decide, hfits.line hok⟩,
    readLine_mask ⟨hshape, ⟨hlen, hbar⟩, ?_, hclk.stamp.1⟩⟩
  exact ⟨Int.le_refl 0, (by decide : (0 : Int) ≤ i64Max)⟩

/-- The line of its flags is. -/
private theorem sends_uflag (hclk : SaneClock clk) (hshape : uuidShape uuid = true) {flags : Str}
    (hcanon : uflagsCanon flags = some flags) :
    Sends (formatUflag { uuid := uuid, flags := flags, timestamp := clk.now })
      (.uflag { uuid := uuid, flags := flags, timestamp := clk.now }) := by
  have hok := wireOk_lineChar
  have hfits : FlagFits LineChar { uuid := uuid, flags := flags, timestamp := clk.now } :=
    ⟨fit_uuidShape hok hshape, fit_uflagsCanon hok hcanon, hclk.stamp.2⟩
  have hbar : '|' ∉ flags := by
    intro hmem
    unfold uflagsCanon at hcanon
    split at hcanon
    · rw [Option.some.injEq] at hcanon
      rw [← hcanon] at hmem
      exact absurd (List.mem_filter.mp hmem).1 (by decide)
    · cases hcanon
  exact ⟨⟨67, by decide, hfits.line hok⟩, readLine_uflag hshape hbar hclk.stamp.1⟩

/-- The line of a binding is. -/
private theorem sends_uchan (hclk : SaneClock clk) (hshape : uuidShape uuid = true)
    {active : Bool} {chan : Str} (hname : uchanNameOk chan = true) :
    Sends (formatUchan (newBinding clk uuid active chan))
      (.uchan (newBinding clk uuid active chan)) := by
  have hok := wireOk_lineChar
  have hfits : BindFits LineChar (newBinding clk uuid active chan) :=
    ⟨fit_uuidShape hok hshape, fit_uchanNameOk hok hname, hclk.stamp.2⟩
  exact ⟨⟨129, by decide, hfits.line hok⟩,
    readLine_uchan hshape (uchanNameOk_spec hname).2.1 hclk.stamp.1⟩

/-- The lines of a `user add`, with the records they carry. -/
private def addedLines (clk : Clock) (typ : Char) (uuid : Str) (u : UserAdd)
    (fl : List UflagRecord) (bs : List UchanRecord) : List (Str × SyncRecord) :=
  (formatUserRecord (addedUser clk typ uuid u), .user (addedUser clk typ uuid u))
    :: (formatMaskRecord (addedMask clk uuid u), .mask (addedMask clk uuid u))
    :: (fl.map (fun r => (formatUflag r, .uflag r)) ++ bs.map fun r => (formatUchan r, .uchan r))

/-- The answer to `user add` is true exactly if neither name nor mask has a line end.

`hreply` is the answer, from which everything about the payload follows; `hshape` and `hfree` are
about the uuid that was drawn. One direction is `UserSaid.no_lineEnd`, the other puts the lines
together. -/
theorem userAdded_iff (hclk : SaneClock clk) {payload name pubKey mask access : Str} {typ' : Char}
    (hnul : NoNul payload) (htyp : typ = 'a' ∨ typ = 'o') (hshape : uuidShape uuid = true)
    (hfree : UnusedUuid s uuid)
    (hreply : addUserReply clk s payload typ uuid = some
    (.userAdded name typ' pubKey mask access)) :
    (∃ u m, UserSaid (addUserRecord clk s payload typ uuid) u m access
        ∧ u.name = name ∧ u.typ = typ' ∧ u.pubkeyB64 = pubKey ∧ m.mask = mask)
      ↔ '\n' ∉ name ∧ '\n' ∉ mask := by
  constructor
  -- a record that was said is a line, and a line holds no line end
  · rintro ⟨u, m, hsaid, rfl, -, -, rfl⟩
    exact hsaid.no_lineEnd
  rintro ⟨hnameEnd, hmaskEnd⟩
  -- what the handler made: the user, its flags and its channels
  obtain ⟨u, flags, chans, hasked, hstate, rfl, rfl, rfl, rfl, haccess⟩ :=
    addUserReply_spec hreply
  -- the rights were added, each record that was asked for
  have hadded := userAddRights_added (s := withUser clk s typ uuid u) hclk hshape
    hfree.flags hfree.binds hasked.rights hasked.room
  -- an admin gets flags, an oper channels
  generalize hfl : (if typ = 'a'
    then [({ uuid := uuid, flags := flags, timestamp := clk.now } : UflagRecord)]
    else []) = fl at hadded
  generalize hbs : (if typ = 'a' then [] else chans.map (newBinding clk uuid true)
    ++ starDelete clk (withUser clk s typ uuid u) uuid chans) = bs at hadded
  have hflUuid : ∀ r ∈ fl, r.uuid = uuid := by
    intro r hr
    rw [← hfl] at hr
    split at hr
    · rw [List.mem_singleton.mp hr]
    · exact (List.not_mem_nil hr).elim
  have hbsUuid : ∀ r ∈ bs, ∃ active chan, r = newBinding clk uuid active chan
    ∧ uchanNameOk chan = true := by
    intro r hr
    rw [← hbs] at hr
    split at hr
    · exact (List.not_mem_nil hr).elim
    rename_i hne
    rcases List.mem_append.mp hr with hr | hr
    · obtain ⟨c, hc, rfl⟩ := List.mem_map.mp hr
      exact ⟨true, c, rfl, (hasked.rights.oper hne).2.2.names c hc⟩
    · unfold starDelete at hr
      split at hr
      · exact (List.not_mem_nil hr).elim
      · exact ⟨false, ['*'], List.mem_singleton.mp hr, by decide⟩
  generalize hT : userAddRights clk (withUser clk s typ uuid u) typ uuid flags chans = T
    at hadded hstate
  -- the uuid is unused, so the records of that uuid are the ones just added
  have hflags : (T.uflagRecords.filter fun r => r.uuid == uuid) = fl := by
    rw [hadded.flags]
    exact filter_appended (fun r hr => beq_eq_false_iff_ne.mpr (hfree.flags r hr))
      (fun r hr => beq_iff_eq.mpr (hflUuid r hr))
  have hbinds : (T.uchanRecords.filter fun r => r.uuid == uuid) = bs := by
    rw [hadded.binds]
    refine filter_appended (fun r hr => beq_eq_false_iff_ne.mpr (hfree.binds r hr)) fun r hr => ?_
    obtain ⟨active, chan, rfl, -⟩ := hbsUuid r hr
    exact beq_iff_eq.mpr rfl
  -- the payload is the added lines, one after the other
  have hlines : formatUserRecord (addedUser clk typ uuid u) ++ formatMaskRecord
    (addedMask clk uuid u)
      ++ accessAppend T (· == uuid) = ((addedLines clk typ uuid u fl bs).map (·.1)).flatten := by
    have hfilterF : (T.uflagRecords.filter fun r => (· == uuid) r.uuid) = fl := hflags
    have hfilterC : (T.uchanRecords.filter fun r => (· == uuid) r.uuid) = bs := hbinds
    unfold accessAppend addedLines
    rw [hfilterF, hfilterC]
    simp [List.flatMap, Function.comp_def]
  -- and few, at most two, one of flags and seventeen of channels
  have hfew : (addedLines clk typ uuid u fl bs).length ≤ 20 := by
    have hflLen : fl.length ≤ 1 := by
      rw [← hfl]
      split
      · exact Nat.le_refl 1
      · exact Nat.zero_le 1
    have hbsLen : bs.length ≤ 17 := by
      rw [← hbs]
      split
      · exact Nat.zero_le 17
      rename_i hne
      have hchans := (hasked.rights.oper hne).2.2.few
      have hstar : (starDelete clk (withUser clk s typ uuid u) uuid chans).length ≤ 1 := by
        unfold starDelete
        split
        · exact Nat.zero_le 1
        · exact Nat.le_refl 1
      rw [List.length_append, List.length_map]
      omega
    unfold addedLines
    rw [List.length_cons, List.length_cons, List.length_append, List.length_map, List.length_map]
    omega
  -- each of them is sent whole and read back as the record it was made from
  have hsends : ∀ p ∈ addedLines clk typ uuid u fl bs, Sends p.1 p.2 := by
    intro p hp
    unfold addedLines at hp
    rcases List.mem_cons.mp hp with rfl | hp
    · exact sends_user hclk hasked htyp hshape hnul hnameEnd
    rcases List.mem_cons.mp hp with rfl | hp
    · exact sends_mask hclk hasked hshape hnul hmaskEnd
    rcases List.mem_append.mp hp with hp | hp
    · obtain ⟨r, hr, rfl⟩ := List.mem_map.mp hp
      rw [← hfl] at hr
      split at hr
      · rename_i hadmin
        rw [List.mem_singleton.mp hr]
        exact sends_uflag hclk hshape (hasked.rights.admin hadmin).1
      · exact (List.not_mem_nil hr).elim
    · obtain ⟨r, hr, rfl⟩ := List.mem_map.mp hp
      obtain ⟨active, chan, rfl, hname⟩ := hbsUuid r hr
      exact sends_uchan hclk hshape hname
  refine ⟨addedUser clk typ uuid u, addedMask clk uuid u, ⟨?_, ?_, ?_, ?_, ?_⟩, rfl,
    rfl, rfl, rfl⟩
  -- the user stands in the table
  · rw [hstate]
    refine ⟨?_, rfl, rfl⟩
    show addedUser clk typ uuid u ∈ T.userRecords
    rw [hadded.users]
    exact List.mem_append_right _ (List.mem_singleton_self _)
  -- its mask does too
  · rw [hstate]
    refine ⟨?_, rfl, rfl⟩
    show addedMask clk uuid u ∈ T.maskRecords
    rw [hadded.masks]
    exact List.mem_append_right _ (List.mem_singleton_self _)
  -- an admin: the access that is answered is the flags the store holds
  · intro hadmin
    have hadmin' : typ = 'a' := hadmin
    rw [haccess, if_pos hadmin', hstate]
    show userFlags T uuid = flags
    have hnone : s.uflagRecords.findIdx? (fun r => r.uuid == uuid) = none := by
      rw [List.findIdx?_eq_none_iff]
      exact fun r hr => beq_eq_false_iff_ne.mpr (hfree.flags r hr)
    rw [if_pos hadmin'] at hfl
    have hrecs : T.uflagRecords = s.uflagRecords
      ++ [{ uuid := uuid, flags := flags, timestamp := clk.now }] := by
      rw [hadded.flags, ← hfl]
      rfl
    have hfind : uflagFind T uuid = some s.uflagRecords.length := by
      unfold uflagFind
      rw [hrecs]
      exact Table.findIdx?_append_of_none hnone (by simp)
    unfold userFlags
    rw [hfind, hrecs]
    simp
  -- an oper: the access that is answered names the live bindings
  · intro hoper
    have hoper' : typ ≠ 'a' := hoper
    obtain ⟨hne, hstar, hok⟩ := hasked.rights.oper hoper'
    rw [haccess, if_neg hoper']
    have hlive : liveBindings (addUserRecord clk s payload typ uuid) uuid = chans := by
      rw [hstate]
      rw [if_neg hoper'] at hbs
      show (T.uchanRecords.filter fun r => r.isActive && r.uuid == uuid).map (·.chan) = chans
      have hnone : (s.uchanRecords.filter fun r => r.isActive && r.uuid == uuid) = [] := by
        rw [List.filter_eq_nil_iff]
        intro r hr
        rw [beq_eq_false_iff_ne.mpr (hfree.binds r hr), Bool.and_false]
        exact Bool.false_ne_true
      have hstarNone : ((starDelete clk (withUser clk s typ uuid u) uuid chans).filter
          fun r => r.isActive && r.uuid == uuid) = [] := by
        unfold starDelete
        split
        · rfl
        · rfl
      have hall : ((chans.map (newBinding clk uuid true)).filter fun r =>
        r.isActive && r.uuid == uuid)
          = chans.map (newBinding clk uuid true) := by
        rw [List.filter_eq_self]
        intro r hr
        obtain ⟨c, -, rfl⟩ := List.mem_map.mp hr
        simp [newBinding]
      have hrecs : T.uchanRecords = s.uchanRecords ++ bs := hadded.binds
      rw [hrecs, ← hbs, List.filter_append, List.filter_append, hnone, hstarNone, hall,
        List.nil_append, List.append_nil, List.map_map]
      exact List.map_id'' (fun _ => rfl) chans
    rw [splitOn_userChans hlive hne hstar hok]
    exact hlive
  -- the last broadcast is the payload, and reads back as these records
  · rw [hstate, sentLast_broadcast, hlines, readLines_of_sends hsends hfew]
    show _ = (SyncRecord.user (addedUser clk typ uuid u) :: .mask (addedMask clk uuid u)
      :: ((T.uflagRecords.filter fun r => r.uuid == uuid).map .uflag
        ++ (T.uchanRecords.filter fun r => r.uuid == uuid).map .uchan)).map some
    rw [hflags, hbinds]
    simp [addedLines, Function.comp_def]

end Records

end IrcHub.Proofs
