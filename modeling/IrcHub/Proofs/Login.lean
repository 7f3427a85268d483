import IrcHub.Hub.Login
import IrcHub.Lib.Fit
import IrcHub.Proofs.Users.Unique

/-!
# `IrcHub.Proofs.Login`: what is published, and what a login opens

The hub publishes the names and keys of its admins to the bots, and a bot opens a console on the
hub for who proves one of these keys. The two sides read the same table in different ways, and
this module says on which tables they agree.

* `buildCreds_eq`: each record is published on its own, or not at all
* `opens_of_first`, `OpensFor.first`: what a login opens is a matter of the first live admin of
  the name
* `usersNamed_run`: the records that lines and commands leave have names and fit the table
* `loginsAgree_iff`: the two sides agree exactly on the tables that are `LoginsClear`
* `loginsAgree_run_iff`: so they do on the tables that lines of peers and commands of admins leave

Logins use the Ed25519 half of a key (`edKeyOf`), the hub counts the whole text of it. Two keys
with one half are therefore both published; `LoginsClear` rules that out, and a name that another
admin has first, and one that is cut on the way.
-/

set_option autoImplicit false

open Table (TableFit)

namespace IrcHub.Proofs

open IrcHub.Hub Str
open String (utf8Len)

variable {clk : Clock} {s t : HubState} {u v : UserRecord} {c : Cred} {i : Nat}

/-! ### Keys -/

/-- A live admin. -/
def LiveAdmin (u : UserRecord) : Prop := u.typ = 'a' ∧ u.isActive = true

/-- The half of a key that a login uses: its first 32 bytes. -/
def edKeyOf (u : UserRecord) : Option (List Nat) :=
  if u.hasPubkey then (pubkeyB64Decode u.pubkeyB64).map (·.take 32) else none

/-- No other live admin has the key of record `i`. The texts of the keys are compared, as the
source does. -/
def OwnKey (s : HubState) (i : Nat) (u : UserRecord) : Prop :=
  ∀ j v, j ≠ i → s.userRecords[j]? = some v → LiveAdmin v → v.hasPubkey = true →
    v.pubkeyB64 ≠ u.pubkeyB64

/-- No other live admin has the half of it that a login uses. -/
def OwnEdKey (s : HubState) (i : Nat) (ed : List Nat) : Prop :=
  ∀ j v, j ≠ i → s.userRecords[j]? = some v → LiveAdmin v → edKeyOf v ≠ some ed

/-- A user's signing key is the first half of its key, which must decode. -/
theorem edKeyOf_eq_some_iff {ed : List Nat} : edKeyOf u = some ed ↔
    u.hasPubkey = true ∧ ∃ pk, pubkeyB64Decode u.pubkeyB64 = some pk ∧ pk.take 32 = ed := by
  unfold edKeyOf
  split
  · rename_i hkey
    rw [Option.map_eq_some_iff]
    exact (and_iff_right hkey).symm
  · rename_i hkey
    exact ⟨fun hno => (nomatch hno), fun hyes => absurd hyes.1 hkey⟩

/-- Two records of one key use the same half of it. -/
theorem OwnEdKey.ownKey {ed : List Nat} (h : OwnEdKey s i ed) (hed : edKeyOf u = some ed) :
    OwnKey s i u := by
  intro j v hj hv hlive hkey hsame
  obtain ⟨-, hdec⟩ := edKeyOf_eq_some_iff.mp hed
  exact h j v hj hv hlive (edKeyOf_eq_some_iff.mpr ⟨hkey, hsame ▸ hdec⟩)

/-! ### What is published -/

/-- What is published of a record: a name cut to its buffer and the half of the key, if the record
is a live admin with a name and a key that it does not share. -/
def credOf (s : HubState) (u : UserRecord) : Option Cred :=
  if u.typ != 'a' || !u.isActive || !u.hasPubkey || u.name.isEmpty
    || decide (s.userRecords.countP (sameKey u) ≠ 1) then none
  else (pubkeyB64Decode u.pubkeyB64).map fun pk =>
    { name := trunc u.name (consoleNameMax - 1), edPub := pk.take 32 }

/-- A user adds its credential, if it has one to publish. There must be room, as past it nobody is
published. -/
theorem pushCred_eq (s : HubState) {out : List Cred} (hroom : out.length < maxHubUserRecords)
    (u : UserRecord) :
    pushCred s out u = out ++ (credOf s u).toList := by
  unfold pushCred credOf
  cases hskip : u.typ != 'a' || !u.isActive || !u.hasPubkey || u.name.isEmpty with
  | true =>
    rw [if_pos rfl, Bool.true_or, if_pos rfl]
    exact (List.append_nil out).symm
  | false =>
    rw [if_neg Bool.false_ne_true, Bool.false_or]
    cases pubkeyB64Decode u.pubkeyB64 with
    | none =>
      dsimp only
      rw [Option.map_none, ite_self]
      exact (List.append_nil out).symm
    | some pk =>
      have hfull : decide (out.length ≥ maxHubUserRecords) = false :=
        decide_eq_false (Nat.not_le.mpr hroom)
      dsimp only
      rw [hfull, Bool.or_false]
      split
      · exact (List.append_nil out).symm
      · rfl

/-- With no more records than the table has places for, each is published on its own. By induction
on the records, with room for those that are left. -/
theorem buildCreds_eq (hroom : s.userRecords.length ≤ maxHubUserRecords) :
    buildCreds s = s.userRecords.filterMap (credOf s) := by
  have hfold : ∀ (l : List UserRecord) (out : List Cred), out.length + l.length
    ≤ maxHubUserRecords →
      l.foldl (pushCred s) out = out ++ l.filterMap (credOf s) := by
    intro l
    induction l with
    | nil => exact fun out _ => (List.append_nil out).symm
    | cons u l ih =>
      intro out hlen
      rw [List.length_cons] at hlen
      have hcred : (credOf s u).toList.length ≤ 1 := by
        cases credOf s u with
        | none => exact Nat.zero_le 1
        | some c => exact le_rfl
      rw [List.foldl_cons, pushCred_eq s (by omega), ih _ (by rw [List.length_append]; omega),
        List.append_assoc]
      cases hc : credOf s u with
      | none => rw [List.filterMap_cons_none hc, Option.toList_none, List.nil_append]
      | some c => rw [List.filterMap_cons_some hc, Option.toList_some, List.singleton_append]
  have hall := hfold s.userRecords [] (by rw [List.length_nil, Nat.zero_add]; exact hroom)
  rw [List.nil_append] at hall
  exact hall

/-- The key of a record is on no other exactly when the count says one, which is the record
itself. -/
theorem ownKey_iff (hget : s.userRecords[i]? = some u) (hlive : LiveAdmin u)
    (hkey : u.hasPubkey = true) :
    OwnKey s i u ↔ s.userRecords.countP (sameKey u) = 1 := by
  have hself : sameKey u u = true := by
    unfold sameKey
    rw [hlive.1, hlive.2, hkey]
    simp
  rw [Table.countP_eq_one_iff hget hself]
  refine forall₄_congr fun j v _ _ => ?_
  unfold sameKey LiveAdmin
  simp only [Bool.and_eq_false_iff, beq_eq_false_iff_ne, ne_eq]
  constructor
  · intro h
    by_contra hno
    simp only [not_or, not_not, Bool.not_eq_false] at hno
    exact h ⟨hno.1.1.1, hno.1.1.2⟩ hno.1.2 hno.2
  · rintro (((h | h) | h) | h) hv hk
    · exact absurd hv.1 h
    · exact absurd hv.2 (by rw [h]; exact Bool.false_ne_true)
    · exact absurd hk (by rw [h]; exact Bool.false_ne_true)
    · exact h

/-- A live admin with a name is published exactly when no other has its key. -/
theorem credOf_eq_some_iff (hget : s.userRecords[i]? = some u) : credOf s u = some c ↔
    LiveAdmin u ∧ u.name ≠ [] ∧ OwnKey s i u ∧ edKeyOf u = some c.edPub
      ∧ c.name = trunc u.name (consoleNameMax - 1) := by
  have hskip : (u.typ != 'a' || !u.isActive || !u.hasPubkey || u.name.isEmpty
        || decide (s.userRecords.countP (sameKey u) ≠ 1)) = false
      ↔ LiveAdmin u ∧ u.name ≠ [] ∧ OwnKey s i u ∧ u.hasPubkey = true := by
    simp only [Bool.or_eq_false_iff, bne_eq_false_iff_eq, Bool.not_eq_false',
      List.isEmpty_eq_false_iff, decide_eq_false_iff_not, ne_eq, not_not]
    constructor
    · rintro ⟨⟨⟨⟨htyp, hact⟩, hkey⟩, hname⟩, hone⟩
      exact ⟨⟨htyp, hact⟩, hname, (ownKey_iff hget ⟨htyp, hact⟩ hkey).mpr hone, hkey⟩
    · rintro ⟨hlive, hname, hown, hkey⟩
      exact ⟨⟨⟨⟨hlive.1, hlive.2⟩, hkey⟩, hname⟩, (ownKey_iff hget hlive hkey).mp hown⟩
  unfold credOf
  split
  · rename_i hyes
    refine ⟨fun hno => (nomatch hno), fun ⟨hlive, hname, hown, hed, _⟩ => ?_⟩
    rw [hskip.mpr ⟨hlive, hname, hown, (edKeyOf_eq_some_iff.mp hed).1⟩] at hyes
    cases hyes
  · rename_i hno
    obtain ⟨hlive, hname, hown, hkey⟩ := hskip.mp (Bool.not_eq_true _ ▸ hno)
    rw [Option.map_eq_some_iff]
    constructor
    · rintro ⟨pk, hpk, rfl⟩
      exact ⟨hlive, hname, hown, edKeyOf_eq_some_iff.mpr ⟨hkey, pk, hpk, rfl⟩, rfl⟩
    · rintro ⟨-, -, -, hed, hcname⟩
      obtain ⟨-, pk, hpk, hhalf⟩ := edKeyOf_eq_some_iff.mp hed
      refine ⟨pk, hpk, ?_⟩
      rw [hhalf, ← hcname]

/-- Who is published: the live admins with a name and a key of their own. -/
theorem mem_buildCreds_iff (hroom : s.userRecords.length ≤ maxHubUserRecords) : c ∈ buildCreds s ↔
    ∃ i u, s.userRecords[i]? = some u ∧ LiveAdmin u ∧ u.name ≠ [] ∧ OwnKey s i u
      ∧ edKeyOf u = some c.edPub
      ∧ c.name = trunc u.name (consoleNameMax - 1) := by
  rw [buildCreds_eq hroom, List.mem_filterMap]
  constructor
  · rintro ⟨u, hu, hc⟩
    obtain ⟨i, hget⟩ := List.mem_iff_getElem?.mp hu
    exact ⟨i, u, hget, (credOf_eq_some_iff hget).mp hc⟩
  · rintro ⟨i, u, hget, hpub⟩
    exact ⟨u, List.mem_of_getElem? hget, (credOf_eq_some_iff hget).mpr hpub⟩

/-! ### What a login opens -/

/-- A login opens a session for record `i`: at any time and from any address, as long as there is
room for a connection. -/
def OpensFor (s : HubState) (c : Cred) (i : Nat) (u : UserRecord) : Prop :=
  s.userRecords[i]? = some u ∧ LiveAdmin u ∧ u.name = c.name ∧ edKeyOf u = some c.edPub
    ∧ ∀ clk clients ip, clients < maxClients → openConsoleAs clk s clients c.name ip
      = some (stampUser s i clk.now,
        { id := "ADMIN:".toList ++ c.name, admin := c.name, edPub := c.edPub, ip := ip })

/-- A console opens for the first live admin of the name. -/
theorem adminByName_eq_some_iff {name : Str} : adminByName s name = some i ↔
    ∃ u, s.userRecords[i]? = some u ∧ LiveAdmin u ∧ u.name = name
      ∧ ∀ j v, j < i → s.userRecords[j]? = some v → LiveAdmin v → v.name ≠ name := by
  have hp : ∀ u : UserRecord, (u.typ == 'a' && u.isActive && u.name == name) = true ↔ LiveAdmin u
    ∧ u.name = name := by
    intro u
    unfold LiveAdmin
    simp only [Bool.and_eq_true, beq_iff_eq]
  unfold adminByName
  rw [List.findIdx?_eq_some_iff_getElem]
  constructor
  · rintro ⟨hlt, hi, hbefore⟩
    refine ⟨_, List.getElem?_eq_getElem hlt, ((hp _).mp hi).1, ((hp _).mp hi).2,
      fun j v hj hv hlive hname => ?_⟩
    obtain ⟨hj', rfl⟩ := List.getElem?_eq_some_iff.mp hv
    exact hbefore j hj ((hp _).mpr ⟨hlive, hname⟩)
  · rintro ⟨u, hu, hlive, hname, hbefore⟩
    obtain ⟨hlt, rfl⟩ := List.getElem?_eq_some_iff.mp hu
    refine ⟨hlt, (hp _).mpr ⟨hlive, hname⟩, fun j hj hyes => ?_⟩
    have hboth := (hp _).mp hyes
    exact hbefore j _ hj (List.getElem?_eq_getElem (hj.trans hlt)) hboth.1 hboth.2

/-- The first record of a name gets a session, if the name is short enough. -/
theorem opens_of_first (hget : s.userRecords[i]? = some u) (hlive : LiveAdmin u)
    (hname : u.name = c.name) (hed : edKeyOf u = some c.edPub) (hlen : utf8Len c.name < 58)
    (hfirst : ∀ j v, j < i → s.userRecords[j]? = some v → LiveAdmin v → v.name ≠ c.name) :
    OpensFor s c i u := by
  refine ⟨hget, hlive, hname, hed, fun clk clients ip hclients => ?_⟩
  obtain ⟨hkey, pk, hpk, hhalf⟩ := edKeyOf_eq_some_iff.mp hed
  have hfind : adminByName s c.name = some i :=
    adminByName_eq_some_iff.mpr ⟨u, hget, hlive, hname, hfirst⟩
  have hshort : ¬ utf8Len c.name + utf8Len "ADMIN:".toList ≥ 64 := by
    have hsix : utf8Len "ADMIN:".toList = 6 := by decide
    omega
  unfold openConsoleAs
  rw [hfind, Option.bind_some, hget, Option.bind_some, if_pos hkey, hpk, Option.map_some]
  dsimp only
  rw [if_neg hshort, if_neg (Nat.not_le.mpr hclients), hhalf]

/-- A session is opened for the first record of the name, and only for a name short enough for the
id of the connection. -/
theorem OpensFor.first (h : OpensFor s c i u) : utf8Len c.name < 58
    ∧ ∃ (j : Nat) (v : UserRecord), s.userRecords[j]? = some v
    ∧ LiveAdmin v ∧ edKeyOf v = some c.edPub ∧ ∀ k w, k < j → s.userRecords[k]? = some w →
      LiveAdmin w → w.name ≠ c.name := by
  have hopen := h.2.2.2.2 { now := 0 } 0 [] (by decide)
  unfold openConsoleAs at hopen
  dsimp only at hopen
  split at hopen
  · cases hopen
  rename_i j pk hpk
  obtain ⟨j', hfind, hpk⟩ := Option.bind_eq_some_iff.mp hpk
  obtain ⟨v, hv, hpk⟩ := Option.bind_eq_some_iff.mp hpk
  obtain ⟨v', hv', hlive, -, hfirst⟩ := adminByName_eq_some_iff.mp hfind
  rw [hv] at hv'
  cases hv'
  split at hpk
  · rename_i hkey
    obtain ⟨pk', hdec, heq⟩ := Option.map_eq_some_iff.mp hpk
    cases heq
    split at hopen
    · cases hopen
    rename_i hshort
    split at hopen
    · cases hopen
    have hhalf : pk.take 32 = c.edPub := congrArg (fun x => x.2.edPub) (Option.some.inj hopen)
    refine ⟨?_, j, v, hv, hlive, edKeyOf_eq_some_iff.mpr ⟨hkey, pk, hdec, hhalf⟩, hfirst⟩
    have hsix : utf8Len "ADMIN:".toList = 6 := by decide
    omega
  · cases hpk

/-! ### Both sides -/

/-- A name a login can use is published whole. -/
theorem trunc_short {name : Str} (h : utf8Len name < 58) :
    trunc name (consoleNameMax - 1) = name :=
  trunc_of_lt (h.trans (by decide))

/-- What is published and what a login opens agree. That each key is published once is part of it,
because a bot takes the first name it finds for a key. -/
structure LoginsAgree (s : HubState) : Prop where
  /-- Published are the live admins whose key is on no other live admin. -/
  published : ∀ c, c ∈ buildCreds s ↔ ∃ i u, s.userRecords[i]? = some u ∧ LiveAdmin u
    ∧ u.name = c.name
    ∧ edKeyOf u = some c.edPub ∧ OwnEdKey s i c.edPub
  distinct : (buildCreds s).Pairwise fun c d => c.edPub ≠ d.edPub
  opens : ∀ c ∈ buildCreds s, ∃ i u, OpensFor s c i u

/-- A live admin whose key is on no other live admin has a short name, is the first live admin of
it, and has the half that logins use for itself. -/
def LoginsClear (s : HubState) : Prop :=
  ∀ i u ed, s.userRecords[i]? = some u → LiveAdmin u → edKeyOf u = some ed → OwnKey s i u →
    utf8Len u.name < 58
      ∧ (∀ j v, j < i → s.userRecords[j]? = some v → LiveAdmin v → v.name ≠ u.name)
      ∧ OwnEdKey s i ed

/-- What the table of users has to meet for the two to be compared: no more rows than places, and
no admin without a name. -/
def UsersNamed (s : HubState) : Prop :=
  TableFit maxHubUserRecords (fun u => u.typ = 'a' → u.name ≠ []) s.userRecords

/-- Who is published and who may open a console agree exactly where logins are clear. That every
user has a name is the invariant below. -/
theorem loginsAgree_iff (h : UsersNamed s) : LoginsAgree s ↔ LoginsClear s := by
  have hmem := fun c => mem_buildCreds_iff (c := c) h.len
  constructor
  -- they agree: an admin with a key of its own is published, under a name that opens the console
  · intro hagree i u ed hget hlive hed hown
    have hname : u.name ≠ [] := h.get hget hlive.1
    have hpub : { name := trunc u.name (consoleNameMax - 1), edPub := ed } ∈ buildCreds s :=
      (hmem _).mpr ⟨i, u, hget, hlive, hname, hown, hed, rfl⟩
    -- no other record has that half, so every record found by it is this one
    obtain ⟨i', u', hget', hlive', hname', hed', hsole⟩ := (hagree.published _).mp hpub
    have hi : i = i' := by
      by_contra hne
      exact hsole i u hne hget hlive hed
    subst hi
    rw [hget] at hget'
    cases hget'
    obtain ⟨j, v, hopens⟩ := hagree.opens _ hpub
    obtain ⟨hlen, k, w, hw, hwlive, hwed, hfirst⟩ := hopens.first
    have hk : k = i := by
      by_contra hne
      exact hsole k w hne hw hwlive hwed
    subst hk
    have hsame : trunc u.name (consoleNameMax - 1) = u.name := hname'.symm
    dsimp only at hlen hfirst
    rw [hsame] at hlen hfirst
    exact ⟨hlen, hfirst, hsole⟩
  -- logins are clear: what is published is the first admin of its name
  · intro hclear
    have hlone : ∀ c, c ∈ buildCreds s → ∃ i u, s.userRecords[i]? = some u ∧ LiveAdmin u
      ∧ u.name = c.name
        ∧ edKeyOf u = some c.edPub ∧ OwnEdKey s i c.edPub ∧ utf8Len c.name < 58
        ∧ ∀ j v, j < i → s.userRecords[j]? = some v → LiveAdmin v → v.name ≠ c.name := by
      intro c hc
      obtain ⟨i, u, hget, hlive, hname, hown, hed, hcname⟩ := (hmem c).mp hc
      obtain ⟨hlen, hfirst, hsole⟩ := hclear i u c.edPub hget hlive hed hown
      rw [trunc_short hlen] at hcname
      exact ⟨i, u, hget, hlive, hcname.symm, hed, hsole, hcname ▸ hlen, hcname ▸ hfirst⟩
    refine ⟨fun c => ⟨fun hc => ?_, ?_⟩, ?_, fun c hc => ?_⟩
    · obtain ⟨i, u, hget, hlive, hname, hed, hsole, -⟩ := hlone c hc
      exact ⟨i, u, hget, hlive, hname, hed, hsole⟩
    · rintro ⟨i, u, hget, hlive, hname, hed, hsole⟩
      have hown := hsole.ownKey hed
      obtain ⟨hlen, -, -⟩ := hclear i u c.edPub hget hlive hed hown
      refine (hmem c).mpr ⟨i, u, hget, hlive, h.get hget hlive.1, hown, hed, ?_⟩
      rw [trunc_short hlen, hname]
    -- two credentials of one key would be one record
    · rw [buildCreds_eq h.len, List.pairwise_filterMap, List.pairwise_iff_getElem]
      intro j k hj hk hjk c hc d hd heq
      obtain ⟨hlive, -, hown, hed, -⟩ := (credOf_eq_some_iff (List.getElem?_eq_getElem hj)).mp hc
      obtain ⟨hlive', -, -, hed', -⟩ := (credOf_eq_some_iff (List.getElem?_eq_getElem hk)).mp hd
      obtain ⟨-, -, hsole⟩ := hclear j _ _ (List.getElem?_eq_getElem hj) hlive hed hown
      exact hsole k _ (Nat.ne_of_gt hjk) (List.getElem?_eq_getElem hk) hlive' (heq ▸ hed')
    · obtain ⟨i, u, hget, hlive, hname, hed, -, hlen, hfirst⟩ := hlone c hc
      exact ⟨i, u, opens_of_first hget hlive hname hed hlen hfirst⟩

/-! ### Tables of users -/

/-- The property reads the users only. -/
theorem UsersNamed.congr (h : UsersNamed s) (hsame : userTables t = userTables s) :
    UsersNamed t := by
  have husers : t.userRecords = s.userRecords := congrArg Prod.fst hsame
  rw [UsersNamed, husers]
  exact h

/-- Users taken out leave the others named. -/
theorem UsersNamed.within (h : UsersNamed s) (hsub : PeopleWithin s t) : UsersNamed t :=
  TableFit.sublist h hsub.users

/-- Stamps that are raised name nobody. -/
theorem UsersNamed.raise (h : UsersNamed s) (clk : Clock) (slot : Slot) (ts : Int) :
    UsersNamed (raise clk s slot ts) := by
  unfold Hub.raise
  split
  · exact h
  cases slot with
  | user i => exact TableFit.modify h i fun _ hu => hu
  | mask i => exact h
  | ban i => exact h

/-- A user on a line has a name, or the line is no user. -/
theorem named_of_parse {vstart : Str} {key : Char} (h : parseUserRecord vstart key = some u) :
    u.name ≠ [] := by
  unfold parseUserRecord at h
  split at h
  · split at h
    · cases h
    split at h
    · cases h
    rename_i name pk act seen ts rest hsplit hshape hlen
    simp only [Bool.or_eq_true, List.isEmpty_iff, not_or] at hlen
    split at h
    · cases h
      exact hlen.1
    · obtain ⟨k, -, rfl⟩ := Option.map_eq_some_iff.mp h
      exact hlen.1
  · cases h

/-- A user line of a peer brings no nameless user, and no more rows than there are places. -/
theorem UsersNamed.syncUserRecord (h : UsersNamed s) (clk : Clock) (key : Char) (vstart : Str)
    (cnt : SyncCounters) :
    UsersNamed (syncUserRecord clk s key vstart cnt).1 := by
  have hat : ∀ {inc t i}, UserAt clk s inc t i → UsersNamed t := by
    intro inc t i hat
    cases hat with
    | held => exact h
    | named i ex hfind hact hget =>
      have hname : ex.typ = 'a' → ex.name ≠ [] := h.get hget
      rw [UsersNamed, adoptUuid_users hget]
      exact TableFit.set h i hname
    | new hfind hroom =>
      -- the blank record is of no type
      exact TableFit.append h hroom fun hno =>
        absurd (show ('\x00' : Char) = 'a' from hno) (by decide)
  have hres := userSync clk s key vstart cnt
  generalize (Hub.syncUserRecord clk s key vstart cnt).1 = t at hres ⊢
  cases hres with
  | dropped _ => exact h
  | refused inc t i cur hparse hslot hget hacc =>
      exact (hat (userAt_of_userSlot hslot)).raise clk _ _
  | stored inc t i cur hparse hslot hget hacc =>
    have hname : inc.name ≠ [] := named_of_parse hparse
    exact TableFit.set (hat (userAt_of_userSlot hslot)) i fun _ => hname

/-- Nor does a mask line, which changes masks only. -/
theorem UsersNamed.syncMaskRecord (h : UsersNamed s) (clk : Clock) (vstart line : Str)
    (cnt : SyncCounters) :
    UsersNamed (syncMaskRecord clk s vstart line cnt).1 := by
  have hat : ∀ {inc t i}, MaskAt clk s inc t i → UsersNamed t := by
    intro inc t i hat
    cases hat with
    | held => exact h
    | new => exact h
  have hres := maskSync clk s vstart line cnt
  generalize (Hub.syncMaskRecord clk s vstart line cnt).1 = t at hres ⊢
  cases hres with
  | dropped _ => exact h
  | refused inc t i cur hparse huser hslot hget hacc =>
      exact (hat (maskAt_of_maskSlot hslot)).raise clk _ _
  | stored inc t i cur hparse huser hslot hget hacc =>
    have ht : UsersNamed t := hat (maskAt_of_maskSlot hslot)
    exact ht

/-- Any line of a peer. The cases are the letters a line can start with. -/
theorem UsersNamed.syncLine (h : UsersNamed s) {line : Str} {cnt : SyncCounters}
    {q : HubState × SyncCounters} (hq : syncLine clk (s, cnt) line = some q) :
    UsersNamed q.1 := by
  unfold Hub.syncLine at hq
  split at hq
  · rename_i q' htagged
    cases hq
    exact h.within (peopleWithin_syncTagged htagged)
  split at hq
  · exact h.congr (userTables_syncBotEntry hq)
  split at hq
  · rename_i key vstart hglobal
    cases hq
    unfold Hub.syncGlobal
    dsimp only
    have hraw := fun k v ts => h.congr (userTables_storeGlobalEntryRaw clk s k v ts)
    split
    · exact h.syncUserRecord ..
    split
    · exact h.syncMaskRecord ..
    split
    · exact h
    split
    · exact h
    split
    · exact h
    split
    · exact hraw _ _ _
    · exact hraw _ _ _
  · exact h.congr (userTables_syncBotEntry hq)

/-- `user add` asks for a name, and its answer is an error without one. -/
theorem named_of_userAddFields {payload : Str} {a : UserAdd}
    (h : userAddFields payload = some a) : a.name ≠ [] := by
  unfold userAddFields at h
  split at h
  · rename_i name pubKey mask rest hsplit
    dsimp only at h
    generalize (if utf8Len mask ≥ maxMaskLen then [] else trunc (rest.head?.getD []) 512) = acc
      at h
    split at h
    · cases h
    · rename_i hok
      cases h
      simp only [scanOk, Bool.or_eq_true, Bool.not_eq_true', not_or, Bool.not_eq_false,
        Bool.and_eq_true, List.isEmpty_eq_false_iff] at hok
      exact hok.1.1.1.1
  · cases h

/-- So it adds none without one. -/
theorem UsersNamed.addUserRecord (h : UsersNamed s) (clk : Clock) (payload : Str) (typ : Char)
    (uuid : Str) :
    UsersNamed (addUserRecord clk s payload typ uuid) := by
  unfold Hub.addUserRecord
  split
  · exact h
  rename_i a hfields
  split
  · exact h
  rename_i flags chans haccess
  split
  · exact h
  rename_i hok
  have hroom : s.userRecords.length < maxHubUserRecords := by
    simp only [userAddOk, Bool.not_eq_true, Bool.not_eq_false', Bool.and_eq_true,
      decide_eq_true_eq] at hok
    exact hok.1.1.2
  refine UsersNamed.congr ?_
    ((userTables_broadcast _ _).trans (userTables_userAddRights _ _ _ _ _ _))
  exact TableFit.append h hroom fun _ => named_of_userAddFields hfields

/-- `user del` leaves the name. -/
theorem UsersNamed.delUserRecord (h : UsersNamed s) (clk : Clock) (payload : Str) :
    UsersNamed (delUserRecord clk s payload) := by
  unfold Hub.delUserRecord
  split
  · exact h
  rename_i ui u hfind
  split
  · exact h
  obtain ⟨i, -, hi⟩ := Option.bind_eq_some_iff.mp hfind
  obtain ⟨w, hget, heq⟩ := Option.map_eq_some_iff.mp hi
  cases heq
  have hname : u.typ = 'a' → u.name ≠ [] := h.get hget
  exact TableFit.set h _ hname

/-- Neither does `user key`, which writes over a record in its place. -/
theorem UsersNamed.setUserkey (h : UsersNamed s) (clk : Clock) (payload : Str) :
    UsersNamed (setUserkey clk s payload) := by
  unfold Hub.setUserkey
  split
  · exact h
  split
  · exact h
  split
  · exact h
  rename_i ti u hfind
  split
  · exact h
  obtain ⟨i, -, hi⟩ := Option.bind_eq_some_iff.mp hfind
  obtain ⟨w, hget, heq⟩ := Option.map_eq_some_iff.mp hi
  cases heq
  have hname : u.typ = 'a' → u.name ≠ [] := h.get hget
  exact TableFit.set h _ hname

/-- Nor `user mask add`. -/
theorem UsersNamed.addUsermask (h : UsersNamed s) (clk : Clock) (payload : Str) :
    UsersNamed (addUsermask clk s payload) := by
  unfold Hub.addUsermask
  split
  · exact h
  split
  · exact h
  split
  · exact h
  dsimp only
  split
  · exact h
  split
  · exact h
  split
  · exact h
  · exact h

/-- So does `user mask del`. -/
theorem UsersNamed.delUsermask (h : UsersNamed s) (clk : Clock) (payload : Str) :
    UsersNamed (delUsermask clk s payload) := by
  unfold Hub.delUsermask
  split
  · exact h
  split
  · exact h
  split
  · exact h
  split
  · exact h
  · exact h

/-- One line or command keeps every user named. -/
theorem UsersNamed.step (h : UsersNamed s) {e : UserEvent} (ht : e.run clk s = some t) :
    UsersNamed t := by
  cases e with
  | line line cnt =>
    obtain ⟨q, hq, rfl⟩ := Option.map_eq_some_iff.mp ht
    exact h.syncLine hq
  | add admin payload random =>
    cases ht
    exact h.addUserRecord clk _ _ _
  | del payload =>
    cases ht
    exact h.delUserRecord clk _
  | maskAdd payload =>
    cases ht
    exact h.addUsermask clk _
  | maskDel payload =>
    cases ht
    exact h.delUsermask clk _
  | setKey payload =>
    cases ht
    exact h.setUserkey clk _
  | access payload =>
    cases ht
    exact h.congr (userTables_userAccess clk s _)

/-- Whatever lines of peers and commands of admins come, no admin is without a name. -/
theorem usersNamed_run {es : List (Clock × UserEvent)}
    (hrun : es.foldl userStep (some s) = some t) (h : UsersNamed s) :
    UsersNamed t := by
  induction es generalizing s with
  | nil =>
    cases hrun
    exact h
  | cons e es ih =>
    rw [List.foldl_cons] at hrun
    cases hstep : userStep (some s) e with
    | none =>
      rw [hstep] at hrun
      have hnone : es.foldl userStep none = none := by
        clear ih hrun
        induction es with
        | nil => rfl
        | cons _ es ih => exact ih
      rw [hnone] at hrun
      cases hrun
    | some u =>
      rw [hstep] at hrun
      exact ih hrun (h.step hstep)

/-- Over any table of users that lines of peers and commands of admins left, the published names
and keys are those of the live admins whose key is on no other live admin, no two of them share a
key, and each of them logs in as the admin it names, exactly when the table is clear. -/
theorem loginsAgree_run_iff {es : List (Clock × UserEvent)}
    (hrun : es.foldl userStep (some {}) = some s) :
    LoginsAgree s ↔ LoginsClear s := loginsAgree_iff (usersNamed_run hrun .nil)

/-- Whether a table is clear can be decided row by row. -/
instance (u : UserRecord) : Decidable (LiveAdmin u) := inferInstanceAs (Decidable (_ ∧ _))

instance (s : HubState) (i : Nat) (u : UserRecord) : Decidable (OwnKey s i u) :=
  decidable_of_iff (∀ j v, s.userRecords[j]? = some v → j ≠ i → LiveAdmin v →
      v.hasPubkey = true → v.pubkeyB64 ≠ u.pubkeyB64)
    ⟨fun h j v hj hv => h j v hv hj, fun h j v hv hj => h j v hj hv⟩

instance (s : HubState) (i : Nat) (ed : List Nat) : Decidable (OwnEdKey s i ed) :=
  decidable_of_iff (∀ j v, s.userRecords[j]? = some v → j ≠ i → LiveAdmin v →
      edKeyOf v ≠ some ed)
    ⟨fun h j v hj hv => h j v hv hj, fun h j v hv hj => h j v hj hv⟩

instance : DecidablePred LoginsClear := fun s =>
  decidable_of_iff (∀ i u, s.userRecords[i]? = some u → ∀ ed ∈ edKeyOf u,
      LiveAdmin u ∧ OwnKey s i u → utf8Len u.name < 58
        ∧ (∀ j v, s.userRecords[j]? = some v → j < i → LiveAdmin v → v.name ≠ u.name)
        ∧ OwnEdKey s i ed)
    ⟨fun h i u ed hu hlive hed hown =>
        have hclear := h i u hu ed hed ⟨hlive, hown⟩
        ⟨hclear.1, fun j v hj hv => hclear.2.1 j v hv hj, hclear.2.2⟩,
      fun h i u hu ed hed hadmin =>
        have hclear := h i u ed hu hadmin.1 hed hadmin.2
        ⟨hclear.1, fun j v hv hj => hclear.2.1 j v hj hv, hclear.2.2⟩⟩

/-- A key of four admins below. The three keys differ in their Ed25519 halves. -/
def carolKey : String :=
  "AAAAAAAAAAAAAAAAAAAAAAAAAAAAAAAAAAAAAAAAAAEAAAAAAAAAAAAAAAAAAAAAAAAAAAAAAAAAAAAAAAAAAQ=="

/-- The second of the three keys. -/
def danaKey : String :=
  "AQAAAAAAAAAAAAAAAAAAAAAAAAAAAAAAAAAAAAAAAAEAAAAAAAAAAAAAAAAAAAAAAAAAAAAAAAAAAAAAAAAAAQ=="

/-- The third, which two of the admins have. -/
def erinKey : String :=
  "AgAAAAAAAAAAAAAAAAAAAAAAAAAAAAAAAAAAAAAAAAEAAAAAAAAAAAAAAAAAAAAAAAAAAAAAAAAAAAAAAAAAAQ=="

/-- Four admins. Two have a key of their own, and a peer gave the fourth the key of the third. -/
def fourAdmins : List (Clock × UserEvent) :=
  [({ now := 1000 }, .add true ("carol|" ++ carolKey ++ "|*!*@*|+a").toList fun _ => 7),
    ({ now := 1001 }, .add true ("dana|" ++ danaKey ++ "|*!*@*|+u").toList fun _ => 8),
    ({ now := 1002 }, .add true ("erin|" ++ erinKey ++ "|*!*@*|+c").toList fun _ => 9),
    ({ now := 1003 }, .line ("a|01234567-89ab-cdef-0123-456789abcdef|frank|" ++ erinKey
      ++ "|add|0|950|").toList {})]

/-- Of the four admins the two with a key of their own are published, and they are who may open a
console. -/
theorem carol_logs_in : ∃ s, fourAdmins.foldl userStep (some {}) = some s
    ∧ s.userRecords.map (·.name) = ["carol".toList, "dana".toList, "erin".toList, "frank".toList]
    ∧ (buildCreds s).map (·.name) = ["carol".toList, "dana".toList] ∧ LoginsAgree s := by
  have hrows : ((fourAdmins.foldl userStep (some {})).any fun s =>
      decide (s.userRecords.map (·.name)
        = ["carol".toList, "dana".toList, "erin".toList, "frank".toList]
      ∧ (buildCreds s).map (·.name) = ["carol".toList, "dana".toList] ∧ LoginsClear s))
      = true := by decide +kernel
  obtain ⟨s, hrun, hs⟩ := (Option.any_eq_true _ _).mp hrows
  obtain ⟨hnames, hcreds, hclear⟩ := of_decide_eq_true hs
  exact ⟨s, hrun, hnames, hcreds, (loginsAgree_run_iff hrun).mpr hclear⟩

/-- An admin whose name is as long as `user add` lets it be, but for three bytes. -/
def longName : Str := List.replicate 60 'a'

/-- One admin whose name and key are in order but for the length of the name. -/
def longNamed : List (Clock × UserEvent) :=
  [({ now := 1000 }, .add true (longName ++ ("|" ++ carolKey ++ "|*!*@*|+a").toList) fun _ => 7)]

/-- The admin is published, and no login of it is let in. -/
theorem long_name_refused : ∃ s, longNamed.foldl userStep (some {}) = some s
    ∧ (∃ c ∈ buildCreds s, c.name = longName)
    ∧ openConsoleAs { now := 1001 } s 0 longName "192.0.2.1".toList = none ∧ ¬ LoginsAgree s := by
  have hone : ((longNamed.foldl userStep (some {})).any fun s =>
    decide ((∃ c ∈ buildCreds s, c.name = longName)
      ∧ (openConsoleAs { now := 1001 } s 0 longName "192.0.2.1".toList).isNone = true))
        = true := by decide +kernel
  obtain ⟨s, hrun, hs⟩ := (Option.any_eq_true _ _).mp hone
  obtain ⟨⟨c, hc, hname⟩, hnone⟩ := of_decide_eq_true hs
  refine ⟨s, hrun, ⟨c, hc, hname⟩, Option.isNone_iff_eq_none.mp hnone, fun hagree => ?_⟩
  obtain ⟨i, u, hopens⟩ := hagree.opens c hc
  have hlen := hopens.first.1
  rw [hname] at hlen
  exact absurd hlen (by decide)

end IrcHub.Proofs
