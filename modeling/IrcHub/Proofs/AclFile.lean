import IrcHub.Hub.AclFile
import IrcHub.Proofs.Decimal
import IrcHub.Proofs.IpAcl
import IrcHub.Proofs.Sync.Fits

/-!
# `IrcHub.Proofs.AclFile`: the access lists come back as they were saved

A restart must not change who may connect. The lists are written as lines of the config and read
back from them, and the reader drops what it cannot read, what is there already and what there is
no room for. The results here say that it drops nothing that the hub itself wrote.

A list of a hub keeps four things (`ListKept`): its entries are entries of some pattern, their
times are 64-bit numbers, no two are for one network, prefix and scope, and there is room for all
of them.

* `aclsKept_load`, `aclsKept_apply`: the config's lines and the commands of the admins keep them,
  whatever the lines say
* `loadAclLine_aclLine`: the line of such an entry is read back as the entry, and may stay as it
  is
* `load_list`: so are the lines of a whole list, one after the other
* `acls_restart`: what any config and any later changes have left comes back

The four are what a line needs to be taken: the text of the entry parses to the entry again, its
time is read back, and the list that was read so far has neither the network nor too many entries.
-/

set_option autoImplicit false

namespace IrcHub.Proofs

open IrcHub.Hub Str
open Ipv4 (Addr prefixMask)

/-! ### What the lists keep -/

/-- An entry of a pattern, added at a 64-bit time. -/
def EntryKept (e : IpAcl) : Prop := Parsed e ∧ InI64 e.added

structure ListKept (l : List IpAcl) : Prop where
  entries : ∀ e ∈ l, EntryKept e
  apart : l.Pairwise fun a b => a.sameNet b = false
  room : l.length ≤ maxIpAclEntries

structure AclsKept (s : IpAcls) : Prop where
  allow : ListKept s.allow
  deny : ListKept s.deny

/-- The empty list. -/
theorem listKept_nil : ListKept [] := ⟨fun _ h => absurd h List.not_mem_nil, .nil, Nat.zero_le _⟩

/-- What the lists keep is more than being in order. -/
theorem ListKept.ok {l : List IpAcl} (hl : ListKept l) : ListOk l :=
  ⟨fun e he => (hl.entries e he).1, hl.apart⟩

/-- An entry is added, unless its network is there already or the list is full. In both of these
cases the list stays, and else the check that was made is the clause to be kept. -/
theorem ListKept.push {l : List IpAcl} {e : IpAcl} (hl : ListKept l) (he : EntryKept e) :
    ListKept (aclPush l e).1 := by
  refine ⟨?_, (hl.ok.push he.1).apart, ?_⟩
  · unfold aclPush
    split
    · exact hl.entries
    split
    · exact hl.entries
    · intro x hx
      rcases List.mem_append.mp hx with hx | hx
      · exact hl.entries x hx
      · rw [List.mem_singleton.mp hx]
        exact he
  · unfold aclPush
    split
    · exact hl.room
    split
    · exact hl.room
    · rw [List.length_append, List.length_singleton]
      omega

/-- The entries of a network are taken out. -/
theorem ListKept.drop {l : List IpAcl} (hl : ListKept l) (e : IpAcl) :
    ListKept (aclDrop l e).1 := by
  unfold aclDrop
  split
  · next i _ =>
    have hsub := List.eraseIdx_sublist l i
    exact ⟨fun x hx => hl.entries x (hsub.subset hx), hl.apart.sublist hsub,
      Nat.le_trans hsub.length_le hl.room⟩
  · exact hl

/-- The list that is named is added to, the other left. -/
theorem AclsKept.add {s : IpAcls} (hs : AclsKept s) (list : Char) {e : IpAcl} (he : EntryKept e) :
    AclsKept (ipAclAdd s list e).1 := by
  unfold ipAclAdd
  split
  · exact ⟨hs.allow.push he, hs.deny⟩
  split
  · exact ⟨hs.allow, hs.deny.push he⟩
  · exact hs

/-- The list that is named is taken from. -/
theorem AclsKept.remove {s : IpAcls} (hs : AclsKept s) (list : Char) (e : IpAcl) :
    AclsKept (ipAclRemove s list e).1 := by
  unfold ipAclRemove
  split
  · exact ⟨hs.allow.drop e, hs.deny⟩
  split
  · exact ⟨hs.allow, hs.deny.drop e⟩
  · exact hs

/-- A change made at a 64-bit time. -/
def AclOp.Timed : AclOp → Prop
  | .add _ _ _ added => InI64 added
  | .remove _ _ _ => True

/-- One change. An entry comes with the time it was added, which must be one that can be written.
-/
theorem aclsKept_apply {s : IpAcls} (hs : AclsKept s) {op : AclOp} (hop : AclOp.Timed op) :
    AclsKept (op.apply s) := by
  cases op with
  | add list text console added =>
    rw [AclOp.apply]
    cases he : ipAclParse text with
    | none => exact hs
    | some e => exact hs.add list ⟨parsed_of_ipAclParse he console added, hop⟩
  | remove list text console =>
    rw [AclOp.apply]
    cases ipAclParse text with
    | none => exact hs
    | some e => exact hs.remove list _

/-- The body of a line, whatever its text. A pattern that parses gives an entry of that pattern,
and one that does not changes nothing. -/
theorem aclsKept_loadIpAclLine {s : IpAcls} (hs : AclsKept s) (list : Char) (v : Str)
    (console : Bool) :
    AclsKept (loadIpAclLine s list v console).1 := by
  unfold loadIpAclLine
  cases rsplitOnce '|' v with
  | none => exact hs
  | some p =>
    obtain ⟨head, stamp⟩ := p
    dsimp only
    split
    · exact hs
    · split
      · exact hs
      · next e he =>
        have hparsed := parsed_of_ipAclParse he console (atoll stamp)
        exact hs.add list ⟨hparsed, inI64_atoll stamp⟩

/-- Any line of a file. The lines that are about something else leave the lists alone. -/
theorem aclsKept_loadAclLine {p : IpAcls × Nat} (hp : AclsKept p.1) (line : Str) :
    AclsKept (loadAclLine p line).1 := by
  unfold loadAclLine
  cases configLine line with
  | none => exact hp
  | some q =>
    obtain ⟨k, v⟩ := q
    dsimp only
    split
    · split
      · split
        · exact aclsKept_loadIpAclLine hp _ _ _
        · exact hp
      · exact hp
    split
    · exact aclsKept_loadIpAclLine hp _ _ _
    · exact hp

/-- Whatever the file holds, what is loaded can be written and read back. -/
theorem aclsKept_load (lines : List Str) : AclsKept (loadAcls lines).1 := by
  have hfold : ∀ p : IpAcls × Nat, AclsKept p.1 → AclsKept (lines.foldl loadAclLine p).1 := by
    induction lines with
    | nil => exact fun _ h => h
    | cons line lines ih => exact fun p h => ih _ (aclsKept_loadAclLine h line)
  exact hfold ({}, 0) ⟨listKept_nil, listKept_nil⟩

/-- And so can what later changes make of it, by induction on them. -/
theorem aclsKept_foldl {ops : List AclOp} (hops : ∀ op ∈ ops, AclOp.Timed op) {s : IpAcls}
    (hs : AclsKept s) :
    AclsKept (ops.foldl AclOp.apply s) := by
  induction ops generalizing s with
  | nil => exact hs
  | cons op ops ih =>
    exact ih (fun x hx => hops x (List.mem_cons_of_mem _ hx))
      (aclsKept_apply hs (hops op List.mem_cons_self))

/-! ### One line there and back -/

/-- An address is written without a bar. -/
theorem bar_notMem_format (a : Addr) : '|' ∉ Ipv4.format a := by
  have hdigits : ∀ n, '|' ∉ Nat.toDigits 10 n :=
    fun n h => absurd (Nat.isDigit_of_mem_toDigits (by decide) (by decide) h) (by decide)
  unfold Ipv4.format
  simp [hdigits]

/-- So is an entry. -/
theorem Parsed.bar_notMem {e : IpAcl} (h : Parsed e) : '|' ∉ e.pattern := by
  obtain ⟨n, a, -, he⟩ := h
  have hpattern : e.pattern = aclText (a &&& prefixMask n) n := by
    rw [he]
    rfl
  rw [hpattern]
  unfold aclText
  split
  · exact bar_notMem_format _
  · intro hmem
    rcases List.mem_append.mp hmem with h | h
    · exact bar_notMem_format _ h
    · rcases List.mem_cons.mp h with h | h
      · exact absurd h (by decide)
      · exact absurd (Nat.isDigit_of_mem_toDigits (by decide) (by decide) h) (by decide)

/-- The pattern of an entry gives the entry, but for its scope and time. -/
theorem Parsed.parse {e : IpAcl} (h : Parsed e) :
    ∃ x, ipAclParse e.pattern = some x
      ∧ { x with added := e.added, console := e.console } = e := by
  obtain ⟨n, a, hn, he⟩ := h
  have hparse : ipAclParse (entry n a).pattern = some (entry n a) :=
    @ipAclParse_pattern (aclText a n) _
      (ipAclParse_eq_some_iff.mpr ⟨n, a, aclText_denotes hn a, rfl⟩)
  have hpattern : e.pattern = (entry n a).pattern := by
    rw [he]
  exact ⟨entry n a, hpattern ▸ hparse, he.symm⟩

/-- The body of a written line is read as its entry. It is written without an op, so what stands
before the time is the pattern alone. -/
theorem loadIpAclLine_body {s : IpAcls} {list : Char} {e : IpAcl} (he : EntryKept e) :
    loadIpAclLine s list (e.pattern ++ '|' :: ofInt e.added) e.console
      = ((ipAclAdd s list e).1, (ipAclAdd s list e).2 == .added) := by
  obtain ⟨x, hx, hxe⟩ := he.1.parse
  have hcut : rsplitOnce '|' (e.pattern ++ '|' :: ofInt e.added) = some
    (e.pattern, ofInt e.added) :=
    rsplitOnce_eq_some_iff.mpr ⟨rfl, bar_notMem_ofInt _⟩
  have hplain : aclHead e.pattern = (e.pattern, none) := by
    unfold aclHead
    rw [splitOnce_eq_none_iff.mpr he.1.bar_notMem]
  have hstamp : atoll (ofInt e.added) = e.added := atoll_ofInt_i64 he.2.1 he.2.2
  have hsame : (e.pattern == x.pattern) = true :=
    beq_iff_eq.mpr (congrArg (fun y : IpAcl => y.pattern) hxe).symm
  unfold loadIpAclLine
  simp only [hcut, hplain, Option.any_none, Bool.false_eq_true, if_false, hx, hstamp, hxe, hsame,
    Option.isNone_none, Bool.and_true]

/-- A written line is read as its entry, and stays as it is where the list takes the entry. `hadd`
says that it does; the count of lines to be written again is then the one before. -/
theorem loadAclLine_aclLine {s : IpAcls} {n : Nat} {list : Char}
    (hlist : list = 'w' ∨ list = 'x') {e : IpAcl} (he : EntryKept e)
    (hadd : (ipAclAdd s list e).2 = .added) :
    loadAclLine (s, n) (aclLine list e) = ((ipAclAdd s list e).1, n) := by
  have hbar : '|' ∉ aclKey list e.console := by
    unfold aclKey
    rcases hlist with rfl | rfl <;> cases e.console <;> decide
  have hkey : configLine (aclLine list e) = some
    (aclKey list e.console, e.pattern ++ '|' :: ofInt e.added) := by
    unfold configLine aclLine
    rw [splitOnce_eq_some_iff.mpr ⟨rfl, hbar⟩]
  have hbody := @loadIpAclLine_body s list e he
  unfold loadAclLine
  rw [hkey]
  dsimp only
  -- the key gives back the list and the scope
  have hread : (aclKey list e.console).headD 'w' = list
    ∧ ((aclKey list e.console).length == 2) = e.console := by
    unfold aclKey
    cases e.console <;> exact ⟨rfl, rfl⟩
  rw [hread.1, hread.2, hbody, hadd]
  have hold : aclKey list e.console ≠ ['g'] := by
    unfold aclKey
    rcases hlist with rfl | rfl <;> cases e.console <;> decide
  have hown : aclKey list e.console = ['w'] ∨ aclKey list e.console = ['x']
    ∨ aclKey list e.console = ['w', 'c']
      ∨ aclKey list e.console = ['x', 'c'] := by
    unfold aclKey
    rcases hlist with rfl | rfl <;> cases e.console <;> decide
  rw [if_neg hold, if_pos hown]
  rfl

/-! ### The whole file -/

/-- A list takes an entry for another network while it has room. -/
theorem aclPush_new {l : List IpAcl} {e : IpAcl} (hnew : ∀ x ∈ l, x.sameNet e = false)
    (hroom : l.length < maxIpAclEntries) : aclPush l e = (l ++ [e], .added) := by
  have hany : l.any (·.sameNet e) = false := List.any_eq_false.mpr fun x hx =>
    Bool.eq_false_iff.mp (hnew x hx)
  unfold aclPush
  rw [hany, if_neg Bool.false_ne_true, if_neg (by omega)]

/-- Reading the lines of the rest of a list goes on with the list. `put` and `hadd` are how one of
the two lists stands in the state, so the proof is made once for both. The induction is on the
rest. -/
theorem load_list {list : Char} (hlist : list = 'w' ∨ list = 'x') {put : List IpAcl → IpAcls}
    (hadd : ∀ l e, ipAclAdd (put l) list e = (put (aclPush l e).1, (aclPush l e).2)) {n : Nat}
    (done rest : List IpAcl) (hkept : ListKept (done ++ rest)) :
    (rest.map (aclLine list)).foldl loadAclLine (put done, n) = (put (done ++ rest), n) := by
  induction rest generalizing done with
  | nil => rw [List.append_nil, List.map_nil, List.foldl_nil]
  | cons e rest ih =>
    have hentry : EntryKept e := hkept.entries e (List.mem_append_right _ List.mem_cons_self)
    have hnew : ∀ x ∈ done, x.sameNet e = false :=
      fun x hx => (List.pairwise_append.mp hkept.apart).2.2 x hx e List.mem_cons_self
    have hroom : done.length < maxIpAclEntries := by
      have := hkept.room
      rw [List.length_append, List.length_cons] at this
      omega
    have hpush := aclPush_new hnew hroom
    have hstep := @loadAclLine_aclLine (put done) n list hlist e hentry (by rw [hadd, hpush])
    rw [List.map_cons, List.foldl_cons, hstep, hadd, hpush]
    have happend : done ++ e :: rest = (done ++ [e]) ++ rest := by
      rw [List.append_assoc, List.singleton_append]
    rw [happend] at hkept ⊢
    exact ih (done ++ [e]) hkept

/-- What any config and any changes made since have left in the lists comes back from the lines it
is saved in, and every one of them stays as it is. `hops`: the changes are made at 64-bit
times. -/
theorem acls_restart (lines : List Str) (ops : List AclOp) (hops : ∀ op ∈ ops, AclOp.Timed op) :
    loadAcls (aclLines (ops.foldl AclOp.apply (loadAcls lines).1))
      = (ops.foldl AclOp.apply (loadAcls lines).1, 0) := by
  have hkept := aclsKept_foldl hops (aclsKept_load lines)
  generalize ops.foldl AclOp.apply (loadAcls lines).1 = s at hkept ⊢
  unfold loadAcls aclLines
  rw [List.foldl_append]
  have hallow := @load_list 'w' (.inl rfl) (fun l => { allow := l }) (fun _ _ => rfl) 0
    [] s.allow hkept.allow
  have hdeny := @load_list 'x' (.inr rfl) (fun l => { allow := s.allow, deny := l })
    (fun _ _ => rfl) 0 [] s.deny hkept.deny
  rw [List.nil_append] at hallow hdeny
  rw [hallow]
  exact hdeny

/-- A file in the older layout with an entry twice, and an entry added since. -/
theorem acls_restart_older :
    let lines := ["g|w|10.1.2.3/8|1700000000".toList, "w|10.0.0.0/8|1700000001".toList]
    let ops := [AclOp.add 'x' "192.0.2.7".toList true 1700000002]
    loadAcls (aclLines (ops.foldl AclOp.apply (loadAcls lines).1))
      = (ops.foldl AclOp.apply (loadAcls lines).1, 0) :=
  acls_restart _ _ fun op hop => by
    rw [List.mem_singleton.mp hop]
    exact (by decide : InI64 1700000002)

end IrcHub.Proofs
