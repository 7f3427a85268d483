import IrcHub.Hub.IpAcl

/-!
# `IrcHub.Proofs.IpAcl`: access lists decide by prefix

`Denotes` says which network a text is: an address the strict reader takes, and a length.
`ipAclParse_eq_some_iff` turns the parser into it, so what is said about texts becomes a statement
about prefixes (`entry_eq_iff`). Entries of a list that was built change by change are entries of
some text (`runAcl_entries`), and such an entry takes the addresses that agree with it on its
first bits (`takes_iff`).

* `ListOk`, `allParsed_apply`: every entry of a list was parsed, and no two entries of a list are
  for one network and scope; each change keeps both
* `aclPush_spec`, `aclDrop_spec`: what an add and a removal do to a list
* `ipAclVerdict_eq_zero_iff`: the verdict against what the entries permit
* `ip_acl_by_prefix`: all of this over whatever changes the lists have seen

The address an entry is matched with is the text of an address, as the caller makes it from a
connection. The results speak of `Ipv4.format x` for every address `x`, and the one about the
scopes of any text at all.
-/

set_option autoImplicit false

namespace IrcHub.Proofs

open IrcHub.Hub
open Ipv4 (Addr prefixMask Agree)
open Str
open String (utf8Len)

/-! ### Patterns -/

/-- The network a text is: an address alone, or an address and the length of its prefix. The
length is written without leading zeros, and an address alone is one of 32 bits. -/
structure Denotes (text : Str) (n : Nat) (a : Addr) : Prop where
  short : n ≤ 32
  spelled : ∃ quad, Ipv4.parse quad = some a
    ∧ ((n = 32 ∧ text = quad) ∨ text = quad ++ '/' :: Nat.toDigits 10 n)

/-- A prefix length that has the right shape is written in digits without a zero in front. -/
theorem canonical_of_prefixShape {p : Str} (h : prefixShape p = true) :
    p ≠ [] ∧ (∀ c ∈ p, c.isDigit = true) ∧ (p.length = 1 ∨ p.head? ≠ some '0') := by
  unfold prefixShape at h
  split at h
  · simp [h]
  · simp only [Bool.and_eq_true, bne_iff_ne, ne_eq] at h
    simp [h]
  · exact absurd h (by decide)

/-- A prefix length is read from its one text, and is at most 32. -/
theorem aclPrefix_eq_some_iff {p : Str} {n : Nat} : aclPrefix p = some n ↔ n ≤ 32
    ∧ p = Nat.toDigits 10 n := by
  constructor
  · intro h
    unfold aclPrefix at h
    split at h
    · rename_i hok
      rw [Bool.and_eq_true, decide_eq_true_eq] at hok
      obtain rfl := Option.some.inj h
      obtain ⟨hne, hdigits, hlead⟩ := canonical_of_prefixShape hok.1
      exact ⟨hok.2, (Ipv4.toDigits_ofDigitChars hne hdigits hlead).symm⟩
    · exact absurd h (by simp)
  · rintro ⟨hmax, rfl⟩
    have hall : ∀ n < 33, aclPrefix (Nat.toDigits 10 n) = some n := by decide
    exact hall n (by omega)

/-- An address is written without a slash. -/
theorem slash_notMem_format (a : Addr) : '/' ∉ Ipv4.format a := by
  have hdigits : ∀ n, '/' ∉ Nat.toDigits 10 n :=
    fun n h => absurd (Nat.isDigit_of_mem_toDigits (by decide) (by decide) h) (by decide)
  unfold Ipv4.format
  simp [hdigits]

/-- The parts of a text are its network: the splitter finds the slash and the length, and leaves
it to the reader of addresses whether the rest is one. -/
theorem aclParts_denotes {input : Str} {n : Nat} {a : Addr} :
    (∃ addr, aclParts input = some (addr, n) ∧ Ipv4.parse addr = some a) ↔ Denotes input n a := by
  constructor
  · rintro ⟨addr, hparts, hparse⟩
    unfold aclParts at hparts
    split at hparts
    · obtain ⟨rfl, rfl⟩ := Prod.mk.inj (Option.some.inj hparts)
      exact ⟨Nat.le_refl 32, input, hparse, .inl ⟨rfl, rfl⟩⟩
    · rename_i addr' p hsplit
      obtain ⟨m, hm, heq⟩ := Option.map_eq_some_iff.mp hparts
      obtain ⟨rfl, rfl⟩ := Prod.mk.inj heq
      obtain ⟨hmax, rfl⟩ := aclPrefix_eq_some_iff.mp hm
      exact ⟨hmax, addr', hparse, .inr (splitOnce_eq_some_iff.mp hsplit).1⟩
  · rintro ⟨hmax, quad, hparse, htext⟩
    have hslash : '/' ∉ quad := by
      rw [Ipv4.parse_eq_some_iff.mp hparse]
      exact slash_notMem_format a
    refine ⟨quad, ?_, hparse⟩
    unfold aclParts
    rcases htext with ⟨rfl, rfl⟩ | rfl
    · rw [splitOnce_eq_none_iff.mpr hslash]
    · rw [splitOnce_eq_some_iff.mpr ⟨rfl, hslash⟩]
      show (aclPrefix (Nat.toDigits 10 n)).map _ = _
      rw [aclPrefix_eq_some_iff.mpr ⟨hmax, rfl⟩]
      rfl

/-- The entry of a network. Bits past the prefix are cleared, and the text is made again from what
is left. -/
def entry (n : Nat) (a : Addr) : IpAcl :=
  { pattern := aclText (a &&& prefixMask n) n, net := a &&& prefixMask n, mask := prefixMask n }

/-- A byte is written in at most three digits. -/
theorem length_toDigits_le_three {n : Nat} (h : n ≤ 255) : (Nat.toDigits 10 n).length ≤ 3 :=
  (Nat.length_toDigits_le_iff (by decide) (by decide)).mpr (by omega)

/-- The longest address takes 15 bytes. With a slash and two digits it fits the pattern of an
entry, so the buffer of the source never cuts one. -/
theorem utf8Len_format_le (a : Addr) : utf8Len (Ipv4.format a) ≤ 15 := by
  have hlt := a.isLt
  have hascii : ∀ c ∈ Ipv4.format a, c.toNat < 128 := by
    have hdigit : ∀ n, ∀ c ∈ Nat.toDigits 10 n, c.toNat < 128 := fun n c hc => by
      have := (Ipv4.toNat_of_isDigit (Nat.isDigit_of_mem_toDigits (by decide) (by decide) hc)).2
      omega
    have hdot : ('.').toNat < 128 := by decide
    intro c hc
    simp only [Ipv4.format, List.mem_append, List.mem_cons] at hc
    rcases hc with hc | rfl | hc | rfl | hc | rfl | hc
    · exact hdigit _ c hc
    · exact hdot
    · exact hdigit _ c hc
    · exact hdot
    · exact hdigit _ c hc
    · exact hdot
    · exact hdigit _ c hc
  rw [utf8Len_eq_length hascii]
  have h1 := length_toDigits_le_three (n := a.toNat / 16777216) (by omega)
  have h2 := length_toDigits_le_three (n := a.toNat / 65536 % 256) (by omega)
  have h3 := length_toDigits_le_three (n := a.toNat / 256 % 256) (by omega)
  have h4 := length_toDigits_le_three (n := a.toNat % 256) (by omega)
  simp only [Ipv4.format, List.length_append, List.length_cons]
  omega

/-- No pattern of a network is too long. -/
theorem Denotes.fits {text : Str} {n : Nat} {a : Addr} (h : Denotes text n a) :
    text ≠ [] ∧ utf8Len text < ipAclPatternMax := by
  obtain ⟨hmax, quad, hparse, htext⟩ := h
  obtain rfl := Ipv4.parse_eq_some_iff.mp hparse
  have hquad := utf8Len_format_le a
  have hne : Ipv4.format a ≠ [] := List.append_ne_nil_of_right_ne_nil _ (List.cons_ne_nil _ _)
  show text ≠ [] ∧ utf8Len text < 19
  rcases htext with ⟨-, rfl⟩ | rfl
  · exact ⟨hne, by omega⟩
  · have hdigits : ∀ n < 33, utf8Len ('/' :: Nat.toDigits 10 n) ≤ 3 := by decide
    have hlen := hdigits n (by omega)
    refine ⟨List.append_ne_nil_of_left_ne_nil hne _, ?_⟩
    rw [String.utf8Len_append]
    omega

/-- The canonical text is a text of the network. -/
theorem aclText_denotes {n : Nat} (hn : n ≤ 32) (net : Addr) : Denotes (aclText net n) n net := by
  refine ⟨hn, Ipv4.format net, Ipv4.parse_eq_some_iff.mpr rfl, ?_⟩
  unfold aclText
  by_cases h : n = 32
  · exact .inl ⟨h, if_pos h⟩
  · exact .inr (if_neg h)

/-- The parser takes exactly the texts of networks, and gives each its entry. -/
theorem ipAclParse_eq_some_iff {input : Str} {e : IpAcl} :
    ipAclParse input = some e ↔ ∃ n a, Denotes input n a ∧ e = entry n a := by
  have hbind : ∀ n a, n ≤ 32 →
    (({ net := a &&& prefixMask n, mask := prefixMask n } : IpAcl).setPattern
      (aclText (a &&& prefixMask n) n)) = some (entry n a) := by
    intro n a hn
    have hfits := (aclText_denotes hn (a &&& prefixMask n)).fits.2
    exact if_neg (by omega)
  constructor
  · intro h
    unfold ipAclParse at h
    split at h
    · exact absurd h (by simp)
    · simp only [Option.bind_eq_bind, Option.bind_eq_some_iff, Prod.exists] at h
      obtain ⟨addr, n, hparts, a, hparse, hset⟩ := h
      have hdenotes := aclParts_denotes.mp ⟨addr, hparts, hparse⟩
      rw [hbind n a hdenotes.short] at hset
      exact ⟨n, a, hdenotes, (Option.some.inj hset).symm⟩
  · rintro ⟨n, a, hdenotes, rfl⟩
    obtain ⟨hne, hlen⟩ := hdenotes.fits
    obtain ⟨addr, hparts, hparse⟩ := aclParts_denotes.mpr hdenotes
    unfold ipAclParse
    rw [if_neg]
    · simp only [Option.bind_eq_bind, hparts, hparse, Option.bind_some]
      exact hbind n a hdenotes.short
    · simp only [Bool.or_eq_true, List.isEmpty_iff, decide_eq_true_eq, not_or]
      exact ⟨hne, by omega⟩

/-- Entries are the same when they take the same addresses. -/
theorem entry_eq_iff {n m : Nat} (hn : n ≤ 32) (hm : m ≤ 32) {a b : Addr} :
    entry n a = entry m b ↔ ∀ x, Agree n x a ↔ Agree m x b := by
  constructor
  · intro h x
    have hnet : a &&& prefixMask n = b &&& prefixMask m := congrArg IpAcl.net h
    have hmask : prefixMask n = prefixMask m := congrArg IpAcl.mask h
    rw [← Ipv4.and_prefixMask_eq_iff hn, ← Ipv4.and_prefixMask_eq_iff hm, hnet, hmask]
  · intro h
    obtain ⟨rfl, hagree⟩ := Ipv4.agree_ext hn hm h
    unfold entry
    rw [(Ipv4.and_prefixMask_eq_iff hn).mpr hagree]

/-- The network of a text is one. -/
theorem entry_of_denotes {text : Str} {n m : Nat} {a b : Addr} (h : Denotes text n a)
    (h' : Denotes text m b) :
    entry n a = entry m b := by
  have hn := ipAclParse_eq_some_iff.mpr ⟨n, a, h, rfl⟩
  rw [ipAclParse_eq_some_iff.mpr ⟨m, b, h', rfl⟩] at hn
  exact (Option.some.inj hn).symm

/-- Two texts give one entry when they are the same network. -/
theorem ipAclParse_eq_iff {s t : Str} {n m : Nat} {a b : Addr} (hs : Denotes s n a)
    (ht : Denotes t m b) :
    ipAclParse s = ipAclParse t ↔ ∀ x, Agree n x a ↔ Agree m x b := by
  rw [ipAclParse_eq_some_iff.mpr ⟨n, a, hs, rfl⟩, ipAclParse_eq_some_iff.mpr ⟨m, b, ht, rfl⟩,
    Option.some.injEq]
  exact entry_eq_iff hs.short ht.short

/-- The pattern of an entry is read as the entry. -/
theorem ipAclParse_pattern {input : Str} {e : IpAcl} (h : ipAclParse input = some e) :
    ipAclParse e.pattern = some e := by
  obtain ⟨n, a, hdenotes, rfl⟩ := ipAclParse_eq_some_iff.mp h
  refine ipAclParse_eq_some_iff.mpr ⟨n, a &&& prefixMask n, aclText_denotes hdenotes.short _, ?_⟩
  unfold entry
  rw [Ipv4.and_prefixMask_idem]

/-! ### Lists built by changes -/

/-- An entry that was parsed, with the scope and the time it was given afterwards. -/
def Parsed (e : IpAcl) : Prop := ∃ n a, n ≤ 32
    ∧ e = { entry n a with added := e.added, console := e.console }

/-- The entry takes an address: they agree on the bits its pattern says. -/
def IpAcl.Takes (e : IpAcl) (x : Addr) : Prop := ∃ n a, Denotes e.pattern n a ∧ Agree n x a

/-- An entry takes an address in when masking gives its network. That is the test of the code. -/
theorem takes_iff {e : IpAcl} (h : Parsed e) (x : Addr) : IpAcl.Takes e x
    ↔ x &&& e.mask = e.net := by
  obtain ⟨n, a, hn, he⟩ := h
  have hpattern : Denotes e.pattern n (a &&& prefixMask n) := by
    rw [he]
    exact aclText_denotes hn _
  have hcompare : x &&& e.mask = e.net ↔ Agree n x a := by
    rw [he]
    exact Ipv4.and_prefixMask_eq_iff hn
  rw [hcompare]
  constructor
  · rintro ⟨m, b, hdenotes, hagree⟩
    have hsame := (entry_eq_iff hdenotes.short hn).mp (entry_of_denotes hdenotes hpattern) x
    exact (hsame.mp hagree).trans (Ipv4.agree_and_prefixMask hn a)
  · intro hagree
    exact ⟨n, a &&& prefixMask n, hpattern, hagree.trans (Ipv4.agree_and_prefixMask hn a).symm⟩

/-- Entries of one scope that take the same addresses. -/
def SameNetwork (e f : IpAcl) : Prop :=
  e.console = f.console ∧ ∀ x, IpAcl.Takes e x ↔ IpAcl.Takes f x

/-- The comparison of two entries is that of their scopes and of what they take in. So two
spellings of a network are one entry. -/
theorem sameNet_iff {e f : IpAcl} (he : Parsed e) (hf : Parsed f) :
    e.sameNet f = true ↔ SameNetwork e f := by
  unfold IpAcl.sameNet SameNetwork
  simp only [Bool.and_eq_true, beq_iff_eq]
  constructor
  · rintro ⟨⟨hnet, hmask⟩, hscope⟩
    refine ⟨hscope, fun x => ?_⟩
    rw [takes_iff he, takes_iff hf, hnet, hmask]
  · rintro ⟨hscope, htakes⟩
    obtain ⟨n, a, hn, heq⟩ := id he
    obtain ⟨m, b, hm, hfeq⟩ := id hf
    have hagree : ∀ x, Agree n x a ↔ Agree m x b := fun x => by
      have hx := htakes x
      rw [takes_iff he, takes_iff hf, heq, hfeq] at hx
      exact (Ipv4.and_prefixMask_eq_iff hn).symm.trans
        (hx.trans (Ipv4.and_prefixMask_eq_iff hm))
    have hsame : entry n a = entry m b := (entry_eq_iff hn hm).mpr hagree
    refine ⟨⟨?_, ?_⟩, hscope⟩
    · have hnet : (entry n a).net = (entry m b).net := congrArg IpAcl.net hsame
      rw [heq, hfeq]
      exact hnet
    · have hmask : (entry n a).mask = (entry m b).mask := congrArg IpAcl.mask hsame
      rw [heq, hfeq]
      exact hmask

/-- Being for one network and scope goes over a third entry. -/
theorem sameNet_trans {a b c : IpAcl} (hab : a.sameNet b = true) (hcb : c.sameNet b = true) :
    a.sameNet c = true := by
  unfold IpAcl.sameNet at *
  simp only [Bool.and_eq_true, beq_iff_eq] at *
  exact ⟨⟨hab.1.1.trans hcb.1.1.symm, hab.1.2.trans hcb.1.2.symm⟩, hab.2.trans hcb.2.symm⟩

/-- A list of parsed entries, no two of them for one network and scope. -/
structure ListOk (l : List IpAcl) : Prop where
  parsed : ∀ e ∈ l, Parsed e
  apart : l.Pairwise fun a b => a.sameNet b = false

/-- Entries that were parsed are all there are after one was added, and they stay apart: an entry
for a network that is there is refused. -/
theorem ListOk.push {l : List IpAcl} {e : IpAcl} (hl : ListOk l) (he : Parsed e) :
    ListOk (aclPush l e).1 := by
  unfold aclPush
  split
  · exact hl
  split
  · exact hl
  · next hnew _ =>
    refine ⟨fun x hx => ?_,
      List.pairwise_append.mpr ⟨hl.apart, List.pairwise_singleton _ _, fun x hx y hy => ?_⟩⟩
    · rcases List.mem_append.mp hx with hx | hx
      · exact hl.parsed x hx
      · rw [List.mem_singleton.mp hx]
        exact he
    · rw [List.mem_singleton.mp hy]
      by_contra h
      exact hnew (List.any_eq_true.mpr ⟨x, hx, Bool.not_eq_false _ ▸ h⟩)

/-- And after some were taken out. -/
theorem ListOk.drop {l : List IpAcl} (hl : ListOk l) (e : IpAcl) : ListOk (aclDrop l e).1 := by
  unfold aclDrop
  split
  · next i _ =>
    have hsub := List.eraseIdx_sublist l i
    exact ⟨fun x hx => hl.parsed x (hsub.subset hx), hl.apart.sublist hsub⟩
  · exact hl

/-- An entry that is read is one of a prefix, whatever its scope and time. -/
theorem parsed_of_ipAclParse {text : Str} {e : IpAcl} (h : ipAclParse text = some e)
    (console : Bool) (added : Int) :
    Parsed { e with console, added } := by
  obtain ⟨n, a, hdenotes, rfl⟩ := ipAclParse_eq_some_iff.mp h
  exact ⟨n, a, hdenotes.short, rfl⟩

/-- Both lists are in order. -/
def AllParsed (s : IpAcls) : Prop := ListOk s.allow ∧ ListOk s.deny

/-- One change of the lists. An add and a removal parse their text first, so nothing else gets
in. -/
theorem allParsed_apply {s : IpAcls} (h : AllParsed s) (op : AclOp) : AllParsed (op.apply s) := by
  cases op with
  | add list text console added =>
    cases he : ipAclParse text with
    | none =>
      rw [AclOp.apply, he]
      exact h
    | some e =>
      have hparsed := parsed_of_ipAclParse he console added
      rw [AclOp.apply, he]
      show AllParsed (ipAclAdd s list _).1
      unfold ipAclAdd
      split
      · exact ⟨h.1.push hparsed, h.2⟩
      split
      · exact ⟨h.1, h.2.push hparsed⟩
      · exact h
  | remove list text console =>
    cases he : ipAclParse text with
    | none =>
      rw [AclOp.apply, he]
      exact h
    | some e =>
      rw [AclOp.apply, he]
      show AllParsed (ipAclRemove s list _).1
      unfold ipAclRemove
      split
      · exact ⟨h.1.drop _, h.2⟩
      split
      · exact ⟨h.1, h.2.drop _⟩
      · exact h

/-- So both lists hold parsed entries only, after any changes. -/
theorem runAcl_entries (ops : List AclOp) : AllParsed (runAcl ops) := by
  have hfold : ∀ s, AllParsed s → AllParsed (ops.foldl AclOp.apply s) := by
    induction ops with
    | nil => exact fun s h => h
    | cons op ops ih => exact fun s h => ih _ (allParsed_apply h op)
  have hnil : ListOk [] := ⟨fun _ h => absurd h List.not_mem_nil, .nil⟩
  exact hfold {} ⟨hnil, hnil⟩

/-! ### What a change does -/

/-- The list of a letter. -/
def aclList (s : IpAcls) (list : Char) : List IpAcl := if list = 'w' then s.allow else s.deny

/-- An entry is refused where the list has one for its network and scope, or has no room. Else it
is added at the end. The duplicate is looked for first, so a full list still says `duplicate`. -/
theorem aclPush_spec {l : List IpAcl} {e : IpAcl} (hl : ListOk l) (he : Parsed e) :
    ((aclPush l e).2 = .duplicate ↔ ∃ x ∈ l, SameNetwork x e)
      ∧ ((aclPush l e).2 = .full ↔ (¬∃ x ∈ l, SameNetwork x e) ∧ maxIpAclEntries ≤ l.length)
      ∧ ((aclPush l e).2 = .added → (aclPush l e).1 = l ++ [e])
      ∧ ((aclPush l e).2 ≠ .added → (aclPush l e).1 = l) := by
  have hany : (l.any (·.sameNet e)) = true ↔ ∃ x ∈ l, SameNetwork x e := by
    rw [List.any_eq_true]
    exact exists_congr fun x => and_congr_right fun hx => sameNet_iff (hl.parsed x hx) he
  unfold aclPush
  by_cases hdup : (l.any (·.sameNet e)) = true
  · rw [if_pos hdup]
    have hyes := hany.mp hdup
    simp [hyes]
  · rw [if_neg hdup]
    have hno := hany.not.mp hdup
    by_cases hfull : maxIpAclEntries ≤ l.length
    · simp [hno, hfull]
    · simp [hno, hfull]

/-- A removal takes out the entry for the network and scope, if there is one. There is at most
one, since the list is `ListOk`. -/
theorem aclDrop_spec {l : List IpAcl} {e : IpAcl} (hl : ListOk l) (he : Parsed e) :
    ((aclDrop l e).2 = true ↔ ∃ x ∈ l, SameNetwork x e)
      ∧ ∀ x, x ∈ (aclDrop l e).1 ↔ x ∈ l ∧ ¬SameNetwork x e := by
  have hiff : ∀ x ∈ l, (x.sameNet e = true ↔ SameNetwork x e) :=
    fun x hx => sameNet_iff (hl.parsed x hx) he
  unfold aclDrop
  cases hfind : l.findIdx? (·.sameNet e) with
  | none =>
    have hnone : ∀ x ∈ l, ¬SameNetwork x e := fun x hx hsame =>
      absurd ((hiff x hx).mpr hsame)
        (Bool.eq_false_iff.mp (List.findIdx?_eq_none_iff.mp hfind x hx))
    refine ⟨⟨fun hno => (nomatch hno), fun ⟨x, hx, hsame⟩ => absurd hsame (hnone x hx)⟩,
      fun x => ?_⟩
    exact ⟨fun hx => ⟨hx, hnone x hx⟩, fun hx => hx.1⟩
  | some i =>
    obtain ⟨hi, hat, -⟩ := List.findIdx?_eq_some_iff_getElem.mp hfind
    have hsplit : l = l.take i ++ l[i] :: l.drop (i + 1) := by
      rw [List.getElem_cons_drop, List.take_append_drop]
    have hrest : l.eraseIdx i = l.take i ++ l.drop (i + 1) := List.eraseIdx_eq_take_drop_succ l i
    have hmem : l[i] ∈ l := List.getElem_mem hi
    dsimp only
    rw [hrest]
    generalize l.take i = pre, l.drop (i + 1) = post, l[i] = y at hsplit hat hmem
    have hapart := hl.apart
    rw [hsplit, List.pairwise_append, List.pairwise_cons] at hapart
    obtain ⟨-, ⟨hpost, -⟩, hpre⟩ := hapart
    refine ⟨iff_of_true rfl ⟨y, hmem, (hiff y hmem).mp hat⟩, fun x => ?_⟩
    constructor
    · intro hx
      have hin : x ∈ l := by
        rw [hsplit]
        rcases List.mem_append.mp hx with hx | hx
        · exact List.mem_append_left _ hx
        · exact List.mem_append_right _ (List.mem_cons_of_mem _ hx)
      refine ⟨hin, fun hsame => ?_⟩
      have hxe := (hiff x hin).mpr hsame
      rcases List.mem_append.mp hx with hx | hx
      · exact absurd (sameNet_trans hxe hat)
          (Bool.eq_false_iff.mp (hpre x hx y List.mem_cons_self))
      · exact absurd (sameNet_trans hat hxe) (Bool.eq_false_iff.mp (hpost x hx))
    · rintro ⟨hin, hother⟩
      rw [hsplit] at hin
      rcases List.mem_append.mp hin with hx | hx
      · exact List.mem_append_left _ hx
      · rcases List.mem_cons.mp hx with rfl | hx
        · exact absurd ((hiff x hmem).mp hat) hother
        · exact List.mem_append_right _ hx

/-- What `acl add` and `acl del` of an entry do to the lists: the answers, the list that is named,
and the other list, which stays as it is. -/
structure Changes (s : IpAcls) (list : Char) (e : IpAcl) : Prop where
  duplicate : (ipAclAdd s list e).2 = .duplicate ↔ ∃ x ∈ aclList s list, SameNetwork x e
  full : (ipAclAdd s list e).2 = .full ↔
    (¬∃ x ∈ aclList s list, SameNetwork x e) ∧ maxIpAclEntries ≤ (aclList s list).length
  added : (ipAclAdd s list e).2 = .added →
    aclList (ipAclAdd s list e).1 list = aclList s list ++ [e]
  refused : (ipAclAdd s list e).2 ≠ .added → (ipAclAdd s list e).1 = s
  found : (ipAclRemove s list e).2 = true ↔ ∃ x ∈ aclList s list, SameNetwork x e
  removed : ∀ x, x ∈ aclList (ipAclRemove s list e).1 list ↔
    x ∈ aclList s list ∧ ¬SameNetwork x e
  /-- The other list stays. -/
  other : ∀ c, c = 'w' ∨ c = 'x' → c ≠ list →
    aclList (ipAclAdd s list e).1 c = aclList s c
      ∧ aclList (ipAclRemove s list e).1 c = aclList s c

/-- Both letters name a list that changes so. -/
theorem changes_of_ok {s : IpAcls} (h : AllParsed s) {list : Char}
    (hlist : list = 'w' ∨ list = 'x') {e : IpAcl} (he : Parsed e) : Changes s list e := by
  have hxw : ('x' : Char) ≠ 'w' := by decide
  rcases hlist with rfl | rfl
  · obtain ⟨hdup, hfull, hadd, hsame⟩ := aclPush_spec h.1 he
    obtain ⟨hfound, hleft⟩ := aclDrop_spec h.1 he
    refine ⟨hdup, hfull, hadd, fun hno => ?_, hfound, hleft, ?_⟩
    · show ({ s with allow := (aclPush s.allow e).1 } : IpAcls) = s
      rw [hsame hno]
    · rintro c (rfl | rfl) hne
      · exact absurd rfl hne
      · exact ⟨rfl, rfl⟩
  · obtain ⟨hdup, hfull, hadd, hsame⟩ := aclPush_spec h.2 he
    obtain ⟨hfound, hleft⟩ := aclDrop_spec h.2 he
    refine ⟨hdup, hfull, hadd, fun hno => ?_, hfound, hleft, ?_⟩
    · show ({ s with deny := (aclPush s.deny e).1 } : IpAcls) = s
      rw [hsame hno]
    · rintro c (rfl | rfl) hne
      · exact ⟨rfl, rfl⟩
      · exact absurd rfl hne

/-! ### The decision -/

/-- No deny entry of the scope takes the address, and where the allow list of the scope is not
empty, one of its entries does. -/
def Permitted (s : IpAcls) (console : Bool) (x : Addr) : Prop :=
  (∀ e ∈ s.deny, e.console = console → ¬IpAcl.Takes e x)
    ∧ ((∃ e ∈ s.allow, e.console = console) → ∃ e ∈ s.allow, e.console = console
    ∧ IpAcl.Takes e x)

/-- An address matches a list when an entry of the scope takes it in. -/
theorem ipAclMatch_iff {l : List IpAcl} (hl : ∀ e ∈ l, Parsed e) {x : Addr} {console : Bool} :
    ipAclMatch l x console = true ↔ ∃ e ∈ l, e.console = console ∧ IpAcl.Takes e x := by
  unfold ipAclMatch
  rw [List.any_eq_true]
  constructor
  · rintro ⟨e, he, hmatch⟩
    rw [Bool.and_eq_true, beq_iff_eq, beq_iff_eq] at hmatch
    exact ⟨e, he, hmatch.1, (takes_iff (hl e he) x).mpr hmatch.2⟩
  · rintro ⟨e, he, hscope, htakes⟩
    refine ⟨e, he, ?_⟩
    rw [Bool.and_eq_true, beq_iff_eq, beq_iff_eq]
    exact ⟨hscope, (takes_iff (hl e he) x).mp htakes⟩

/-- A list has entries of a scope when there is one. -/
theorem ipAclScopeCount_pos {l : List IpAcl} {console : Bool} :
    0 < ipAclScopeCount l console ↔ ∃ e ∈ l, e.console = console := by
  unfold ipAclScopeCount
  rw [List.countP_pos_iff]
  simp only [beq_iff_eq]

/-- The verdict is zero exactly where the address is permitted. The code looks at the deny list
first and counts the allow list of the scope only if that has no match. -/
theorem ipAclVerdict_eq_zero_iff {s : IpAcls} (h : AllParsed s) (console : Bool) (x : Addr) :
    ipAclVerdict s (Ipv4.format x) console = 0 ↔ Permitted s console x := by
  have hparse : Ipv4.parse (Ipv4.format x) = some x := Ipv4.parse_eq_some_iff.mpr rfl
  have hdeny : (0 < ipAclScopeCount s.deny console && ipAclMatch s.deny x console) = true
      ↔ ∃ e ∈ s.deny, e.console = console ∧ IpAcl.Takes e x := by
    rw [Bool.and_eq_true, decide_eq_true_eq, ipAclScopeCount_pos, ipAclMatch_iff h.2.parsed]
    exact ⟨fun hboth => hboth.2, fun ⟨e, he, hscope, htakes⟩ =>
      ⟨⟨e, he, hscope⟩, e, he, hscope, htakes⟩⟩
  have hallow : (0 < ipAclScopeCount s.allow console && !ipAclMatch s.allow x console) = true
      ↔ (∃ e ∈ s.allow, e.console = console) ∧ ¬∃ e ∈ s.allow, e.console = console
        ∧ IpAcl.Takes e x := by
    rw [Bool.and_eq_true, decide_eq_true_eq, ipAclScopeCount_pos, Bool.not_eq_true',
      Bool.eq_false_iff, ne_eq, ipAclMatch_iff h.1.parsed]
  have hverdict : ipAclVerdict s (Ipv4.format x) console
      = if (0 < ipAclScopeCount s.deny console && ipAclMatch s.deny x console) = true then 1
        else if (0 < ipAclScopeCount s.allow console && !ipAclMatch s.allow x console) = true
          then 2 else 0 := by
    unfold ipAclVerdict
    simp only [hparse, Option.isNone_some, Bool.false_or, Option.getD_some]
  rw [hverdict]
  by_cases hin : ∃ e ∈ s.deny, e.console = console ∧ IpAcl.Takes e x
  · rw [if_pos (hdeny.mpr hin)]
    obtain ⟨e, he, hscope, htakes⟩ := hin
    exact ⟨fun hone => absurd hone (by decide), fun hperm => absurd htakes (hperm.1 e he hscope)⟩
  · rw [if_neg (hdeny.not.mpr hin)]
    by_cases hout : (∃ e ∈ s.allow, e.console = console) ∧ ¬∃ e ∈ s.allow, e.console = console
      ∧ IpAcl.Takes e x
    · rw [if_pos (hallow.mpr hout)]
      exact ⟨fun htwo => absurd htwo (by decide), fun hperm => absurd (hperm.2 hout.1) hout.2⟩
    · rw [if_neg (hallow.not.mpr hout)]
      refine ⟨fun _ => ⟨fun e he hscope htakes => hin ⟨e, he, hscope, htakes⟩, fun hsome => ?_⟩,
        fun _ => rfl⟩
      by_contra hno
      exact hout ⟨hsome, hno⟩

/-- The entries of one scope, in both lists. -/
def scopeOf (s : IpAcls) (console : Bool) : IpAcls where
  allow := s.allow.filter fun e => e.console == console
  deny := s.deny.filter fun e => e.console == console

/-- Entries of the other scope have no influence, whatever the text of the address. -/
theorem ipAclVerdict_scopeOf (s : IpAcls) (ip : Str) (console : Bool) :
    ipAclVerdict (scopeOf s console) ip console = ipAclVerdict s ip console := by
  have hcount : ∀ l, ipAclScopeCount (l.filter fun e => e.console == console) console
    = ipAclScopeCount l console := by
    intro l
    unfold ipAclScopeCount
    rw [List.countP_filter]
    simp only [Bool.and_self]
  have hmatch : ∀ l x, ipAclMatch (l.filter fun e => e.console == console) x console
    = ipAclMatch l x console := by
    intro l x
    unfold ipAclMatch
    rw [List.any_filter]
    congr 1
    funext e
    cases e.console == console <;> rfl
  unfold ipAclVerdict scopeOf
  simp only [hcount, hmatch]

/-- Access lists decide by prefix. A text is an entry exactly when it denotes a network, the
canonical text of an entry is read as the entry, and two texts are one entry exactly when they
denote one network. Whatever changes the lists have seen, the address is permitted by the entries
of its scope that take it, and each further change adds or takes out what it should. -/
theorem ip_acl_by_prefix :
    (∀ input, (ipAclParse input).isSome = true ↔ ∃ n a, Denotes input n a)
    ∧ (∀ input e, ipAclParse input = some e → ipAclParse e.pattern = some e)
    ∧ (∀ s n a t m b, Denotes s n a → Denotes t m b →
        (ipAclParse s = ipAclParse t ↔ ∀ x, Agree n x a ↔ Agree m x b))
    ∧ (∀ ops x, (ipAclPermits (runAcl ops) (Ipv4.format x) = true
      ↔ Permitted (runAcl ops) false x)
        ∧ (ipAclPermitsConsole (runAcl ops) (Ipv4.format x) = true
          ↔ Permitted (runAcl ops) true x))
    ∧ (∀ s ip console, ipAclVerdict (scopeOf s console) ip console
      = ipAclVerdict s ip console)
    ∧ ∀ ops list text e console added, list = 'w' ∨ list = 'x' → ipAclParse text = some e →
      Changes (runAcl ops) list { e with console, added } := by
  refine ⟨fun input => ?_, fun input e h => ipAclParse_pattern h, fun s n a t m b hs ht =>
    ipAclParse_eq_iff hs ht, fun ops x => ?_, ipAclVerdict_scopeOf,
    fun ops list text e console added hlist he =>
      changes_of_ok (runAcl_entries ops) hlist (parsed_of_ipAclParse he console added)⟩
  · constructor
    · intro h
      obtain ⟨e, he⟩ := Option.isSome_iff_exists.mp h
      obtain ⟨n, a, hdenotes, -⟩ := ipAclParse_eq_some_iff.mp he
      exact ⟨n, a, hdenotes⟩
    · rintro ⟨n, a, hdenotes⟩
      exact Option.isSome_iff_exists.mpr ⟨_, ipAclParse_eq_some_iff.mpr ⟨n, a, hdenotes, rfl⟩⟩
  · have hentries := runAcl_entries ops
    unfold ipAclPermits ipAclPermitsConsole
    rw [beq_iff_eq, beq_iff_eq]
    exact ⟨ipAclVerdict_eq_zero_iff hentries false x, ipAclVerdict_eq_zero_iff hentries true x⟩

example : (ipAclParse "10.1.2.3/8".toList).map (·.pattern) = some "10.0.0.0/8".toList := by decide

end IrcHub.Proofs
