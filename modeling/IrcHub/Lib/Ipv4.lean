import IrcHub.Lib.Str
import Mathlib.Data.List.Induction

/-!
# `IrcHub.Lib.Ipv4`: addresses, their text, and prefixes

Addresses of 32 bits, their text, and prefixes. `Addr` is a bit vector with the first octet in the
highest bits.

* `parse`: the strict reader of a dotted quad, four decimal numbers up to 255 without leading
  zeros. It reads exactly what `format` writes (`parse_eq_some_iff`), so the text of an address is
  unique and texts such as `010.0.0.1`, which readers disagree about, are refused.
* `Agree`: two addresses agree on their first bits. It is an equivalence for each number of bits.
* `prefixMask`, `and_prefixMask_eq_iff`: masking compares just these bits.
* `agree_ext`: a prefix and its length can be told from the addresses they take, so two lists of
  prefixes with the same texts take the same addresses and the other way round.

The strict reader goes octet by octet. Each octet is a decimal number whose text is the shortest
one, which `toDigits_ofDigitChars` says for numbers of any size.
-/

set_option autoImplicit false

namespace Ipv4

open Str

/-- An address, its first octet in the highest bits. -/
abbrev Addr := BitVec 32

/-! ### Decimal numbers -/

/-- The decimal digits are 48 to 57. -/
theorem toNat_of_isDigit {c : Char} (h : c.isDigit = true) : 48 ≤ c.toNat ∧ c.toNat ≤ 57 := by
  simp only [Char.isDigit, Bool.and_eq_true, decide_eq_true_eq, UInt32.le_iff_toNat_le, ge_iff_le]
    at h
  exact h

/-- A digit is written back as it was read. -/
theorem digitChar_of_isDigit {c : Char} (h : c.isDigit = true) :
    Nat.digitChar (c.toNat - 48) = c := by
  obtain ⟨hlo, hhi⟩ := toNat_of_isDigit h
  have hall : ∀ n < 10, (Nat.digitChar n).toNat = n + 48 := by decide
  refine Char.ext (UInt32.toNat_inj.mp ?_)
  have := hall (c.toNat - 48) (by omega)
  show (Nat.digitChar (c.toNat - 48)).toNat = c.toNat
  omega

/-- Digits without a leading zero are what is written for their value. `hlead` allows the single
digit zero. The induction is on the digits from the right, as the value is built up. -/
theorem toDigits_ofDigitChars {s : Str} (hne : s ≠ []) (hd : ∀ c ∈ s, c.isDigit = true)
    (hlead : s.length = 1 ∨ s.head? ≠ some '0') :
    Nat.toDigits 10 (Nat.ofDigitChars 10 s 0) = s := by
  induction s using List.reverseRecOn with
  | nil => exact absurd rfl hne
  | append_singleton t d ih =>
    have hdigit := hd d (List.mem_append_right t List.mem_cons_self)
    obtain ⟨hlo, hhi⟩ := toNat_of_isDigit hdigit
    have hzero : '0'.toNat = 48 := rfl
    have hlast : Nat.toDigits 10 (d.toNat - 48) = [d] := by
      rw [Nat.toDigits_of_lt_base (by omega), digitChar_of_isDigit hdigit]
    have hvalue : Nat.ofDigitChars 10 (t ++ [d]) 0 = 10 * Nat.ofDigitChars 10 t 0
      + (d.toNat - 48) := by
      rw [Nat.ofDigitChars_append, Nat.ofDigitChars_cons, Nat.ofDigitChars_nil, hzero]
    rw [hvalue]
    by_cases ht : t = []
    · subst ht
      rw [Nat.ofDigitChars_nil, Nat.mul_zero, Nat.zero_add, hlast]
      rfl
    · obtain ⟨c, t, rfl⟩ := List.exists_cons_of_ne_nil ht
      have hhead : (c :: t).head? ≠ some '0' := by
        rcases hlead with hone | hhead
        · simp at hone
        · exact hhead
      have hrest := ih ht (fun x hx => hd x (List.mem_append_left [d] hx)) (.inr hhead)
      have hpos : 0 < Nat.ofDigitChars 10 (c :: t) 0 := by
        refine Nat.pos_of_ne_zero fun h => ?_
        rw [h, Nat.toDigits_zero] at hrest
        rw [← hrest] at hhead
        exact hhead rfl
      rw [← Nat.toDigits_append_toDigits (by decide) hpos (by omega), hrest, hlast]

/-! ### Dotted quads -/

/-- One number of a dotted quad. -/
def octet (s : Str) : Option Nat :=
  if s ≠ [] ∧ s.length ≤ 3 ∧ s.all Char.isDigit = true ∧ (s.length = 1 ∨ s.head? ≠ some '0')
    ∧ Nat.ofDigitChars 10 s 0 ≤ 255 then some (Nat.ofDigitChars 10 s 0)
  else none

/-- An octet is read from its one canonical text: no sign, no zero in front, at most 255. -/
theorem octet_eq_some_iff {s : Str} {n : Nat} : octet s = some n ↔ n ≤ 255
    ∧ s = Nat.toDigits 10 n := by
  constructor
  · intro h
    unfold octet at h
    split at h
    · rename_i hok
      obtain ⟨hne, -, hall, hlead, hmax⟩ := hok
      obtain rfl := Option.some.inj h
      exact ⟨hmax, (toDigits_ofDigitChars hne (List.all_eq_true.mp hall) hlead).symm⟩
    · exact absurd h (by simp)
  · rintro ⟨hmax, rfl⟩
    have hall : ∀ n < 256, octet (Nat.toDigits 10 n) = some n := by decide +kernel
    exact hall n (by omega)

/-- The address of four numbers. -/
def ofOctets (a b c d : Nat) : Addr := BitVec.ofNat 32 (((a * 256 + b) * 256 + c) * 256 + d)

/-- The text of an address. -/
def format (x : Addr) : Str :=
  Nat.toDigits 10 (x.toNat / 16777216) ++ '.' :: (Nat.toDigits 10 (x.toNat / 65536 % 256)
    ++ '.' :: (Nat.toDigits 10 (x.toNat / 256 % 256) ++ '.' :: Nat.toDigits 10 (x.toNat % 256)))

/-- The address of a text, if it is a dotted quad and nothing else. -/
def parse (s : Str) : Option Addr := do
  let (a, s) ← splitOnce '.' s
  let (b, s) ← splitOnce '.' s
  let (c, d) ← splitOnce '.' s
  let a ← octet a
  let b ← octet b
  let c ← octet c
  let d ← octet d
  some (ofOctets a b c d)

/-- A number has no dot in it, so that a dotted address splits at its dots alone. -/
theorem dot_notMem_toDigits (n : Nat) : '.' ∉ Nat.toDigits 10 n :=
  fun h => absurd (Nat.isDigit_of_mem_toDigits (by decide) (by decide) h) (by decide)

/-- The numbers of an address are those it was made of. -/
theorem toNat_ofOctets {a b c d : Nat} (ha : a ≤ 255) (hb : b ≤ 255) (hc : c ≤ 255)
    (hd : d ≤ 255) :
    (ofOctets a b c d).toNat = ((a * 256 + b) * 256 + c) * 256 + d := by
  rw [ofOctets, BitVec.toNat_ofNat]
  exact Nat.mod_eq_of_lt (by omega)

/-- The strict reader takes exactly the texts that are written. Both directions are used: what is
written is read back, and what is read has no second spelling. -/
theorem parse_eq_some_iff {s : Str} {x : Addr} : parse s = some x ↔ s = format x := by
  constructor
  · intro h
    simp only [parse, Option.bind_eq_bind, Option.bind_eq_some_iff, Prod.exists,
      Option.some.injEq, octet_eq_some_iff, splitOnce_eq_some_iff] at h
    obtain ⟨_, _, ⟨rfl, -⟩, _, _, ⟨rfl, -⟩, _, _, ⟨rfl, -⟩, a, ⟨ha, rfl⟩, b, ⟨hb, rfl⟩, c,
      ⟨hc, rfl⟩, d, ⟨hd, rfl⟩, rfl⟩ := h
    unfold format
    rw [toNat_ofOctets ha hb hc hd]
    congr 2
    · omega
    congr 2
    · omega
    congr 2
    · omega
    congr 2
    omega
  · rintro rfl
    have hlt := x.isLt
    have hoctet : ∀ n ≤ 255, octet (Nat.toDigits 10 n) = some n :=
      fun n hn => octet_eq_some_iff.mpr ⟨hn, rfl⟩
    have hsplit : ∀ n t, splitOnce '.' (Nat.toDigits 10 n ++ '.' :: t) = some
      (Nat.toDigits 10 n, t) :=
      fun n t => splitOnce_eq_some_iff.mpr ⟨rfl, dot_notMem_toDigits n⟩
    have haddr : ofOctets (x.toNat / 16777216) (x.toNat / 65536 % 256) (x.toNat / 256 % 256)
      (x.toNat % 256) = x := by
      refine BitVec.eq_of_toNat_eq ?_
      rw [toNat_ofOctets (by omega) (by omega) (by omega) (by omega)]
      omega
    unfold parse format
    simp only [Option.bind_eq_bind, hsplit, Option.bind_some,
      hoctet _ (show x.toNat / 16777216 ≤ 255 by omega),
      hoctet _ (show x.toNat / 65536 % 256 ≤ 255 by omega),
        hoctet _ (show x.toNat / 256 % 256 ≤ 255 by omega),
      hoctet _ (show x.toNat % 256 ≤ 255 by omega), haddr]

/-! ### Prefixes -/

/-- Two addresses have the same first `n` bits. -/
def Agree (n : Nat) (x y : Addr) : Prop := ∀ i < n, x.getMsbD i = y.getMsbD i

/-- An address shares every prefix with itself. -/
theorem Agree.refl (n : Nat) (x : Addr) : Agree n x x := fun _ _ => rfl

/-- Sharing a prefix goes both ways. -/
theorem Agree.symm {n : Nat} {x y : Addr} (h : Agree n x y) : Agree n y x :=
  fun i hi => (h i hi).symm

/-- Two addresses that share a prefix with a third share it. -/
theorem Agree.trans {n : Nat} {x y z : Addr} (h : Agree n x y) (h' : Agree n y z) : Agree n x z :=
  fun i hi => (h i hi).trans (h' i hi)

/-- The mask of a prefix. -/
def prefixMask (n : Nat) : Addr := if n = 0 then 0 else BitVec.allOnes 32 <<< (32 - n)

/-- The mask has its first `n` bits set. Past 32 there is no such bit, so `n` is bounded. -/
theorem getMsbD_prefixMask {n i : Nat} (hn : n ≤ 32) :
    (prefixMask n).getMsbD i = decide (i < n) := by
  unfold prefixMask
  split
  · rename_i hzero
    rw [hzero]
    exact BitVec.getMsbD_zero
  · rw [BitVec.getMsbD_shiftLeft, BitVec.getMsbD_allOnes]
    exact decide_eq_decide.mpr (by omega)

/-- The mask keeps the first `n` bits of an address and clears the others. -/
theorem getMsbD_and_prefixMask {n i : Nat} (hn : n ≤ 32) (x : Addr) :
    (x &&& prefixMask n).getMsbD i = (x.getMsbD i && decide (i < n)) := by
  rw [BitVec.getMsbD_and, getMsbD_prefixMask hn]

/-- Two addresses that are equal under the mask of a prefix agree on its bits, and no more is
compared. -/
theorem and_prefixMask_eq_iff {n : Nat} (hn : n ≤ 32) {x y : Addr} :
    x &&& prefixMask n = y &&& prefixMask n ↔ Agree n x y := by
  constructor
  · intro h i hi
    have hbit := congrArg (BitVec.getMsbD · i) h
    simp only [getMsbD_and_prefixMask hn, decide_eq_true hi, Bool.and_true] at hbit
    exact hbit
  · intro h
    refine BitVec.eq_of_getMsbD_eq fun i _ => ?_
    rw [getMsbD_and_prefixMask hn, getMsbD_and_prefixMask hn]
    by_cases hin : i < n
    · rw [h i hin]
    · rw [decide_eq_false hin, Bool.and_false, Bool.and_false]

/-- Masking keeps the prefix. -/
theorem agree_and_prefixMask {n : Nat} (hn : n ≤ 32) (x : Addr) :
    Agree n (x &&& prefixMask n) x := by
  intro i hi
  rw [getMsbD_and_prefixMask hn, decide_eq_true hi, Bool.and_true]

/-- Masking twice is masking once. -/
theorem and_prefixMask_idem (n : Nat) (x : Addr) :
    x &&& prefixMask n &&& prefixMask n = x &&& prefixMask n := by
  rw [BitVec.and_assoc, BitVec.and_self]

/-- A longer prefix takes fewer addresses: some address has the shorter one only. -/
theorem not_agree_of_lt {n m : Nat} (hnm : n < m) (hm : m ≤ 32) (x : Addr) : ∃ y, Agree n y x
    ∧ ¬Agree m y x := by
  have hflip : ∀ i < 32, (x ^^^ BitVec.twoPow 32 (31 - n)).getMsbD i
    = (x.getMsbD i ^^ decide (i = n)) := by
    intro i _
    rw [BitVec.getMsbD_xor, BitVec.getMsbD_twoPow, decide_eq_true (show 31 - n < 32 by omega),
      Bool.true_and, show 32 - (31 - n) - 1 = n by omega]
  refine ⟨x ^^^ BitVec.twoPow 32 (31 - n), fun i hi => ?_, fun hagree => ?_⟩
  · rw [hflip i (by omega), decide_eq_false (show ¬i = n by omega), Bool.xor_false]
  · have hbit := hagree n hnm
    rw [hflip n (by omega), decide_eq_true rfl, Bool.xor_true] at hbit
    exact Bool.not_ne_self _ hbit

/-- Two prefixes that take the same addresses have the same length, and agree on it. A longer one
would leave out an address that the shorter one takes. -/
theorem agree_ext {n m : Nat} (hn : n ≤ 32) (hm : m ≤ 32) {x y : Addr}
    (h : ∀ z, Agree n z x ↔ Agree m z y) :
    n = m ∧ Agree n x y := by
  have hxy : Agree m x y := (h x).mp (Agree.refl n x)
  have hyx : Agree n y x := (h y).mpr (Agree.refl m y)
  rcases Nat.lt_trichotomy n m with hlt | heq | hgt
  · obtain ⟨z, hz, hnot⟩ := not_agree_of_lt hlt hm y
    exact absurd ((h z).mp (hz.trans hyx)) hnot
  · exact ⟨heq, hyx.symm⟩
  · obtain ⟨z, hz, hnot⟩ := not_agree_of_lt hgt hn x
    exact absurd ((h z).mpr (hz.trans hxy)) hnot

end Ipv4
