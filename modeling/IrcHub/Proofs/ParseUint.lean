import IrcHub.Hub.ParseUint
import IrcHub.Proofs.Decimal

/-!
# `IrcHub.Proofs.ParseUint`: when the number reader is exact

`parse_uint` takes a digit from its limit before it divides. A digit above the limit faults there,
unless the number was refused before.

* `PastLimit`: a digit above the limit comes after digits that are within it
* `parseUintFrom_result`: the loop faults there and nowhere else
* `parseUintU64_exact`: the reader is exact for the texts that have no such digit
* `parseUintU64_eq_parseUint`: with a limit of nine or more it is the plain reader, the one that
  the rest of the development uses
* `subscribeLog_five`: the console command that reaches the fault

The arithmetic of the model is checked, as it is in a build with overflow checks: a step that
would leave 64 bits is an error of its own, and no result.
-/

set_option autoImplicit false

namespace IrcHub.Proofs

open IrcHub.Hub Str
open String (utf8Len)

/-! ### The arithmetic of a step -/

/-- A digit is worth what it is. -/
theorem toNat_digitU64 {c : Char} (h : c.isDigit = true) :
    (digitU64 c).toNat = c.toNat - '0'.toNat := by
  have hc := toNat_of_isDigit h
  have hzero : '0'.toNat = 48 := rfl
  rw [digitU64, UInt64.toNat_ofNat', Nat.mod_eq_of_lt]
  omega

/-- That is nine at most. -/
theorem digitU64_le {c : Char} (h : c.isDigit = true) : (digitU64 c).toNat ≤ 9 := by
  have hc := toNat_of_isDigit h
  have hzero : '0'.toNat = 48 := rfl
  rw [toNat_digitU64 h]
  omega

/-- A digit the limit has room for: the product and the sum stay within it, so neither wraps. -/
theorem parseUintFrom_step {max v : UInt64} {c : Char} (rest : Str) (hc : c.isDigit = true)
    (hroom : digitU64 c ≤ max) :
    parseUintFrom max v (c :: rest) =
      if 10 * v.toNat + (digitU64 c).toNat ≤ max.toNat
        then parseUintFrom max (v * 10 + digitU64 c) rest else .ok none := by
  have hmax := max.toNat_lt
  have hle : (digitU64 c).toNat ≤ max.toNat := UInt64.le_iff_toNat_le.mp hroom
  have hten : (10 : UInt64).toNat = 10 := rfl
  have hdiv : ((max - digitU64 c) / 10).toNat = (max.toNat - (digitU64 c).toNat) / 10 := by
    rw [UInt64.toNat_div, UInt64.toNat_sub_of_le _ _ hroom, hten]
  have hsub : subU64 max (digitU64 c) = .ok (max - digitU64 c) := if_pos hroom
  rw [parseUintFrom, hc, hsub]
  simp only [Bool.not_true, Bool.false_eq_true, if_false, checked_bind,
    UInt64.lt_iff_toNat_lt, hdiv]
  by_cases hfit : 10 * v.toNat + (digitU64 c).toNat ≤ max.toNat
  · have hmul : mulU64 v 10 = .ok (v * 10) := if_pos (by rw [hten]; omega)
    have hprod : (v * 10).toNat = v.toNat * 10 := by
      rw [UInt64.toNat_mul, hten, Nat.mod_eq_of_lt (by omega)]
    have hadd : addU64 (v * 10) (digitU64 c) = .ok (v * 10 + digitU64 c) :=
      if_pos (by rw [hprod]; omega)
    rw [if_neg (by omega), if_pos hfit, hmul]
    simp only [checked_bind, hadd]
  · rw [if_pos (by omega), if_neg hfit]
    rfl

/-- The value after a digit that fits. -/
theorem toNat_next {max v : UInt64} {c : Char}
    (hfit : 10 * v.toNat + (digitU64 c).toNat ≤ max.toNat) :
    (v * 10 + digitU64 c).toNat = 10 * v.toNat + (digitU64 c).toNat := by
  have hmax := max.toNat_lt
  have hten : (10 : UInt64).toNat = 10 := rfl
  rw [UInt64.toNat_add, UInt64.toNat_mul, hten]
  omega

/-- A digit above the limit. -/
theorem parseUintFrom_fault {max v : UInt64} {c : Char} (rest : Str) (hc : c.isDigit = true)
    (hroom : ¬digitU64 c ≤ max) : parseUintFrom max v (c :: rest) = .error .overflow := by
  have hsub : subU64 max (digitU64 c) = .error .overflow := if_neg hroom
  rw [parseUintFrom, hc, hsub]
  rfl

/-! ### The loop -/

/-- A digit above the limit comes after digits that, with `v` before them, are within it. That is
where the loop is when it subtracts. -/
def PastLimit (max : UInt64) (v : Nat) (s : Str) : Prop :=
  ∃ p c rest, s = p ++ c :: rest ∧ (∀ d ∈ p, d.isDigit = true)
    ∧ Nat.ofDigitChars 10 p v ≤ max.toNat
    ∧ c.isDigit = true ∧ max < digitU64 c

/-- No digit is above the limit when there is none. -/
theorem not_pastLimit_nil (max : UInt64) (v : Nat) : ¬PastLimit max v [] := by
  rintro ⟨p, c, rest, heq, -⟩
  exact absurd heq.symm (List.append_ne_nil_of_right_ne_nil p (List.cons_ne_nil c rest))

/-- One digit more, as the reader counts it. -/
theorem ofDigitChars_digit {c : Char} (rest : Str) (v : Nat) (hc : c.isDigit = true) :
    Nat.ofDigitChars 10 (c :: rest) v = Nat.ofDigitChars 10 rest
      (10 * v + (digitU64 c).toNat) := by
  rw [Nat.ofDigitChars_cons, toNat_digitU64 hc]

/-- The first digit is the one, or one after it is. -/
theorem pastLimit_cons {max : UInt64} {v : Nat} {c : Char} {rest : Str} (hv : v ≤ max.toNat) :
    PastLimit max v (c :: rest) ↔ c.isDigit = true
      ∧ (max < digitU64 c ∨ PastLimit max (10 * v + (digitU64 c).toNat) rest) := by
  constructor
  · rintro ⟨p, d, tail, heq, hp, hle, hd, hlt⟩
    cases p with
    | nil =>
      obtain ⟨rfl, rfl⟩ := List.cons.inj heq
      exact ⟨hd, .inl hlt⟩
    | cons e p =>
      obtain ⟨rfl, rfl⟩ := List.cons.inj heq
      have hc := hp c List.mem_cons_self
      rw [ofDigitChars_digit p v hc] at hle
      exact ⟨hc, .inr ⟨p, d, tail, rfl, fun x hx => hp x (List.mem_cons_of_mem _ hx),
        hle, hd, hlt⟩⟩
  · rintro ⟨hc, hlt | ⟨p, d, tail, rfl, hp, hle, hd, hlt⟩⟩
    · exact ⟨[], c, rest, rfl, fun x hx => absurd hx List.not_mem_nil, hv, hc, hlt⟩
    · refine ⟨c :: p, d, tail, rfl, fun x hx => ?_, ?_, hd, hlt⟩
      · rcases List.mem_cons.mp hx with rfl | hx
        · exact hc
        · exact hp x hx
      · rw [ofDigitChars_digit p v hc]
        exact hle

/-- What an exact reader gives for the digits after `v`: the number they are, if it is within the
limit, and nothing else. -/
def ReadsFrom (max : UInt64) (v : Nat) (s : Str) (r : Option UInt64) : Prop :=
  ∀ x : UInt64, r = some x ↔ (∀ c ∈ s, c.isDigit = true)
    ∧ Nat.ofDigitChars 10 s v = x.toNat ∧ x ≤ max

/-- The loop faults at a digit above the limit and is exact without one. By induction on the text,
with the number so far within the limit. -/
theorem parseUintFrom_result {max v : UInt64} {s : Str} (hv : v ≤ max) :
    (PastLimit max v.toNat s → parseUintFrom max v s = .error .overflow)
      ∧ (¬PastLimit max v.toNat s → ∃ r, parseUintFrom max v s = .ok r
      ∧ ReadsFrom max v.toNat s r) := by
  have hvn := UInt64.le_iff_toNat_le.mp hv
  induction s generalizing v with
  | nil =>
    refine ⟨fun h => absurd h (not_pastLimit_nil _ _), fun _ => ⟨some v, rfl, fun x => ?_⟩⟩
    constructor
    · intro heq
      obtain rfl := Option.some.inj heq
      exact ⟨fun c hc => absurd hc List.not_mem_nil, rfl, hv⟩
    · rintro ⟨-, heq, -⟩
      exact congrArg some (UInt64.toNat_inj.mp heq)
  | cons c rest ih =>
    rw [pastLimit_cons hvn]
    by_cases hc : c.isDigit = true
    · by_cases hroom : digitU64 c ≤ max
      · have hlt : ¬max < digitU64 c := UInt64.not_lt.mpr hroom
        rw [parseUintFrom_step rest hc hroom]
        by_cases hfit : 10 * v.toNat + (digitU64 c).toNat ≤ max.toNat
        · have hnext := toNat_next hfit
          have hle : v * 10 + digitU64 c ≤ max :=
            UInt64.le_iff_toNat_le.mpr (by rw [hnext]; exact hfit)
          obtain ⟨hfault, hread⟩ := ih hle (by rw [hnext]; exact hfit)
          rw [hnext] at hfault hread
          rw [if_pos hfit]
          refine ⟨fun h => hfault (h.2.resolve_left hlt), fun h => ?_⟩
          obtain ⟨r, hr, hreads⟩ := hread fun hpast => h ⟨hc, .inr hpast⟩
          refine ⟨r, hr, fun x => ?_⟩
          rw [hreads x, ofDigitChars_digit rest _ hc, List.forall_mem_cons]
          exact ⟨fun h => ⟨⟨hc, h.1⟩, h.2⟩, fun h => ⟨h.1.2, h.2⟩⟩
        · -- the number has passed the limit: more digits only make it larger
          rw [if_neg hfit]
          refine ⟨fun h => ?_, fun _ => ⟨none, rfl, fun x => ?_⟩⟩
          · obtain ⟨p, -, -, -, -, hle, -⟩ := h.2.resolve_left hlt
            exact absurd (Nat.le_trans (le_ofDigitChars p _) hle) hfit
          · refine ⟨fun h => (nomatch h), fun ⟨_, heq, hx⟩ => ?_⟩
            rw [ofDigitChars_digit rest _ hc] at heq
            have hbig := le_ofDigitChars rest (10 * v.toNat + (digitU64 c).toNat)
            have hxn := UInt64.le_iff_toNat_le.mp hx
            omega
      · exact ⟨fun _ => parseUintFrom_fault rest hc hroom, fun h =>
          absurd ⟨hc, .inl (UInt64.not_le.mp hroom)⟩ h⟩
    · have hnone : parseUintFrom max v (c :: rest) = .ok none := by
        rw [parseUintFrom, Bool.eq_false_iff.mpr hc]
        rfl
      rw [hnone]
      refine ⟨fun h => absurd h.1 hc, fun _ => ⟨none, rfl, fun x => ?_⟩⟩
      exact ⟨fun h => (nomatch h), fun h => absurd (h.1 c List.mem_cons_self) hc⟩

/-! ### The reader -/

/-- What an exact reader gives for a text of one to ten digits. -/
def Reads (s : Str) (max : UInt64) (r : Option UInt64) : Prop :=
  ∀ x : UInt64, r = some x ↔
    1 ≤ s.length ∧ s.length ≤ 10 ∧ (∀ c ∈ s, c.isDigit = true)
      ∧ Nat.ofDigitChars 10 s 0 = x.toNat ∧ x ≤ max

/-- Digits take one byte each. -/
theorem utf8Len_digits {s : Str} (h : ∀ c ∈ s, c.isDigit = true) : utf8Len s = s.length :=
  utf8Len_eq_length fun c hc => by have := (toNat_of_isDigit (h c hc)).2; omega

/-- The reader stops the hub at a digit above the limit, and else answers. It looks at no more
than ten characters, so a longer text is refused before that. -/
theorem parseUintU64_result (s : Str) (max : UInt64) :
    (utf8Len s ≤ 10 ∧ PastLimit max 0 s → parseUintU64 s max = .error .overflow)
      ∧ (¬(utf8Len s ≤ 10 ∧ PastLimit max 0 s) → ∃ r, parseUintU64 s max = .ok r
      ∧ Reads s max r) := by
  obtain ⟨hfault, hread⟩ :=
    parseUintFrom_result (show 0 ≤ max from UInt64.le_iff_toNat_le.mpr (Nat.zero_le _)) (s := s)
  have hzero : (0 : UInt64).toNat = 0 := rfl
  rw [hzero] at hfault hread
  unfold parseUintU64
  by_cases hempty : s = []
  · subst hempty
    refine ⟨fun h => absurd h.2 (not_pastLimit_nil _ _), fun _ => ⟨none, rfl, fun x => ?_⟩⟩
    exact ⟨fun h => (nomatch h), fun h => absurd h.1 (Nat.not_succ_le_zero 0)⟩
  have hlen : 1 ≤ s.length := List.length_pos_iff.mpr hempty
  rw [List.isEmpty_eq_false_iff.mpr hempty, Bool.false_or]
  by_cases hten : utf8Len s ≤ 10
  · rw [if_neg (by simpa using hten)]
    refine ⟨fun h => hfault h.2, fun h => ?_⟩
    obtain ⟨r, hr, hreads⟩ := hread fun hpast => h ⟨hten, hpast⟩
    refine ⟨r, hr, fun x => (hreads x).trans ?_⟩
    exact ⟨fun h => ⟨hlen, utf8Len_digits h.1 ▸ hten, h⟩, fun h => h.2.2⟩
  · rw [if_pos (by simpa using hten)]
    refine ⟨fun h => absurd h.1 hten, fun _ =>
      ⟨none, rfl, fun x => ⟨fun h => (nomatch h), fun h => ?_⟩⟩⟩
    exact absurd (utf8Len_digits h.2.2.1 ▸ h.2.1) hten

/-- `parse_uint` is exact and does not fault unless a digit above the limit comes after digits
within it. -/
theorem parseUintU64_exact (s : Str) (max : UInt64) :
    (∃ r, parseUintU64 s max = .ok r ∧ Reads s max r)
    ↔ ¬(utf8Len s ≤ 10 ∧ PastLimit max 0 s) := by
  obtain ⟨hfault, hread⟩ := parseUintU64_result s max
  refine ⟨fun ⟨r, hr, _⟩ hpast => ?_, hread⟩
  rw [hfault hpast] at hr
  exact (nomatch hr)

/-- `log=5` stops the hub: the level is above the limit of a log subscription, which is 4. -/
theorem subscribeLog_five : subscribeLog "log=5".toList = .error .overflow
    ∧ ¬∃ r, parseUintU64 "5".toList logDebug = .ok r ∧ Reads "5".toList logDebug r := by
  refine ⟨by decide, fun ⟨r, hr, _⟩ => ?_⟩
  have hfault : parseUintU64 "5".toList logDebug = .error .overflow := by decide
  rw [hfault] at hr
  exact (nomatch hr)

/-! ### Limits with room for every digit -/

/-- With a limit of nine or more no digit is above it. -/
theorem not_pastLimit {max : UInt64} (hmax : 9 ≤ max) (v : Nat) (s : Str) :
    ¬PastLimit max v s := by
  rintro ⟨p, c, rest, -, -, -, hc, hlt⟩
  have hle := digitU64_le hc
  have hnine : (9 : UInt64).toNat = 9 := rfl
  rw [UInt64.le_iff_toNat_le] at hmax
  rw [UInt64.lt_iff_toNat_lt] at hlt
  omega

/-- Ten digits make a number below `10 ^ 10`. -/
theorem ofDigitChars_lt {s : Str} (hs : ∀ c ∈ s, c.isDigit = true) (v : Nat) :
    Nat.ofDigitChars 10 s v < (v + 1) * 10 ^ s.length := by
  induction s generalizing v with
  | nil => simp
  | cons c s ih =>
    have hle := digitU64_le (hs c List.mem_cons_self)
    rw [ofDigitChars_digit s v (hs c List.mem_cons_self), List.length_cons, Nat.pow_succ']
    refine Nat.lt_of_lt_of_le (ih (fun d hd => hs d (List.mem_cons_of_mem _ hd)) _) ?_
    rw [← Nat.mul_assoc]
    exact Nat.mul_le_mul_right _ (by omega)

/-- With a limit of nine or more the reader is the plain one, since no digit is above the
limit. -/
theorem parseUintU64_eq_parseUint (s : Str) {max : UInt64} (hmax : 9 ≤ max) :
    ∃ r, parseUintU64 s max = .ok r ∧ parseUint s max.toNat = r.map fun x => (x.toNat : Int) := by
  obtain ⟨r, hr, hreads⟩ := (parseUintU64_result s max).2 fun h => not_pastLimit hmax _ _ h.2
  refine ⟨r, hr, ?_⟩
  have hnone (h : ∀ x, r ≠ some x) : r = none := Option.eq_none_iff_forall_ne_some.mpr h
  unfold parseUint
  -- digits only, and few enough for both readers
  by_cases hshape : 1 ≤ s.length ∧ s.length ≤ 10 ∧ ∀ c ∈ s, c.isDigit = true
  · obtain ⟨hlen, hten, hall⟩ := hshape
    have hne : s ≠ [] := List.length_pos_iff.mp hlen
    have hsmall : Nat.ofDigitChars 10 s 0 < 10 ^ 10 := by
      have hlt := ofDigitChars_lt hall 0
      have hpow : 10 ^ s.length ≤ 10 ^ 10 := Nat.pow_le_pow_right (by decide) hten
      omega
    have hval : atoll s = (Nat.ofDigitChars 10 s 0 : Int) := by
      have hread := strtoll_digits hall hne (by show _ ≤ (9223372036854775807 : Int); omega)
        (fun c hc => absurd hc (Option.not_mem_none c) : ∀ c ∈ ([] : Str).head?, c.isDigit
        = false)
      rw [List.append_nil] at hread
      exact congrArg Prod.fst hread
    have hshort : ¬utf8Len s > 10 := by rw [utf8Len_digits hall]; omega
    rw [List.isEmpty_eq_false_iff.mpr hne, decide_eq_false hshort,
      List.all_eq_true.mpr hall, hval]
    simp only [Bool.or_self, Bool.not_true, Bool.false_or, decide_eq_true_eq]
    by_cases hfit : Nat.ofDigitChars 10 s 0 ≤ max.toNat
    · have hx : (UInt64.ofNat (Nat.ofDigitChars 10 s 0)).toNat = Nat.ofDigitChars 10 s 0 := by
        rw [UInt64.toNat_ofNat', Nat.mod_eq_of_lt (by omega)]
      have hsome := (hreads (UInt64.ofNat (Nat.ofDigitChars 10 s 0))).mpr
        ⟨hlen, hten, hall, hx.symm, UInt64.le_iff_toNat_le.mpr (by rw [hx]; exact hfit)⟩
      rw [if_neg (by omega), hsome, Option.map_some, hx]
    · rw [if_pos (by omega), hnone fun x hx => ?_]
      · rfl
      obtain ⟨-, -, -, heq, hle⟩ := (hreads x).mp hx
      exact hfit (heq ▸ UInt64.le_iff_toNat_le.mp hle)
  -- any other text is refused by both
  · rw [hnone fun x hx =>
      hshape ⟨((hreads x).mp hx).1, ((hreads x).mp hx).2.1, ((hreads x).mp hx).2.2.1⟩, if_pos]
    · rfl
    by_cases hall : ∀ c ∈ s, c.isDigit = true
    · have hlen : s = [] ∨ utf8Len s > 10 := by
        rw [utf8Len_digits hall]
        by_cases hne : s = []
        · exact .inl hne
        · have := List.length_pos_iff.mpr hne
          exact .inr (by by_contra hle; exact hshape ⟨this, by omega, hall⟩)
      rcases hlen with rfl | hlong
      · rfl
      · simp [hlong]
    · have : s.all Char.isDigit = false := Bool.eq_false_iff.mpr fun h =>
        hall (List.all_eq_true.mp h)
      simp [this]

end IrcHub.Proofs
