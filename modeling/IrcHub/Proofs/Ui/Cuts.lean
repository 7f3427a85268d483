import IrcHub.Proofs.Ui.Utf8

/-!
# `IrcHub.Proofs.Ui.Cuts`: three cutters, one prefix

The console cuts texts to a number of bytes in three places. `cCut` and `uprec` walk back from the
cut over continuation bytes (`utf8Cut`), `cutField` walks forward by character. On the encoding of
a text all three leave `takeBytes`, the longest prefix of whole characters that fits.

* `longestPrefix_takeBytes`: that is what `takeBytes` is
* `backOver_eq`: the walk back starts inside some character and ends at its lead byte
* `charNeed_encode`: the lead byte says how long the character is, so the walk knows whether the
  cut goes through it
* `utf8Cut_encode`, `cutFieldFrom_encode`: the walk back and the walk forward
* `cuts_agree`: the three together

The texts are encodings of characters. What the walks do with bytes that are no text is not looked
at here.
-/

set_option autoImplicit false

namespace IrcHub.Proofs

open IrcHub.Console
open Terminal (Bytes encode)
open String (utf8EncodeChar)
open Utf8 (IsCont)
open Str

/-! ### Encodings of texts -/

/-- No characters, no bytes. -/
theorem encode_nil : encode [] = [] := rfl

/-- The bytes of a character come before those of the rest. -/
theorem encode_cons (c : Char) (s : Str) : encode (c :: s) = utf8EncodeChar c ++ encode s := rfl

/-- Texts are encoded one after the other. -/
theorem encode_append (s t : Str) : encode (s ++ t) = encode s ++ encode t := List.flatMap_append

/-- The encoding takes as many bytes as the string counts. -/
theorem length_encode (s : Str) : (encode s).length = String.utf8Len s := by
  induction s with
  | nil => rfl
  | cons c s ih =>
    rw [encode_cons, List.length_append, String.length_utf8EncodeChar, ih, String.utf8Len_cons,
      Nat.add_comm]

/-- A place in a text lies in one of its characters. -/
theorem exists_around {s : Str} {m : Nat} (h : m < (encode s).length) :
    ∃ p c q, s = p ++ c :: q ∧ (encode p).length ≤ m ∧ m < (encode p).length + c.utf8Size := by
  obtain ⟨p, c, q, hs, hlo, hhi⟩ := Utf8.exists_block h
  rw [String.length_utf8EncodeChar] at hhi
  exact ⟨p, c, q, hs, hlo, hhi⟩

/-! ### The longest prefix -/

/-- The longest prefix of whole characters of `s` that takes at most `max` bytes. -/
structure LongestPrefix (s : Str) (max : Nat) (p : Str) : Prop where
  whole : p <+: s
  fits : (encode p).length ≤ max
  longest : ∀ q, q <+: s → (encode q).length ≤ max → q <+: p

/-- `takeBytes` is the longest start of whole characters that fits. -/
theorem longestPrefix_takeBytes (s : Str) (max : Nat) :
    LongestPrefix s max (takeBytes max s) := by
  refine ⟨takeBytes_isPrefix max s, ?_, fun q hq hfit => ?_⟩
  · rw [length_encode]
    exact utf8Len_takeBytes_le max s
  · obtain ⟨t, rfl⟩ := hq
    rw [length_encode] at hfit
    rw [takeBytes_append_of_le hfit]
    exact List.prefix_append q _

/-- The cut between two characters. -/
theorem takeBytes_between {p q : Str} {c : Char} {max : Nat} (hlo : (encode p).length ≤ max)
    (hhi : max < (encode p).length + c.utf8Size) : takeBytes max (p ++ c :: q) = p := by
  rw [length_encode] at hlo hhi
  rw [takeBytes_append_of_le hlo, takeBytes, if_neg (by omega), List.append_nil]

/-! ### Walking back -/

/-- How long its lead byte says a character is. -/
theorem charNeed_encode (c : Char) (s : Bytes) :
    charNeed ((utf8EncodeChar c ++ s).getD 0 0) = c.utf8Size := by
  have hmax := Terminal.toNat_le c
  rw [← String.length_utf8EncodeChar]
  rcases Terminal.utf8EncodeChar_cases c with ⟨h1, heq⟩ | ⟨h1, h2, heq⟩
    | ⟨h1, h2, heq⟩ | ⟨h1, heq⟩
  all_goals
    rw [heq]
    simp only [List.cons_append, List.getD_cons_zero, List.length_cons, List.length_nil, charNeed,
      UInt8.le_iff_toNat_le, UInt8.toNat_ofNat', UInt8.toNat_ofNat]
  · rw [if_neg (by omega), if_neg (by omega), if_neg (by omega)]
  · rw [if_neg (by omega), if_neg (by omega), if_pos (by omega)]
  · rw [if_neg (by omega), if_pos (by omega)]
  · rw [if_pos (by omega)]

/-- The walk back ends at the lead byte of the character it starts in. It takes at most as many
steps as the character has continuation bytes (`hback`). -/
theorem backOver_eq {p : Bytes} {c : Char} {q : Bytes} {t back : Nat} (ht : t < c.utf8Size)
    (hback : t ≤ back) :
    backOver (p ++ (utf8EncodeChar c ++ q)) back (p.length + t) = p.length := by
  obtain ⟨b, l, hcl, hlead, -, hcont⟩ := Utf8.encode_lead c
  have hlen : l.length + 1 = c.utf8Size := by
    rw [← String.length_utf8EncodeChar, hcl, List.length_cons]
  induction t generalizing back with
  | zero =>
    cases back with
    | zero => rfl
    | succ back =>
      have hget : (p ++ (utf8EncodeChar c ++ q))[p.length + 0]? = some b := by
        rw [Nat.add_zero, List.getElem?_append_right (Nat.le_refl _), Nat.sub_self, hcl]
        rfl
      have hb : isCont b = false := by
        rw [Bool.eq_false_iff, ne_eq, isCont_iff]
        exact hlead
      rw [backOver, hget]
      simp [hb]
  | succ t ih =>
    match back, hback with
    | back + 1, hback =>
      obtain ⟨x, hx⟩ : ∃ x, l[t]? = some x := ⟨_, List.getElem?_eq_getElem (by omega)⟩
      have hget : (p ++ (utf8EncodeChar c ++ q))[p.length + (t + 1)]? = some x := by
        rw [List.getElem?_append_right (by omega), Nat.add_sub_cancel_left, hcl, List.cons_append,
          List.getElem?_cons_succ, List.getElem?_append_left (by omega), hx]
      have hxc : isCont x = true := isCont_iff.mpr (hcont x (List.mem_of_getElem? hx))
      rw [backOver, hget, if_pos]
      · exact ih (by omega) (by omega)
      · simp only [Option.any_some, hxc, Bool.and_true, decide_eq_true_eq]
        omega

/-- The walk back finds the end of the longest prefix, for every cut inside the text. -/
theorem utf8Cut_encode {s : Str} {n : Nat} (h : n < (encode s).length) :
    utf8Cut (encode s) n = (encode (takeBytes n s)).length := by
  by_cases hzero : n = 0
  · subst hzero
    have hfit := (longestPrefix_takeBytes s 0).fits
    rw [utf8Cut, if_pos rfl]
    omega
  · obtain ⟨p, c, q, rfl, hlo, hhi⟩ := exists_around (s := s) (m := n - 1) (by omega)
    have hsplit : encode (p ++ c :: q) = encode p ++ (utf8EncodeChar c ++ encode q) := by
      rw [encode_append, encode_cons]
    have hsize := c.utf8Size_le_four
    have hback : backOver (encode (p ++ c :: q)) 3 (n - 1) = (encode p).length := by
      have hstart : n - 1 = (encode p).length + (n - 1 - (encode p).length) := by omega
      rw [hsplit, hstart]
      exact backOver_eq (by omega) (by omega)
    have hneed : charNeed ((encode (p ++ c :: q)).getD (encode p).length 0) = c.utf8Size := by
      rw [← charNeed_encode c (encode q), hsplit, List.getD_eq_getElem?_getD,
        List.getD_eq_getElem?_getD, List.getElem?_append_right (Nat.le_refl _), Nat.sub_self]
    rw [utf8Cut, if_neg hzero]
    simp only [hback, hneed]
    by_cases hcut : n < (encode p).length + c.utf8Size
    · rw [if_pos hcut, takeBytes_between (by omega) hcut]
    · -- the cut falls behind the character
      have hwhole : (encode (p ++ [c])).length = n := by
        rw [encode_append, encode_cons, encode_nil, List.append_nil, List.length_append,
          String.length_utf8EncodeChar]
        omega
      have htake : takeBytes n (p ++ c :: q) = p ++ [c] := by
        rw [List.append_cons, takeBytes_append_of_le (by rw [← length_encode]; omega),
          ← length_encode, hwhole, Nat.sub_self]
        cases q with
        | nil => exact List.append_nil _
        | cons d q =>
          have hpos := d.utf8Size_pos
          rw [takeBytes, if_neg (by omega), List.append_nil]
      rw [if_neg hcut, htake, hwhole]

/-! ### The three cutters -/

/-- A prefix of the characters is a prefix of the bytes. -/
theorem take_encode {s p : Str} (h : p <+: s) : (encode s).take (encode p).length = encode p := by
  obtain ⟨t, rfl⟩ := h
  rw [encode_append, List.take_left]

/-- The cut of the editor stops after the same characters. -/
theorem uprec_encode (s : Str) (max : Nat) :
    uprec (encode s) max = (encode (takeBytes max s)).length := by
  unfold uprec
  by_cases h : max < (encode s).length
  · rw [if_pos h]
    exact utf8Cut_encode h
  · rw [if_neg h, takeBytes_of_le (by rw [← length_encode]; omega)]

/-- So does the cut of a buffer, which keeps a byte for the end mark. -/
theorem cCut_encode (s : Str) (cap : Nat) :
    cCut (encode s) cap = encode (takeBytes (cap - 1) s) := by
  unfold cCut
  by_cases h : cap - 1 < (encode s).length
  · have hmin : min (encode s).length (cap - 1) = cap - 1 := by omega
    simp only [hmin, if_pos h]
    rw [utf8Cut_encode h]
    exact take_encode (takeBytes_isPrefix _ s)
  · have hmin : min (encode s).length (cap - 1) = (encode s).length := by omega
    simp only [hmin, Nat.lt_irrefl, if_false]
    rw [takeBytes_of_le (by rw [← length_encode]; omega)]

/-- The walk forward, over at least as many steps as there are bytes left. -/
theorem cutFieldFrom_encode {max n o : Nat} {s : Str} (hn : (encode s).length ≤ n)
    (ho : o ≤ max) :
    cutFieldFrom max n o (encode s) = o + (encode (takeBytes (max - o) s)).length := by
  induction s generalizing n o with
  | nil => cases n <;> rfl
  | cons c s ih =>
    have hpos := c.utf8Size_pos
    rw [encode_cons, List.length_append, String.length_utf8EncodeChar] at hn
    cases n with
    | zero => omega
    | succ n =>
      obtain ⟨b, l, hcl, -⟩ := Utf8.encode_lead c
      have hlen : Nat.max (utf8Len (encode (c :: s))) 1 = c.utf8Size := by
        rw [encode_cons, utf8Len_encode]
        exact Nat.max_eq_left hpos
      have hdrop : (encode (c :: s)).drop c.utf8Size = encode s := by
        rw [encode_cons, ← String.length_utf8EncodeChar, List.drop_left]
      have hcons : encode (c :: s) = b :: (l ++ encode s) := by
        rw [encode_cons, hcl, List.cons_append]
      have hstep : cutFieldFrom max (n + 1) o (encode (c :: s))
          = if max < o + c.utf8Size then o else cutFieldFrom max n (o + c.utf8Size)
            (encode s) := by
        rw [← hlen, ← hdrop, ← hlen, hcons]
        rfl
      rw [hstep]
      by_cases hfit : max < o + c.utf8Size
      · rw [if_pos hfit, takeBytes, if_neg (by omega)]
        rfl
      · rw [if_neg hfit, ih (by omega) (by omega), takeBytes, if_pos (by omega), encode_cons,
          List.length_append, String.length_utf8EncodeChar, Nat.sub_sub]
        omega

/-- So does the cut of a field. -/
theorem cutField_encode (s : Str) (cap : Nat) :
    cutField (encode s) cap = encode (takeBytes (cap - 1) s) := by
  unfold cutField
  rw [cutFieldFrom_encode (Nat.le_refl _) (Nat.zero_le _), Nat.zero_add, Nat.sub_zero]
  exact take_encode (takeBytes_isPrefix _ s)

/-- All three leave the longest prefix of whole characters that fits. -/
theorem cuts_agree (s : Str) (cap : Nat) :
    ∃ p, LongestPrefix s (cap - 1) p ∧ cCut (encode s) cap = encode p
      ∧ cutField (encode s) cap = encode p
      ∧ uprec (encode s) (cap - 1) = (encode p).length
      ∧ (encode s).take (uprec (encode s) (cap - 1)) = encode p := by
  refine ⟨takeBytes (cap - 1) s, longestPrefix_takeBytes s _, cCut_encode s cap,
    cutField_encode s cap, uprec_encode s _, ?_⟩
  rw [uprec_encode]
  exact take_encode (takeBytes_isPrefix _ s)

end IrcHub.Proofs
