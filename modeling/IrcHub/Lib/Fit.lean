import IrcHub.Lib.Str
import IrcHub.Lib.Table

/-!
# `IrcHub.Lib.Fit`: bounded text, bounded tables, and lines

Programs that keep text in buffers of a fixed size, and tables with a fixed number of rows, rely
on bounds for whole messages: a table written out as lines has to fit the largest message. This
module carries such bounds from the fields up.

`Fit ok n s` says that a text has at most `n` bytes and only characters of `ok`. `TableFit n P l`
says that a table has at most `n` rows and that `P` holds of each. Both are kept by the ways text
is cut and tables are written.

* `Fit.append`, `Fit.sublist`, `fit_trunc`: bounds of texts that are joined, picked from and cut
* `mem_splitOn`, `splitOnce_sublist`, `rsplitOnce_sublist`: a field of a text fits as the text
  does
* `fit_ofInt`, `fit_ofInt_small`: the decimal text of a number
* `TableFit.append`, `TableFit.set`, `TableFit.swapRemove`: the writes of a table
* `utf8Len_flatten_le`: rows of a bounded length make a text of a bounded length

A text made of lines, each ended by a separator, splits into these lines again
(`splitOn_flatten_lines`). Nothing is said about which characters `ok` allows, apart from the
digits and the minus sign where a number is written.
-/

set_option autoImplicit false

open String (utf8Len)

namespace Str

/-! ### Text -/

/-- At most `n` bytes, and only characters of `ok`. -/
structure Fit (ok : Char → Prop) (n : Nat) (s : Str) : Prop where
  len : utf8Len s ≤ n
  chars : ∀ c ∈ s, ok c

variable {ok : Char → Prop} {n m : Nat} {s t : Str}

/-- The empty string fits every field. -/
theorem Fit.nil : Fit ok n [] := ⟨Nat.zero_le _, fun _ hc => (List.not_mem_nil hc).elim⟩

/-- What fits a field fits a larger one. -/
theorem Fit.mono (h : Fit ok n s) (hnm : n ≤ m) : Fit ok m s := ⟨h.len.trans hnm, h.chars⟩

/-- Two parts put together need no more room than both have. -/
theorem Fit.append (hs : Fit ok n s) (ht : Fit ok m t) : Fit ok (n + m) (s ++ t) := by
  refine ⟨?_, ?_⟩
  · rw [String.utf8Len_append]
    exact Nat.add_le_add hs.len ht.len
  · intro c hc
    exact (List.mem_append.mp hc).elim (hs.chars c) (ht.chars c)

/-- What is left after characters were taken out fits as well. -/
theorem Fit.sublist (h : Fit ok n s) (hsub : t.Sublist s) : Fit ok n t :=
  ⟨(String.utf8Len_le_of_sublist hsub).trans h.len, fun c hc => h.chars c (hsub.subset hc)⟩

/-- A bounded copy of allowed characters fits its buffer. -/
theorem fit_trunc (h : ∀ c ∈ s, ok c) (cap : Nat) : Fit ok (cap - 1) (trunc s cap) :=
  ⟨utf8Len_takeBytes_le _ _, fun c hc => h c (mem_of_mem_trunc hc)⟩

/-- Text of ASCII characters is bounded by the number of its characters. -/
theorem fit_of_ascii (hlen : s.length ≤ n) (h : ∀ c ∈ s, c.toNat < 128 ∧ ok c) : Fit ok n s :=
  ⟨by rw [utf8Len_eq_length fun c hc => (h c hc).1]; exact hlen, fun c hc => (h c hc).2⟩

/-- The characters of the parts around a separator are those of the text. -/
theorem splitOnce_sublist {c : Char} {a b : Str} (h : splitOnce c s = some (a, b)) :
    a.Sublist s ∧ b.Sublist s := by
  obtain ⟨rfl, -⟩ := splitOnce_eq_some_iff.mp h
  exact ⟨List.sublist_append_left _ _,
    (List.sublist_cons_self _ _).trans (List.sublist_append_right _ _)⟩

/-- Both parts of a split at the last character come from the string. -/
theorem rsplitOnce_sublist {c : Char} {a b : Str} (h : rsplitOnce c s = some (a, b)) :
    a.Sublist s ∧ b.Sublist s := by
  obtain ⟨rfl, -⟩ := rsplitOnce_eq_some_iff.mp h
  exact ⟨List.sublist_append_left _ _,
    (List.sublist_cons_self _ _).trans (List.sublist_append_right _ _)⟩

/-- A field of a text is part of the text and has no separator. Part means a sublist here and not
an infix, since that is all a bound on its bytes or characters needs. -/
theorem mem_splitOn {c : Char} {f : Str} (h : f ∈ s.splitOn c) : f.Sublist s ∧ c ∉ f := by
  induction s generalizing f with
  | nil =>
    rw [List.splitOn_nil, List.mem_singleton] at h
    subst h
    exact ⟨List.Sublist.refl _, List.not_mem_nil⟩
  | cons a s ih =>
    rw [List.splitOn_cons_eq_if_modifyHead] at h
    by_cases ha : a = c
    · rw [if_pos (beq_iff_eq.mpr ha), List.mem_cons] at h
      rcases h with rfl | h
      · exact ⟨List.nil_sublist _, List.not_mem_nil⟩
      · exact ⟨(ih h).1.cons _, (ih h).2⟩
    · rw [if_neg (by simpa using ha)] at h
      cases hsplit : s.splitOn c with
      | nil => exact absurd hsplit (List.splitOn_ne_nil _ _)
      | cons g gs =>
        rw [hsplit] at h ih
        rw [List.modifyHead_cons, List.mem_cons] at h
        rcases h with rfl | h
        · obtain ⟨hsub, hno⟩ := ih List.mem_cons_self
          refine ⟨hsub.cons_cons _, ?_⟩
          rw [List.mem_cons, not_or]
          exact ⟨Ne.symm ha, hno⟩
        · obtain ⟨hsub, hno⟩ := ih (List.mem_cons_of_mem _ h)
          exact ⟨hsub.cons _, hno⟩

/-! ### Numbers -/

/-- The decimal text of a 64-bit integer takes at most 20 bytes: a sign and 19 digits. `hlo` and
`hhi` are the range of the type, and `hok` says that printable characters are allowed. -/
theorem fit_ofInt {x : Int} (hlo : -9223372036854775808 ≤ x) (hhi : x ≤ 9223372036854775807)
    (hok : ∀ c : Char, 0x20 ≤ c.toNat → ok c) : Fit ok 20 (ofInt x) := by
  have hdigits : ∀ (k : Nat), ∀ c ∈ Nat.toDigits 10 k, c.toNat < 128 ∧ ok c := by
    intro k c hc
    have hd := Nat.isDigit_of_mem_toDigits (by decide) (by decide) hc
    simp only [Char.isDigit, Bool.and_eq_true, decide_eq_true_eq, UInt32.le_iff_toNat_le,
      ge_iff_le] at hd
    have hlo : 48 ≤ c.toNat := hd.1
    have hhi : c.toNat ≤ 57 := hd.2
    exact ⟨by omega, hok c (by omega)⟩
  have hlen : ∀ k : Nat, k < 10 ^ 19 → (Nat.toDigits 10 k).length ≤ 19 := fun k hk =>
    (Nat.length_toDigits_le_iff (by decide) (by decide)).mpr hk
  cases x with
  | ofNat k =>
    refine fit_of_ascii ?_ (hdigits k)
    have := hlen k (by simp only [Int.ofNat_eq_natCast] at hhi; omega)
    exact Nat.le_succ_of_le this
  | negSucc k =>
    refine fit_of_ascii ?_ ?_
    · rw [ofInt, List.length_cons]
      exact Nat.succ_le_succ (hlen (k + 1) (by omega))
    · intro c hc
      rcases List.mem_cons.mp hc with rfl | hc
      · exact ⟨by decide, hok '-' (by decide)⟩
      · exact hdigits _ c hc

/-- A number of at most three digits takes at most three bytes. It is for the fields a program
keeps below 1000, whose text would else count with the 20 bytes of `fit_ofInt`. -/
theorem fit_ofInt_small {x : Int} (hlo : 0 ≤ x) (hhi : x < 1000)
    (hok : ∀ c : Char, 0x20 ≤ c.toNat → ok c) : Fit ok 3 (ofInt x) := by
  have hbig : Fit ok 20 (ofInt x) := fit_ofInt (by omega) (by omega) hok
  refine ⟨?_, hbig.chars⟩
  obtain ⟨k, rfl⟩ := Int.eq_ofNat_of_zero_le hlo
  have hascii : ∀ c ∈ Nat.toDigits 10 k, c.toNat < 128 := by
    intro c hc
    have hd := Nat.isDigit_of_mem_toDigits (by decide) (by decide) hc
    simp only [Char.isDigit, Bool.and_eq_true, decide_eq_true_eq, UInt32.le_iff_toNat_le,
      ge_iff_le] at hd
    have : c.toNat ≤ 57 := hd.2
    omega
  show utf8Len (Nat.toDigits 10 k) ≤ 3
  rw [utf8Len_eq_length hascii]
  exact (Nat.length_toDigits_le_iff (by decide) (by decide)).mpr (by omega)

/-! ### Lines -/

/-- A text of at most `n` rows of at most `k` bytes each has at most `n * k` bytes. -/
theorem utf8Len_flatten_le {ls : List Str} {k : Nat} (h : ∀ l ∈ ls, utf8Len l ≤ k) :
    utf8Len ls.flatten ≤ ls.length * k := by
  induction ls with
  | nil => exact Nat.zero_le _
  | cons l ls ih =>
    have hl := h l List.mem_cons_self
    have hls := ih fun l hl => h l (List.mem_cons_of_mem _ hl)
    rw [List.flatten_cons, String.utf8Len_append, List.length_cons, Nat.succ_mul]
    omega

/-- A line with its end: some text without the separator, then the separator. -/
def IsLine (c : Char) (l : Str) : Prop := ∃ body, l = body ++ [c] ∧ c ∉ body ∧ body ≠ []

/-- Lines that are written one after the other are read back as they are, with an empty text after
the last separator. Each has to be a line: no separator inside, one at the end. -/
theorem splitOn_flatten_lines {c : Char} {ls : List Str} (h : ∀ l ∈ ls, IsLine c l) :
    ls.flatten.splitOn c = ls.map List.dropLast ++ [[]] := by
  induction ls with
  | nil => rfl
  | cons l ls ih =>
    obtain ⟨body, rfl, hno, -⟩ := h l List.mem_cons_self
    rw [List.flatten_cons, List.append_assoc, List.singleton_append,
      List.splitOn_append_cons_self_of_not_mem hno,
      ih fun l hl => h l (List.mem_cons_of_mem _ hl), List.map_cons, List.dropLast_concat,
      List.cons_append]

/-- No line is lost when the empty pieces are left out. -/
theorem filter_splitOn_flatten_lines {c : Char} {ls : List Str} (h : ∀ l ∈ ls, IsLine c l) :
    (ls.flatten.splitOn c).filter (fun l => !l.isEmpty) = ls.map List.dropLast := by
  rw [splitOn_flatten_lines h, List.filter_append, List.filter_eq_self.mpr]
  · simp
  · intro b hb
    obtain ⟨l, hl, rfl⟩ := List.mem_map.mp hb
    obtain ⟨body, rfl, -, hne⟩ := h l hl
    rw [List.dropLast_concat]
    simpa using hne

end Str

/-! ### Tables -/

namespace Table

/-- At most `n` rows, and `P` holds of each. -/
structure TableFit {α : Type} (n : Nat) (P : α → Prop) (l : List α) : Prop where
  len : l.length ≤ n
  all : ∀ x ∈ l, P x

variable {α : Type} {n : Nat} {P : α → Prop} {l l' : List α} {i : Nat} {a : α}

/-- The empty table keeps every ceiling. -/
theorem TableFit.nil : TableFit n P [] := ⟨Nat.zero_le _, fun _ h => (List.not_mem_nil h).elim⟩

/-- Each row of a table is as its predicate says. -/
theorem TableFit.get (h : TableFit n P l) (hi : l[i]? = some a) : P a :=
  h.all a (List.mem_of_getElem? hi)

/-- A row is added while there is room. The room is the caller's check: without it the ceiling
would be passed by one. -/
theorem TableFit.append (h : TableFit n P l) (hroom : l.length < n) (ha : P a) :
    TableFit n P (l ++ [a]) := by
  refine ⟨by rw [List.length_append]; exact hroom, ?_⟩
  intro x hx
  rcases List.mem_append.mp hx with hx | hx
  · exact h.all x hx
  · rw [List.mem_singleton.mp hx]
    exact ha

/-- A row is overwritten by one that is as the predicate says. -/
theorem TableFit.set (h : TableFit n P l) (i : Nat) (ha : P a) : TableFit n P (l.set i a) := by
  refine ⟨by simpa using h.len, ?_⟩
  intro x hx
  rcases List.mem_or_eq_of_mem_set hx with hx | rfl
  · exact h.all x hx
  · exact ha

/-- A change of all rows keeps the ceiling, and the predicate as well if each change does. -/
theorem TableFit.map (h : TableFit n P l) {f : α → α} (hf : ∀ x, P x → P (f x)) :
    TableFit n P (l.map f) := by
  refine ⟨by simpa using h.len, ?_⟩
  intro y hy
  obtain ⟨x, hx, rfl⟩ := List.mem_map.mp hy
  exact hf x (h.all x hx)

/-- A change of one row. -/
theorem TableFit.modify (h : TableFit n P l) (i : Nat) {f : α → α} (hf : ∀ x, P x → P (f x)) :
    TableFit n P (l.modify i f) := by
  rw [List.modify_eq_set_getElem?]
  cases hget : l[i]? with
  | none => exact h
  | some x => exact h.set i (hf x (h.get hget))

/-- Rows that are taken out leave a table that fits. -/
theorem TableFit.sublist (h : TableFit n P l) (hsub : l'.Sublist l) : TableFit n P l' :=
  ⟨hsub.length_le.trans h.len, fun x hx => h.all x (hsub.subset hx)⟩

/-- The row at a place is taken out and the last one put there. -/
theorem TableFit.swapRemove (h : TableFit n P l) (i : Nat) : TableFit n P (swapRemove l i) := by
  refine ⟨?_, fun x hx => h.all x (mem_of_mem_swapRemove hx)⟩
  rw [length_swapRemove]
  exact (Nat.sub_le _ _).trans h.len

end Table
