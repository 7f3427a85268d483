import IrcHub.Hub.Settings
import IrcHub.Lib.Fit
import Mathlib.Data.List.TakeWhile
import Mathlib.Data.List.Induction

/-!
# `IrcHub.Proofs.Settings`: a settings string is a map

What `settingsSet` keeps of a string is its tokens without the empty ones and those of the name
(`kept`). The new string depends on the old one through these tokens alone.

* `settingsWithout_eq`: the writer's walk sees the tokens the reader's does
* `settingsTokens_joined`: reading what was put together gives the tokens back
* `settingsSet_cases`: setting a name, in terms of the tokens that stay
* `settingsGet_made`, `settingsGet_made_ne`: the name that was set, and every other name
* `settingsSet_map`: the three properties of a map, for every string and every name

Strings of any kind are allowed: with empty tokens, with tokens that have no value, with a name
twice. The reader takes the first pair of a name, and the writer removes them all.
-/

set_option autoImplicit false

namespace IrcHub.Proofs

open IrcHub.Hub Str
open String (utf8Len)

/-! ### Tokens -/

/-- A token and the rest of the string after its comma. -/
theorem settingsTokens_cons {p : Str} (hp : p ≠ []) :
    settingsTokens p = p.takeWhile (· != ',') :: settingsTokens
      ((p.dropWhile (· != ',')).drop 1) := by
  have htok : ',' ∉ p.takeWhile (· != ',') :=
    fun h => absurd (List.mem_takeWhile_imp h) (by decide)
  have hp' := List.takeWhile_append_dropWhile (p := (· != ',')) (l := p)
  cases hrest : p.dropWhile (· != ',') with
  | nil =>
    rw [hrest, List.append_nil] at hp'
    rw [hp'] at htok ⊢
    unfold settingsTokens
    rw [List.splitOn_eq_singleton htok]
    simp [hp]
  | cons c rest =>
    have hc : c = ',' := by
      have := List.head_dropWhile_not (· != ',') (l := p)
        (by rw [hrest]; exact List.cons_ne_nil c rest)
      simpa [hrest] using this
    subst hc
    rw [hrest] at hp'
    have hsplit : p.splitOn ',' = p.takeWhile (· != ',') :: rest.splitOn ',' := by
      conv_lhs => rw [← hp']
      exact List.splitOn_append_cons_self_of_not_mem htok rest
    unfold settingsTokens
    rw [hsplit, List.drop_succ_cons, List.drop_zero]
    cases hfs : rest.splitOn ',' with
    | nil => exact absurd hfs (List.splitOn_ne_nil _ _)
    | cons f fs =>
      simp only []
      rw [List.getLast?_cons_cons, List.dropLast_cons_cons]
      split <;> rfl

/-- A token the reader can give a pair for. One without an equals sign, or with a name or value
too long, gives the empty pair. -/
def settingPair (tok : Str) : Str × Str :=
  match splitOnce '=' tok with
  | none => ([], [])
  | some (name, value) =>
    if !name.isEmpty && utf8Len name < 48 && utf8Len value < 48 then (name, value) else ([], [])

/-- The pairs are those of the tokens, in order. -/
theorem settingsPairs_eq (s : Str) : settingsPairs s = (settingsTokens s).map settingPair := rfl

/-- A name is looked up in the first token that has it. -/
theorem settingsGet_eq (s name : Str) :
    settingsGet s name = ((settingsTokens s).find? fun t => (settingPair t).1 == name).map
      fun t => (settingPair t).2 := by
  rw [settingsGet, settingsPairs_eq, List.find?_map, Option.map_map]
  rfl

/-- The writer's test is the reader's first cut: the token starts with the name and an equals
sign. -/
theorem isToken_iff {name tok : Str} (hname : '=' ∉ name) :
    isToken name tok = true ↔ ∃ value, splitOnce '=' tok = some (name, value) := by
  simp only [splitOnce_eq_some_iff]
  unfold isToken
  simp only [Bool.and_eq_true, List.contains_iff_mem, beq_iff_eq, List.isPrefixOf_iff_prefix]
  constructor
  · rintro ⟨⟨hmem, hlen⟩, t, rfl⟩
    -- what stands before the first `=` has the name's bytes, and the name is where the token
    -- begins
    have hall : ∀ c ∈ name, (c != '=') = true := by
      intro c hc
      rw [bne_iff_ne]
      rintro rfl
      exact hname hc
    rw [List.takeWhile_append_of_pos hall, String.utf8Len_append] at hlen
    cases t with
    | nil => exact absurd (List.append_nil name ▸ hmem) hname
    | cons c t =>
      by_cases hc : c = '='
      · exact ⟨t, by rw [hc], hname⟩
      · rw [List.takeWhile_cons, if_pos (by simpa using hc), String.utf8Len_cons] at hlen
        have := c.utf8Size_pos
        omega
  · rintro ⟨value, rfl, -⟩
    have hall : ∀ c ∈ name, (c != '=') = true := by
      intro c hc
      rw [bne_iff_ne]
      rintro rfl
      exact hname hc
    refine ⟨⟨List.mem_append_right _ List.mem_cons_self, ?_⟩, '=' :: value, rfl⟩
    rw [List.takeWhile_append_of_pos hall, List.takeWhile_cons, if_neg (by decide),
      List.append_nil]

/-- A token of the name is for no other name. -/
theorem settingPair_isToken {name tok : Str} (hname : '=' ∉ name) (h : isToken name tok = true) :
    (settingPair tok).1 = name ∨ (settingPair tok).1 = [] := by
  obtain ⟨value, hcut⟩ := (isToken_iff hname).mp h
  unfold settingPair
  rw [hcut]
  simp only []
  split
  · exact .inl rfl
  · exact .inr rfl

/-- A token of another name is not read for this one. -/
theorem settingPair_ne {name tok : Str} (hne : name ≠ []) (hname : '=' ∉ name)
    (h : isToken name tok = false) :
    (settingPair tok).1 ≠ name := by
  unfold settingPair
  split
  · exact Ne.symm hne
  · rename_i n v hcut
    split
    · intro heq
      subst heq
      rw [(isToken_iff hname).mpr ⟨v, hcut⟩] at h
      exact absurd h (by decide)
    · exact Ne.symm hne

/-! ### Putting tokens together -/

/-- A token after those that are there. -/
def addToken (out tok : Str) : Str := (if out.isEmpty then out else out ++ [',']) ++ tok

/-- Tokens put together, `none` when the string grows too long. -/
def addTokens : Str → List Str → Option Str
  | out, [] => some out
  | out, tok :: rest =>
    if settingsOutCap ≤ utf8Len out + utf8Len tok + 2 then none
      else addTokens (addToken out tok) rest

/-- Tokens that were all added are joined by commas. -/
theorem addTokens_some {out r : Str} {toks : List Str} (h : addTokens out toks = some r) :
    r = toks.foldl addToken out := by
  induction toks generalizing out with
  | nil => exact (Option.some.inj h).symm
  | cons tok rest ih =>
    unfold addTokens at h
    split at h
    · exact (nomatch h)
    · exact ih h

/-- The tokens of a string that stay when a name is set. -/
def kept (name settings : Str) : List Str := (settingsTokens settings).filter fun t =>
  !(t.isEmpty || isToken name t)

/-- The writer's walk goes over the tokens the reader sees. By induction on the length of what is
left. -/
theorem settingsWithout_eq (name : Str) {n : Nat} {out p : Str} (hn : p.length ≤ n) :
    settingsWithout name n out p = addTokens out (kept name p) := by
  induction n generalizing out p with
  | zero =>
    obtain rfl := List.eq_nil_of_length_eq_zero (Nat.le_zero.mp hn)
    rfl
  | succ n ih =>
    by_cases hp : p = []
    · subst hp
      rfl
    have hshort : ((p.dropWhile (· != ',')).drop 1).length ≤ n := by
      have hdrop := (List.dropWhile_suffix (· != ',') (l := p)).length_le
      rw [List.length_drop]
      have hpos := List.length_pos_iff.mpr hp
      omega
    rw [settingsWithout, List.isEmpty_eq_false_iff.mpr hp, if_neg Bool.false_ne_true, kept,
      settingsTokens_cons hp, List.filter_cons]
    simp only [ih hshort]
    by_cases hgone : ((p.takeWhile (· != ',')).isEmpty || isToken name (p.takeWhile (· != ',')))
      = true
    · rw [if_pos hgone, if_neg (by rw [hgone]; decide)]
      rfl
    · have hstays : (!((p.takeWhile (· != ',')).isEmpty || isToken name (p.takeWhile (· != ','))))
        = true := by
        rw [Bool.eq_false_iff.mpr hgone]
        rfl
      rw [if_neg hgone, if_pos hstays]
      rfl

/-- Tokens that stand for themselves: not empty, without a comma. -/
def Proper (tok : Str) : Prop := tok ≠ [] ∧ ',' ∉ tok

/-- A token that was added leaves some text. -/
theorem addToken_ne_nil {out tok : Str} (h : tok ≠ []) : addToken out tok ≠ [] := by
  unfold addToken
  exact List.append_ne_nil_of_right_ne_nil _ h

/-- So do all that were. -/
theorem foldl_addToken_ne_nil {out : Str} {toks : List Str} (htoks : ∀ t ∈ toks, Proper t)
    (h : toks ≠ []) :
    toks.foldl addToken out ≠ [] := by
  rcases List.eq_nil_or_concat toks with rfl | ⟨init, t, rfl⟩
  · exact absurd rfl h
  · rw [List.concat_eq_append] at htoks ⊢
    rw [List.foldl_append]
    exact addToken_ne_nil (htoks t (List.mem_append_right _ List.mem_cons_self)).1

/-- The fields of what was put together are the tokens. -/
theorem splitOn_joined {toks : List Str} (htoks : ∀ t ∈ toks, Proper t) (h : toks ≠ []) :
    (toks.foldl addToken []).splitOn ',' = toks := by
  induction toks using List.reverseRecOn with
  | nil => exact absurd rfl h
  | append_singleton init t ih =>
    have hinit : ∀ x ∈ init, Proper x := fun x hx => htoks x (List.mem_append_left _ hx)
    have ht := htoks t (List.mem_append_right _ List.mem_cons_self)
    rw [List.foldl_append, List.foldl_cons, List.foldl_nil]
    by_cases hnil : init = []
    · subst hnil
      exact List.splitOn_eq_singleton ht.2
    · have hne : init.foldl addToken [] ≠ [] := foldl_addToken_ne_nil hinit hnil
      unfold addToken at hne ⊢
      rw [if_neg (by simpa using hne), List.append_assoc, List.singleton_append,
        List.splitOn_append_cons_self, List.splitOn_eq_singleton ht.2]
      exact congrArg (· ++ [t]) (ih hinit hnil)

/-- Joined tokens are read back as they were. Each must be a proper one: not empty and without a
comma. -/
theorem settingsTokens_joined {toks : List Str} (htoks : ∀ t ∈ toks, Proper t) :
    settingsTokens (toks.foldl addToken []) = toks := by
  by_cases h : toks = []
  · subst h
    rfl
  · unfold settingsTokens
    simp only [splitOn_joined htoks h]
    rw [if_neg]
    intro hlast
    exact (htoks [] (List.mem_of_getLast? hlast)).1 rfl

/-- The tokens that stay are proper. -/
theorem kept_proper (name settings : Str) : ∀ t ∈ kept name settings, Proper t := by
  intro t ht
  obtain ⟨hmem, hkeep⟩ := List.mem_filter.mp ht
  refine ⟨fun h => by subst h; exact absurd hkeep (by simp), ?_⟩
  have hsplit : t ∈ settings.splitOn ',' := by
    unfold settingsTokens at hmem
    simp only [] at hmem
    split at hmem
    · exact (List.dropLast_sublist _).subset hmem
    · exact hmem
  exact (mem_splitOn hsplit).2

/-! ### Setting a name -/

/-- The token of a value that is set. -/
def newToken (name : Str) (value : Option Str) : List Str := value.toList.map fun v =>
  name ++ '=' :: v

/-- A name and a value that may be set: neither is too long, and neither has a sign of the
string. -/
structure SettingOk (name : Str) (value : Option Str) : Prop where
  name : 1 ≤ utf8Len name ∧ utf8Len name ≤ 47 ∧ '=' ∉ name ∧ ',' ∉ name
  value : ∀ v ∈ value, utf8Len v ≤ 47 ∧ ',' ∉ v ∧ '|' ∉ v

/-- A setting has a name. -/
theorem SettingOk.ne_nil {name : Str} {value : Option Str} (h : SettingOk name value) :
    name ≠ [] := by
  rintro rfl
  exact absurd h.name.1 (by decide)

/-- Its token is a proper one. -/
theorem newToken_proper {name : Str} {value : Option Str} (h : SettingOk name value) :
    ∀ t ∈ newToken name value, Proper t := by
  intro t ht
  obtain ⟨v, hv, rfl⟩ := List.mem_map.mp ht
  obtain ⟨-, hcomma, -⟩ := h.value v (Option.mem_toList.mp hv)
  refine ⟨List.append_ne_nil_of_right_ne_nil _ (List.cons_ne_nil _ _), fun hmem => ?_⟩
  rcases List.mem_append.mp hmem with hmem | hmem
  · exact h.name.2.2.2 hmem
  · rcases List.mem_cons.mp hmem with heq | hmem
    · exact absurd heq (by decide)
    · exact hcomma hmem

/-- What the tokens that stay become with the new one, or why they become nothing. -/
def settingsMade (toks : List Str) (cap : Nat) (name : Str) (value : Option Str) :
    Except ModesStatus Str :=
  match addTokens [] toks, value with
  | none, _ => .error .tooLong
  | some out, none => if cap ≤ utf8Len out then .error .tooLong else .ok out
  | some out, some v =>
    if settingsOutCap ≤ utf8Len (addToken out (name ++ '=' :: v))
      ∨ cap ≤ utf8Len (addToken out (name ++ '=' :: v)) then
      .error .tooLong
    else .ok (addToken out (name ++ '=' :: v))

/-- The comma before the new token belongs to what is added. -/
theorem append_eq_addToken (out name v : Str) :
    out ++ ((if out.isEmpty then [] else [',']) ++ name ++ '=' :: v) = addToken out
      (name ++ '=' :: v) := by
  unfold addToken
  cases out with
  | nil => simp
  | cons c out => simp

/-- Only the tokens that stay matter. -/
theorem settingsSet_cases {settings name : Str} {value : Option Str} {cap : Nat} (hcap : cap ≠ 0)
    (h : SettingOk name value) :
    settingsSet settings cap name value =
      match settingsMade (kept name settings) cap name value with
      | .error st => (settings, st)
      | .ok out => (out, .ok) := by
  have hguard : (decide (cap = 0) || name.isEmpty || name.contains '=' || name.contains ','
      || value.any fun v => v.contains ',' || v.contains '|') = false := by
    have hval : (value.any fun v => v.contains ',' || v.contains '|') = false := by
      cases value with
      | none => rfl
      | some v =>
        obtain ⟨-, hcomma, hbar⟩ := h.value v rfl
        simp [hcomma, hbar]
    rw [hval]
    simp [hcap, h.ne_nil, h.name.2.2.1, h.name.2.2.2]
  unfold settingsSet settingsMade
  rw [hguard, if_neg Bool.false_ne_true, settingsWithout_eq name (Nat.le_refl _)]
  cases addTokens [] (kept name settings) with
  | none => rfl
  | some out =>
    cases value with
    | none =>
      simp only []
      split <;> rfl
    | some v =>
      simp only [← String.utf8Len_append, append_eq_addToken]
      by_cases hlong : settingsOutCap ≤ utf8Len (addToken out (name ++ '=' :: v))
      · rw [if_pos hlong, if_pos (.inl hlong)]
      · rw [if_neg hlong]
        by_cases hcapLong : cap ≤ utf8Len (addToken out (name ++ '=' :: v))
        · rw [if_pos hcapLong, if_pos (.inr hcapLong)]
        · rw [if_neg hcapLong, if_neg (not_or.mpr ⟨hlong, hcapLong⟩)]

/-- Only a text that is too long is refused. -/
theorem settingsMade_error {toks : List Str} {cap : Nat} {name : Str} {value : Option Str}
    {st : ModesStatus} (h : settingsMade toks cap name value = .error st) : st = .tooLong := by
  unfold settingsMade at h
  split at h
  · exact (Except.error.inj h).symm
  · split at h
    · exact (Except.error.inj h).symm
    · exact (nomatch h)
  · split at h
    · exact (Except.error.inj h).symm
    · exact (nomatch h)

/-- What is made is the tokens that stay and the new one. -/
theorem settingsMade_ok {toks : List Str} {cap : Nat} {name : Str}
    {value : Option Str} {out : Str} (h : settingsMade toks cap name value = .ok out) :
    out = (toks ++ newToken name value).foldl addToken [] := by
  rw [List.foldl_append]
  unfold settingsMade at h
  split at h
  · exact (nomatch h)
  · rename_i base hbase
    split at h
    · exact (nomatch h)
    · rw [← addTokens_some hbase]
      exact (Except.ok.inj h).symm
  · rename_i base v hbase
    split at h
    · exact (nomatch h)
    · rw [← addTokens_some hbase]
      exact (Except.ok.inj h).symm

/-- The token of a value is one of its name. -/
theorem isToken_new {name v : Str} (hname : '=' ∉ name) :
    isToken name (name ++ '=' :: v) = true :=
  (isToken_iff hname).mpr ⟨v, splitOnce_eq_some_iff.mpr ⟨rfl, hname⟩⟩

/-- Setting a name again keeps the same tokens, whatever the first value was. -/
theorem kept_made {settings name out : Str} {value : Option Str} {cap : Nat}
    (h : SettingOk name value)
    (hout : settingsMade (kept name settings) cap name value = .ok out) :
    kept name out = kept name settings := by
  have hproper : ∀ t ∈ kept name settings ++ newToken name value, Proper t := fun t ht =>
    (List.mem_append.mp ht).elim (kept_proper name settings t) (newToken_proper h t)
  have hnew : (newToken name value).filter (fun t => !(t.isEmpty || isToken name t)) = [] := by
    rw [List.filter_eq_nil_iff]
    intro t ht
    obtain ⟨v, -, rfl⟩ := List.mem_map.mp ht
    rw [isToken_new h.name.2.2.1, Bool.or_true]
    decide
  rw [settingsMade_ok hout]
  conv_lhs => rw [kept, settingsTokens_joined hproper, List.filter_append, hnew, List.append_nil]
  rw [kept, List.filter_filter]
  simp

/-! ### Reading -/

/-- The name that was set has the value that was set: its token is the last, and no other is of
that name. -/
theorem settingsGet_made {settings name out : Str} {value : Option Str} {cap : Nat}
    (h : SettingOk name value)
    (hout : settingsMade (kept name settings) cap name value = .ok out) :
    settingsGet out name = value := by
  have hproper : ∀ t ∈ kept name settings ++ newToken name value, Proper t := fun t ht =>
    (List.mem_append.mp ht).elim (kept_proper name settings t) (newToken_proper h t)
  have hnone : (kept name settings).find? (fun t => (settingPair t).1 == name) = none := by
    rw [List.find?_eq_none]
    intro t ht
    have hkeep := (List.mem_filter.mp ht).2
    have hno : isToken name t = false := by
      rw [Bool.not_eq_true', Bool.or_eq_false_iff] at hkeep
      exact hkeep.2
    simpa using settingPair_ne h.ne_nil h.name.2.2.1 hno
  rw [settingsMade_ok hout, settingsGet_eq, settingsTokens_joined hproper, List.find?_append,
    hnone, Option.none_or]
  cases value with
  | none => rfl
  | some v =>
    have hpair : settingPair (name ++ '=' :: v) = (name, v) := by
      have hcut : splitOnce '=' (name ++ '=' :: v) = some (name, v) :=
        splitOnce_eq_some_iff.mpr ⟨rfl, h.name.2.2.1⟩
      have hlen := h.name.2.1
      have hvlen := (h.value v rfl).1
      unfold settingPair
      rw [hcut]
      simp only []
      rw [if_pos]
      simp only [Bool.and_eq_true, Bool.not_eq_true', decide_eq_true_eq]
      exact ⟨⟨List.isEmpty_eq_false_iff.mpr h.ne_nil, by omega⟩, by omega⟩
    show (List.find? _ [name ++ '=' :: v]).map _ = some v
    rw [List.find?_cons_of_pos (by simp [hpair]), Option.map_some, hpair]

/-- Every other name has the value it had. -/
theorem settingsGet_made_ne {settings name other out : Str} {value : Option Str} {cap : Nat}
    (h : SettingOk name value) (hout : settingsMade (kept name settings) cap name value = .ok out)
    (hother : other ≠ []) (hne : other ≠ name) :
    settingsGet out other = settingsGet settings other := by
  have hproper : ∀ t ∈ kept name settings ++ newToken name value, Proper t := fun t ht =>
    (List.mem_append.mp ht).elim (kept_proper name settings t) (newToken_proper h t)
  -- a token that does not stay is not read for the other name
  have hgone : ∀ t, isToken name t = true → (settingPair t).1 ≠ other := by
    intro t ht heq
    rcases settingPair_isToken h.name.2.2.1 ht with hpair | hpair
    · exact hne (heq ▸ hpair)
    · exact hother (heq ▸ hpair)
  have hempty : (settingPair []).1 ≠ other := Ne.symm hother
  have hnew : (newToken name value).find? (fun t => (settingPair t).1 == other) = none := by
    rw [List.find?_eq_none]
    intro t ht
    obtain ⟨v, -, rfl⟩ := List.mem_map.mp ht
    simpa using hgone _ (isToken_new h.name.2.2.1)
  rw [settingsMade_ok hout, settingsGet_eq, settingsGet_eq, settingsTokens_joined hproper,
    List.find?_append, hnew, Option.or_none, kept, List.find?_filter]
  congr 2
  funext t
  by_cases hread : (settingPair t).1 = other
  · have hstays : (t.isEmpty || isToken name t) = false := by
      rw [Bool.or_eq_false_iff]
      refine ⟨List.isEmpty_eq_false_iff.mpr fun hnil => hempty (hnil ▸ hread), ?_⟩
      exact Bool.eq_false_iff.mpr fun htok => hgone t htok hread
    simp [hstays, hread]
  · simp [hread]

/-- Settings strings behave as a map. A set that succeeds is read back and leaves the other names;
a second set of the name makes the first one as if it had not been; a set that fails changes
nothing. -/
theorem settingsSet_map (settings : Str) (cap : Nat) {name : Str} {value : Option Str}
    (h : SettingOk name value) :
    ((settingsSet settings cap name value).2 = .ok →
        settingsGet (settingsSet settings cap name value).1 name = value
        ∧ (∀ other, other ≠ [] → other ≠ name →
            settingsGet (settingsSet settings cap name value).1 other
              = settingsGet settings other)
        ∧ ∀ last, SettingOk name last →
            (settingsSet (settingsSet settings cap name value).1 cap name last).2
            = (settingsSet settings cap name last).2
            ∧ ((settingsSet settings cap name last).2 = .ok →
                (settingsSet (settingsSet settings cap name value).1 cap name last).1
                = (settingsSet settings cap name last).1))
      ∧ ((settingsSet settings cap name value).2 ≠ .ok → (settingsSet settings cap name value).1
        = settings) := by
  by_cases hcap : cap = 0
  · have hbad : settingsSet settings cap name value = (settings, .badSetting) := by
      rw [settingsSet, hcap]
      rfl
    rw [hbad]
    exact ⟨fun heq => (nomatch heq), fun _ => rfl⟩
  rw [settingsSet_cases hcap h]
  cases hmade : settingsMade (kept name settings) cap name value with
  | error st =>
    refine ⟨fun heq => ?_, fun _ => rfl⟩
    rw [settingsMade_error hmade] at heq
    exact (nomatch heq)
  | ok out =>
    refine ⟨fun _ => ⟨settingsGet_made h hmade, fun other => settingsGet_made_ne h hmade,
      fun last hlast => ?_⟩, fun hne => absurd rfl hne⟩
    rw [settingsSet_cases hcap hlast, settingsSet_cases hcap hlast, kept_made h hmade]
    cases hlastMade : settingsMade (kept name settings) cap name last with
    | error st =>
      refine ⟨rfl, fun heq => ?_⟩
      rw [settingsMade_error hlastMade] at heq
      exact (nomatch heq)
    | ok _ => exact ⟨rfl, fun _ => rfl⟩

/-- A string with an empty token, a token without a value and the name twice. -/
theorem settingsSet_map_twice :
    settingsGet (settingsSet "bitch=1,,x,bitch=0,cycle=1".toList 512 "bitch".toList
      (some "0".toList)).1 "bitch".toList
        = some "0".toList
      ∧ settingsGet (settingsSet "bitch=1,,x,bitch=0,cycle=1".toList 512 "bitch".toList
        (some "0".toList)).1 "cycle".toList = settingsGet "bitch=1,,x,bitch=0,cycle=1".toList
        "cycle".toList := by
  have hok : SettingOk "bitch".toList (some "0".toList) :=
    ⟨by decide, fun v hv => by obtain rfl := Option.some.inj hv; decide⟩
  obtain ⟨hget, hother, -⟩ := (settingsSet_map "bitch=1,,x,bitch=0,cycle=1".toList 512 hok).1
    (by decide +kernel)
  exact ⟨hget, hother _ (by decide) (by decide)⟩

end IrcHub.Proofs
