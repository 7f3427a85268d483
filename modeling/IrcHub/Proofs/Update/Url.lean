import IrcHub.Hub.Update
import Mathlib.Data.List.TakeWhile

/-!
# `IrcHub.Proofs.Update.Url`: whose URLs a hub trusts

`urlHostTrusted` looks for the first of five delimiters; an URL has an authority first, and its
userinfo, host and port lie in that. `rfcParse` reads an URL this way.

* `urlHostTrusted_iff`: what the check accepts
* `rfcAuthority_plain`, `rfcAuthority_user`: the authority of an URL with and without a userinfo
* `rfcTrusted_of_accepted`, `accepted_of_portBeforeUser`: an accepted URL leads to a release host,
  unless a port colon comes before the `@` of a userinfo; and then it leads elsewhere
* `validateUrl_exact`: the two as one equivalence
* `other_host_accepted`: such an URL

The userinfo ends at the last `@` of the authority, so everything before that one belongs to it,
the colon as well. The check of the source stops at the colon and never sees the `@`.
-/

set_option autoImplicit false

namespace IrcHub.Proofs

open IrcHub.Hub Str

/-! ### URLs as they are defined -/

/-- The parts of an URL that say where it leads. -/
structure RfcUrl where
  scheme : Str
  userinfo : Option Str
  host : Str
  deriving Repr, DecidableEq

/-- The characters that end an authority. -/
def authorityEnds : Str := "/?#".toList

/-- The host of an authority without its userinfo: up to the colon of a port. -/
def hostOf (s : Str) : Str := s.takeWhile (· != ':')

/-- The userinfo of an authority, which ends at its last `@`, and its host. -/
def rfcAuthority (authority : Str) : Option Str × Str :=
  match rsplitOnce '@' authority with
  | some (user, host) => (some user, hostOf host)
  | none => (none, hostOf authority)

/-- The scheme of an URL, and what its authority says. -/
def rfcParse (url : Str) : Option RfcUrl :=
  match splitOnce ':' url with
  | some (scheme, '/' :: '/' :: rest) =>
    let p := rfcAuthority (rest.takeWhile (!authorityEnds.contains ·))
    some ⟨scheme, p.1, p.2⟩
  | _ => none

/-- One of the release hosts, or a name under the one that has such names. Case does not
matter. -/
def ReleaseHost (host : Str) : Prop :=
  lower host = "github.com".toList ∨ lower host = "githubusercontent.com".toList
    ∨ ".githubusercontent.com".toList <:+ lower host

/-- An https URL of a release host, and of nobody at it. -/
def RfcTrusted (url : Str) : Prop := ∃ host, rfcParse url = some ⟨"https".toList, none, host⟩
    ∧ ReleaseHost host

/-- An URL without shell characters whose authority is a release host, a colon, and an `@` later
on. The `@` is still in the authority, as nothing that ends one is before it. -/
def PortBeforeUser (url : Str) : Prop :=
  (∀ c ∈ url, c ∉ shellChars)
  ∧ ∃ host pw rest, url = "https://".toList ++ (host ++ ':' :: (pw ++ '@' :: rest))
    ∧ (∀ c ∈ host, c ∉ hostEnds) ∧ (∀ c ∈ pw, c ∉ authorityEnds) ∧ ReleaseHost host

/-! ### Up to the first delimiter -/

variable {url host rest tail : Str} {ends : Str}

/-- A host ends where the rest starts with one of the ends. -/
theorem takeWhile_ends (hhost : ∀ c ∈ host, c ∉ ends) (htail : ∀ c ∈ tail.head?, c ∈ ends) :
    (host ++ tail).takeWhile (!ends.contains ·) = host
    ∧ (host ++ tail).dropWhile (!ends.contains ·) = tail := by
  have hall : ∀ c ∈ host, (!ends.contains c) = true := fun c hc => by simp [hhost c hc]
  rw [List.takeWhile_append_of_pos hall, List.dropWhile_append_of_pos hall]
  cases tail with
  | nil => exact ⟨List.append_nil _, rfl⟩
  | cons c t =>
    have hc : (!ends.contains c) = false := by simp [htail c rfl]
    rw [List.takeWhile_cons, List.dropWhile_cons, hc]
    exact ⟨List.append_nil _, rfl⟩

/-- A text is what comes before the first delimiter, and the rest. -/
theorem split_ends (ends rest : Str) : ∃ host tail, rest = host ++ tail ∧ (∀ c ∈ host, c ∉ ends)
    ∧ ∀ c ∈ tail.head?, c ∈ ends := by
  refine ⟨rest.takeWhile (!ends.contains ·), rest.dropWhile (!ends.contains ·),
    List.takeWhile_append_dropWhile.symm, fun c hc => ?_, fun c hc => ?_⟩
  · simpa using List.mem_takeWhile_imp hc
  · have := List.head?_dropWhile_not (!ends.contains ·) rest
    rw [hc] at this
    simpa using this

/-! ### The two readings -/

/-- The parts of a URL of this scheme. -/
theorem rfcParse_https (rest : Str) : rfcParse ("https://".toList ++ rest)
    = some ⟨"https".toList, (rfcAuthority (rest.takeWhile (!authorityEnds.contains ·))).1,
      (rfcAuthority (rest.takeWhile (!authorityEnds.contains ·))).2⟩ := by
  have hsplit : splitOnce ':' ("https://".toList ++ rest) = some
    ("https".toList, '/' :: '/' :: rest) :=
    splitOnce_eq_some_iff.mpr ⟨rfl, by decide⟩
  unfold rfcParse
  rw [hsplit]
  rfl

/-- An authority without the sign of a user is a host. -/
theorem rfcAuthority_plain {authority : Str} (hat : '@' ∉ authority) :
    rfcAuthority authority = (none, hostOf authority) := by
  unfold rfcAuthority
  rw [rsplitOnce_eq_none_iff.mpr hat]

/-- An `@` makes a userinfo. -/
theorem rfcAuthority_user {authority : Str} (hat : '@' ∈ authority) :
    (rfcAuthority authority).1 ≠ none := by
  unfold rfcAuthority
  cases hsplit : rsplitOnce '@' authority with
  | none => exact absurd hat (rsplitOnce_eq_none_iff.mp hsplit)
  | some p => exact Option.some_ne_none _

/-- What `urlHostTrusted` accepts: a release host up to a delimiter other than an `@`. -/
theorem urlHostTrusted_iff : urlHostTrusted url = true
    ↔ ∃ host tail, url = "https://".toList ++ (host ++ tail)
    ∧ (∀ c ∈ host, c ∉ hostEnds) ∧ (∀ c ∈ tail.head?, c ∈ hostEnds ∧ c ≠ '@')
    ∧ ReleaseHost host := by
  unfold urlHostTrusted stripPrefix
  constructor
  · intro h
    split at h
    · cases h
    rename_i rest hrest
    split at hrest
    · rename_i hprefix
      cases hrest
      obtain ⟨r, rfl⟩ := List.isPrefixOf_iff_prefix.mp hprefix
      rw [List.drop_left] at h
      obtain ⟨host, tail, rfl, hhost, htail⟩ := split_ends hostEnds r
      obtain ⟨htake, hdrop⟩ := takeWhile_ends hhost htail
      rw [htake, hdrop] at h
      split at h
      · cases h
      rename_i hat
      simp only [Bool.or_eq_true, beq_iff_eq, List.isSuffixOf_iff_suffix, or_assoc] at h
      exact ⟨host, tail, rfl, hhost, fun c hc => ⟨htail c hc, fun heq => hat (heq ▸ hc)⟩, h⟩
    · cases hrest
  · rintro ⟨host, tail, rfl, hhost, htail, htrust⟩
    obtain ⟨htake, hdrop⟩ := takeWhile_ends hhost fun c hc => (htail c hc).1
    rw [if_pos (List.isPrefixOf_iff_prefix.mpr (List.prefix_append ..)), List.drop_left]
    dsimp only
    rw [htake, hdrop, if_neg fun hat : tail.head? = some '@' => (htail '@' hat).2 rfl]
    simp only [Bool.or_eq_true, beq_iff_eq, List.isSuffixOf_iff_suffix, or_assoc]
    exact htrust

/-- A URL passes when it has none of the shell's characters and its host is trusted. -/
theorem validateUrl_iff : validateUrl none url = true ↔ (∀ c ∈ url, c ∉ shellChars)
    ∧ urlHostTrusted url = true := by
  unfold validateUrl
  rw [Option.any_none, if_neg Bool.false_ne_true]
  by_cases hshell : url.any shellChars.contains = true
  · rw [if_pos hshell]
    obtain ⟨c, hc, hin⟩ := List.any_eq_true.mp hshell
    refine ⟨fun hno => (Bool.false_ne_true hno).elim, fun h => ?_⟩
    exact absurd (List.contains_iff_mem.mp hin) (h.1 c hc)
  · rw [if_neg hshell]
    refine (and_iff_right fun c hc hin => hshell ?_).symm
    exact List.any_eq_true.mpr ⟨c, hc, List.contains_iff_mem.mpr hin⟩

/-- A host without a port is itself. -/
theorem hostOf_of_not_mem (hcolon : ':' ∉ host) : hostOf host = host := by
  refine List.takeWhile_eq_self_iff.mpr fun c hc => ?_
  simp only [bne_iff_ne, ne_eq]
  exact fun heq => hcolon (heq ▸ hc)

/-- A port is not part of the host. -/
theorem hostOf_port (hcolon : ':' ∉ host) (port : Str) : hostOf (host ++ ':' :: port) = host := by
  unfold hostOf
  rw [List.takeWhile_append_of_pos fun c hc => ?_, List.takeWhile_cons]
  · exact List.append_nil _
  · simp only [bne_iff_ne, ne_eq]
    exact fun heq => hcolon (heq ▸ hc)

/-- The delimiters of an authority are among those of a host. -/
theorem notMem_authorityEnds (hhost : ∀ c ∈ host, c ∉ hostEnds) :
    (∀ c ∈ host, c ∉ authorityEnds) ∧ ':' ∉ host ∧ '@' ∉ host := by
  refine ⟨fun c hc hin => hhost c hc ?_, fun hin => hhost _ hin (by decide), fun hin =>
    hhost _ hin (by decide)⟩
  have hsub : authorityEnds ⊆ hostEnds := by decide
  exact hsub hin

/-- Where the first delimiter is not a colon, the host is the whole authority. -/
theorem rfcTrusted_of_no_port (hhost : ∀ c ∈ host, c ∉ hostEnds)
    (htail : ∀ c ∈ tail.head?, c ∈ authorityEnds) (htrust : ReleaseHost host) :
    RfcTrusted ("https://".toList ++ (host ++ tail)) := by
  obtain ⟨hplain, hcolon, hat⟩ := notMem_authorityEnds hhost
  refine ⟨host, ?_, htrust⟩
  rw [rfcParse_https, (takeWhile_ends hplain htail).1, rfcAuthority_plain hat,
    hostOf_of_not_mem hcolon]

/-- The authority of an URL with a port. -/
theorem authority_port (hhost : ∀ c ∈ host, c ∉ hostEnds) (port : Str)
    (hport : ∀ c ∈ port, c ∉ authorityEnds) (htail : ∀ c ∈ tail.head?, c ∈ authorityEnds) :
    (host ++ ':' :: (port ++ tail)).takeWhile (!authorityEnds.contains ·) = host ++ ':'
    :: port := by
  have hall : ∀ c ∈ host ++ ':' :: port, c ∉ authorityEnds := by
    intro c hc
    rcases List.mem_append.mp hc with hc | hc
    · exact (notMem_authorityEnds hhost).1 c hc
    · rcases List.mem_cons.mp hc with rfl | hc
      · decide
      · exact hport c hc
  rw [← List.cons_append, ← List.append_assoc, (takeWhile_ends hall htail).1]

/-- An accepted URL is one of a release host and has no userinfo, unless the colon of a port comes
first. -/
theorem rfcTrusted_of_accepted (hok : validateUrl none url = true) (hno : ¬ PortBeforeUser url) :
    RfcTrusted url := by
  obtain ⟨hshell, hurl⟩ := validateUrl_iff.mp hok
  obtain ⟨host, tail, rfl, hhost, htail, htrust⟩ := urlHostTrusted_iff.mp hurl
  cases tail with
  | nil => exact rfcTrusted_of_no_port hhost (fun c hc => nomatch hc) htrust
  | cons d t =>
    obtain ⟨hd, hat⟩ := htail d rfl
    by_cases hcolon : d = ':'
    · subst hcolon
      obtain ⟨port, rest, rfl, hport, hrest⟩ := split_ends authorityEnds t
      obtain ⟨-, hcolon, hathost⟩ := notMem_authorityEnds hhost
      refine ⟨host, ?_, htrust⟩
      rw [rfcParse_https, authority_port hhost port hport hrest, rfcAuthority_plain ?_,
        hostOf_port hcolon]
      intro hmem
      rcases List.mem_append.mp hmem with hmem | hmem
      · exact hathost hmem
      obtain ⟨pw, more, hpw⟩ :=
        List.append_of_mem ((List.mem_cons.mp hmem).resolve_left (by decide))
      refine hno ⟨hshell, host, pw, more ++ rest, ?_, hhost, fun c hc => hport c ?_, htrust⟩
      · rw [hpw, List.append_assoc, List.cons_append]
      · rw [hpw]
        exact List.mem_append_left _ hc
    · refine rfcTrusted_of_no_port hhost (fun c hc => ?_) htrust
      cases hc
      simp only [hostEnds, String.reduceToList, List.mem_cons, List.not_mem_nil, or_false] at hd
      simp only [authorityEnds, String.reduceToList, List.mem_cons, List.not_mem_nil, or_false]
      tauto

/-- Behind the colon of a port an `@` is not seen. -/
theorem accepted_of_portBeforeUser (h : PortBeforeUser url) : validateUrl none url = true
    ∧ ¬ RfcTrusted url := by
  obtain ⟨hshell, host, pw, rest, rfl, hhost, hpw, htrust⟩ := h
  refine ⟨validateUrl_iff.mpr
    ⟨hshell, urlHostTrusted_iff.mpr ⟨host, _, rfl, hhost, fun c hc => ?_, htrust⟩⟩, ?_⟩
  · cases hc
    decide
  rintro ⟨host', hparse, -⟩
  obtain ⟨more, tail, rfl, hmore, htail⟩ := split_ends authorityEnds rest
  have hall : ∀ c ∈ pw ++ '@' :: more, c ∉ authorityEnds := by
    intro c hc
    rcases List.mem_append.mp hc with hc | hc
    · exact hpw c hc
    · rcases List.mem_cons.mp hc with rfl | hc
      · decide
      · exact hmore c hc
  have hshape : pw ++ '@' :: (more ++ tail) = (pw ++ '@' :: more) ++ tail := by
    rw [List.append_assoc, List.cons_append]
  rw [rfcParse_https, hshape, authority_port hhost _ hall htail] at hparse
  have hmem : '@' ∈ host ++ ':' :: (pw ++ '@' :: more) :=
    List.mem_append_right _ (List.mem_cons_of_mem _ (List.mem_append_right _ List.mem_cons_self))
  exact rfcAuthority_user hmem (congrArg RfcUrl.userinfo (Option.some.inj hparse))

/-- An URL that is accepted has the scheme https, a release host and no userinfo, exactly where
its authority is not a release host with a colon and an `@` after it. -/
theorem validateUrl_exact (url : Str) : (validateUrl none url = true → RfcTrusted url)
    ↔ ¬ PortBeforeUser url := by
  constructor
  · intro h hport
    obtain ⟨hok, hno⟩ := accepted_of_portBeforeUser hport
    exact hno (h hok)
  · exact fun hno hok => rfcTrusted_of_accepted hok hno

/-- An URL of another host, with the name of a release host for its user. -/
theorem other_host_accepted :
    validateUrl none "https://github.com:x@evil.example/a.tar.gz".toList = true
      ∧ rfcParse "https://github.com:x@evil.example/a.tar.gz".toList
        = some ⟨"https".toList, some "github.com:x".toList, "evil.example".toList⟩
      ∧ ¬ RfcTrusted "https://github.com:x@evil.example/a.tar.gz".toList := by
  have hparse : rfcParse "https://github.com:x@evil.example/a.tar.gz".toList
      = some ⟨"https".toList, some "github.com:x".toList, "evil.example".toList⟩ := by
        decide +kernel
  refine ⟨by decide +kernel, hparse, ?_⟩
  rintro ⟨host, hno, -⟩
  rw [hparse] at hno
  cases hno

end IrcHub.Proofs
