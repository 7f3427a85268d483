import IrcHub.Hub.Upgrade

/-!
# `IrcHub.Hub.Update`: release manifests, their URLs, and the way to a release

Release manifests, their URLs, and the way to a release, from `update.rs` and `upgrade.rs`. A
release manifest is a text with a row for each artifact. A hub takes an artifact only from an URL
it trusts (`validateUrl`), and a node that is too old for a release goes there in steps
(`planPath`), each one the newest release that may be installed over the one before
(`nextStepIn`).

- `urlHostTrusted`: an https URL whose host is one of the release hosts. The host ends at the
  first of the characters `hostEnds`
- `validateUrl`: that, and nothing a shell would take for its own
- `ManifestRow`, `parseRow`: a row, with the columns the way to a release needs, and the caps of
  all
- `nextStepIn`: of the rows of the right kind, the newest that goes forward, not past the target,
  and may be installed over the version at hand
- `planPath`: the steps to a target, each one as `next` says, up to a number of them. It stops
  with an error when there is no next step

Versions are compared by `strverscmp`, in `IrcHub.Hub.Upgrade`.

Left out: the fetch of a manifest and its signature, the choice of an artifact for this host, and
the installation.
-/

set_option autoImplicit false

namespace IrcHub.Hub

open Str
open String (utf8Len)

/-! ### URLs -/

/-- The text after a prefix. -/
def stripPrefix (p s : Str) : Option Str :=
  if p.isPrefixOf s then some (s.drop p.length) else none

/-- The characters that end the host of an URL. -/
def hostEnds : Str := "/:?#@".toList

/-- An https URL whose host is one of the release hosts. -/
def urlHostTrusted (url : Str) : Bool :=
  match stripPrefix "https://".toList url with
  | none => false
  | some rest =>
    let host := rest.takeWhile (!hostEnds.contains ·)
    if (rest.dropWhile (!hostEnds.contains ·)).head? = some '@' then false
    else
      let host := lower host
      host == "github.com".toList || host == "githubusercontent.com".toList
        || ".githubusercontent.com".toList.isSuffixOf host

/-- The characters a shell would take for its own. -/
def shellChars : Str := [';', '|', '&', '\x60', '$']

/-- Whether an artifact may come from an URL. A build with test hooks may name a `base` of its
own. -/
def validateUrl (base : Option Str) (url : Str) : Bool :=
  if url.any shellChars.contains then false
  else if base.any (·.isPrefixOf url) then true
  else urlHostTrusted url

/-! ### Manifests -/

/-- A row of a release manifest. -/
structure ManifestRow where
  version : Str
  minFrom : Str
  deriving Repr, DecidableEq

/-- White space, as the standard library has it. -/
def isWhiteSpace (c : Char) : Bool :=
  let n := c.toNat
  (9 ≤ n && n ≤ 13) || n == 0x20 || n == 0x85 || n == 0xa0 || n == 0x1680
  || (0x2000 ≤ n && n ≤ 0x200a)
    || n == 0x2028 || n == 0x2029 || n == 0x202f || n == 0x205f || n == 0x3000

def splitWhitespace (s : Str) : List Str := (s.splitOnP isWhiteSpace).filter (!·.isEmpty)

/-- How long the columns of a row may be. -/
def rowCaps : List Nat := [63, 63, 511, 127, 255, 7, 31, 15, 63, 255]

/-- A row of a manifest. Only the columns that the way to a release needs are kept: the version,
and the ninth, the oldest release it may be installed over. -/
def parseRow (line : Str) : Option ManifestRow :=
  let f := splitWhitespace line
  if f.length < 5 || (f.zip rowCaps).any (fun p => utf8Len p.1 > p.2) then none
  else some { version := f.headD [], minFrom := f.getD 8 ['*'] }

/-- The rows of a manifest. A line that starts with a hash sign is a comment. -/
def manifestRows (manifest : Str) : List ManifestRow :=
  ((manifest.splitOn '\n').filter fun l => !l.isEmpty && l.head? != some '#').filterMap parseRow

/-! ### The way to a release -/

abbrev maxUpgradeSteps : Nat := 16

/-- The steps from a version on, after those of `path`, with `room` for more. -/
def planFrom (next : Str → Str → Except Str Str) (start target : Str) :
    Nat → List Str → Str → Except Str (List Str)
  | room, path, cur =>
    if versionCmp cur target != .lt then .ok path
    else
      match next cur target with
      | .error e =>
        if path.isEmpty then .ok [target]
        else .error ("no step from ".toList ++ cur ++ " towards ".toList ++ target
          ++ ": ".toList ++ e)
      | .ok s =>
        let step := stripVersionV s
        if versionCmp step cur != .gt then
          .error ("no release in the manifest can be installed over ".toList ++ cur)
        else
          match room with
          | 0 => .error ("the path from ".toList ++ start ++ " to ".toList ++ target
              ++ " takes more than 16 steps — upgrade to an intermediate release first".toList)
          | room + 1 => planFrom next start target room (path ++ [step]) step

/-- The steps from a version to a target, each one as `next` says. -/
def planPath (next : Str → Str → Except Str Str) (start target : Str) : Except Str (List Str) :=
  if start.isEmpty then .ok [target] else planFrom next start target maxUpgradeSteps [] start

/-- The newest release that goes forward, not past the target, and may be installed over a
version. -/
def nextStepIn (rows : List ManifestRow) (cur target : Str) : Option Str :=
  rows.foldl (fun best row =>
    if versionCmp row.version cur != .gt then best
    else if versionCmp row.version target == .gt then best
    else if row.minFrom != ['*'] && versionCmp cur row.minFrom == .lt then best
    else if best.all fun b => versionCmp row.version b == .gt then some row.version
    else best) none

/-- The next step as a manifest says that was read. -/
def nextStepRead (manifest : Str) (cur target : Str) : Except Str Str :=
  if target.isEmpty then .error "no target version".toList
  else
    match nextStepIn (manifestRows manifest) cur target with
    | some v => .ok v
    | none => .error ("no release in the manifest can be installed over ".toList ++ cur)

end IrcHub.Hub
