import IrcHub.Hub.Modes

/-!
# `IrcHub.Hub.Settings`: writing one setting of a settings string

Writing one setting of a settings string, from `modes.rs`. A settings string is
`name=value,name=value`. `settingsGet` reads it token by token (`settingsPairs`); `settingsSet`
walks it on its own, leaves the tokens of the name out, and puts the new one last.

- `isToken`: whether a token is one of the name: its first `=` stands right after it
- `settingsWithout`: the tokens that are not empty and not of the name, after what is put together
- `settingsSet`: set a name, or remove it, in a string of some capacity. A refusal gives the
  string back as it was, with the reason

The string may be any text and not only one that `settingsCheck` takes: it may have empty tokens,
tokens without a value, and a name more than once. The writer and the reader are different walks,
and what they agree on for such strings is a theorem.
-/

set_option autoImplicit false

namespace IrcHub.Hub

open Str
open String (utf8Len)

/-- The longest string that is put together. -/
def settingsOutCap : Nat := cSettingsMax + 64

/-- Whether a token is one of the name: its first `=` stands right after it. -/
def isToken (name tok : Str) : Bool :=
  tok.contains '=' && utf8Len (tok.takeWhile (· != '=')) == utf8Len name && name.isPrefixOf tok

/-- The tokens of `p` that are not empty and not of the name, after `out`. `n` is no less than the
length of `p`. -/
def settingsWithout (name : Str) : Nat → Str → Str → Option Str
  | 0, out, _ => some out
  | n + 1, out, p =>
    if p.isEmpty then some out
    else
      let tok := p.takeWhile (· != ',')
      let rest := (p.dropWhile (· != ',')).drop 1
      if tok.isEmpty || isToken name tok then settingsWithout name n out rest
      else if settingsOutCap ≤ utf8Len out + utf8Len tok + 2 then none
      else settingsWithout name n ((if out.isEmpty then out else out ++ [',']) ++ tok) rest

/-- Set a name, or remove it (`none`), in a string of capacity `cap`. -/
def settingsSet (settings : Str) (cap : Nat) (name : Str) (value : Option Str) :
    Str × ModesStatus :=
  if cap = 0 || name.isEmpty || name.contains '=' || name.contains ','
      || value.any (fun v => v.contains ',' || v.contains '|') then (settings, .badSetting)
  else
    match settingsWithout name settings.length [] settings with
    | none => (settings, .tooLong)
    | some out =>
      match value with
      | none => if cap ≤ utf8Len out then (settings, .tooLong) else (out, .ok)
      | some v =>
        let add := (if out.isEmpty then [] else [',']) ++ name ++ '=' :: v
        if settingsOutCap ≤ utf8Len out + utf8Len add then (settings, .tooLong)
        else if cap ≤ utf8Len (out ++ add) then (settings, .tooLong)
        else (out ++ add, .ok)

example : settingsSet "a=1,,bb=2,a=3".toList 512 "a".toList (some "9".toList)
    = ("bb=2,a=9".toList, .ok) := by decide +kernel

end IrcHub.Hub
