import IrcHub.Ui.Build

/-!
# `IrcHub.Ui.Help`: lines the console lays out itself

Lines the console lays out itself: the blocks a line of output is built from (`title`, `cardLine`,
`okLines`, `errorLines`), the ASCII stand-ins of `display ascii`, and what `help` shows.

- `Ctx`: what a renderer needs to know of the session: its width, and whether it shows ASCII only
- `glyphs`, `ascii`: the characters above ASCII that the output uses, and a line with stand-ins
  for them. Any other character above ASCII becomes a mark for each cell it takes
- `fline`: a finished line. Blanks at its end never reach the screen
- `argLines`: the arguments of a command in two columns
- `helpCommand`, `helpGroup`, `helpGroups`, `showHelp`: the three levels of help

Help texts come from `IrcHub.Ui.Tables`, so what is shown was not typed by anybody. A line's
colour is left out: line mode has none.
-/

set_option autoImplicit false

namespace IrcHub.Console

open Terminal (Bytes)

/-! ### Glyphs -/

/-- The glyphs of the output, each with its ASCII stand-in. -/
def glyphs : List (String × String) :=
  [("─", "-"), ("●", "*"), ("○", "o"), ("◐", "~"), ("✓", "+"), ("✗", "x"), ("▲", "!"),
  ("•", "-"), ("…", "~"),
    ("·", "|"), ("→", "->"), ("├", "|"), ("└", "\x60"), ("│", "|"), ("—", "-"), ("×", "x"),
    ("█", "#"), ("░", "."), ("▾", "v"), ("?", "?")]

def gRule : Nat := 0
def gOn : Nat := 1
def gOff : Nat := 2
def gOk : Nat := 4
def gErr : Nat := 5
def gWarn : Nat := 6
def gBullet : Nat := 7
def gEll : Nat := 8
def gDot : Nat := 9
def gArrow : Nat := 10

/-- What a renderer needs to know of the session. -/
structure Ctx where
  width : Nat
  ascii : Bool

def glyph (c : Ctx) (g : Nat) : Bytes :=
  match glyphs[g]? with
  | none => b "?"
  | some (u, a) => if c.ascii then b a else b u

/-- The stand-in of the character at the start, `none` for an ASCII one, and how many bytes it
covers. -/
def asciiChar (s : Bytes) : Option Bytes × Nat :=
  let (len, w) := nextChar s
  if s.headD 0 < 0x80 then (none, len)
  else
    match glyphs.find? fun g => b g.1 == s.take len with
    | some g => (some (b g.2), len)
    | none => (some (if s.take len = b "←" then b "<-" else List.replicate (min w 2) 0x3f), len)

def asciiFrom : Nat → Bytes → Bytes
  | 0, _ => []
  | _ + 1, [] => []
  | n + 1, s =>
    let (r, len) := asciiChar s
    r.getD [s.headD 0] ++ asciiFrom n (s.drop (Nat.max len 1))

/-- A line with its glyphs replaced. -/
def ascii (s : Bytes) : Bytes := asciiFrom s.length s

/-! ### Lines -/

/-- A finished line: blanks at its end never reach the screen. -/
def fline (text : Bytes) : Bytes := text.rdropWhile isBlank

def blanks (n : Nat) : Bytes := List.replicate n 0x20

def rule (c : Ctx) (n : Nat) : Bytes := (List.replicate n (glyph c gRule)).flatten

/-- A title, with a note at its right end when there is room. -/
def title (c : Ctx) (text right : Bytes) : List Bytes :=
  let tw := strWidth text
  let rw := strWidth right
  let head := b " " ++ text ++ b " "
  let taken := tw + 2 + (if rw = 0 then 0 else rw + 1)
  if taken + 3 ≤ c.width then
    [fline (head ++ rule c (c.width - taken) ++ (if rw = 0 then [] else b " " ++ right))]
  else
    fline (head ++ rule c (max (c.width - (tw + 2)) 3))
      :: (if rw = 0 then [] else [fline (b "  " ++ right)])

/-- A result, what it is about, and what follows from it. -/
def okLines (c : Ctx) (what : Bytes) (subject effect : Option Bytes) : List Bytes :=
  let head := b " " ++ glyph c gOk ++ b " " ++ what
  fline (match subject.filter (!·.isEmpty) with
    | some sub => head ++ b "   " ++ sub
    | none => head)
    :: (effect.toList.map fun e => fline (cCut (b "   " ++ glyph c gBullet ++ b " " ++ e) 256))

/-- A refusal, with a hint. -/
def errorLines (c : Ctx) (msg : Bytes) (hint : Option Bytes) : List Bytes :=
  fline (b " " ++ glyph c gErr ++ b " " ++ (if msg.isEmpty then b "failed" else msg))
    :: ((hint.filter (!·.isEmpty)).toList.map fun h => fline (b "   hint  " ++ h))

/-- A label and a value. -/
def cardLine (labelW : Nat) (label value : Bytes) : Bytes :=
  let head := b "  " ++ label
  fline (head ++ blanks (2 + labelW + 2 - strWidth head) ++ value)

/-! ### Help -/

/-- The commands a flag allows. -/
def flagCmds (f : Char) : Bytes :=
  let rows := cmdFlags.filter fun r => if r.2.2 == "a/o" then f = 'a' || f = 'o'
    else r.2.2.toList == [f]
  (rows.foldl (fun acc r =>
    let out := if acc.1 = some r.1 then acc.2 ++ b ", " ++ b r.2.1
      else acc.2 ++ (if acc.2.isEmpty then [] else b " · ") ++ b r.1 ++ b " " ++ b r.2.1
    (some r.1, out)) ((none : Option String), ([] : Bytes))).2

/-- The name of an argument: what stands before a line's tab. -/
def argName (l : Bytes) : Bytes := if l.contains 0x09 then l.takeWhile (· != 0x09) else []

/-- What a line of arguments says, without the name and its tab. -/
def argText (l : Bytes) : Bytes := if (argName l).isEmpty then l
    else l.drop ((argName l).length + 1)

/-- The arguments in two columns: a long name puts its text on the next line. -/
def argLines (lines : List Bytes) : List Bytes :=
  let nw := (lines.map fun l => (argName l).length).foldl
    (fun nw w => if nw < w && w ≤ 16 then w else nw) 0
  lines.flatMap fun l =>
    let name := argName l
    let text := argText l
    if name.length ≤ nw then
      [fline (cCut (b "   " ++ name ++ blanks (nw - name.length) ++ b "  " ++ text) 1024)]
    else
      [fline (cCut (b "   " ++ name) 1024),
      fline (cCut (b "   " ++ blanks nw ++ b "  " ++ text) 1024)]

/-- The line on the flag a command needs. -/
def needsLine (d : CmdDef) (fl : String) : Bytes :=
  let word := b (flagWord (fl.toList.headD '?'))
  if fl == "a/o" then
    b "   needs +a for an admin, +o for an oper"
      ++ (if d.sub == some "set" then b " (your own key: none)" else [])
  else if cmdFlagDual d then b "   changing needs +" ++ b fl ++ b " (" ++ word ++ b
    "); viewing needs none"
  else b "   needs +" ++ b fl ++ b " (" ++ word ++ b ")"

/-- What each admin flag allows. -/
def flagLines : List Bytes :=
  b " Admin flags: letter, name, what it lets the admin change"
    :: "abchou".toList.map (fun l =>
      if l = 'a' then
        b "   +a  " ++ padBytes (b (flagWord 'a')) 10 ++ b " every command; only +a: "
          ++ flagCmds l ++ b " on an admin"
      else
        b "   +" ++ Terminal.encode [l] ++ b "  " ++ padBytes (b (flagWord l)) 10 ++ b
          " " ++ flagCmds l ++ (if l = 'o' then b " on an oper" else []))
    ++ [b "   no flag        log in, view everything, set your own key",
      b "   letters combine (+chu); +a covers them all"]

/-- Every setting, its built-in value and what it does. -/
def settingLines (net : Bool) : List Bytes :=
  b " Settings: name, built-in default, what it does"
    :: (setInfo.filter fun s => s.2.2.2 == net).map fun s =>
      b "   " ++ padBytes (b s.1) 13 ++ b " " ++ padBytes (b s.2.1) 8 ++ b " " ++ b s.2.2.1

/-- One command in full. -/
def helpCommand (c : Ctx) (d : CmdDef) : List Bytes :=
  let entry := (cmdHelp.filter fun h => h.1 == d.cmd && h.2.1 == d.sub).getLast?
  let conf := match d.confirm with
    | .yn => b "asks y/N"
    | .type => b "type to confirm"
    | .none => []
  let right := if d.sub.isSome then
      conf ++ (if conf.isEmpty then [] else b " · ") ++ b "help " ++ b d.cmd ++ b " for the group"
    else conf
  let line (l : Bytes) : Bytes := fline (cCut l 1024)
  title c (cCut (cmdWords d) 32) (cCut right 64)
    ++ [line (b "   " ++ b d.usage), line (b "   " ++ b d.help)]
    ++ (cmdFlag d).toList.map (fun fl => line (needsLine d fl))
    ++ (match entry.bind (·.2.2.1) with
      | some args => [[], fline (b " Arguments")] ++ argLines (args.map b)
      | none => [fline (b "   (no arguments)")])
    ++ (if (d.cmd == "bot" && d.sub == some "set") || (d.cmd == "channel" && d.sub == some "set")
      then
        [] :: (settingLines (d.cmd == "bot")).map line else [])
    ++ (if d.cmd == "user" && (d.sub == some "add" || d.sub == some "set")
      then [] :: flagLines.map line else [])
    ++ (match entry.map (·.2.2.2) with
      | some ex => [[], fline (if 1 < ex.length then b " Examples" else b " Example")]
          ++ ex.map fun l => line (b "   " ++ b l)
      | none => [])

/-- The commands of a group. -/
def helpGroup (c : Ctx) (topic : Bytes) : List Bytes :=
  let ds := cmds.filter fun d => eqIc topic (b d.cmd)
  let uw := min ((ds.map fun d => strWidth (b d.usage)).foldl max 0) 34
  let right := num ds.length ++ b " command" ++ (if ds.length = 1 then [] else b "s") ++ b
    " " ++ glyph c gDot ++ b " help " ++ topic ++ b " <command> for one"
  title c topic (cCut right 96) ++ ds.flatMap fun d =>
    let w := strWidth (b d.usage)
    let hx := cCut (b d.help ++ (match cmdFlag d with
      | none => []
      | some fl => if fl == "a/o" then b "  [+a|+o]" else b "  [+" ++ b fl ++ b "]")) 320
    (if w ≤ uw && 1 + uw + 2 + strWidth hx ≤ c.width then
      [fline (cCut (b " " ++ b d.usage ++ blanks (uw - w) ++ b "  " ++ hx) 512)]
    else
      [fline (cCut (b " " ++ b d.usage) 512),
      fline (cCut (b " " ++ blanks uw ++ b "  " ++ hx) 512)])
    ++ d.args.toList.map fun a => fline (cCut (b " " ++ blanks uw ++ b "  " ++ b a) 512)

/-- The groups of commands. -/
def helpGroups (c : Ctx) (lineMode : Bool) : List Bytes :=
  let dot := glyph c gDot
  let sep := b " " ++ dot ++ b " "
  title c (b "Commands")
    (num groups.length ++ b " groups " ++ dot ++ b " help <group> for its commands")
    ++ groups.flatMap (fun g =>
      let verbs := (cmds.filter fun d => d.cmd == g.1).filterMap (·.sub)
      let joined := ((verbs.map b).intersperse sep).flatten
      let l := cCut (b "   " ++ padBytes (b g.1) 9 ++ b " " ++ padBytes (b g.2) 22 ++ b
        " " ++ joined) 512
      if strWidth l ≤ c.width then [fline l]
      else
        [fline (b "   " ++ padBytes (b g.1) 9 ++ b " " ++ b g.2),
        fline (cCut (b "             " ++ joined) 512)])
    ++ [fline (b "   help [group [command]] " ++ dot ++ b " ? [group [command]] " ++ dot
    ++ b " quit")] ++ (if lineMode then []
      else [[], b " Keys  Alt+1..5 views, Alt+Left/Right cycle, F2 log level, F3 tree pane,",
        b "       PgUp/PgDn/End scroll, Tab completes, Up/Down history, Ctrl-C cancels"])

/-- `help`, `help <group>` and `help <group> <command>`. -/
def showHelp (c : Ctx) (lineMode : Bool) (topic : Option Bytes) (one : Option CmdDef) :
    List Bytes :=
  match one, topic with
  | some d, _ => helpCommand c d
  | none, some t => helpGroup c t
  | none, none => helpGroups c lineMode

end IrcHub.Console
