import Discharge.Cli.Arguments

/-!
# Help

The help on a tool or a command: what it does, how it is called, and a table
for each kind of argument. In a table the descriptions stand beside the names,
or below them in long form.
-/

namespace Discharge.Cli

/-- A text with blanks after it, up to a width. -/
def padRight (width : Nat) (s : String) : String :=
  s ++ "".pushn ' ' (width - s.length)

/-- A line of a table: a name and its description. -/
structure Entry where
  name : String
  about : String

namespace Entry

/-- The width of the names of a table. -/
def widest (entries : List Entry) : Nat :=
  (entries.map (·.name.length)).foldl max 0

/-- The lines of a table. In long form the descriptions stand below the names,
with empty lines between the entries. -/
def table (long : Bool) (entries : List Entry) : String :=
  if long then
    "\n\n".intercalate (entries.map fun e => "  " ++ e.name ++ "\n          " ++ e.about)
  else
    "\n".intercalate (entries.map fun e =>
      "  " ++ padRight (widest entries) e.name ++ "  " ++ e.about)

/-- A table under its heading. -/
def titled (long : Bool) (heading : String) (entries : List Entry) : List String :=
  if entries.isEmpty then [] else [heading ++ ":\n" ++ table long entries]

end Entry

/-- The names of an option, and of what it takes. -/
def Flag.usage (f : Flag) : String :=
  let short := match f.short with
    | some c => "-" ++ c.toString ++ ", "
    | none => "    "
  let takes := match f.arity with
    | .value name | .values name => " <" ++ name ++ ">"
    | .optionalValue name _ => " [<" ++ name ++ ">]"
    | .counter => "..."
    | .switch | .help | .version => ""
  short ++ "--" ++ f.long ++ takes

/-- A parameter as it stands in a call. -/
def Parameter.usage (p : Parameter) : String :=
  if p.required then "<" ++ p.name ++ ">" else "[" ++ p.name ++ "]"

/-- The key by which options of one rank are sorted. -/
def Flag.sortKey (f : Flag) : String :=
  match f.short with
  | some c => c.toLower.toString ++ (if c.isLower then "0" else "1")
  | none => f.long

/-- Options in the order of their tables: the ranks of shared options and of a
command's own ones are counted apart, and both tables are merged by rank. -/
def mergeFlags (own shared : List Flag) : List Flag :=
  let ranked := own.zipIdx ++ shared.zipIdx
  (ranked.mergeSort fun (f, i) (g, j) =>
    i < j || (i == j && !(decide (g.sortKey < f.sortKey)))).map (·.1)

namespace Tool

/-- What stands together in help: paragraphs, with a line end after the last. -/
def paragraphs (ps : List String) : String :=
  "\n\n".intercalate ps ++ "\n"

/-- The description of the command that shows help. -/
def helpAbout : String := "Print this message or the help of the given subcommand(s)"

def help (t : Tool) : String :=
  let commands := (t.commands.map fun c => ⟨c.name, c.about⟩) ++ [⟨"help", helpAbout⟩]
  let flags := t.flags.map fun f => ⟨f.usage, f.about⟩
  paragraphs ([t.about, "Usage: " ++ t.name ++ " [OPTIONS] <COMMAND>"] ++
    Entry.titled false "Commands" commands ++ Entry.titled false "Options" flags)

/-- The help on a command, in long form if there is one and it is asked for. -/
def helpOn (t : Tool) (c : Command) (long : Bool) : String :=
  let long := long && c.details.isSome
  let parameters := c.parameters.map fun q => ⟨q.usage, q.about⟩
  let last := (t.flagsOf c long).drop (c.flags.length + t.shared.length)
  let flags := (mergeFlags c.flags t.shared ++ last).map fun f => ⟨f.usage, f.about⟩
  let call := [t.name, c.name, "[OPTIONS]"] ++ c.parameters.map Parameter.usage
  let about := if long then c.details.getD c.about else c.about
  paragraphs ([about, "Usage: " ++ " ".intercalate call] ++
    Entry.titled long "Arguments" parameters ++ Entry.titled long "Options" flags)

/-- The help on the command that shows help. -/
def helpOnHelp (t : Tool) : String :=
  paragraphs ([helpAbout, "Usage: " ++ t.name ++ " help [COMMAND]..."] ++
    Entry.titled false "Arguments" [⟨"[COMMAND]...", "Print help for the subcommand(s)"⟩])

/-- What the command that shows help answers. -/
def answerHelp (t : Tool) : List String → Reading
  | [] => .shown t.help
  | ["help"] => .shown t.helpOnHelp
  | [name] =>
    match t.command? name with
    | some c => .shown (t.helpOn c true)
    | none => .refused
  | _ => .refused

/-- Read the arguments of a tool. -/
def read (t : Tool) (args : List String) : Reading :=
  match ({} : Scan).upTo (fun arg => arg == "help" || (t.command? arg).isSome) t.flags args with
  | .error (.help _) => .shown t.help
  | .error .version => .shown (t.name ++ " " ++ t.version ++ "\n")
  | .error .refused | .ok (_, none) => .refused
  | .ok (scan, some (name, rest)) =>
    match t.command? name with
    | none => t.answerHelp rest
    | some c =>
      match ({} : Scan).all (t.flagsOf c false) c.parameters rest with
      | .error (.help long) => .shown (t.helpOn c long)
      | .error _ => .refused
      | .ok after =>
        match scan.given.settle scan.pending with
        | .error _ => .refused
        | .ok before =>
          if after.parameters.length < c.parameters.countP (·.required) then .refused
          else .command name before after

end Tool

end Discharge.Cli
