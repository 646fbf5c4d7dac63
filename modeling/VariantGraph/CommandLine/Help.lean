import VariantGraph.CommandLine.Grammar
import VariantGraph.Text.Fields
import VariantGraph.Text.Terminal

/-!
# Help on command lines

What a command says about itself: its purpose, how it is called, its subcommands and its parameters.
In short, the explanations of the parameters stand in a column behind their names. At length each
stands below the names, and blank lines set the parameters apart. The names are bold on a terminal.
-/

namespace VariantGraph.CommandLine

open VariantGraph.Text

/-! ## Layout -/

/-- A number of spaces. -/
def spaces (n : Nat) : String := String.ofList (List.replicate n ' ')

/-- Lets the lines of a text behind its first one start in a column. -/
def indent (column : Nat) (text : String) : String :=
  ("\n" ++ spaces column).intercalate (splitAt '\n' text)

/-- The column of the explanations in help at length. -/
def explanationColumn : Nat := 10

/-! ## Parameters -/

namespace Parameter

/-- The name that stands for the value of a parameter. -/
def valueName (p : Parameter) : String :=
  String.ofList (p.long.toList.map fun c => if c = '-' then '_' else c.toUpper)

/-- The names of a parameter in some style. -/
def signature (style : String → String) (p : Parameter) : String :=
  (match p.short with
    | some c => style ("-" ++ String.singleton c) ++ ", "
    | none => "    ") ++
  style ("--" ++ p.long) ++
  match p.role with
  | .value _ => " <" ++ p.valueName ++ ">"
  | _ => ""

/-- The columns that the names of a parameter take. -/
def width (p : Parameter) : Nat := (p.signature id).length

/-- A parameter with its explanation in short, where the widest names take some columns. -/
def row (widest : Nat) (p : Parameter) (explanation : String) : String :=
  "  " ++ p.signature bold ++ spaces (widest - p.width) ++ "  " ++ indent (widest + 4) explanation

/-- A parameter with its explanation at length. -/
def paragraph (p : Parameter) (explanation : String) : String :=
  "  " ++ p.signature bold ++ "\n" ++ spaces explanationColumn ++
    indent explanationColumn explanation

end Parameter

/-! ## Subcommands -/

/-- A subcommand with its purpose. -/
def Subcommand.entry (widest : Nat) (s : Subcommand) : String :=
  "  " ++ s.name ++ spaces (widest - s.name.length) ++ "  " ++ s.about ++ "\n"

namespace Level

/-- The subcommands of a command. -/
def subcommandsText (l : Level) : String :=
  if l.subcommands.isEmpty then ""
  else
    let widest := (l.subcommands.map fun s => s.name.length).foldl max 0
    "Commands:\n" ++ String.join (l.subcommands.map (Subcommand.entry widest)) ++ "\n"

/-- The parameters of a command with their explanations. -/
def parametersText (l : Level) (explain : Parameter → String) (atLength : Bool) : String :=
  if atLength then "\n\n".intercalate (l.parameters.map fun p => p.paragraph (explain p))
  else
    let widest := (l.parameters.map Parameter.width).foldl max 0
    "\n".intercalate (l.parameters.map fun p => p.row widest (explain p))

/-- How a command is called. -/
def usage (l : Level) : String :=
  "Usage: " ++ l.name ++ " [OPTIONS]" ++ if l.subcommands.isEmpty then "" else " <COMMAND>"

/-! ## Commands -/

/-- The help on a command, given the explanations of its parameters. -/
def help (l : Level) (about : String) (explain : Parameter → String) (atLength : Bool) : String :=
  about ++ "\n\n" ++ l.usage ++ "\n\n" ++ l.subcommandsText ++ "Options:\n" ++
    l.parametersText explain atLength ++ "\n"

end Level

end VariantGraph.CommandLine
