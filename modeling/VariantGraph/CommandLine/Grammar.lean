import VariantGraph.Text.Integer

/-!
# Command lines

The words of a command line name parameters, give values to them and choose a subcommand. A level of
it is a command with its parameters: the words behind the name of a subcommand belong to the level
of that.

A parameter is given at most once. Its value is part of its word, `--depth=3` or `-odir`, or the
next word, if that does not look like a parameter itself. Behind a lone `--` there are no
parameters.
-/

namespace VariantGraph.CommandLine

open VariantGraph.Text

/-! ## Levels -/

/-- What may be given as the value of a parameter. -/
inductive ValueKind where
  | text
  /-- Anything but the empty text. -/
  | path
  /-- A number below 2³². -/
  | count
deriving DecidableEq, Repr

/-- The number that a text is read as. -/
def count? (s : String) : Option Nat :=
  match readInt64? s with
  | some i => if 0 ≤ i.toInt ∧ i.toInt < 4294967296 then some i.toInt.toNat else none
  | none => none

/-- Whether a text is a value. -/
def ValueKind.admits : ValueKind → String → Bool
  | text, _ => true
  | path, s => s != ""
  | count, s => (count? s).isSome

/-- What giving a parameter does. -/
inductive Role where
  | value (kind : ValueKind)
  | switch
  | help
  | version
deriving DecidableEq, Repr

/-- A parameter of a level. -/
structure Parameter where
  long : String
  short : Option Char := none
  role : Role
  about : String
deriving DecidableEq, Repr

/-- The name and the purpose of a subcommand. -/
structure Subcommand where
  name : String
  about : String
deriving DecidableEq, Repr

/-- A command. -/
structure Level where
  /-- The words that lead to the command. -/
  name : String
  about : String
  parameters : List Parameter
  subcommands : List Subcommand := []
deriving DecidableEq, Repr

namespace Level

/-- The parameter of a long name. -/
def long? (l : Level) (name : String) : Option Parameter := l.parameters.find? (·.long == name)

/-- The parameter of a short name. -/
def short? (l : Level) (c : Char) : Option Parameter := l.parameters.find? (·.short == some c)

end Level

/-! ## Reading a level -/

/-- Why the words of a command line are not read to their end. -/
inductive Stop where
  /-- Help is asked for, in many words or in few. -/
  | help (atLength : Bool)
  | version
  | misuse
deriving DecidableEq, Repr

/-- What has been read of a level. -/
structure Reading where
  /-- The values of the given parameters by their long names. Switches have no value. -/
  given : List (String × String) := []
  /-- The last parameter, as long as its value is missing or may still be refused. -/
  pending : Option (Parameter × Option String) := none
deriving DecidableEq, Repr

namespace Reading

/-- The value of a parameter. -/
def get? (r : Reading) (long : String) : Option String := r.given.lookup long

/-- Whether a switch is given. -/
def isGiven (r : Reading) (long : String) : Bool := (r.get? long).isSome

/-- Takes over the value of a parameter. -/
def add (r : Reading) (p : Parameter) (v : String) : Except Stop Reading :=
  if r.isGiven p.long then .error .misuse else .ok { r with given := r.given ++ [(p.long, v)] }

/-- Takes over the value of a parameter that takes one. -/
def addValue (r : Reading) (p : Parameter) (kind : ValueKind) (v : String) : Except Stop Reading :=
  if kind.admits v then r.add p v else .error .misuse

/-- Takes over the value of the last parameter. -/
def settle (r : Reading) : Except Stop Reading :=
  match r.pending with
  | none => .ok r
  | some (p, some v) =>
    match p.role with
    | .value kind => ({ r with pending := none }).addValue p kind v
    | _ => .error .misuse
  | some (_, none) => .error .misuse

/-- Gives a parameter that takes no value. -/
def press (r : Reading) (p : Parameter) (atLength : Bool) : Except Stop Reading :=
  match p.role with
  | .help => .error (.help atLength)
  | .version => .error .version
  | .switch => r.add p ""
  | .value _ => .error .misuse

/-- Gives a parameter, with a value that is part of the same word or without one. -/
def give (r : Reading) (p : Parameter) (attached : Option String) (atLength : Bool) :
    Except Stop Reading :=
  match p.role, attached with
  | .value kind, some v => r.settle.bind fun r => r.addValue p kind v
  | .value _, none => r.settle.map fun r => { r with pending := some (p, none) }
  | _, some _ => .error .misuse
  | _, none => r.settle.bind fun r => r.press p atLength

/-- Reads short names that share a word. The first one that takes a value has the rest of
the word. -/
def giveShorts (l : Level) : Reading → List Char → Except Stop Reading
  | r, [] => .ok r
  | r, c :: rest =>
    match l.short? c with
    | none => .error .misuse
    | some p =>
      match p.role with
      | .value _ =>
        let v := if rest.head? = some '=' then rest.tail else rest
        r.give p (if rest.isEmpty then none else some (String.ofList v)) false
      | _ => (r.give p none false).bind fun r => giveShorts l r rest

end Reading

/-- What a word looks like. -/
inductive Word where
  /-- The word `--`. -/
  | separator
  | long (name : String) (attached : Option String)
  | shorts (names : List Char)
  | plain
deriving DecidableEq, Repr

/-- Tells what a word looks like. -/
def Word.ofString (s : String) : Word :=
  match s.toList with
  | ['-', '-'] => .separator
  | '-' :: '-' :: rest =>
    .long (String.ofList (rest.takeWhile (· != '=')))
      (match rest.dropWhile (· != '=') with
        | _ :: v => some (String.ofList v)
        | [] => none)
  | '-' :: c :: rest => .shorts (c :: rest)
  | _ => .plain

namespace Level

/-- The subcommand of a name. -/
def subcommand? (l : Level) (name : String) : Option Subcommand :=
  l.subcommands.find? fun s => s.name == name

/-- Reads words that look like parameters. -/
def readWord (l : Level) (r : Reading) (word : Word) : Except Stop Reading :=
  match word with
  | .long name attached =>
    match l.long? name with
    | some p => r.give p attached true
    | none => .error .misuse
  | .shorts names => r.giveShorts l names
  | .separator | .plain => .error .misuse

/-- Reads words up to the name of a subcommand: that name and the words behind it are left. -/
def read (l : Level) : Reading → List String → Except Stop (Reading × Option (String × List String))
  | r, [] => .ok (r, none)
  | r, w :: rest =>
    match r.pending, Word.ofString w with
    | some (p, none), .plain => l.read { r with pending := some (p, some w) } rest
    | some (_, none), _ => .error .misuse
    | _, word =>
      if (l.subcommand? w).isSome then .ok (r, some (w, rest))
      else if word = .separator ∧ rest.isEmpty then .ok (r, none)
      else (l.readWord r word).bind fun r => l.read r rest

end Level

end VariantGraph.CommandLine
