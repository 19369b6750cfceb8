import Reckoner.CommandLine.Definition
import Reckoner.Text.Control

/-! The arguments of the command line. Flags may stand anywhere before `--` and may
share one dash. The text of a definition in an argument of its own is looked at when
the next option or operand is taken, so that an argument without meaning is reported
first. -/

namespace Reckoner.CommandLine

structure Arguments where
  readsFile : Bool
  showsPostfix : Bool
  verbose : Bool
  definitions : List Definition
  /-- An expression, or the name of a file of expressions. -/
  contents : String

inductive UsageError
  | unexpectedArgument (argument : String)
  | unexpectedValue (value option : String)
  | repeated (option : String)
  | definitionMissing
  | badDefinition (text : String) (fault : DefinitionFault)
  | contentsMissing
  deriving DecidableEq

def definitionOption : String := "--define <NAME=VALUE>"

/-- What stands in the arguments themselves is highlighted. -/
def UsageError.message : UsageError → String
  | unexpectedArgument argument =>
    s!"error: unexpected argument '{Text.highlight argument}' found"
  | unexpectedValue value option =>
    s!"error: unexpected value '{Text.highlight value}' for '{option}' found; " ++
      "no more were expected"
  | repeated option => s!"error: the argument '{option}' cannot be used multiple times"
  | definitionMissing =>
    s!"error: a value is required for '{definitionOption}' but none was supplied"
  | badDefinition text fault =>
    s!"error: invalid value '{Text.highlight text}' for '{definitionOption}': {fault.message}"
  | contentsMissing =>
    "error: the following required arguments were not provided:\n  <CONTENTS>"

inductive Halt
  | help
  | version
  | usage (error : UsageError)

/-- A definition option whose text is not read yet. -/
inductive Pending
  | nothing
  | awaitingText
  | text (s : String)

structure Reading where
  readsFile : Bool := false
  showsPostfix : Bool := false
  verbose : Bool := false
  definitions : Array Definition := #[]
  contents : Option String := none
  pending : Pending := .nothing

inductive Switch
  | file
  | postfixForm
  | verbose
  | help
  | version

namespace Switch

def all : List Switch := [file, postfixForm, verbose, help, version]

def letter : Switch → Char
  | file => 'f'
  | postfixForm => 'r'
  | verbose => 'v'
  | help => 'h'
  | version => 'V'

def word : Switch → String
  | file => "file"
  | postfixForm => "rpn"
  | verbose => "verbose"
  | help => "help"
  | version => "version"

def option (s : Switch) : String := "--" ++ s.word

end Switch

namespace Reading

def fail {α : Type} (error : UsageError) : Except Halt α := .error (.usage error)

def define (r : Reading) (text : String) : Except Halt Reading :=
  match Definition.parse text with
  | .ok d => .ok { r with definitions := r.definitions.push d }
  | .error fault => fail (.badDefinition text fault)

def settle (r : Reading) : Except Halt Reading :=
  match r.pending with
  | .nothing => .ok r
  | .awaitingText => fail .definitionMissing
  | .text s => { r with pending := .nothing }.define s

def turnOn (r : Reading) (s : Switch) : Except Halt Reading := do
  let r ← r.settle
  match s with
  | .help => throw .help
  | .version => throw .version
  | .file => if r.readsFile then fail (.repeated s.option) else return { r with readsFile := true }
  | .postfixForm =>
    if r.showsPostfix then fail (.repeated s.option) else return { r with showsPostfix := true }
  | .verbose => if r.verbose then fail (.repeated s.option) else return { r with verbose := true }

/-- Text that belongs to its option is read at once; otherwise the next argument is
awaited. -/
def defineOption (r : Reading) (text : Option String) : Except Halt Reading := do
  let r ← r.settle
  match text with
  | some s => r.define s
  | none => return { r with pending := .awaitingText }

/-- Text on the same dash, with or without an equals sign. -/
def attachedText : List Char → Option String
  | [] => none
  | '=' :: cs => some (String.ofList cs)
  | cs => some (String.ofList cs)

def letters (r : Reading) : List Char → Except Halt Reading
  | [] => .ok r
  | c :: cs =>
    if c = 'D' then r.defineOption (attachedText cs)
    else
      match Switch.all.find? (·.letter = c) with
      | some s => do (← r.turnOn s).letters cs
      | none => fail (.unexpectedArgument (String.ofList ['-', c]))

def word (r : Reading) (cs : List Char) : Except Halt Reading :=
  let name := String.ofList (cs.takeWhile (· != '='))
  let text := (cs.dropWhile (· != '=')).tail? |>.map String.ofList
  if name = "define" then r.defineOption text
  else
    match Switch.all.find? (·.word = name), text with
    | some s, none => r.turnOn s
    | some s, some text => fail (.unexpectedValue text s.option)
    | none, _ => fail (.unexpectedArgument ("--" ++ name))

def operand (r : Reading) (argument : String) : Except Halt Reading :=
  if r.contents.isSome then fail (.unexpectedArgument argument)
  else do return { ← r.settle with contents := some argument }

def argument (r : Reading) (s : String) : Except Halt Reading :=
  match s.toList, r.pending with
  | '-' :: '-' :: cs, _ => r.word cs
  | '-' :: c :: cs, _ => r.letters (c :: cs)
  | _, .awaitingText => .ok { r with pending := .text s }
  | _, _ => r.operand s

def arguments (r : Reading) : List String → Except Halt Reading
  | [] => .ok r
  | s :: rest => if s = "--" then rest.foldlM operand r else do (← r.argument s).arguments rest

def finish (r : Reading) : Except Halt Arguments := do
  let r ← r.settle
  match r.contents with
  | none => fail .contentsMissing
  | some contents =>
    return ⟨r.readsFile, r.showsPostfix, r.verbose, r.definitions.toList, contents⟩

end Reading

def Arguments.parse (args : List String) : Except Halt Arguments := do
  (← ({} : Reading).arguments args).finish

end Reckoner.CommandLine
