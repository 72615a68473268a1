import Toolpath.Json.Value
import Toolpath.Text.Digit

/-! The command line: a file to open, and options that each take a value, the last occurrence counting. An
option may be shortened as long as one option only begins that way, and its value may follow an equals sign. An
argument that looks like a negative number or holds a space is no option, and nothing after two dashes is. -/
namespace Toolpath

/-- What an option was given: a text, or nothing at all, which two dashes after an equals sign stand for. -/
inductive OptionValue where
  | text (cs : List Char)
  | nothing
  deriving DecidableEq

namespace OptionValue

def ofText (cs : List Char) : OptionValue := if cs = ['-', '-'] then .nothing else .text cs

def text? : OptionValue → Option (List Char)
  | .text cs => some cs
  | .nothing => none

def toJson : OptionValue → Json
  | .text cs => .ofChars cs
  | .nothing => .array []

end OptionValue

structure Arguments where
  file : Option (List Char)
  config : Option OptionValue
  preset : OptionValue
  logLevel : OptionValue
  logFile : Option OptionValue
  deriving DecidableEq

namespace CommandLine

def defaults : Arguments := ⟨none, none, .text "default".toList, .text "INFO".toList, none⟩

/-- What is to be done: go on, or stop at once with an exit code. -/
inductive Request where
  | run (arguments : Arguments)
  | stop (code : Nat)
  deriving DecidableEq

def usageCode : Nat := 2

inductive Choice where
  | help
  | config
  | preset
  | logLevel
  | logFile
  deriving DecidableEq

def options : List (List Char × Choice) := [
  ("-h".toList, .help),
  ("--help".toList, .help),
  ("--config".toList, .config),
  ("--preset".toList, .preset),
  ("--log-level".toList, .logLevel),
  ("--log-file".toList, .logFile)]

def Choice.set (choice : Choice) (text : List Char) (given : Arguments) : Arguments :=
  let value := OptionValue.ofText text
  match choice with
  | .help => given
  | .config => { given with config := some value }
  | .preset => { given with preset := value }
  | .logLevel => { given with logLevel := value }
  | .logFile => { given with logFile := some value }

inductive Form where
  | operand (text : List Char)
  | option (choice : Choice) (value : Option (List Char))
  | unknown
  deriving DecidableEq

def Form.isOperand : Form → Bool
  | .operand _ => true
  | .option _ _ | .unknown => false

/-- A minus, digits, and at most one point with digits after it; a line feed at the end does not count. -/
def looksNegative (text : List Char) : Bool :=
  let body := if text.getLast? == some '\n' then text.dropLast else text
  match body with
  | '-' :: digits =>
    match digits.dropWhile Text.isDigit with
    | [] => digits != []
    | '.' :: fraction => fraction != [] && fraction.all Text.isDigit
    | _ => false
  | _ => false

/-- A text in two at its first equals sign. -/
def atEquals (text : List Char) : List Char × Option (List Char) :=
  match text.dropWhile (· != '=') with
  | [] => (text, none)
  | _ :: value => (text.takeWhile (· != '='), some value)

/-- What follows the short form of help in one argument may only repeat it. -/
def shortHelp (tail : List Char) : Form := .option .help (if tail.all (· == 'h') then none else some tail)

/-- The form of an argument that is no option in full; none if it is short for several. -/
def abbreviated? (text : List Char) : Option Form :=
  let other := if looksNegative text || text.contains ' ' then Form.operand text else .unknown
  match text with
  | '-' :: '-' :: _ =>
    let (start, value) := atEquals text
    match options.filter fun (name, _) => start.isPrefixOf name with
    | [] => some other
    | [(_, choice)] => some (.option choice value)
    | _ => none
  | '-' :: 'h' :: tail => some (shortHelp tail)
  | _ => some other

def form? (text : List Char) : Option Form :=
  if text.head? ≠ some '-' ∨ text = ['-'] then some (.operand text)
  else
    let (name, value) := atEquals text
    match options.lookup name, value with
    | some .help, some (c :: tail) => some (if name = ['-', 'h'] then shortHelp (c :: tail) else .option .help value)
    | some choice, _ => some (.option choice value)
    | none, _ => abbreviated? text

/-- The arguments that are left when no option is: the operands `operands`, and the arguments after two dashes
if those were given. At most one of them all is the file. -/
def finish (given : Arguments) (fileTaken : Bool) (operands : List (List Char)) (plain : Option (List (List Char))) :
    Request :=
  match fileTaken, operands, plain with
  | true, [], none | false, [], none | false, [], some [] => .run given
  | false, [file], none | false, [file], some [] | false, [], some [file] => .run { given with file := some file }
  | _, _, _ => .stop usageCode

/-- Arguments from left to right. What cannot be placed is refused at the end only, so that help still comes
first. -/
def walk (given : Arguments) (fileTaken surplus : Bool) (plain : Option (List (List Char))) : List Form → Request
  | [] => if surplus then .stop usageCode else finish given fileTaken [] plain
  | .option .help value :: _ => .stop (if value.isNone then 0 else usageCode)
  | .option choice (some value) :: rest => walk (choice.set value given) fileTaken surplus plain rest
  | .option choice none :: .operand value :: rest => walk (choice.set value given) fileTaken surplus plain rest
  | .option _ none :: _ => .stop usageCode
  | .unknown :: rest => walk given fileTaken true plain rest
  | .operand text :: rest =>
    if rest.all Form.isOperand then
      let operands := rest.filterMap fun
        | .operand text => some text
        | .option _ _ | .unknown => none
      if surplus then .stop usageCode else finish given fileTaken (text :: operands) plain
    else if fileTaken then walk given true true plain rest
    else walk { given with file := some text } true surplus plain rest

/-- Arguments up to two dashes, and those after them. -/
def atDashes (texts : List (List Char)) : List (List Char) × Option (List (List Char)) :=
  match texts.dropWhile (· != ['-', '-']) with
  | [] => (texts, none)
  | _ :: plain => (texts.takeWhile (· != ['-', '-']), some plain)

def read (texts : List (List Char)) : Request :=
  let (before, plain) := atDashes texts
  match before.mapM form? with
  | some forms => walk defaults false false plain forms
  | none => .stop usageCode

end CommandLine

end Toolpath
