import BoolExpr.Text.DecimalDigit

/-!
The command line: a command, one expression, and options before or after it. Options may be spelled
by any beginning that only one of them has, and a value may be joined to its option. A sign `--`
ends the options. An argument that begins with a hyphen is still an operand if it is a hyphen alone,
looks like a negative number, or has a space in it. Before the command only a plea for help has a
place.
-/
namespace BoolExpr

inductive Command where
  | eval (expression : String) (bindings : List String)
  | validate (expression : String)
  | parse (expression : String) (json : Bool)
  | vars (expression : String)
deriving DecidableEq

namespace Command

inductive Request where
  | run (command : Command)
  | help
  | usageError
deriving DecidableEq

inductive Verb where
  | eval
  | validate
  | parse
  | vars
deriving DecidableEq

def verb? : String → Option Verb
  | "eval" => some .eval
  | "validate" => some .validate
  | "parse" => some .parse
  | "vars" => some .vars
  | _ => none

inductive Flag where
  | help
  | binding
  | json
deriving DecidableEq

abbrev Spellings := List (List Char × Flag)

def helpSpellings : Spellings := [(['-', 'h'], .help), ("--help".toList, .help)]

def Verb.spellings : Verb → Spellings
  | .eval => helpSpellings ++ [("--var".toList, .binding), (['-', 'v'], .binding)]
  | .parse => helpSpellings ++ [("--json".toList, .json)]
  | _ => helpSpellings

/-- How a value hangs on the option before it in one argument. -/
inductive Attached where
  | nothing
  | joined (value : List Char)
  | equated (value : List Char)
deriving DecidableEq

inductive Argument where
  | operand (text : String)
  | option (flag : Flag) (attached : Attached)
  | unknown
  | ambiguous
  | separator
deriving DecidableEq

/-- The part before the first equals sign, and the part after it if there is one. -/
def splitEquals (cs : List Char) : List Char × Option (List Char) :=
  (cs.takeWhile (· != '='), (cs.dropWhile (· != '=')).tail?)

def attachedBy (value : Option (List Char)) : Attached := value.elim .nothing .equated

def isNumber (digits : List Char) : Bool := !digits.isEmpty && digits.all Text.isDecimalDigit

/-- Whether the characters after a hyphen make a negative number: digits, or digits or none, a
point and digits. A line feed at the end does not count. -/
def isUnsignedNumber (cs : List Char) : Bool :=
  let line := if cs.getLast? = some '\n' then cs.dropLast else cs
  isNumber line || match line.dropWhile Text.isDecimalDigit with
    | '.' :: fraction => isNumber fraction
    | _ => false

/-- The options that an argument may mean which spells none in full. After two hyphens it may be
the beginning of one, after a single hyphen a letter with a value joined to it. -/
def candidates (spellings : Spellings) (arg : List Char) : List (Flag × Attached) :=
  match arg with
  | '-' :: '-' :: _ =>
    let (name, value) := splitEquals arg
    (spellings.filter fun s => name.isPrefixOf s.1).map fun s => (s.2, attachedBy value)
  | '-' :: c :: value =>
    (spellings.filter fun s => s.1 = ['-', c]).map fun s => (s.2, .joined value)
  | _ => []

def classify (spellings : Spellings) (arg : String) : Argument :=
  let cs := arg.toList
  let (name, value) := splitEquals cs
  if cs = ['-', '-'] then .separator
  else if cs.head? ≠ some '-' ∨ cs = ['-'] then .operand arg
  else
    match spellings.lookup cs, spellings.lookup name with
    | some flag, _ => .option flag .nothing
    | none, some flag => .option flag (attachedBy value)
    | none, none =>
      match candidates spellings cs with
      | [(flag, attached)] => .option flag attached
      | _ :: _ :: _ => .ambiguous
      | [] => if isUnsignedNumber cs.tail || cs.contains ' ' then .operand arg else .unknown

/-- What the arguments are; all that stand after the first separator are operands. -/
def classifyAll (spellings : Spellings) : List String → List Argument
  | [] => []
  | arg :: args =>
    match classify spellings arg with
    | .separator => .separator :: args.map .operand
    | argument => argument :: classifyAll spellings args

/-- What has been read: the expression, whether it was the last thing read, the binding items, the
switch for JSON, and whether there was an argument that has no place. -/
structure Progress where
  expression : Option String
  adjacent : Bool
  items : List String
  json : Bool
  surplus : Bool

def Verb.command (verb : Verb) (p : Progress) (expression : String) : Command :=
  match verb with
  | .eval => .eval expression p.items
  | .validate => .validate expression
  | .parse => .parse expression p.json
  | .vars => .vars expression

def Progress.finish (verb : Verb) (p : Progress) : Request :=
  match p.expression with
  | some expression => if p.surplus then .usageError else .run (verb.command p expression)
  | none => .usageError

def Progress.addItem (p : Progress) (item : List Char) : Progress :=
  { p with items := p.items ++ [String.ofList item], adjacent := false }

/-- The answer to a plea for help that has letters joined to it. They are options too, up to the
first one that is none or takes a value; a value that is not joined is the next argument. -/
def joinedHelp (spellings : Spellings) (rest : List Argument) : List Char → Request
  | [] => .help
  | c :: letters =>
    if c = '-' then .usageError
    else
      match spellings.lookup ['-', c], letters, rest with
      | some .help, '=' :: _, _ => .usageError
      | some .help, _, _ => joinedHelp spellings rest letters
      | some .binding, [], .operand _ :: _ => .help
      | some .binding, [], _ => .usageError
      | _, _, _ => .help

/-- Works through the arguments of a command. Arguments without a place are reported at the end, so
that a plea for help before the end is heard. A separator must stand before the expression or right
after it. -/
def collect (verb : Verb) (p : Progress) : List Argument → Request
  | [] => p.finish verb
  | .operand text :: rest =>
    match p.expression with
    | none => collect verb { p with expression := some text, adjacent := true } rest
    | some _ => collect verb { p with surplus := true, adjacent := false } rest
  | .option .binding .nothing :: .operand text :: rest => collect verb (p.addItem text.toList) rest
  | .option .binding .nothing :: _ => .usageError
  | .option .binding (.joined item) :: rest => collect verb (p.addItem item) rest
  | .option .binding (.equated item) :: rest => collect verb (p.addItem item) rest
  | .option .json .nothing :: rest => collect verb { p with json := true, adjacent := false } rest
  | .option .json _ :: _ => .usageError
  | .option .help .nothing :: _ => .help
  | .option .help (.joined letters) :: rest => joinedHelp verb.spellings rest letters
  | .option .help (.equated _) :: _ => .usageError
  | .unknown :: rest => collect verb { p with surplus := true, adjacent := false } rest
  | .ambiguous :: _ => .usageError
  | .separator :: rest =>
    match p.expression, rest with
    | none, [.operand text] => { p with expression := some text }.finish verb
    | some _, [] => if p.adjacent then p.finish verb else .usageError
    | _, _ => .usageError

/-- What a command asks for, when `surplus` says that an argument without a place came before it. -/
def Verb.request (verb : Verb) (surplus : Bool) (args : List String) : Request :=
  let arguments := classifyAll verb.spellings args
  if arguments.contains .ambiguous then .usageError
  else collect verb ⟨none, false, [], false, surplus⟩ arguments

def requestAfter (surplus : Bool) : List String → Request
  | [] => .usageError
  | first :: args =>
    match classify helpSpellings first with
    | .operand text =>
      match verb? text with
      | some verb => verb.request surplus args
      | none => .usageError
    | .option .help .nothing => .help
    | .option .help (.joined letters) => joinedHelp helpSpellings [] letters
    | .unknown => requestAfter true args
    | _ => .usageError

def request (args : List String) : Request := requestAfter false args

end Command

end BoolExpr
