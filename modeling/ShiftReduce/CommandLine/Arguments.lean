/-!
Reading the arguments of a command line. A word that begins with a dash and does not end there is a
flag, unless two dashes alone have come before it: behind them everything is an operand. Words are
read from the left, and the first that settles the matter does so, be it a flag that asks for the
version or a word that nothing takes; whether all that is needed was given shows only at the end.
A flag with two dashes goes by the name between its dashes and the first equals sign, so what is
attached to a flag that takes no value is ignored; one with a single dash goes by its first letter.
-/

namespace ShiftReduce.CommandLine

/-- What a command takes: so many operands, and the named options, each with a value. -/
structure Form where
  operands : Nat
  options : List String := []
  deriving DecidableEq, Repr

/-- What a word is to a command of a given form. -/
inductive Word where
  | terminator
  | version
  | option (name : String) (attached : Option String)
  | unknown
  | operand
  deriving DecidableEq, Repr

/-- The operands and options that a command was given. It is faulty if an option came twice or
without its value. -/
structure Given where
  operands : List String := []
  options : List (String × String) := []
  faulty : Bool := false
  deriving DecidableEq, Repr

/-- How the arguments of a command came out. -/
inductive Reading where
  | version
  | complete (given : Given)
  | misuse
  deriving DecidableEq, Repr

namespace Given

def addOperands (given : Given) (values : List String) : Given :=
  { given with operands := given.operands ++ values }

/-- Adds an option, or the fault that it has no value or is there already. -/
def addOption (given : Given) (name : String) : Option String → Given
  | some value =>
    if name ∈ given.options.map Prod.fst then { given with faulty := true }
    else { given with options := given.options ++ [(name, value)] }
  | none => { given with faulty := true }

end Given

/-- The name of a flag with two dashes or more. -/
def longName (flag : String) : String :=
  String.ofList ((flag.toList.dropWhile (· == '-')).takeWhile (· != '='))

/-- The value attached to a flag, behind all equals signs that part the two. -/
def attached? (flag : String) : Option String :=
  match flag.toList.dropWhile (· != '=') with
  | [] => none
  | behind => some (String.ofList (behind.dropWhile (· == '=')))

namespace Form

/-- Tells what a word in front of the terminator is. An option has its value attached or takes it
from the next word. -/
def classify (form : Form) (word : String) : Word :=
  match word.toList with
  | ['-', '-'] => .terminator
  | '-' :: '-' :: _ =>
    if longName word = "version" then .version
    else if longName word ∈ form.options then .option (longName word) (attached? word)
    else .unknown
  | '-' :: letter :: _ => if letter = 'V' then .version else .unknown
  | _ => .operand

/-- The reading of a command line that holds what is given and nothing else. -/
def finish (form : Form) (given : Given) : Reading :=
  if given.operands.length = form.operands ∧ given.faulty = false then .complete given
  else .misuse

/-- Reads the arguments of a command behind what is already given. -/
def read (form : Form) (given : Given) : List String → Reading
  | [] => form.finish given
  | word :: rest =>
    match form.classify word with
    | .terminator => form.finish (given.addOperands rest)
    | .version => .version
    | .option name (some value) => form.read (given.addOption name (some value)) rest
    | .option name none =>
      match rest with
      | [] => .misuse
      | value :: behind =>
        if form.classify value = .operand then form.read (given.addOption name (some value)) behind
        else form.read (given.addOption name none) (value :: behind)
    | .unknown => .misuse
    | .operand =>
      if given.operands.length < form.operands then form.read (given.addOperands [word]) rest
      else .misuse

end Form

/-- The parts of the program that can be called by name. -/
inductive Subcommand where
  | tokens | parse | table
  deriving DecidableEq, Repr

namespace Subcommand

/-- The word that calls a subcommand. -/
def name : Subcommand → String
  | .tokens => "tokens"
  | .parse => "parse"
  | .table => "table"

/-- The subcommand that a word calls. -/
def ofName? : String → Option Subcommand
  | "tokens" => some .tokens
  | "parse" => some .parse
  | "table" => some .table
  | _ => none

/-- What a subcommand takes. -/
def form : Subcommand → Form
  | .tokens | .parse => { operands := 1 }
  | .table => { operands := 0, options := ["csv"] }

theorem ofName?_name (subcommand : Subcommand) : ofName? subcommand.name = some subcommand := by
  cases subcommand <;> rfl

end Subcommand

/-- What can be asked for: the tokens or the tree of a file, the language's table saved to a file, or
the version of the program or of one of its subcommands. -/
inductive Command where
  | tokens (path : String)
  | parse (path : String)
  | saveTable (path : String)
  | version (subcommand : Option Subcommand)
  deriving DecidableEq, Repr

namespace Command

/-- The command that a subcommand's arguments make. The table is only saved, never drawn, so its
subcommand needs its option. -/
def ofReading? (subcommand : Subcommand) : Reading → Option Command
  | .version => some (.version subcommand)
  | .complete given =>
    match subcommand, given.operands, given.options with
    | .tokens, [path], [] => some (.tokens path)
    | .parse, [path], [] => some (.parse path)
    | .table, [], [(_, path)] => some (.saveTable path)
    | _, _, _ => none
  | .misuse => none

/-- Reads the arguments of the program; none of them is its own operand. -/
def ofArgs? : List String → Option Command
  | [] => none
  | word :: rest =>
    match Form.classify { operands := 0 } word with
    | .version => some (.version none)
    | .operand =>
      (Subcommand.ofName? word).bind fun subcommand =>
        ofReading? subcommand (subcommand.form.read {} rest)
    | _ => none

end Command

end ShiftReduce.CommandLine
