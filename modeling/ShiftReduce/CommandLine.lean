import ShiftReduce.CommandLine.Arguments
import ShiftReduce.Parse
import ShiftReduce.Table.Grid
import ShiftReduce.Tree.Outline
import ShiftReduce.Trace

/-!
The command line as a function from what is asked and what came of the file to what is printed. It
lists the tokens of a file or prints the outline of its parse tree; a program that does not parse
is reported on the error stream and by the exit status. A tracing run also writes each event of the
lexer and the parser to the error stream, ahead of any report. The language's table goes to a file.
-/

namespace ShiftReduce.CommandLine

/-- Why a file could not be read as text, or not be written. -/
inductive FileError where
  | notFound
  | forbidden
  | notADirectory
  | isADirectory
  | nameTooLong
  | notText
  | other (reason : String)
  deriving DecidableEq, Repr

/-- The wording of a file error. -/
def FileError.message : FileError → String
  | .notFound => "No such file or directory (os error 2)"
  | .forbidden => "Permission denied (os error 13)"
  | .notADirectory => "Not a directory (os error 20)"
  | .isADirectory => "Is a directory (os error 21)"
  | .nameTooLong => "File name too long (os error 36)"
  | .notText => "stream did not contain valid UTF-8"
  | .other reason => reason

/-- The text that a file's bytes stand for. -/
def decode (bytes : ByteArray) : Except FileError String :=
  match String.fromUTF8? bytes with
  | some text => .ok text
  | none => .error .notText

/-- What a command needs done to a file. -/
inductive FileUse where
  | read (path : String)
  | write (path : String) (text : String)
  deriving DecidableEq, Repr

/-- The use that a command makes of a file, if it makes one. -/
def Command.fileUse? : Command → Option FileUse
  | .tokens path => some (.read path)
  | .parse path => some (.read path)
  | .saveTable path => some (.write path Language.table.sheet)
  | .version _ => none

/-- What a run leaves behind. -/
structure Transcript where
  status : Nat := 0
  out : String := ""
  err : String := ""
  deriving DecidableEq, Repr

/-- The line of a listing that shows a token. -/
def listing (token : Token) : String :=
  if token.kind = .unknown then
    "[" ++ Category.lexer.name ++ "]: Unexpected characters `" ++ token.text.getD "" ++ "`"
  else token.describe

/-- The listing of a text, one line per token. -/
def dumpLines (text : String) : List String := (tokenize text).map listing

/-- The lines of a trace, if one was asked for. -/
def traceLines (traced : Bool) (events : List Event) : List String :=
  if traced then events.map Event.line else []

/-- Lists the tokens of a text. -/
def runTokens (traced : Bool) (text : String) : Transcript where
  out := Text.unlines (dumpLines text)
  err := Text.unlines (traceLines traced ((tokenize text).flatMap Token.events))

/-- The line that shows a report. -/
def reportLine (report : Report) : String :=
  "[" ++ report.category.name ++ "] line " ++ Nat.repr report.line ++ ": " ++ report.message

/-- Prints the outline of a text's parse tree, or reports why there is none. -/
def runParse (traced : Bool) (text : String) : Transcript :=
  let lexer := Lexer.ofString text
  let session := Session.start Language.table lexer
  let events := traceLines traced (session.trace (stepsFor lexer))
  match parseReporting lexer with
  | (.accepted tree, _) => { out := tree.outline, err := Text.unlines events }
  | (_, reports) => { status := 1, err := Text.unlines (events ++ reports.map reportLine) }

/-- The version of the program, or the line for a subcommand, which has no version of its own and
is only named. -/
def versionLine : Option Subcommand → String
  | none => "smiley 0.1.0"
  | some subcommand => "smiley-" ++ subcommand.name ++ " "

/-- The answer to a command whose file, if it has one, was used with the given result: the text that
the file holds, or why there is none. -/
def run (traced : Bool) (command : Command) (file : Except FileError String) : Transcript :=
  match command, file with
  | .version subcommand, _ => { out := versionLine subcommand ++ "\n" }
  | _, .error error => { status := 1, err := "Error: " ++ error.message ++ "\n" }
  | .tokens _, .ok text => runTokens traced text
  | .parse _, .ok text => runParse traced text
  | .saveTable _, .ok _ => {}

/-- The answer to arguments that make no command. -/
def misuse : Transcript where
  status := 1
  err := "usage: smiley tokens <file> | smiley parse <file> | smiley table --csv <file> | smiley --version\n"

end ShiftReduce.CommandLine
