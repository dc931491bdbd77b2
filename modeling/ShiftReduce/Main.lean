import ShiftReduce.CommandLine

/-!
The program itself: reads the arguments, uses the file they name, and prints the transcript.
-/

namespace ShiftReduce.CommandLine

/-- Why the system refused a file. Its error numbers come with either sign. -/
def refusal (error : IO.Error) : FileError :=
  match error with
  | .noFileOrDirectory _ _ _ => .notFound
  | .permissionDenied _ _ _ => .forbidden
  | .inappropriateType _ code _ =>
    if code.toInt32.toInt.natAbs = 21 then .isADirectory else .notADirectory
  | .invalidArgument _ code _ =>
    if code.toInt32.toInt.natAbs = 36 then .nameTooLong else .other (toString error)
  | error => .other (toString error)

/-- Uses a file and gives the text that it holds. -/
def useFile : FileUse → IO (Except FileError String)
  | .read path => do
    match ← (IO.FS.readBinFile path).toBaseIO with
    | .ok bytes => pure (decode bytes)
    | .error error => pure (.error (refusal error))
  | .write path text => do
    match ← (IO.FS.writeFile path text).toBaseIO with
    | .ok () => pure (.ok text)
    | .error error => pure (.error (refusal error))

def present (transcript : Transcript) : IO UInt32 := do
  IO.print transcript.out
  IO.eprint transcript.err
  pure transcript.status.toUInt32

end ShiftReduce.CommandLine

open ShiftReduce.CommandLine in
def main (args : List String) : IO UInt32 := do
  match Command.ofArgs? args with
  | none => present misuse
  | some command =>
    let file ← match command.fileUse? with
      | some use => useFile use
      | none => pure (.ok "")
    present (run false command file)
