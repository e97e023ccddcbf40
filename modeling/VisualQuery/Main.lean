import VisualQuery.Command.Run

/-!
The command: its files, environment and outputs are those of the system.
-/

namespace VisualQuery

/-- The number by which the system names an error, which it may give with either sign. -/
def systemNumber (code : UInt32) : Nat := min code.toNat (-code).toNat

def errorNumber? : IO.Error → Option Nat
  | .noFileOrDirectory _ code _ => some (systemNumber code)
  | .inappropriateType _ code _ => some (systemNumber code)
  | .invalidArgument _ code _ => some (systemNumber code)
  | .permissionDenied _ code _ => some (systemNumber code)
  | _ => none

def fileErrorOf (e : IO.Error) : FileError :=
  match errorNumber? e with
  | some 2 => .notFound
  | some 13 => .other "Permission denied (os error 13)"
  | some 20 => .notDirectory
  | some 21 => .isDirectory
  | some 36 => .nameTooLong
  | _ => .other (toString e)

def readSystemFile (path : String) : IO (Except FileError String) := do
  if path.toList.contains '\x00' then return .error .impossibleName
  try
    let bytes ← IO.FS.readBinFile ⟨path⟩
    match String.fromUTF8? bytes with
    | some text => return .ok text
    | none => return .error .notUtf8
  catch e => return .error (fileErrorOf e)

end VisualQuery

/-- Runs the command on the system. A run without an outcome of its own ends with code 101. -/
def main (arguments : List String) : IO UInt32 := do
  let environment ← IO.getEnv VisualQuery.Settings.environmentVariable
  match ← VisualQuery.Command.run VisualQuery.readSystemFile environment arguments with
  | none => return 101
  | some outcome =>
    (← IO.getStdout).putStr outcome.output
    (← IO.getStderr).putStr outcome.errors
    return outcome.code.toUInt32
