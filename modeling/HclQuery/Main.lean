/-
  The program: takes the command line, the environment and the input from the system, and hands
  the outcome back to it.
-/
import HclQuery.Command.Run

namespace HclQuery

/-- The number of a system error. Some are handed over as the complement to 2^32. -/
def errorNumber (code : UInt32) : Nat :=
  if code < 0x80000000 then code.toNat else (0 - code).toNat

/-- What the system says of a path that it does not open. -/
def OpenError.ofSystem : IO.Error → OpenError
  | .noFileOrDirectory _ _ _ => .notFound
  | .inappropriateType _ code _ =>
    if errorNumber code = 20 then .notDirectory else .isDirectory
  | .invalidArgument _ code description =>
    if errorNumber code = 36 then .nameTooLong else .other (errorNumber code) description
  | .permissionDenied _ code _ => .other (errorNumber code) "Permission denied"
  | _ => .other 5 "Input/output error"

/-- The bytes of a file. -/
def readFile (path : String) : IO (Except OpenError (List UInt8)) := do
  try
    let bytes ← IO.FS.readBinFile path
    return .ok bytes.toList
  catch e => return .error (.ofSystem e)

/-- The bytes on the standard input. -/
def readStdin : IO (List UInt8) := do
  let bytes ← (← IO.getStdin).readBinToEnd
  return bytes.toList

/-- The environment asks for the debug log. -/
def debugAsked : IO Bool := do
  match ← IO.getEnv "HCLEDIT_DEBUG" with
  | some value => return !value.isEmpty
  | none => return false

end HclQuery

open HclQuery in
def main (args : List String) : IO UInt32 := do
  let result ←
    match Command.request (args.map String.toList) with
    | .error halt => pure halt.outcome
    | .ok r =>
      let input ←
        if r.readsStdin then Except.ok <$> readStdin else readFile (String.ofList r.file)
      pure (r.outcome (← debugAsked) input [])
  match result with
  | .ok outcome =>
    IO.print outcome.stdout
    IO.eprint outcome.stderr
    return outcome.exit
  | .error crash =>
    IO.eprintln crash.message
    return 1
