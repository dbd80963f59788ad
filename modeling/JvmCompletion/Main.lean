import JvmCompletion.CommandLine.Run

/-!
# The program

Reads the environment and the files that the command line asks for, and writes what it answers.
-/

namespace JvmCompletion

/-- The fault that an error of the system amounts to. -/
def faultOfError : IO.Error → ReadFault
  | .noFileOrDirectory .. => .notFound
  | .inappropriateType _ code details => faultOfCode code details
  | .invalidArgument _ code details => faultOfCode code details
  | .permissionDenied _ code details => faultOfCode code details
  | .resourceExhausted _ code details => faultOfCode code details
  | .otherError code details => faultOfCode code details
  | error => .other (toString error)
where
  /-- The fault with an error code of the system, which is given as it is or negated. -/
  faultOfCode (code : UInt32) (details : String) : ReadFault :=
    let number := min code.toNat (4294967296 - code.toNat)
    if number = 2 then .notFound
    else if number = 20 then .notADirectory
    else if number = 21 then .isADirectory
    else if number = 36 then .nameTooLong
    else .other (details ++ " (os error " ++ toString number ++ ")")

/-- The text of a file. -/
def readFile (path : String) : IO (Except ReadFault String) := do
  if '\x00' ∈ path.toList then return .error .nulInPath
  try
    return decodeText (← IO.FS.readBinFile path)
  catch error =>
    return .error (faultOfError error)

end JvmCompletion

/-- Runs the program with the arguments of the command line. -/
def main (arguments : List String) : IO UInt32 := do
  let env : JvmCompletion.Environment :=
    { home := ← IO.getEnv "HOME"
      configHome := ← IO.getEnv "XDG_CONFIG_HOME"
      logFilter := ← IO.getEnv "RUST_LOG" }
  let ending ← JvmCompletion.CommandLine.run JvmCompletion.readFile env arguments
  IO.print ending.output
  IO.eprint ending.errorOutput
  return ending.exitCode.toUInt32
