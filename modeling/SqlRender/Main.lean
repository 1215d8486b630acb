import SqlRender.Command.Run

/-!
# The program

Renders a query document from a file or from the standard input.
-/
namespace SqlRender.Command

def decodeInput (bytes : ByteArray) : Except ReadFailure String :=
  match String.fromUTF8? bytes with
  | some s => .ok s
  | none => .error .notUnicode

/-- The number and the description of what the system refused; none if something else went wrong. -/
def refusal? : IO.Error → Option (UInt32 × String)
  | .alreadyExists _ n s | .otherError n s | .resourceBusy n s | .resourceVanished n s
  | .unsupportedOperation n s | .hardwareFault n s | .unsatisfiedConstraints n s
  | .illegalOperation n s | .protocolError n s | .timeExpired n s | .interrupted _ n s
  | .noFileOrDirectory _ n s | .invalidArgument _ n s | .permissionDenied _ n s
  | .resourceExhausted _ n s | .inappropriateType _ n s | .noSuchThing _ n s => some (n, s)
  | .unexpectedEof | .userError _ => none

def readBytes : Option String → IO ByteArray
  | none => do (← IO.getStdin).readBinToEnd
  | some path => do (← IO.FS.Handle.mk path .read).readBinToEnd

def readInput (path : Option String) : IO (Except ReadFailure String) := do
  try return decodeInput (← readBytes path)
  catch e => match refusal? e with
    | some (number, description) => return .error (.refused number.toNat description)
    | none => throw e

end SqlRender.Command

open SqlRender.Command in
def main (words : List String) : IO UInt32 := do
  let exit ← run readInput (Request.ofWords (← IO.getEnv "SQLKIT_DIALECT") words)
  IO.print exit.output
  IO.eprint exit.errors
  return exit.status
