import MiniC.CommandLine.Response

/-!
# The command

Reads the arguments and the input they name, and writes the answer. Everything that is decided is
decided in `CommandLine.respond`; here is only what touches the world.
-/

namespace MiniC.CommandLine

/-- The number of an error. Some calls of the system give it with its sign turned. -/
def errorNumber (code : UInt32) : Nat :=
  if code.toNat < 0x80000000 then code.toNat else 0x100000000 - code.toNat

/-- A failed reading, as far as the system tells it apart. -/
def ReadFailure.ofError : IO.Error → ReadFailure
  | .noFileOrDirectory _ _ _ => .notFound
  | .inappropriateType _ code _ => if errorNumber code = 20 then .notDirectory else .isDirectory
  | .invalidArgument _ code _ =>
    if errorNumber code = 36 then .nameTooLong else .refused "Invalid argument" (errorNumber code)
  | .permissionDenied _ code _ => .refused "Permission denied" (errorNumber code)
  | e => .refused (toString e) 5

/-- All bytes of a stream, after those in `bytes`. -/
partial def readAll (stream : IO.FS.Stream) (bytes : ByteArray) : IO ByteArray := do
  let chunk ← stream.read 65536
  if chunk.isEmpty then return bytes
  readAll stream (bytes ++ chunk)

/-- The bytes of an input, or why there are none. -/
def Input.read (input : Input) : IO (Except ReadFailure ByteArray) := do
  try
    match input with
    | .standard => return .ok (← readAll (← IO.getStdin) ByteArray.empty)
    | .file path => return .ok (← IO.FS.readBinFile path)
  catch e => return .error (.ofError e)

end MiniC.CommandLine

open MiniC.CommandLine in
/-- Answers the command with these arguments. -/
def main (args : List String) : IO UInt32 := do
  let content ← match Request.ofArgs args with
    | .run options => options.input.read
    | _ => pure (.ok ByteArray.empty)
  let response := respond args fun _ => content
  IO.print response.output
  IO.eprint response.errors
  return response.exitCode.toUInt32
