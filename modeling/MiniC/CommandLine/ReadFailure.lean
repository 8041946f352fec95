/-!
# Failures to read an input

Either the system refuses to give the bytes, and says why in words and by a number, or the bytes are
no text.
-/

namespace MiniC.CommandLine

/-- Why an input could not be read. -/
inductive ReadFailure where
  /-- The system refuses, with its description and error number. -/
  | refused (description : String) (code : Nat)
  /-- The input is not a text in UTF-8. -/
  | notText
  deriving DecidableEq, Repr

namespace ReadFailure

/-- There is no such file. -/
def notFound : ReadFailure := .refused "No such file or directory" 2

/-- The path goes on below something that is no directory. -/
def notDirectory : ReadFailure := .refused "Not a directory" 20

/-- The path names a directory. -/
def isDirectory : ReadFailure := .refused "Is a directory" 21

/-- The path, or a name in it, is longer than the system takes. -/
def nameTooLong : ReadFailure := .refused "File name too long" 36

/-- The wording of the failure. -/
def message : ReadFailure → String
  | .refused description code => description ++ " (os error " ++ toString code ++ ")"
  | .notText => "stream did not contain valid UTF-8"

end ReadFailure

end MiniC.CommandLine
