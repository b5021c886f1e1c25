/-!
# Why a file operation fails

* `Fault.message`: the cause in the words of the operating system, with its number.
-/

namespace BenchRatio

/-- Why a file or a stream could not be used. -/
inductive Fault
  | notFound
  | alreadyExists
  | notDirectory
  | isDirectory
  | noSpace
  | nameTooLong
  /-- The other end of a pipe is gone. -/
  | brokenPipe
  /-- A path holds the byte that ends paths. -/
  | nulInPath
  /-- A text file is not UTF-8. -/
  | notText
  /-- A cause that only its reporter knows. -/
  | other (words : String)
  deriving DecidableEq, Repr

/-- The cause in words. -/
def Fault.message : Fault → String
  | .notFound => "No such file or directory (os error 2)"
  | .alreadyExists => "File exists (os error 17)"
  | .notDirectory => "Not a directory (os error 20)"
  | .isDirectory => "Is a directory (os error 21)"
  | .noSpace => "No space left on device (os error 28)"
  | .brokenPipe => "Broken pipe (os error 32)"
  | .nameTooLong => "File name too long (os error 36)"
  | .nulInPath => "file name contained an unexpected NUL byte"
  | .notText => "stream did not contain valid UTF-8"
  | .other words => words

end BenchRatio
