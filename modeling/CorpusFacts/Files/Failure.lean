/-!
# Why a file operation fails

The causes that reading and writing in a file tree can report, and their wording.
-/

namespace CorpusFacts

/-- Why an operation on a file or directory failed. -/
inductive FileFailure where
  /-- Nothing has the path. -/
  | notFound
  /-- The path is taken. -/
  | alreadyExists
  /-- A name inside something that is not a directory. -/
  | notADirectory
  /-- A directory where a file is needed. -/
  | isADirectory
  /-- A name of more bytes than a file system keeps. -/
  | nameTooLong
  /-- Following symbolic links did not come to an end. -/
  | tooManyLinks
  /-- A path with a NUL character. -/
  | nulInPath
  deriving DecidableEq, Repr

namespace FileFailure

/-- The wording of a failure, with the number the operating system gives it. -/
def message : FileFailure → String
  | notFound => "No such file or directory (os error 2)"
  | alreadyExists => "File exists (os error 17)"
  | notADirectory => "Not a directory (os error 20)"
  | isADirectory => "Is a directory (os error 21)"
  | nameTooLong => "File name too long (os error 36)"
  | tooManyLinks => "Too many levels of symbolic links (os error 40)"
  | nulInPath => "file name contained an unexpected NUL byte"

end FileFailure

end CorpusFacts
