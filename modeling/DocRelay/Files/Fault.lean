namespace DocRelay

/-!
# Faults of files

Why a file or a folder cannot be found, read or made.
-/

/-- Why a file or a folder cannot be found, read or made. -/
inductive FileFault where
  | notFound
  | exists
  | notFolder
  | isFolder
  | nameTooLong
  /-- The path holds the character zero. -/
  | zeroInPath
deriving DecidableEq, Repr

/-- The wording of the fault, with the number that operating systems give it. -/
def FileFault.message : FileFault → String
  | .notFound => "No such file or directory (os error 2)"
  | .exists => "File exists (os error 17)"
  | .notFolder => "Not a directory (os error 20)"
  | .isFolder => "Is a directory (os error 21)"
  | .nameTooLong => "File name too long (os error 36)"
  | .zeroInPath => "file name contained an unexpected NUL byte"

end DocRelay
