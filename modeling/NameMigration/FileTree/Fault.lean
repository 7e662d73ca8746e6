import NameMigration.Text.Basic

/-!
What can be wrong with a use of a file, and how it is said. Messages end with the number that the
operating system gives the error.
-/

namespace NameMigration

inductive FileFault where
  | notFound
  | busy
  | alreadyExists
  | notDirectory
  | isDirectory
  | invalidArgument
  | nameTooLong
  | notEmpty
  | tooManyLinks
  | nullInPath
  | notText
  | nothingAbove
  deriving DecidableEq, Repr

def FileFault.message : FileFault → Text
  | .notFound => "No such file or directory (os error 2)".toList
  | .busy => "Device or resource busy (os error 16)".toList
  | .alreadyExists => "File exists (os error 17)".toList
  | .notDirectory => "Not a directory (os error 20)".toList
  | .isDirectory => "Is a directory (os error 21)".toList
  | .invalidArgument => "Invalid argument (os error 22)".toList
  | .nameTooLong => "File name too long (os error 36)".toList
  | .notEmpty => "Directory not empty (os error 39)".toList
  | .tooManyLinks => "Too many levels of symbolic links (os error 40)".toList
  | .nullInPath => "file name contained an unexpected NUL byte".toList
  | .notText => "stream did not contain valid UTF-8".toList
  | .nothingAbove => "failed to create whole tree".toList

end NameMigration
