import Tangle.Glob.Pattern
import Tangle.Path.Basic

/-!
# Faults of file access

Why a file cannot be read, found or written. The faults that the operating
system reports are worded as it words them.
-/

namespace Tangle.Disk

/-- A fault of file access. -/
inductive Fault
  /-- There is no such file or directory. -/
  | notFound
  /-- A directory stands where a file is wanted. -/
  | isDirectory
  /-- Something else stands where a directory is wanted. -/
  | notDirectory
  /-- Something stands where nothing may be. -/
  | alreadyExists
  /-- A name is longer than the system takes. -/
  | nameTooLong
  /-- The directory is in use. -/
  | busy
  /-- The path has a character that no path may have. -/
  | badName
  /-- The bytes of a file are no text. -/
  | notText
  /-- No document was given under the path. -/
  | noDocument (path : Path)
  /-- The pattern to look for is faulty. -/
  | badPattern (fault : Glob.Fault)
deriving DecidableEq, Inhabited

/-- The wording of a fault. -/
def Fault.message : Fault → String
  | notFound => "No such file or directory (os error 2)"
  | isDirectory => "Is a directory (os error 21)"
  | notDirectory => "Not a directory (os error 20)"
  | alreadyExists => "File exists (os error 17)"
  | nameTooLong => "File name too long (os error 36)"
  | busy => "Device or resource busy (os error 16)"
  | badName => "file name contained an unexpected NUL byte"
  | notText => "stream did not contain valid UTF-8"
  | noDocument path => s!"{path}: file not found"
  | badPattern fault => fault.message

end Tangle.Disk
