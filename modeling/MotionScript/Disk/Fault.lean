/-!
# Why a file operation is refused

The causes for which files and directories cannot be read, written or made, with the system's text
for each.
-/
namespace MotionScript.Disk

inductive Fault | notFound | exists | notDirectory | isDirectory | nameTooLong | nulInName
  deriving DecidableEq, Repr

def Fault.message : Fault → String
  | .notFound => "No such file or directory (os error 2)"
  | .exists => "File exists (os error 17)"
  | .notDirectory => "Not a directory (os error 20)"
  | .isDirectory => "Is a directory (os error 21)"
  | .nameTooLong => "File name too long (os error 36)"
  | .nulInName => "file name contained an unexpected NUL byte"

end MotionScript.Disk
