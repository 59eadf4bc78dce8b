/-! Reasons for which a file system refuses a request. -/
namespace GridPuzzles

inductive DiskError where
  | notFound
  | busy
  | alreadyExists
  | notDirectory
  | isDirectory
  | invalid
  | nameTooLong
  | notEmpty
  | zeroByte
deriving DecidableEq, Repr

namespace DiskError

def numbered (text : String) (code : Nat) : String := text ++ " (os error " ++ toString code ++ ")"

def message : DiskError → String
  | notFound => numbered "No such file or directory" 2
  | busy => numbered "Device or resource busy" 16
  | alreadyExists => numbered "File exists" 17
  | notDirectory => numbered "Not a directory" 20
  | isDirectory => numbered "Is a directory" 21
  | invalid => numbered "Invalid argument" 22
  | nameTooLong => numbered "File name too long" 36
  | notEmpty => numbered "Directory not empty" 39
  | zeroByte => "file name contained an unexpected NUL byte"

end DiskError
end GridPuzzles
