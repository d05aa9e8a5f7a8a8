/-!
# Faults of the file system
-/

namespace DocCatalog.Files

/-- Why something could not be read or written. -/
inductive Fault where
  | notFound
  | noDevice
  | notDirectory
  | isDirectory
  | nameTooLong
  | linkLoop
  /-- The path holds a byte that would end it. -/
  | nulInName
  /-- The bytes are not UTF-8. -/
  | notText
  | other (message : String)
deriving DecidableEq, Repr

def Fault.message : Fault → String
  | notFound => "No such file or directory (os error 2)"
  | noDevice => "No such device or address (os error 6)"
  | notDirectory => "Not a directory (os error 20)"
  | isDirectory => "Is a directory (os error 21)"
  | nameTooLong => "File name too long (os error 36)"
  | linkLoop => "Too many levels of symbolic links (os error 40)"
  | nulInName => "file name contained an unexpected NUL byte"
  | notText => "stream did not contain valid UTF-8"
  | other message => message

end DocCatalog.Files
