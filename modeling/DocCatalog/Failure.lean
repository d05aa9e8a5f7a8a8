import DocCatalog.Files.Fault
import DocCatalog.Files.Path

/-!
# Failures

Reading comments and building catalogs never fails; gathering sources and settings can.
-/

namespace DocCatalog

inductive Failure where
  /-- Standard input could not be read, or a file not be written. -/
  | io (fault : Files.Fault)
  | unreadable (path : Files.Path) (fault : Files.Fault)
  /-- The path is neither a file nor a directory. -/
  | unsupported (path : Files.Path)
  /-- The text of a configuration file is malformed or has a wrong value. -/
  | badConfig (path : Files.Path)
  /-- The marker could not be told from comment syntax. -/
  | badMarker (marker : Char)
deriving DecidableEq, Repr

def Failure.message : Failure → String
  | io fault => "IO error: " ++ fault.message
  | unreadable path fault => "Failed to read file " ++ path.shown ++ ": " ++ fault.message
  | unsupported path => "Unsupported file type: " ++ path.shown
  | badConfig path => "Invalid config file " ++ path.shown
  | badMarker marker => "Invalid tag marker: " ++ String.singleton marker

end DocCatalog
