import TraceAtlas.Cbor.Value
import TraceAtlas.Text.Quoted

/-!
# What can go wrong with a table

A table fails for one of four causes: the medium refuses (`io`), a record is no data of its shape
(`cbor`), the records do not make up a table (`corrupt`), or the table was written under another
version of the schema (`version`). `TableError.message` words each of them.
-/

namespace TraceAtlas

/-- Why the medium refuses. -/
inductive IoFault where
  | notFound
  | exists
  | notDirectory
  | isDirectory
  | nameTooLong
  | nulInName
  /-- A failure that was asked for. -/
  | injected
  /-- The table of overlays does not answer. -/
  | overlaysUnavailable
deriving DecidableEq, Repr

def IoFault.message : IoFault → String
  | .notFound => "No such file or directory (os error 2)"
  | .exists => "File exists (os error 17)"
  | .notDirectory => "Not a directory (os error 20)"
  | .isDirectory => "Is a directory (os error 21)"
  | .nameTooLong => "File name too long (os error 36)"
  | .nulInName => "file name contained an unexpected NUL byte"
  | .injected => "injected failure"
  | .overlaysUnavailable => "overlay table unavailable"

/-- The category of a reading error, as messages name it. -/
def Cbor.Error.category : Cbor.Error → String
  | .eof => "Eof"
  | .malformed => "Syntax"
  | .data => "Data"

/-- How the records of a table file contradict each other or the file. -/
inductive Corruption where
  /-- The file ends after this many bytes of a length. -/
  | truncatedLength (table : String) (read : Nat)
  | truncatedPayload (table : String)
  | duplicateHeader (table : String)
  | missingHeader (table : String)
  | oversizedRecord
deriving DecidableEq, Repr

def Corruption.message : Corruption → String
  | .truncatedLength table read =>
    "truncated length header in " ++ table ++ " (read " ++ toString read ++ " bytes)"
  | .truncatedPayload table => "truncated record payload in " ++ table
  | .duplicateHeader table => "duplicate header in " ++ table
  | .missingHeader table => "missing header in " ++ table
  | .oversizedRecord => "record larger than 4GiB"

/-- What can go wrong with a table. -/
inductive TableError where
  | io (path : String) (fault : IoFault)
  | cbor (error : Cbor.Error)
  | corrupt (corruption : Corruption)
  | version (table : String) (expected found : UInt32)
deriving DecidableEq, Repr

namespace TableError

def message : TableError → String
  | io path fault => "I/O error at " ++ Quoted.text path ++ ": " ++ fault.message
  | cbor error => "CBOR serialization error: " ++ error.category
  | corrupt corruption => "table corrupt: " ++ corruption.message
  | version table expected found =>
    "table '" ++ table ++ "' has schema version " ++ toString found.toNat ++ ", expected " ++
      toString expected.toNat

/-- Whether the schema is at fault and not the surroundings. -/
def isVersion : TableError → Bool
  | version .. => true
  | _ => false

end TableError

/-- The version of the schema that tables are written under. -/
def schemaVersion : UInt32 := 0

end TraceAtlas
