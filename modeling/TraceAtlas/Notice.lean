import TraceAtlas.Context
import TraceAtlas.Table.Error

/-!
# Notices

While tables, directories and registries work they leave notices: what was created, and what was
passed over and why. A notice is recorded by its cause; `Notice.level` and `Notice.message` say
how it reads.
-/

namespace TraceAtlas

inductive Level where
  | error
  | warn
  | debug
deriving DecidableEq, Repr

/-- Something worth noting. -/
inductive Notice where
  | tableCreated (table path : String)
  | overlayMinted (name base : String)
  /-- The sub-space of a new row is about to be built. -/
  | building (table : String) (key : RowKey)
  /-- A context was asked for in a registry that knows no contexts. -/
  | noContexts (context : Int64) (registry : String)
  /-- A register bank was asked for in a registry that knows no contexts. -/
  | registersDisabled (registry : String) (key : RegisterKey)
  /-- A row names a space that the trace does not have. -/
  | unknownSpace (space language : String) (key : RowKey)
  /-- A row is a register bank, and the registry knows no contexts. -/
  | registersNotAllowed (space : String)
  | unknownContext (context : Int64) (key : RowKey)
  /-- A table failed, and nobody else is told. -/
  | tableFailed (error : TableError)
deriving DecidableEq

namespace Notice

def level : Notice → Level
  | tableCreated .. | overlayMinted .. | building .. => .debug
  | tableFailed .. => .error
  | _ => .warn

def message : Notice → String
  | tableCreated table path => "created space table " ++ table ++ " at " ++ path
  | overlayMinted name base => "created overlay " ++ name ++ " on " ++ base
  | building table key => "creating sub-space " ++ table ++ " for row " ++ key.text
  | noContexts context registry =>
    "register space requested for context " ++ toString context.toInt ++ " but " ++ registry ++
      " has no context directory"
  | registersDisabled registry key =>
    "register spaces are disabled for " ++ registry ++ ": " ++ key.describe
  | unknownSpace space language key =>
    "space " ++ space ++ " does not exist in trace (language=" ++ language ++ "), skipping row " ++
      key.text
  | registersNotAllowed space =>
    "register space " ++ space ++
      " skipped: register spaces are not allowed without a context directory"
  | unknownContext context key =>
    "context " ++ toString context.toInt ++ " of register space row " ++ key.text ++
      " no longer exists, skipping"
  | tableFailed error => "trace database error: " ++ error.message

end Notice
end TraceAtlas
