import TraceAtlas.Entry
import TraceAtlas.Table.Error

/-!
# Entry tables

An entry table is anything that keeps rows of entries: it gives every new row a key, lists its rows,
and may hold rows back from an earlier read until it is told to look again. An operation returns its
answer together with the table as it then is, also when the answer is an error.
-/

namespace TraceAtlas

/-- States of an entry table. -/
class EntryTable (σ : Type) where
  name : σ → String
  /-- Persists a new row and answers its key. -/
  create : Entry → σ → Except TableError RowKey × σ
  /-- The rows, in the order in which the table keeps them. -/
  rows : σ → Except TableError (List Row) × σ
  /-- Forgets rows kept from an earlier read. -/
  invalidate : σ → σ

end TraceAtlas
