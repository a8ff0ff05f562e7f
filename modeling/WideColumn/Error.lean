import WideColumn.Schema.Error
import WideColumn.Value.Error

/-!
# What can go wrong at work

The errors of indexes and of stored tables, with the wording of each, and the sum of all errors
that an operation can end in.
-/

namespace WideColumn

/-- Why a column cannot be indexed. -/
inductive IndexabilityProblem where
  | noSuchColumn
  /-- The elements of a multi-cell collection are many values. -/
  | multiCell
  | counter
deriving DecidableEq, Repr

/-- The wording of a reason. -/
def IndexabilityProblem.message : IndexabilityProblem → String
  | noSuchColumn => "no such column"
  | multiCell => "non-frozen collections have no single value to index"
  | counter => "counter columns cannot be indexed"

/-- What can go wrong with an index. -/
inductive IndexError where
  | notIndexable (table column : String) (problem : IndexabilityProblem)
  /-- The index was retired. -/
  | invalidated (id : String)
  | alreadyExists (id : String)
  | notFound (name : String)
  /-- A cell that an entry is asked for does not carry what the entry holds. -/
  | missingComponent (column : String)
deriving DecidableEq, Repr

/-- The wording of an error. -/
def IndexError.message : IndexError → String
  | notIndexable table column problem =>
    s!"column {column} of table {table} cannot be indexed: " ++ problem.message
  | invalidated id => s!"index {id} has been invalidated"
  | alreadyExists id => "index already exists: " ++ id
  | notFound name => "index not found: " ++ name
  | missingComponent column => "cell name does not carry a value for indexed column " ++ column

/-- What can go wrong with a stored table. -/
inductive StorageError where
  /-- The medium failed. -/
  | io (reason : String)
  /-- The table was retired. -/
  | invalidated (id : String)
  /-- A flush ended without success. -/
  | flushAborted (table reason : String)
deriving DecidableEq, Repr

/-- The wording of an error. -/
def StorageError.message : StorageError → String
  | io reason => "I/O error: " ++ reason
  | invalidated id => s!"table {id} has been invalidated"
  | flushAborted table reason => s!"flush of table {table}: {reason} did not complete"

/-- Any error. -/
inductive EngineError where
  | schema (e : SchemaError)
  | index (e : IndexError)
  | storage (e : StorageError)
  | encoding (e : EncodingError)
deriving DecidableEq, Repr

/-- The wording of an error. -/
def EngineError.message : EngineError → String
  | schema e => e.message
  | index e => e.message
  | storage e => e.message
  | encoding e => e.message

end WideColumn
