/-!
# What can be wrong with a table

One cause for each way in which a table definition, a change to a table or a request to the
catalog is refused, the wording of each, and the seven groups they fall into.
-/

namespace WideColumn

/-- Why an existing table cannot be changed as asked. -/
inductive AlterationProblem where
  /-- A dense table has no room for another column. -/
  | denseTable
  /-- The layout has no place for the elements of a collection. -/
  | noRoomForCollections
  /-- Key columns stay. -/
  | keyColumn (name : String)
  /-- The columns of compact tables stay. -/
  | compactTable
  /-- The type of a multi-cell collection stays, and no other column becomes one. -/
  | collectionColumn (name : String)
  /-- Counters stay counters. -/
  | counterChange (name : String)
  /-- Stored values would not fit the new type, or would change their order. -/
  | incompatibleType (next previous name : String)
  /-- A table keeps its name and its keyspace. -/
  | identityChange
deriving DecidableEq, Repr

/-- The wording of a reason. -/
def AlterationProblem.message : AlterationProblem → String
  | denseTable => "cannot add new column to a COMPACT STORAGE table"
  | noRoomForCollections => "collection columns need a compound sparse layout"
  | keyColumn name => "cannot drop PRIMARY KEY part " ++ name
  | compactTable => "cannot drop columns from a COMPACT STORAGE table"
  | collectionColumn name => "cannot change the type of collection column " ++ name
  | counterChange name => s!"cannot change column {name} between counter and non-counter types"
  | incompatibleType next previous name =>
    s!"type {next} is not compatible with the previous type {previous} of column {name}"
  | identityChange => "table identity cannot change"

/-- Why a table definition, a change or a request to the catalog was refused. -/
inductive SchemaError where
  | invalidName (name : String)
  | nameTooLong (name : String) (max : Nat)
  | duplicateColumn (name : String)
  | missingPrimaryKey
  | multiplePrimaryKeys
  | emptyPartitionKey
  | unknownKeyColumn (name : String)
  | repeatedKeyColumn (name : String)
  | collectionKeyColumn (name : String)
  | counterKeyColumn (name : String)
  | staticKeyColumn (name : String)
  | staticWithCompactStorage
  | staticWithoutClustering
  | orderOnNonClusteringColumn (name : String)
  | clusteringOrderMismatch (expected found : String)
  | missingClusteringOrder (name : String)
  | repeatedClusteringOrder (name : String)
  | tooManyCompactColumns (names : List String)
  | collectionWithCompactStorage
  | mixedCounterColumns
  | counterWithDefaultTtl
  | timeToLiveTooLong (max seconds : Nat)
  | keyspaceNotFound (name : String)
  | keyspaceAlreadyExists (name : String)
  | tableNotFound (id : String)
  | tableAlreadyExists (id : String)
  | columnNotFound (name : String)
  | invalidAlteration (table : String) (problem : AlterationProblem)
deriving DecidableEq, Repr

/-- What an error is about. -/
inductive SchemaErrorKind where
  | name | keyStructure | staticColumn | clusteringOrder | densityConflict | property | catalog
deriving DecidableEq, Repr

namespace SchemaError

/-- What the error is about. -/
def kind : SchemaError → SchemaErrorKind
  | invalidName _ | nameTooLong .. | duplicateColumn _ => .name
  | missingPrimaryKey | multiplePrimaryKeys | emptyPartitionKey | unknownKeyColumn _
  | repeatedKeyColumn _ | collectionKeyColumn _ | counterKeyColumn _ | staticKeyColumn _ =>
    .keyStructure
  | staticWithCompactStorage | staticWithoutClustering => .staticColumn
  | orderOnNonClusteringColumn _ | clusteringOrderMismatch .. | missingClusteringOrder _
  | repeatedClusteringOrder _ => .clusteringOrder
  | tooManyCompactColumns _ | collectionWithCompactStorage | mixedCounterColumns
  | counterWithDefaultTtl => .densityConflict
  | timeToLiveTooLong .. => .property
  | keyspaceNotFound _ | keyspaceAlreadyExists _ | tableNotFound _ | tableAlreadyExists _
  | columnNotFound _ | invalidAlteration .. => .catalog

/-- The wording of an error. -/
def message : SchemaError → String
  | invalidName name =>
    "\"" ++ name ++ "\" is not a valid name (must be alphanumeric or underscore characters only)"
  | nameTooLong name max =>
    s!"names must not be more than {max} characters long (got " ++ "\"" ++ name ++ "\")"
  | duplicateColumn name => "multiple definition of identifier " ++ name
  | missingPrimaryKey => "no PRIMARY KEY specified (exactly one required)"
  | multiplePrimaryKeys => "multiple PRIMARY KEYs specified (exactly one required)"
  | emptyPartitionKey => "PRIMARY KEY must declare at least one partition key column"
  | unknownKeyColumn name => s!"unknown definition {name} referenced in PRIMARY KEY"
  | repeatedKeyColumn name => s!"column {name} appears more than once in the PRIMARY KEY"
  | collectionKeyColumn name => "invalid collection type for PRIMARY KEY component " ++ name
  | counterKeyColumn name => "counter type is not supported for PRIMARY KEY part " ++ name
  | staticKeyColumn name => s!"static column {name} cannot be part of the PRIMARY KEY"
  | staticWithCompactStorage => "static columns are not supported in COMPACT STORAGE tables"
  | staticWithoutClustering =>
    "static columns are only useful (and thus allowed) if the table has at least one clustering "
      ++ "column"
  | orderOnNonClusteringColumn name =>
    s!"only clustering columns can be defined in CLUSTERING ORDER directive (got {name})"
  | clusteringOrderMismatch expected found =>
    "the order of columns in the CLUSTERING ORDER directive must be the one of the clustering key "
      ++ s!"({expected} must appear before {found})"
  | missingClusteringOrder name => "missing CLUSTERING ORDER for column " ++ name
  | repeatedClusteringOrder name =>
    s!"column {name} appears more than once in the CLUSTERING ORDER directive"
  | tooManyCompactColumns names =>
    "COMPACT STORAGE with composite PRIMARY KEY allows no more than one column not part of the "
      ++ "PRIMARY KEY (got: " ++ ", ".intercalate names ++ ")"
  | collectionWithCompactStorage => "collection types are not supported with COMPACT STORAGE"
  | mixedCounterColumns => "cannot mix counter and non-counter columns in the same table"
  | counterWithDefaultTtl => "cannot set default_time_to_live on a table with counters"
  | timeToLiveTooLong max seconds =>
    "invalid table property default_time_to_live: "
      ++ s!"must be at most {max} seconds, got {seconds}"
  | keyspaceNotFound name => "keyspace not found: " ++ name
  | keyspaceAlreadyExists name => "keyspace already exists: " ++ name
  | tableNotFound id => "table not found: " ++ id
  | tableAlreadyExists id => "table already exists: " ++ id
  | columnNotFound name => "column not found: " ++ name
  | invalidAlteration table problem => s!"cannot alter table {table}: " ++ problem.message

end SchemaError

end WideColumn
