import WideColumn.CellName.Layout
import WideColumn.Composite
import WideColumn.Json.Reader
import WideColumn.Json.Writer
import WideColumn.Schema.Evolution
import WideColumn.Schema.Version
import WideColumn.Catalog
import WideColumn.Text.Alphanumeric
import WideColumn.Value.Display
import WideColumn.Value.Validity
import WideColumn.Store.TableStore
import WideColumn.IndexedTable
import WideColumn.Main
import WideColumn.Proofs.ColumnPlaces
import WideColumn.Proofs.DescendingMarks
import WideColumn.Proofs.IndexTables
import WideColumn.Proofs.RebasedIndexes
import WideColumn.Proofs.RetypedOrders
import WideColumn.Proofs.SortedBindings
import WideColumn.Proofs.Supersession
import WideColumn.Proofs.LayeredCells
import WideColumn.Proofs.Effects
import WideColumn.Proofs.Writes
import WideColumn.Proofs.FlatStore
import WideColumn.Proofs.PackedNames
import WideColumn.Proofs.IndexEntries
import WideColumn.Proofs.FollowedChanges
import WideColumn.Proofs.Deployments
import WideColumn.Proofs.ValueIndexes
import WideColumn.Proofs.SharedEntries
import WideColumn.Proofs.KeyIndexes
import WideColumn.Proofs.DenseIndexes
import WideColumn.Proofs.Replicas
import WideColumn.Proofs.WriteEpochs
import WideColumn.Proofs.FlushCoverage
import WideColumn.Proofs.UpkeepRuns
import WideColumn.Proofs.Requests
import WideColumn.Proofs.RefusedWrites
import WideColumn.Proofs.CompiledTables
import WideColumn.Proofs.EntryExistence
import WideColumn.Proofs.ReachableTables
import WideColumn.Proofs.UnhinderedWrites
import WideColumn.Proofs.KeySplits
import WideColumn.Proofs.SchemaChanges
import WideColumn.Proofs.ConsistentTables
import WideColumn.Proofs.AcceptedDefinitions
import WideColumn.Proofs.TableLayouts
import WideColumn.Proofs.AddedColumns
import WideColumn.Proofs.CounterTables
import WideColumn.Proofs.StaticCompactTables
import WideColumn.Proofs.RegisteredCollections
import WideColumn.Proofs.UpdateWindows
import WideColumn.Proofs.TextOrder
import WideColumn.Proofs.Integers
import WideColumn.Proofs.Preorders
import WideColumn.Proofs.ValueOrder
import WideColumn.Proofs.NameOrder
import WideColumn.Proofs.AdmittedNames
import WideColumn.Proofs.JsonTexts
import WideColumn.Proofs.TypeNotation
import WideColumn.Proofs.JsonForms
import WideColumn.Proofs.TableTypes
import WideColumn.Proofs.CatalogRuns
import WideColumn.Proofs.SavedCatalogs
import WideColumn.Proofs.CatalogMaps
import WideColumn.Proofs.StoredData
import WideColumn.Proofs.VersionFeeds
import WideColumn.Proofs.LoadedCatalogs
import WideColumn.Proofs.WriteBarriers
import WideColumn.Proofs.RetiredIndexes
import WideColumn.Proofs.RetiredFlushes
import WideColumn.Proofs.BuildingIndexes
import WideColumn.Proofs.Backfills
import WideColumn.Proofs.ReloadedIndexes
import WideColumn.Proofs.IndexIdentities
import WideColumn.Proofs.ReportedChanges
import WideColumn.Proofs.PendingFlushes
import WideColumn.Proofs.RetiredTables
import WideColumn.Proofs.IndexColumns
import WideColumn.Proofs.AtomicWrites
import WideColumn.Proofs.BatchedWrites
import WideColumn.Proofs.ReversedComparisons
import WideColumn.Proofs.ReadOrders
import WideColumn.Proofs.EqualNames
import WideColumn.Proofs.DecimalOrder
import WideColumn.Proofs.Varints
import WideColumn.Proofs.TypeGrammar
import WideColumn.Proofs.ClusteringOrders
import WideColumn.Proofs.FrozenTypes
import WideColumn.Proofs.ValueCells
