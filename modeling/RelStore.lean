import RelStore.Binary64.Basic
import RelStore.Binary64.Decimal
import RelStore.Binary64.Literal
import RelStore.Calendar.Basic
import RelStore.Calendar.Format
import RelStore.Catalog.Basic
import RelStore.Catalog.Folder
import RelStore.Client
import RelStore.Command
import RelStore.CommandLine.Statement
import RelStore.CommandLine.Token
import RelStore.Comparison
import RelStore.Console
import RelStore.Constraint
import RelStore.Engine
import RelStore.Error
import RelStore.Index
import RelStore.Json.Basic
import RelStore.Json.Decode
import RelStore.Json.Number
import RelStore.Json.Print
import RelStore.Json.Read
import RelStore.Main
import RelStore.OrdMap
import RelStore.Proofs.Batches
import RelStore.Proofs.CalendarText
import RelStore.Proofs.CatalogAgreement
import RelStore.Proofs.CatalogContents
import RelStore.Proofs.CatalogSteps
import RelStore.Proofs.CatalogText
import RelStore.Proofs.Checks
import RelStore.Proofs.CollectionNames
import RelStore.Proofs.CommandLineRequests
import RelStore.Proofs.Connections
import RelStore.Proofs.ConsoleRuns
import RelStore.Proofs.DecimalText
import RelStore.Proofs.DefinitionChanges
import RelStore.Proofs.DefinitionFiles
import RelStore.Proofs.Durability
import RelStore.Proofs.FailedRequests
import RelStore.Proofs.FloatColumns
import RelStore.Proofs.FloatLiterals
import RelStore.Proofs.FloatNumbers
import RelStore.Proofs.Frames
import RelStore.Proofs.FrameSizes
import RelStore.Proofs.IndexContents
import RelStore.Proofs.IndexFailures
import RelStore.Proofs.IndexUpkeep
import RelStore.Proofs.InsertionOrder
import RelStore.Proofs.Integrity
import RelStore.Proofs.Interference
import RelStore.Proofs.JsonText
import RelStore.Proofs.LineGrammar
import RelStore.Proofs.LineTokens
import RelStore.Proofs.LiteralText
import RelStore.Proofs.Locality
import RelStore.Proofs.Lookups
import RelStore.Proofs.Maps
import RelStore.Proofs.Names
import RelStore.Proofs.Numerals
import RelStore.Proofs.Operations
import RelStore.Proofs.PrintedValues
import RelStore.Proofs.Reachability
import RelStore.Proofs.Refinement
import RelStore.Proofs.Relations
import RelStore.Proofs.Reopening
import RelStore.Proofs.Representation
import RelStore.Proofs.RequestPlaces
import RelStore.Proofs.Requests
import RelStore.Proofs.RequestText
import RelStore.Proofs.Resolution
import RelStore.Proofs.Reversal
import RelStore.Proofs.Rounding
import RelStore.Proofs.RowChanges
import RelStore.Proofs.RowConstraints
import RelStore.Proofs.RowText
import RelStore.Proofs.Running
import RelStore.Proofs.SelectAnswers
import RelStore.Proofs.SelectedDatabase
import RelStore.Proofs.Selection
import RelStore.Proofs.Similarity
import RelStore.Proofs.Simulation
import RelStore.Proofs.SnapshotText
import RelStore.Proofs.Soundness
import RelStore.Proofs.StatementParts
import RelStore.Proofs.StoredRows
import RelStore.Proofs.StoreRuns
import RelStore.Proofs.StoreSteps
import RelStore.Proofs.TableCollections
import RelStore.Proofs.TableRemoval
import RelStore.Proofs.Tables
import RelStore.Proofs.ValueOrder
import RelStore.Proofs.Words
import RelStore.Query.Plan
import RelStore.Row
import RelStore.Schema.Basic
import RelStore.Schema.Record
import RelStore.Server
import RelStore.Session
import RelStore.Store.Basic
import RelStore.Store.Batch
import RelStore.Store.Durable
import RelStore.Store.Snapshot
import RelStore.Text.Blank
import RelStore.Text.Cluster
import RelStore.Text.ClusterTable
import RelStore.Text.Erase
import RelStore.Text.Numeral
import RelStore.Text.Scanner
import RelStore.Text.Utf8
import RelStore.Value.Basic
import RelStore.Value.Literal
import RelStore.Wire.Frame
import RelStore.Wire.Keyword
import RelStore.Wire.Request
