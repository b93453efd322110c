import RdltConnectors.Library.Transition
import RdltConnectors.File.Lease
import RdltConnectors.File.LeaseEvidence
import RdltConnectors.File.LeaseMutex
import RdltConnectors.File.LeaseLocal
import RdltConnectors.File.LeaseRelease
import RdltConnectors.Library.Mortal
import RdltConnectors.Library.Separator
import RdltConnectors.File.Layout
import RdltConnectors.File.Partition
import RdltConnectors.File.Publish
import RdltConnectors.File.Outcome
import RdltConnectors.File.Owned
import RdltConnectors.File.Converge
import RdltConnectors.File.Replace
import RdltConnectors.Library.Fallible
import RdltConnectors.Library.Grammar
import RdltConnectors.Library.Truth
import RdltConnectors.Library.Table
import RdltConnectors.Library.Quoting
import RdltConnectors.Sqlcore.Options
import RdltConnectors.Sqlcore.Quote
import RdltConnectors.Sqlcore.Schema
import RdltConnectors.Sqlcore.Validate
import RdltConnectors.Sqlcore.Arms
import RdltConnectors.Sqlcore.Script
import RdltConnectors.Sqlcore.Execute
import RdltConnectors.Sqlcore.Ensure
import RdltConnectors.Sqlcore.Survivors
import RdltConnectors.Sqlcore.KeyedAgree
import RdltConnectors.Sqlcore.Scd2
import RdltConnectors.Sqlcore.Instants
import RdltConnectors.Sqlcore.Documents
import RdltConnectors.Duckdb.Load
import RdltConnectors.Duckdb.ExactlyOnce
import RdltConnectors.Duckdb.Types
import RdltConnectors.Duckdb.Values
import RdltConnectors.Duckdb.Catalog
import RdltConnectors.Duckdb.Widen
import RdltConnectors.Duckdb.Steady
import RdltConnectors.Postgres.Vocabulary
import RdltConnectors.Postgres.Errors
import RdltConnectors.Cdc.Message
import RdltConnectors.Cdc.Pgoutput
import RdltConnectors.Cdc.PgoutputGrammar
import RdltConnectors.Cdc.Apply
import RdltConnectors.Cdc.Stream
import RdltConnectors.Cdc.Batch
import RdltConnectors.Cdc.Checkpoint
import RdltConnectors.Cdc.Replay
import RdltConnectors.Cdc.Rows
import RdltConnectors.Cdc.Mirror
import RdltConnectors.Postgres.Literal
import RdltConnectors.Postgres.Load
import RdltConnectors.Postgres.Ledger
import RdltConnectors.Postgres.ReplaceOnce
import RdltConnectors.Postgres.SingleUnit
import RdltConnectors.Postgres.Faces
import RdltConnectors.Postgres.Catalog
import RdltConnectors.Postgres.CatalogAgree
import RdltConnectors.Cursor.Tracker
import RdltConnectors.Cursor.Tracking
import RdltConnectors.Cursor.Coverage
import RdltConnectors.Cursor.Resume
import RdltConnectors.Cursor.Keyless
import RdltConnectors.Library.Interrupted
import RdltConnectors.Cdc.Wal
import RdltConnectors.Cdc.Runtime
import RdltConnectors.Cdc.Slot
import RdltConnectors.Cdc.Read
import RdltConnectors.Cdc.Floor
import RdltConnectors.Cdc.Acknowledge
import RdltConnectors.Cdc.Sections
import RdltConnectors.Cdc.Gap
import RdltConnectors.Cdc.Overlap
import RdltConnectors.Cdc.Handover
import RdltConnectors.Cdc.Following
import RdltConnectors.Cdc.Tracking
import RdltConnectors.Cdc.Destination
import RdltConnectors.Library.Log
import RdltConnectors.Snowflake.Service
import RdltConnectors.Snowflake.Load
import RdltConnectors.Snowflake.Encode
import RdltConnectors.Snowflake.OwedClears
import RdltConnectors.Snowflake.Delivery
import RdltConnectors.Snowflake.Ledger
import RdltConnectors.Snowflake.Running
import RdltConnectors.Snowflake.LandOnce
import RdltConnectors.Library.Optimistic
import RdltConnectors.Library.Surplus
import RdltConnectors.Iceberg.Commit
import RdltConnectors.Iceberg.State
import RdltConnectors.Iceberg.Load
import RdltConnectors.Iceberg.AtMostOnce
import RdltConnectors.Iceberg.Document
import RdltConnectors.Iceberg.Retention
import RdltConnectors.Iceberg.ExactlyOnce
import RdltConnectors.Iceberg.Schema
import RdltConnectors.Iceberg.Reconcile
import RdltConnectors.Library.Digits
import RdltConnectors.Library.Keyset
import RdltConnectors.Oracle.Schema
import RdltConnectors.Oracle.Value
import RdltConnectors.Oracle.Cursor
import RdltConnectors.Oracle.Read
import RdltConnectors.Oracle.Bound
import RdltConnectors.Oracle.Turn
import RdltConnectors.Oracle.Progress
import RdltConnectors.Oracle.Plain
import RdltConnectors.Oracle.Reconfigure
import RdltConnectors.Library.Framing
import RdltConnectors.FileSource.Cursor
import RdltConnectors.FileSource.Jsonl
import RdltConnectors.FileSource.Runs
import RdltConnectors.FileSource.Resume
import RdltConnectors.FileSource.Append
import RdltConnectors.Library.Highest
import RdltConnectors.Rest.Json
import RdltConnectors.Rest.Cursor
import RdltConnectors.Rest.Resume
import RdltConnectors.Rest.Select
import RdltConnectors.Rest.Extract
import RdltConnectors.Rest.FanOut
import RdltConnectors.Rest.Forwarding
import RdltConnectors.Rest.Cancel
import RdltConnectors.Library.Whatwg
import RdltConnectors.Rest.Config
import RdltConnectors.Rest.Libraries
import RdltConnectors.Rest.Validate
import RdltConnectors.Rest.Pin
import RdltConnectors.Rest.Paginate
import RdltConnectors.Rest.Substitute
import RdltConnectors.Rest.Sequence
import RdltConnectors.Rest.Client
import RdltConnectors.Rest.Pinning
import RdltConnectors.Rest.Link
import RdltConnectors.Rest.Query
import RdltConnectors.FileSource.Slabs
import RdltConnectors.Library.Numerals
import RdltConnectors.FileSource.Csv
import RdltConnectors.FileSource.Inference
import RdltConnectors.FileSource.TwoPass
import RdltConnectors.FileSource.Decode
import RdltConnectors.FileSource.Parquet
import RdltConnectors.Library.Words
import RdltConnectors.Postgres.Numeric
import RdltConnectors.Library.Chunked
import RdltConnectors.Postgres.Wire
import RdltConnectors.Postgres.Copy
import RdltConnectors.Postgres.CopyGrammar
import RdltConnectors.Postgres.CopyChunks
import RdltConnectors.Rest.Token
import RdltConnectors.Rest.TokenCache
import RdltConnectors.Library.Template
import RdltConnectors.Rest.Placeholders
import RdltConnectors.Library.Segments
import RdltConnectors.Rest.PathShape
import RdltConnectors.Library.Entries
import RdltConnectors.File.WritePath
import RdltConnectors.File.Splitting
import RdltConnectors.File.Conserved
import RdltConnectors.Iceberg.WriteWindow
import RdltConnectors.Iceberg.WindowConserved
import RdltConnectors.Library.Nesting
import RdltConnectors.Duckdb.TypeText
import RdltConnectors.Duckdb.TypeReading
import RdltConnectors.Duckdb.TypeRoundTrip
import RdltConnectors.Postgres.DecimalText
import RdltConnectors.Postgres.Uuid
import RdltConnectors.Sqlcore.IndexNames
import RdltConnectors.Sqlcore.Named
import RdltConnectors.Oracle.Spelling
import RdltConnectors.Oracle.QuoteTable
import RdltConnectors.Library.Columnar
import RdltConnectors.Iceberg.Drift
import RdltConnectors.Iceberg.Align
import RdltConnectors.Postgres.Tls
import RdltConnectors.Postgres.ConnectionString
import RdltConnectors.Postgres.Conninfo
import RdltConnectors.Postgres.Extraction
import RdltConnectors.Postgres.KeyValues
import RdltConnectors.Postgres.Uri
import RdltConnectors.Postgres.UrlPairs
import RdltConnectors.Postgres.Gate
import RdltConnectors.Postgres.Agreement
import RdltConnectors.Rest.Route
import RdltConnectors.Rest.Completeness
import RdltConnectors.Postgres.Encode
import RdltConnectors.Postgres.CopyIn
import RdltConnectors.Postgres.CopyRoundTrip
import RdltConnectors.Postgres.CopyOutcome
