import QueryHive.Library.Result
import QueryHive.Library.Runs
import QueryHive.Library.Summary
import QueryHive.Library.History
import QueryHive.Library.Utf16
import QueryHive.Library.Xml
import QueryHive.Library.Watermark
import QueryHive.Library.Wildcard
import QueryHive.Library.Tally
import QueryHive.Library.Occurrences
import QueryHive.Library.Machine
import QueryHive.Library.MarchYear
import QueryHive.Library.Medium
import QueryHive.Library.Shares
import QueryHive.Library.Munch
import QueryHive.Library.Lexical
import QueryHive.Library.Numeral
import QueryHive.Library.Decimal
import QueryHive.Library.FixedPoint
import QueryHive.Library.Rounding
import QueryHive.Library.Ascii
import QueryHive.Library.Csv
import QueryHive.Library.Text
import QueryHive.Library.Bytes
import QueryHive.Library.Sections
import QueryHive.Library.Weights
import QueryHive.Library.Base64
import QueryHive.Library.Json
import QueryHive.Library.Sha256
import QueryHive.Library.Chain
import QueryHive.Library.Deferred
import QueryHive.Library.Comparator
import QueryHive.Library.Cuts
import QueryHive.Library.Table
import QueryHive.Library.Merge
import QueryHive.Library.Program
import QueryHive.Library.Interleaving
import QueryHive.Library.Intervals
import QueryHive.Library.Files
import QueryHive.Library.Patch
import QueryHive.Library.Pipe
import QueryHive.Core.Calendar
import QueryHive.Core.CalendarDays
import QueryHive.Core.Error
import QueryHive.Sql.Lexer
import QueryHive.Sql.Scan
import QueryHive.Sql.Lexemes
import QueryHive.Sql.Splice
import QueryHive.Sql.Seams
import QueryHive.Sql.Trivia
import QueryHive.Sql.Significant
import QueryHive.Sql.Script
import QueryHive.Sql.Classify
import QueryHive.Sql.Guard
import QueryHive.Sql.Swallow
import QueryHive.Sql.Comment
import QueryHive.Sql.CommentRows
import QueryHive.Sql.CommentAgain
import QueryHive.Sql.CommentFrame
import QueryHive.Editor.Statements
import QueryHive.Editor.TextBuffer
import QueryHive.Editor.TextEdits
import QueryHive.Editor.Checkpoints
import QueryHive.Editor.RangeSet
import QueryHive.Store.Value
import QueryHive.Driver.Fields
import QueryHive.Driver.Mysql
import QueryHive.Driver.MysqlTransactions
import QueryHive.Driver.MysqlOneConnection
import QueryHive.Driver.Postgres
import QueryHive.Driver.PostgresOutput
import QueryHive.Columnar.Tagged
import QueryHive.Columnar.Nesting
import QueryHive.Columnar.Chunk
import QueryHive.Columnar.Zone
import QueryHive.Store.Stats
import QueryHive.Store.Refund
import QueryHive.Store.Filter
import QueryHive.Store.PlainNumber
import QueryHive.Store.PlainChecked
import QueryHive.Store.NaturalKey
import QueryHive.Store.Views
import QueryHive.Store.SortedView
import QueryHive.Store.Distinct
import QueryHive.Store.Budget
import QueryHive.Store.Logical
import QueryHive.Store.Render
import QueryHive.Store.ExactNumber
import QueryHive.Store.CalendarDate
import QueryHive.Store.RenderBuffer
import QueryHive.Store.Instants
import QueryHive.Store.CellText
import QueryHive.Store.Window
import QueryHive.Store.LogicalNames
import QueryHive.Store.TextColumn
import QueryHive.Store.JsonValidate
import QueryHive.Export.Plan
import QueryHive.Export.Staging
import QueryHive.Export.Delimited
import QueryHive.Export.DelimitedRead
import QueryHive.Export.Xml
import QueryHive.Export.XmlRead
import QueryHive.Export.Xls
import QueryHive.Export.XlsStrings
import QueryHive.Export.XlsContainer
import QueryHive.Export.Delivery
import QueryHive.Export.Encoding
import QueryHive.Export.Dbf
import QueryHive.Export.DbfNumber
import QueryHive.Export.DbfLayout
import QueryHive.Host.GuardLog
import QueryHive.Host.Lease
import QueryHive.Host.Retry
import QueryHive.Host.Replacement
import QueryHive.Host.Pool
import QueryHive.Host.PoolCalls
import QueryHive.Host.PoolTurns
import QueryHive.Host.PoolCounts
import QueryHive.Host.PoolLending
import QueryHive.Core.Batch
import QueryHive.Store.Push
import QueryHive.Store.SplitChunks
import QueryHive.Driver.TrinoPage
import QueryHive.Driver.TrinoCursor
import QueryHive.Driver.TrinoDelivery
import QueryHive.Driver.TrinoCredentials
import QueryHive.Driver.TrinoOrigin
import QueryHive.Write.TableSwap
import QueryHive.Write.Replace
import QueryHive.Write.ChangePlan
import QueryHive.Tunnel.Pattern
import QueryHive.Tunnel.KnownHosts
import QueryHive.Tunnel.HostKeys
import QueryHive.Tunnel.HostKeyVerdict
import QueryHive.Tunnel.RecordedTypes
import QueryHive.Storage.ExecutionLog
import QueryHive.Storage.Records
import QueryHive.Storage.Operations
import QueryHive.Storage.Calls
import QueryHive.Storage.Clearing
import QueryHive.Storage.Concurrent
import QueryHive.Storage.Migrate
import QueryHive.Storage.MigrateOnce
import QueryHive.Storage.MigrateRuns
import QueryHive.Storage.MigrateOverlap
import QueryHive.Storage.Revisions
import QueryHive.Storage.Convergence
import QueryHive.Analytics.Output
import QueryHive.Analytics.LeasePool
import QueryHive.Analytics.SpillFiles
import QueryHive.Analytics.Frames
import QueryHive.Analytics.Server
import QueryHive.Analytics.Told
import QueryHive.Analytics.Endings
import QueryHive.Transfer.DecimalText
import QueryHive.Transfer.Types
import QueryHive.Transfer.MysqlRow
import QueryHive.Library.Fuel
import QueryHive.Library.JsonText
import QueryHive.Library.CopyText
import QueryHive.Transfer.JsonKeys
import QueryHive.Transfer.PgText
import QueryHive.Transfer.CopyRow
import QueryHive.Library.JsonLayout
import QueryHive.Library.JsonRead
import QueryHive.Library.RawJson
import QueryHive.Store.JsonValue
import QueryHive.Export.Json
import QueryHive.Export.JsonRead
import QueryHive.Import.JsonSource
import QueryHive.Import.JsonFraming
import QueryHive.Import.JsonElements
import QueryHive.Import.JsonShapes
import QueryHive.Import.JsonRuns
import QueryHive.Import.JsonRoundTrip
import QueryHive.Import.NumberFormat
import QueryHive.Import.DatePattern
import QueryHive.Import.DateFields
import QueryHive.Import.DateStamps
import QueryHive.Import.DateClashes
import QueryHive.Library.Binary64
import QueryHive.Library.Scientific
import QueryHive.Import.WholeNumbers
