import Clb.Lib.Action
import Clb.Lib.Base64
import Clb.Lib.Binary64
import Clb.Lib.BitSet
import Clb.Lib.Derivation
import Clb.Lib.Interleave
import Clb.Lib.Machine
import Clb.Lib.Percent
import Clb.Lib.Pieces
import Clb.Lib.Replace
import Clb.Lib.Sql
import Clb.Lib.Table
import Clb.Lib.Window
import Clb.Nginx.Range
import Clb.Nginx.Serve
import Clb.Nginx.UrlDecode
import Clb.Nginx.Key
import Clb.Nginx.Uri
import Clb.Nginx.StorageKey
import Clb.Nginx.Meaning
import Clb.Dao.Query
import Clb.Dao.Tables
import Clb.Dao.ChunkStatus
import Clb.Dao.Clauses
import Clb.Dao.Statements
import Clb.Dao.ChunkUpdates
import Clb.Dao.Items
import Clb.Dao.SqlText
import Clb.Storage.Mongo
import Clb.Storage.Upload
import Clb.Storage.WellFormed
import Clb.Storage.Partial
import Clb.Document.Store
import Clb.Document.Facade
import Clb.Document.Decimal
import Clb.Document.Handlers
import Clb.Document.ReadPaths
import Clb.Document.WellFormed
import Clb.Document.Outcomes
import Clb.Document.HandlerOutcomes
import Clb.Document.Removal
import Clb.Document.System
import Clb.Document.SharedContent
import Clb.Document.VersionRows
import Clb.Document.QueryExact
import Clb.Document.Linked
import Clb.Document.OneFile
import Clb.Document.ChunkMap
import Clb.Document.Sending
import Clb.Document.RoundTrip
import Clb.Document.PreparedVersion
import Clb.Document.Readable
import Clb.Document.TwoUploaders
import Clb.Document.Uploads
import Clb.Document.FinishSound
import Clb.Document.Refusals
import Clb.Document.Dedup
import Clb.Document.RefCount
import Clb.Document.Steps
import Clb.Document.Increments
import Clb.Document.ChunkBits
import Clb.Document.Numbering
import Clb.Document.Package
import Clb.Document.Honest
import Clb.Web.AccessToken
import Clb.Derived.Server
import Clb.Derived.Pdf
import Clb.Derived.Image
import Clb.Derived.Evolve
import Clb.Derived.Conversion
import Clb.Derived.Resizing
import Clb.Derived.System
import Clb.Derived.Fresh
import Clb.Derived.Latest
import Clb.Derived.Unfinished
import Clb.Derived.Agreement
import Clb.Derived.InFlight
import Clb.Lib.DedupQueue
import Clb.Derived.Pool
import Clb.Derived.Alone
import Clb.Derived.PoolDedup
import Clb.Derived.PoolPictures
import Clb.Derived.PoolCleaner
import Clb.Trivial.Space
import Clb.Trivial.Isolation
import Clb.Trivial.Atomic
import Clb.Trivial.Unzip
import Clb.Derived.UpdateLaw
import Clb.Derived.Requeue
import Clb.Document.FileCache
import Clb.Document.Lookup
import Clb.Dao.SqlMatch
import Clb.Lib.Trim
import Clb.Lib.Lines
import Clb.Lib.Template
import Clb.Lib.Fuel
import Clb.Lib.Reference
import Clb.Dao.SqlMeaning
import Clb.Dao.SqlReader
import Clb.Client.FileSaver
import Clb.Client.ChunkSize
import Clb.Derived.ResizeSize
import Clb.Derived.MetaSize
import Clb.Server.Configuration
import Clb.Server.Expansion
import Clb.Lib.While
import Clb.Lib.Buffer
import Clb.Storage.Buffered
import Clb.Document.Tenants
import Clb.Server.Login
