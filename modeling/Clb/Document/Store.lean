/-
# Document.Store -- the state the document services work on

The four metadata tables, the GridFS collections, the local file cache of the images and the number
of document ids handed out per application. There is no transaction: an `Act` that raises keeps what
it wrote before. -/
import Clb.Dao.ChunkStatus
import Clb.Storage.Mongo

set_option autoImplicit false

namespace Clb

open Clb.Lib

/-- `LocalFileCacheService`: the temp files on disk by storage key, and the keys of
`localFileCachedMap`. -/
structure LocalFileCache where
  tempFiles : List (ObjectId × Bytes)
  cached : List ObjectId

structure Store where
  docs : Table DocMeta
  versions : Table DocVersion
  refs : Table DocRef
  chunkStatus : Table DocChunkStatus
  mongo : Mongo
  cache : LocalFileCache
  docids : Int → Nat

def Store.empty : Store where
  docs := Table.empty
  versions := Table.empty
  refs := Table.empty
  chunkStatus := Table.empty
  mongo := ⟨[], [], 0⟩
  cache := ⟨[], []⟩
  docids := fun _ => 0

/-- What the server is configured with: whether it is read-only, and the id generator, of which
`nextID appid n` is the id it gives application `appid` after `n` others. -/
structure Config where
  readonly : Bool := false
  nextID : Int → Nat → Int
  nextID_pos : ∀ appid n, 0 < nextID appid n
  nextID_injective : ∀ appid, Function.Injective (nextID appid)

/-- A logged in session. The application id is an AUTO_INCREMENT value, the user name comes from a
column like that of the owners of the documents. -/
structure Session where
  appid : Int
  user : Text
  appid_pos : 0 < appid
  user_fits : Dao.varchar .utf8 255 (some user) = true

abbrev Act := Action Store Fault

section Parts

variable {α : Type}

def onDocs (act : Action (Table DocMeta) Fault α) : Act α :=
  Action.within Store.docs (fun t s => { s with docs := t }) act

def onVersions (act : Action (Table DocVersion) Fault α) : Act α :=
  Action.within Store.versions (fun t s => { s with versions := t }) act

def onRefs (act : Action (Table DocRef) Fault α) : Act α :=
  Action.within Store.refs (fun t s => { s with refs := t }) act

def onChunkStatus (act : Action (Table DocChunkStatus) Fault α) : Act α :=
  Action.within Store.chunkStatus (fun t s => { s with chunkStatus := t }) act

def onMongo (act : Action Mongo Fault α) : Act α :=
  Action.within Store.mongo (fun m s => { s with mongo := m }) act

end Parts

end Clb
