/-
# Client.ChunkSize -- the chunk size that the client asks for

`DocumentServiceImpl.prepareChunkUpload` chooses the size of the chunks by the size of the file, the
server refuses a size above `MAX_CHUNK_SIZE`, and the store holds a chunk in a document of at most
16 MiB, of which some bytes are not data. The three fit together for every size but those just under
16 MiB (`prepareChunkUpload_fits_iff`): such a file is one chunk, and there is no room left for the
rest of its document. -/
import Clb.Document.Sending

set_option autoImplicit false

namespace Clb.DocumentServiceImpl

open Clb.Lib Clb.Lib.Action DocumentFacade

/-- The size of a file that is not empty, a positive `long`. -/
abbrev FileSize := {size : Int // 1 ≤ size ∧ size < 2 ^ 63}

/-- The chunk size that `prepareChunkUpload` chooses. -/
def chunkSize (size : Int) : Int :=
  if size < 16 * 1024 * 1024 then size.bmod (2 ^ 32)
  else if 16 * 1024 * 1024 ≤ size ∧ size < 32 * 1024 * 1024 then (1024 - 1) * 1024
  else if 32 * 1024 * 1024 ≤ size ∧ size < 128 * 1024 * 1024 then (2 * 1024 - 1) * 1024
  else if 128 * 1024 * 1024 ≤ size ∧ size < 256 * 1024 * 1024 then (4 * 1024 - 1) * 1024
  else if 256 * 1024 * 1024 ≤ size ∧ size < 512 * 1024 * 1024 then (8 * 1024 - 1) * 1024
  else if 512 * 1024 * 1024 ≤ size then (16 * 1024 - 1) * 1024
  else 0

/-- The request that the client sends. -/
def prepareChunkUpload (filename md5 : Option Text) (size : Int) : PrepareChunkUploadParam where
  filename
  md5
  size
  chunkSize := chunkSize size

/-- The limit of MongoDB for a document. -/
def maxDocumentSize : Nat := 16 * 1024 * 1024

/-- What a chunk's document needs beside the data: `_id`, `files_id`, `n` and the framing. -/
def documentOverhead : Nat := 64

/-- The number of data bytes of chunk `i` of a file. -/
def chunkLength (size : Int) (i : Nat) : Nat := pieceLength size.toNat (chunkSize size).toNat i

/-- The chunk size is one that the server accepts and whose chunks the store can hold. -/
structure Fits (size : FileSize) : Prop where
  positive : 0 < chunkSize size.1
  accepted : ∀ filename md5 config session s,
    codeOf (prepareUpload config session (prepareChunkUpload filename md5 size.1) s).1 ≠
      some .EXCEED_MAX_CHUNK_SIZE
  stored : ∀ i < pieceCount size.1.toNat (chunkSize size.1).toNat,
    chunkLength size.1 i + documentOverhead ≤ maxDocumentSize

/-! ## The server's check -/

/-- The action does not answer that the chunk size is too large. -/
def Accepts (act : Act ChunkResponse) : Prop :=
  ∀ s, codeOf (act s).1 ≠ some .EXCEED_MAX_CHUNK_SIZE

theorem accepts_pure {response : ChunkResponse} (other : response.statusCode ≠ .EXCEED_MAX_CHUNK_SIZE) :
    Accepts (pure response) :=
  fun _ same => other (Option.some.inj same)

theorem accepts_bind {α : Type} {act : Act α} {next : α → Act ChunkResponse}
    (each : ∀ a, Accepts (next a)) : Accepts (act >>= next) := by
  intro s
  rcases found : act s with ⟨fault | a, s'⟩
  · rw [bind_error found]
    exact nofun
  · rw [bind_ok found]
    exact each a s'

theorem accepts_prepareUpload {config : Config} {session : Session} {param : PrepareChunkUploadParam}
    (small : param.chunkSize ≤ MAX_CHUNK_SIZE) : Accepts (prepareUpload config session param) := by
  unfold prepareUpload
  refine accepts_bind fun docid => accepts_bind fun ref => ?_
  rw [if_neg (Int.not_lt.mpr small)]
  cases ref with
  | none =>
    refine accepts_bind fun _ => accepts_bind fun _ => accepts_bind fun _ => accepts_bind fun _ => ?_
    exact accepts_pure nofun
  | some ref =>
    dsimp only
    split_ifs
    · exact accepts_bind fun _ => accepts_bind fun _ => accepts_pure nofun
    · refine accepts_bind fun _ => accepts_bind fun _ => accepts_bind fun _ => accepts_bind fun _ => ?_
      exact accepts_pure nofun
    · exact accepts_pure nofun

/-! ## The sizes -/

theorem chunkSize_of_small {size : Int} (positive : 1 ≤ size) (small : size < 16 * 1024 * 1024) :
    chunkSize size = size := by
  rw [chunkSize, if_pos small, Int.bmod_eq_of_le (by omega) (by omega)]

theorem chunkSize_of_large {size : Int} (large : 16 * 1024 * 1024 ≤ size) :
    0 < chunkSize size ∧ chunkSize size ≤ (16 * 1024 - 1) * 1024 := by
  unfold chunkSize
  split_ifs <;> omega

/-- **The chunk size fits if and only if the file is not just under 16 MiB.** -/
theorem prepareChunkUpload_fits_iff (size : FileSize) :
    Fits size ↔ ¬(16 * 1024 * 1024 - 64 < size.1 ∧ size.1 < 16 * 1024 * 1024) := by
  have positive := size.2.1
  by_cases small : size.1 < 16 * 1024 * 1024
  · have chosen := chunkSize_of_small positive small
    have first : chunkLength size.1 0 = size.1.toNat := by
      simp [chunkLength, pieceLength, chosen]
    constructor
    · intro fits narrow
      have room := fits.stored 0 (pieceCount_pos (by rw [chosen]; omega) (by omega))
      rw [first, documentOverhead, maxDocumentSize] at room
      omega
    · intro wide
      refine ⟨by rw [chosen]; omega, fun filename md5 config session s => ?_, fun i _ => ?_⟩
      · exact accepts_prepareUpload (by simp only [prepareChunkUpload, chosen, MAX_CHUNK_SIZE]; omega) s
      · have short : chunkLength size.1 i ≤ size.1.toNat := by
          unfold chunkLength pieceLength
          rw [chosen]
          exact Nat.min_le_left _ _
        rw [documentOverhead, maxDocumentSize]
        omega
  · obtain ⟨chosenPos, chosenSmall⟩ := chunkSize_of_large (Int.not_lt.mp small)
    refine iff_of_true ?_ fun narrow => small narrow.2
    refine ⟨chosenPos, fun filename md5 config session s => ?_, fun i _ => ?_⟩
    · exact accepts_prepareUpload (by simp only [prepareChunkUpload, MAX_CHUNK_SIZE]; omega) s
    · have short : chunkLength size.1 i ≤ (chunkSize size.1).toNat := Nat.min_le_left _ _
      rw [documentOverhead, maxDocumentSize]
      omega

/-- A file of one byte less than 16 MiB is one chunk, which has no room in its document. -/
theorem prepareChunkUpload_just_under :
    chunkSize (16 * 1024 * 1024 - 1) = 16 * 1024 * 1024 - 1 ∧
      maxDocumentSize < chunkLength (16 * 1024 * 1024 - 1) 0 + documentOverhead := by
  decide

end Clb.DocumentServiceImpl
