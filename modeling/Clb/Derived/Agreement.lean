/-
# Derived.Agreement -- does the status of a PDF agree with the store

QueryPdfStatus brings a waiting row up to date before it answers, and trusts the row otherwise. A ready
row can be trusted: it has a PDF in every reachable state (`Serves.pdfStored`). A failed row cannot: a
conversion that ends after its waiting time stores its PDF all the same, and nothing looks for it.
`status_agrees_iff` says that this is the only way to disagree, `late_conversion` is a run to it. -/
import Clb.Derived.System

set_option autoImplicit false

namespace Clb

open Clb.Lib Clb.Dao Clb.Lib.Action DocumentFacade Handlers PdfHandlers

variable {item : PdfItem}

/-- There is a PDF under the key that the row has now. -/
def PdfStored (item : PdfItem) (s : Server) : Prop :=
  ∃ f ∈ s.converter.pdfs, item.storageKey = some f.storageKey

section Stored

variable {config : ServerConfig} {s s' : Server}

/-- What a step of the PDFs keeps when nothing is asked about the sources. -/
theorem Evolves.pdfs_fresh {precise : Prop} (evolves : Evolves precise s s')
    (fresh : s.pdfs.Fresh pdfLedger fun _ _ => True) : s'.pdfs.Fresh pdfLedger fun _ _ => True :=
  (evolves.pdf.mono (fun _ => id) (fun _ => id) fun _ _ _ => trivial).fresh fresh

/-- **A ready row has its PDF**, in every reachable state. -/
theorem Serves.pdfStored (run : Serves config s) (member : item ∈ s.pdfItems.rows)
    (ready : CLBStatus.isReady item.status = true) : PdfStored item s := by
  have initial : Server.empty.pdfs.Fresh pdfLedger fun _ _ => True :=
    ⟨fun _ => Wf.absent, fun _ => Wf.absent, fun _ => Wf.absent⟩
  have fresh : s.pdfs.Fresh pdfLedger fun _ _ => True := by
    refine @ServesUnder.invariant config s _ (fun s => s.pdfs.Fresh pdfLedger fun _ _ => True) run
      initial fun event s _ wf fresh => ?_
    rcases serve_cases event wf with ⟨t, after, -⟩ | evolves
    · rw [after]
      exact fresh
    · exact evolves.pdfs_fresh fresh
  obtain ⟨key, source, named, f, listed, under, -⟩ := fresh.stored item member ready
  exact ⟨f, listed, named.trans (congrArg some under.symm)⟩

theorem pdfStored_iff {key : ObjectId} (stored : item.storageKey = some key) :
    PdfStored item s ↔ (s.pdfFile key).isSome = true := by
  unfold PdfStored Server.pdfFile
  rw [stored, List.find?_isSome]
  simp only [Option.some.injEq, beq_iff_eq]
  exact exists_congr fun f => and_congr_right fun _ => eq_comm

/-- The answer about a row: success if it is ready, or if it waits and has a PDF. -/
theorem answered_success_iff {now : Int} {key : ObjectId} (stored : item.storageKey = some key) :
    (s.answered config now item key).1 = .CONVERT_SUCCESS ↔
      CLBStatus.isReady item.status = true ∨
        (CLBStatus.isNotReady item.status = true ∧ PdfStored item s) := by
  rw [pdfStored_iff stored]
  unfold Server.answered
  cases CLBStatus.isReady item.status with
  | true => simp
  | false =>
    cases CLBStatus.isNotReady item.status with
    | false => simp
    | true =>
      cases s.pdfFile key with
      | some file => simp
      | none =>
        simp only [Bool.false_eq_true, if_false, if_true]
        split <;> simp

end Stored

/-- **Status and storage.** In every reachable state QueryPdfStatus answers about a version that has a
PdfItem row, and the answer is CONVERT_SUCCESS just if there is a PDF under the key of the row, unless
the row has neither the status ready nor the status not_ready and there is a PDF. -/
theorem status_agrees_iff {config : ServerConfig} {session : Session} {s : Server} {dp : DocPair}
    {p : DPair} {dv : DocVersion} {item : PdfItem} (run : Serves config s)
    (converted : convertToPair session.appid dp = some p)
    (permitted : Permitted session dp.docid s.store)
    (version : DocVersionDAO.read p s.store.versions = some dv)
    (row : PdfItemDAO.read p s.pdfItems = some item) (now : Int) :
    ∃ code, (queryPdfStatus config session now dp s).1 = .ok code ∧
      ((code = .CONVERT_SUCCESS ↔ PdfStored item s) ↔
        ¬(CLBStatus.isReady item.status = false ∧ CLBStatus.isNotReady item.status = false ∧
          PdfStored item s)) := by
  have wf := run.wf
  obtain ⟨member, -⟩ := pdfItem_read_some row
  have fits := wf.pdfFit item member
  obtain ⟨key, stored⟩ := pdf_fits_key fits
  have opened := (openDocument_eq wf.store converted).1 permitted
  refine ⟨(s.answered config now item key).1, ?_, ?_⟩
  · rw [queryPdfStatus_opened opened version, row]
    exact congrArg Prod.fst (itemStatus_eq wf.pdfNumbered member fits stored)
  · rw [answered_success_iff stored]
    have trusted := run.pdfStored member
    cases ready : CLBStatus.isReady item.status with
    | true => simp [trusted ready]
    | false => cases CLBStatus.isNotReady item.status <;> simp

/-! ## A conversion that ends in time, and one that ends late -/

def askedFor : List Event :=
  [.document ⟨someSession, .createDoc 0 (wordFile [1])⟩,
    .convertDocument someSession 0 ⟨1, "1".toList⟩]

/-- The service stores the PDF of the version. -/
def pdfArrives : Event := .converted ⟨some ⟨0⟩, some ⟨2⟩⟩ 9

/-- The row of the version. -/
def rowOfVersion (status : CLBStatus) : PdfItem where
  id := 1
  appid := 1
  docid := 1
  version := 1
  storageKey := some ⟨2⟩
  filename := some "a.doc".toList
  status := some status.name

theorem permitted_askedFor : Permitted someSession 1 (serverAfter (askedFor ++ [pdfArrives])).store := by
  unfold Permitted
  decide +kernel

/-- The PDF is there, and the answer is CONVERT_SUCCESS. -/
theorem status_agrees_iff_stored :
    ∃ code, (queryPdfStatus countingServer someSession 1 ⟨1, "1".toList⟩
        (serverAfter (askedFor ++ [pdfArrives]))).1 = .ok code ∧
      (code = .CONVERT_SUCCESS ↔ PdfStored (rowOfVersion .NOT_READY) (serverAfter (askedFor ++ [pdfArrives]))) := by
  obtain ⟨dv, version⟩ : ∃ dv, DocVersionDAO.read ⟨1, 1, 1⟩
      (serverAfter (askedFor ++ [pdfArrives])).store.versions = some dv :=
    Option.isSome_iff_exists.mp (by decide +kernel)
  obtain ⟨code, answer, agrees⟩ := status_agrees_iff (serves_serverAfter (askedFor ++ [pdfArrives]))
    (show convertToPair someSession.appid ⟨1, "1".toList⟩ = some ⟨1, 1, 1⟩ by decide +kernel)
    permitted_askedFor version
    (show PdfItemDAO.read ⟨1, 1, 1⟩ _ = some (rowOfVersion .NOT_READY) by decide +kernel) 1
  exact ⟨code, answer, agrees.mpr fun disagrees => absurd disagrees.2.1 (by decide)⟩

/-- The waiting time passes, the status is asked for, and then the PDF is stored. -/
def lateConversion : List Event :=
  askedFor ++ [.queryPdfStatus someSession 3600001 ⟨1, "1".toList⟩, pdfArrives]

/-- The PDF is there, and the answer stays CONVERT_FAILED. -/
theorem late_conversion :
    Serves countingServer (serverAfter lateConversion) ∧
      PdfItemDAO.read ⟨1, 1, 1⟩ (serverAfter lateConversion).pdfItems = some (rowOfVersion .FAILED) ∧
      PdfStored (rowOfVersion .FAILED) (serverAfter lateConversion) ∧
      (queryPdfStatus countingServer someSession 3600002 ⟨1, "1".toList⟩
        (serverAfter lateConversion)).1 = .ok .CONVERT_FAILED := by
  refine ⟨serves_serverAfter _, ?_⟩
  unfold PdfStored
  decide +kernel

end Clb
