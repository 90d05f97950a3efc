/-
# Derived.InFlight -- how many conversions of one version are under way

A `Watched` server keeps, beside the server, the requests for one version that the service has not
answered: when each was sent, and whether QueryPdfStatus has given it up after its waiting time. A
request is in flight until it is answered or given up. `one_in_flight` bounds what is in flight, and
what one ConvertDocument call sends, in every run whose calls are `Orderly`.

Three runs leave that condition (`two_in_flight`). The error log keeps a key for ever, so that a row
which failed is sent under its old key and, in the same call, under a new one; a late failure of a
request given up is taken for a failure of its successor, which has the same key; and a new key does
not set the time anew, so that its request is given up at once. -/
import Clb.Derived.System
import Mathlib.Data.List.Perm.Subperm

set_option autoImplicit false

namespace Clb

open Clb.Lib Clb.Dao Clb.Lib.Action DocumentFacade Handlers PdfHandlers

variable {session : Session}

/-- A request for the version that the service has not answered. -/
structure SentRequest where
  request : ConvertRequest
  time : Int
  givenUp : Bool
deriving DecidableEq, Repr

structure Watched where
  server : Server
  sent : List SentRequest

/-- The calls on one version, and the answers to the requests for it, by their place in `sent`. -/
inductive PdfEvent where
  | convert (session : Session) (now : Int) (dp : DocPair)
  | query (session : Session) (now : Int) (dp : DocPair)
  | converted (i : Nat) (length : Int)
  | failed (i : Nat)

namespace Watched

/-- A request is given up by a call that finds its own waiting time exceeded. -/
def giveUp (config : ServerConfig) (now : Int) (r : SentRequest) : SentRequest :=
  { r with givenUp := r.givenUp || isConvertExpired config now r.time }

/-- The row of the version waits before and has failed after. -/
def gaveUp (p : DPair) (s s' : Server) : Bool :=
  ((PdfItemDAO.read p s.pdfItems).any fun row => CLBStatus.isNotReady row.status) &&
    (PdfItemDAO.read p s'.pdfItems).any fun row => CLBStatus.isFailed row.status

def step (config : ServerConfig) (p : DPair) (event : PdfEvent) (w : Watched) : Watched :=
  match event with
  | .convert session now dp =>
    let s' := serve config (.convertDocument session now dp) w.server
    { server := s'
      sent := w.sent ++
        (s'.converter.pending.drop w.server.converter.pending.length).map (⟨·, now, false⟩) }
  | .query session now dp =>
    let s' := serve config (.queryPdfStatus session now dp) w.server
    { server := s'
      sent := if gaveUp p w.server s' then w.sent.map (giveUp config now) else w.sent }
  | .converted i length =>
    match w.sent[i]? with
    | some r => ⟨serve config (.converted r.request length) w.server, w.sent.eraseIdx i⟩
    | none => w
  | .failed i =>
    match w.sent[i]? with
    | some r => ⟨serve config (.conversionFailed r.request) w.server, w.sent.eraseIdx i⟩
    | none => w

/-- The requests neither answered nor timed out. -/
def inFlight (w : Watched) : List SentRequest := w.sent.filter fun r => !r.givenUp

/-- ConvertDocument, for a row that is not ready and whose key is in the error log: the row has not
been marked as failed, and nothing is in flight. QueryPdfStatus: a row whose waiting time is exceeded
is one whose requests have waited that long. -/
def Orderly (config : ServerConfig) (p : DPair) (event : PdfEvent) (w : Watched) : Prop :=
  match event with
  | .convert session _ dp => convertToPair session.appid dp = some p ∧
      ∀ row ∈ PdfItemDAO.read p w.server.pdfItems, CLBStatus.isReady row.status = false →
        row.storageKey ∈ w.server.converter.errors →
        CLBStatus.isNotReady row.status = true ∧ w.inFlight = []
  | .query session now dp => convertToPair session.appid dp = some p ∧
      ∀ row ∈ PdfItemDAO.read p w.server.pdfItems, CLBStatus.isNotReady row.status = true →
        row.storageKey.bind (fun key => w.server.pdfFile key) = none →
        row.storageKey ∉ w.server.converter.errors →
        isConvertExpired config now (w.server.pdfTimes row.id) = true →
        ∀ r ∈ w.inFlight, isConvertExpired config now r.time = true
  | .converted _ _ | .failed _ => True

end Watched

/-! ## What the calls do to the row and to the requests -/

section Calls

variable {p : DPair} {s : Server} {row : PdfItem} {key : ObjectId} {now : Int}
  {source : Option ObjectId}

/-- What ConvertDocument may do to the row of a version and to the requests: it sends nothing, or it
sends one request for a row that did not wait for one, and leaves a row that has not failed. -/
inductive ConvertSends (p : DPair) (s s' : Server) : Prop
  | nothing (pending : s'.converter.pending = s.converter.pending)
      (errors : s'.converter.errors = s.converter.errors)
      (row : PdfItemDAO.read p s'.pdfItems = PdfItemDAO.read p s.pdfItems ∨
        ∃ row', PdfItemDAO.read p s'.pdfItems = some row' ∧ CLBStatus.isFailed row'.status = false)
  | one (r : ConvertRequest) (pending : s'.converter.pending = s.converter.pending ++ [r])
      (row' : PdfItem) (after : PdfItemDAO.read p s'.pdfItems = some row')
      (waits : CLBStatus.isFailed row'.status = false)
      (cause : ∀ row, PdfItemDAO.read p s.pdfItems = some row →
        CLBStatus.isReady row.status = false ∧
          (row.storageKey ∈ s.converter.errors ∨ CLBStatus.isFailed row.status = true))

theorem followed_sends (numbered : Table.Numbered PdfItem.id s.pdfItems)
    (read : PdfItemDAO.read p s.pdfItems = some row) (stored : row.storageKey = some key)
    (waits : CLBStatus.isNotReady row.status = true) :
    ConvertSends p s (s.followed now source row key) := by
  have notReady : CLBStatus.isReady row.status = false :=
    Bool.eq_false_iff.mpr fun ready => nomatch CLBStatus.isEqualStatus_eq waits ready
  unfold Server.followed
  split
  · rename_i logged
    refine .one _ rfl _ (pdfItem_read_replace numbered read rfl) (by simp) fun row' read' => ?_
    obtain rfl : row = row' := Option.some.inj (read.symm.trans read')
    rw [stored]
    exact ⟨notReady, .inl (List.contains_iff_mem.mp logged)⟩
  · split
    · exact .nothing rfl rfl (.inr ⟨_, pdfItem_read_replace numbered read rfl, by simp⟩)
    · exact .nothing rfl rfl (.inl rfl)

/-- A failed row whose key is not in the log is sent once. -/
theorem retried_sends (numbered : Table.Numbered PdfItem.id s.pdfItems)
    (read : PdfItemDAO.read p s.pdfItems = some row)
    (failed : CLBStatus.isFailed row.status = true) (unlogged : some key ∉ s.converter.errors) :
    ConvertSends p s ((s.retried now source row).followed now source
      { row with status := some CLBStatus.NOT_READY.name } key) := by
  have notReady : CLBStatus.isReady row.status = false :=
    Bool.eq_false_iff.mpr fun ready => nomatch CLBStatus.isEqualStatus_eq failed ready
  have cause : ∀ row', PdfItemDAO.read p s.pdfItems = some row' →
      CLBStatus.isReady row'.status = false ∧
        (row'.storageKey ∈ s.converter.errors ∨ CLBStatus.isFailed row'.status = true) := by
    intro row' read'
    obtain rfl : row = row' := Option.some.inj (read.symm.trans read')
    exact ⟨notReady, .inr failed⟩
  have marked : PdfItemDAO.read p (s.retried now source row).pdfItems =
      some { row with status := some CLBStatus.NOT_READY.name } :=
    pdfItem_read_replace numbered read rfl
  have numbered' : Table.Numbered PdfItem.id (s.retried now source row).pdfItems :=
    numbered.replace rfl
  have absent : ¬ (s.retried now source row).converter.errors.contains (some key) = true :=
    fun logged => unlogged (List.contains_iff_mem.mp logged)
  unfold Server.followed
  rw [if_neg absent]
  split
  · exact .one _ rfl _ (pdfItem_read_replace numbered' marked rfl) (by simp) cause
  · exact .one _ rfl _ marked (by simp) cause

theorem convertedAgain_sends (numbered : Table.Numbered PdfItem.id s.pdfItems)
    (read : PdfItemDAO.read p s.pdfItems = some row) (stored : row.storageKey = some key)
    (orderly : CLBStatus.isReady row.status = false → row.storageKey ∈ s.converter.errors →
      CLBStatus.isNotReady row.status = true) :
    ConvertSends p s (s.convertedAgain now source row key) := by
  unfold Server.convertedAgain
  split
  · rename_i failed
    refine retried_sends numbered read failed fun logged => ?_
    have notReady : CLBStatus.isReady row.status = false :=
      Bool.eq_false_iff.mpr fun ready => nomatch CLBStatus.isEqualStatus_eq failed ready
    nomatch CLBStatus.isEqualStatus_eq failed (orderly notReady (stored ▸ logged))
  · split
    · exact followed_sends numbered read stored ‹_›
    · exact .nothing rfl rfl (.inl rfl)

theorem convertDocument_sends {config : ServerConfig} {session : Session} {dp : DocPair}
    (wf : ServerWf config.toConfig s) (converted : convertToPair session.appid dp = some p)
    (explicit : 0 < p.version)
    (orderly : ∀ row ∈ PdfItemDAO.read p s.pdfItems, CLBStatus.isReady row.status = false →
      row.storageKey ∈ s.converter.errors → CLBStatus.isNotReady row.status = true) :
    ConvertSends p s (serve config (.convertDocument session now dp) s) := by
  change Ends (convertDocument config session now dp) s fun _ s' => ConvertSends p s s'
  refine (convertDocument_ends wf).mono ?_
  rintro _ s' (rfl | ⟨p', converted', effect⟩)
  · exact .nothing rfl rfl (.inl rfl)
  · obtain rfl : p = p' := Option.some.inj (converted.symm.trans converted')
    obtain ⟨appid, docid, positive⟩ := convertToPair_eq_some converted
    have session_pos := session.appid_pos
    cases effect with
    | refused => exact .nothing rfl rfl (.inl rfl)
    | first dv found missing fits =>
      have named : p.version ≠ DPair.LATEST := by
        have : DPair.LATEST = -1 := rfl
        omega
      obtain ⟨-, sameApp, sameDoc, sameVersion⟩ := docVersion_read_pair found named
      have pair : (s.newPdf dv).pair = p := by
        change DPair.mk dv.appid dv.docid dv.version = p
        rw [sameApp (by omega), sameDoc (by omega), sameVersion (by omega)]
      refine .one _ rfl _ (pdfItem_read_insert missing pair) (by simp [Server.newPdf]) fun row read => ?_
      rw [missing] at read
      cases read
    | again dv found row read key stored =>
      exact convertedAgain_sends wf.pdfNumbered read stored (orderly row read)

/-- What QueryPdfStatus may do to the row of a version: it leaves the row, or leaves one that has not
failed, or marks a waiting row without a PDF as failed. -/
inductive QueryMarks (config : ServerConfig) (now : Int) (p : DPair) (s s' : Server) : Prop
  | kept (converter : s'.converter = s.converter)
      (row : PdfItemDAO.read p s'.pdfItems = PdfItemDAO.read p s.pdfItems)
  | found (converter : s'.converter = s.converter) (row' : PdfItem)
      (after : PdfItemDAO.read p s'.pdfItems = some row')
      (ready : CLBStatus.isFailed row'.status = false)
  | failed (converter : s'.converter = s.converter) (row : PdfItem)
      (before : PdfItemDAO.read p s.pdfItems = some row)
      (waits : CLBStatus.isNotReady row.status = true)
      (missing : row.storageKey.bind (fun key => s.pdfFile key) = none)
      (cause : row.storageKey ∈ s.converter.errors ∨
        isConvertExpired config now (s.pdfTimes row.id) = true)
      (after : PdfItemDAO.read p s'.pdfItems = some { row with status := some CLBStatus.FAILED.name })

theorem queryPdfStatus_marks {config : ServerConfig} {session : Session} {dp : DocPair}
    (wf : ServerWf config.toConfig s) (converted : convertToPair session.appid dp = some p) :
    QueryMarks config now p s (serve config (.queryPdfStatus session now dp) s) := by
  change Ends (queryPdfStatus config session now dp) s fun _ s' => QueryMarks config now p s s'
  refine (queryPdfStatus_ends wf).mono ?_
  rintro _ s' (rfl | ⟨p', row, key, converted', read, stored, rfl⟩)
  · exact .kept rfl rfl
  · obtain rfl : p = p' := Option.some.inj (converted.symm.trans converted')
    unfold Server.answered
    split
    · exact .kept rfl rfl
    · split
      · rename_i waits
        cases missing : s.pdfFile key with
        | some file => exact .found rfl _ (pdfItem_read_replace wf.pdfNumbered read rfl) (by simp)
        | none =>
          dsimp only
          split
          · rename_i fails
            have cause : row.storageKey ∈ s.converter.errors ∨
                isConvertExpired config now (s.pdfTimes row.id) = true := by
              rw [stored]
              simpa using fails
            have absent : row.storageKey.bind (fun key => s.pdfFile key) = none := by
              rw [stored]
              exact missing
            exact .failed rfl row read waits absent cause (pdfItem_read_replace wf.pdfNumbered read rfl)
          · exact .kept rfl rfl
      · exact .kept rfl rfl

/-- What an answer of the service to one request leaves: the rows, the log, and the other requests. -/
structure Answers (r : ConvertRequest) (s s' : Server) : Prop where
  rows : s'.pdfItems = s.pdfItems
  errors : s.converter.errors ⊆ s'.converter.errors
  pending : (s.converter.pending.erase r).Subperm s'.converter.pending

theorem Answers.refl (r : ConvertRequest) : Answers r s s :=
  ⟨rfl, List.Subset.refl _, List.erase_sublist.subperm⟩

theorem answers_converted {config : ServerConfig} (r : ConvertRequest) (length : Int) :
    Answers r s (serve config (.converted r length) s) := by
  change Answers r s (if r ∈ s.converter.pending then s.converted r length else s)
  split
  · unfold Server.converted
    split
    · exact ⟨rfl, List.Subset.refl _, List.Subperm.refl _⟩
    · exact .refl r
  · exact .refl r

theorem answers_conversionFailed {config : ServerConfig} (r : ConvertRequest) :
    Answers r s (serve config (.conversionFailed r) s) := by
  change Answers r s (if r ∈ s.converter.pending then s.conversionFailed r else s)
  split
  · exact ⟨rfl, List.subset_append_left _ _, List.Subperm.refl _⟩
  · exact .refl r

end Calls

/-! ## One request at a time -/

namespace Watched

variable {config : ServerConfig} {p : DPair} {w : Watched}

/-- What the runs keep: the requests are still with the service, at most one is in flight, none for a
version without a row, and none for a row that has failed and may be sent again. -/
structure Exclusive (p : DPair) (w : Watched) : Prop where
  recorded : (w.sent.map (·.request)).Subperm w.server.converter.pending
  few : w.inFlight.length ≤ 1
  unasked : PdfItemDAO.read p w.server.pdfItems = none → w.inFlight = []
  failed : ∀ row, PdfItemDAO.read p w.server.pdfItems = some row →
    CLBStatus.isFailed row.status = true →
    row.storageKey ∈ w.server.converter.errors ∨ w.inFlight = []

/-- Fewer requests in flight and more errors logged, for the same row. -/
theorem Exclusive.fewer {w' : Watched} (exclusive : Exclusive p w)
    (row : PdfItemDAO.read p w'.server.pdfItems = PdfItemDAO.read p w.server.pdfItems)
    (errors : w.server.converter.errors ⊆ w'.server.converter.errors)
    (recorded : (w'.sent.map (·.request)).Subperm w'.server.converter.pending)
    (flight : w'.inFlight.Sublist w.inFlight) : Exclusive p w' := by
  have emptied : w.inFlight = [] → w'.inFlight = [] := fun none_ => by
    rw [none_] at flight
    exact List.sublist_nil.mp flight
  refine ⟨recorded, flight.length_le.trans exclusive.few, fun missing => ?_,
    fun item read failed => ?_⟩
  · exact emptied (exclusive.unasked (row ▸ missing))
  · exact (exclusive.failed item (row ▸ read) failed).imp (fun logged => errors logged) emptied

/-- A row that has not failed leaves only the bound to be shown. -/
theorem Exclusive.of_row {row' : PdfItem} (after : PdfItemDAO.read p w.server.pdfItems = some row')
    (sound : CLBStatus.isFailed row'.status = false)
    (recorded : (w.sent.map (·.request)).Subperm w.server.converter.pending)
    (few : w.inFlight.length ≤ 1) : Exclusive p w := by
  refine ⟨recorded, few, fun missing => ?_, fun row read failed => ?_⟩
  · rw [after] at missing
    cases missing
  · obtain rfl : row' = row := Option.some.inj (after.symm.trans read)
    rw [sound] at failed
    cases failed

theorem Exclusive.convert {now : Int} {dp : DocPair}
    (exclusive : Exclusive p w) (wf : ServerWf config.toConfig w.server) (explicit : 0 < p.version)
    (orderly : Orderly config p (.convert session now dp) w) :
    Exclusive p (step config p (.convert session now dp) w) := by
  obtain ⟨converted, guarded⟩ := orderly
  have sends := @convertDocument_sends p w.server now config session dp wf converted explicit
    fun row read notReady logged => (guarded row read notReady logged).1
  cases sends with
  | nothing pending errors row =>
    have same : (step config p (.convert session now dp) w).inFlight = w.inFlight := by
      simp [step, inFlight, pending]
    have recorded : ((step config p (.convert session now dp) w).sent.map (·.request)).Subperm
        (step config p (.convert session now dp) w).server.converter.pending := by
      simpa [step, pending] using exclusive.recorded
    rcases row with kept | ⟨row', after, sound⟩
    · exact exclusive.fewer kept (fun _ logged => errors.symm ▸ logged) recorded (same ▸ .refl _)
    · exact .of_row after sound recorded (same ▸ exclusive.few)
  | one r pending row' after waits cause =>
    -- a request is sent only where nothing is in flight
    have idle : w.inFlight = [] := by
      cases read : PdfItemDAO.read p w.server.pdfItems with
      | none => exact exclusive.unasked read
      | some row =>
        obtain ⟨notReady, logged | failed⟩ := cause row read
        · exact (guarded row read notReady logged).2
        · rcases exclusive.failed row read failed with logged | idle
          · exact (guarded row read notReady logged).2
          · exact idle
    have added : (step config p (.convert session now dp) w).inFlight =
        w.inFlight ++ [⟨r, now, false⟩] := by
      simp [step, inFlight, pending]
    refine .of_row after waits ?_ ?_
    · simpa [step, pending] using exclusive.recorded.append (List.Subperm.refl [r])
    · rw [added, idle]
      exact Nat.le_refl 1

theorem giveUp_inFlight {now : Int} {sent : List SentRequest} :
    ((sent.map (giveUp config now)).filter fun r => !r.givenUp).Sublist
      (sent.filter fun r => !r.givenUp) := by
  induction sent with
  | nil => exact .refl _
  | cons r rest ih =>
    cases given : r.givenUp with
    | true => simpa [giveUp, given] using ih
    | false =>
      cases expired : isConvertExpired config now r.time with
      | true => simpa [giveUp, given, expired] using ih.cons r
      | false =>
        have same : giveUp config now r = r := by
          unfold giveUp
          rw [expired, Bool.or_false]
        simpa [same, given] using ih

/-- Giving up leaves nothing in flight where every request has waited long enough. -/
theorem giveUp_all {now : Int} {sent : List SentRequest}
    (expired : ∀ r ∈ sent.filter fun r => !r.givenUp, isConvertExpired config now r.time = true) :
    ((sent.map (giveUp config now)).filter fun r => !r.givenUp) = [] := by
  refine List.filter_eq_nil_iff.mpr fun r' listed => ?_
  obtain ⟨r, member, rfl⟩ := List.mem_map.mp listed
  cases given : r.givenUp with
  | true => simp [giveUp, given]
  | false => simp [giveUp, given, expired r (List.mem_filter.mpr ⟨member, by simp [given]⟩)]

theorem query_requests {now : Int} {dp : DocPair} :
    (step config p (.query session now dp) w).sent.map (·.request) = w.sent.map (·.request) := by
  unfold step
  dsimp only
  split
  · simp [giveUp, Function.comp_def]
  · rfl

theorem query_inFlight {session : Session} {now : Int} {dp : DocPair} :
    (step config p (.query session now dp) w).inFlight.Sublist w.inFlight := by
  unfold inFlight step
  dsimp only
  split
  · exact giveUp_inFlight
  · exact .refl _

theorem Exclusive.query {now : Int} {dp : DocPair}
    (exclusive : Exclusive p w) (wf : ServerWf config.toConfig w.server)
    (orderly : Orderly config p (.query session now dp) w) :
    Exclusive p (step config p (.query session now dp) w) := by
  obtain ⟨converted, guarded⟩ := orderly
  have few := (@query_inFlight config p w session now dp).length_le.trans exclusive.few
  have marks := @queryPdfStatus_marks p w.server now config session dp wf converted
  have recorded : (serve config (.queryPdfStatus session now dp) w.server).converter = w.server.converter →
      ((step config p (.query session now dp) w).sent.map (·.request)).Subperm
        (step config p (.query session now dp) w).server.converter.pending := by
    intro converter
    rw [query_requests]
    change List.Subperm _ (serve config (.queryPdfStatus session now dp) w.server).converter.pending
    rw [converter]
    exact exclusive.recorded
  cases marks with
  | kept converter row =>
    exact exclusive.fewer row (fun _ logged => converter.symm ▸ logged) (recorded converter)
      query_inFlight
  | found converter row' after sound => exact .of_row after sound (recorded converter) few
  | failed converter row before waits missing cause after =>
    refine ⟨recorded converter, few, fun absent => ?_, fun row' read _ => ?_⟩
    · rw [show PdfItemDAO.read p (step config p (.query session now dp) w).server.pdfItems = _
        from after] at absent
      cases absent
    · obtain rfl := Option.some.inj (after.symm.trans read)
      by_cases logged : row.storageKey ∈ w.server.converter.errors
      · exact .inl (converter.symm ▸ logged)
      · have gave : gaveUp p w.server (serve config (.queryPdfStatus session now dp) w.server) = true := by
          unfold gaveUp
          rw [before, after]
          simp [waits]
        refine .inr ?_
        unfold inFlight step
        dsimp only
        rw [if_pos gave]
        exact giveUp_all (guarded row before waits missing logged (cause.resolve_left logged))

/-- An answer of the service takes one request out. -/
theorem Exclusive.answer {i : Nat} {r : SentRequest} {s' : Server} (exclusive : Exclusive p w)
    (sent : w.sent[i]? = some r) (answers : Answers r.request w.server s') :
    Exclusive p ⟨s', w.sent.eraseIdx i⟩ := by
  refine exclusive.fewer (congrArg _ answers.rows) answers.errors ?_
    ((List.eraseIdx_sublist _ _).filter _)
  obtain ⟨inside, rfl⟩ := List.getElem?_eq_some_iff.mp sent
  have listed : (w.sent[i].request :: (w.sent.eraseIdx i).map (·.request)).Perm
      (w.sent.map (·.request)) :=
    (List.getElem_cons_eraseIdx_perm inside).map _
  have others : (w.sent[i].request :: (w.sent.eraseIdx i).map (·.request)).Subperm
      w.server.converter.pending :=
    listed.subperm.trans exclusive.recorded
  have pending := List.perm_cons_erase (others.subset List.mem_cons_self)
  exact ((List.subperm_cons _).mp (others.trans pending.subperm)).trans answers.pending

theorem Exclusive.step {event : PdfEvent} (exclusive : Exclusive p w)
    (wf : ServerWf config.toConfig w.server) (explicit : 0 < p.version)
    (orderly : Orderly config p event w) : Exclusive p (step config p event w) := by
  cases event with
  | convert session now dp => exact exclusive.convert wf explicit orderly
  | query session now dp => exact exclusive.query wf orderly
  | converted i length =>
    unfold Watched.step
    dsimp only
    split
    · exact exclusive.answer ‹_› (answers_converted _ _)
    · exact exclusive
  | failed i =>
    unfold Watched.step
    dsimp only
    split
    · exact exclusive.answer ‹_› (answers_conversionFailed _)
    · exact exclusive

end Watched

instance (config : ServerConfig) (p : DPair) (event : PdfEvent) (w : Watched) :
    Decidable (w.Orderly config p event) :=
  match event with
  | .convert .. | .query .. =>
    inferInstanceAs (Decidable (_ ∧ ∀ row ∈ PdfItemDAO.read p w.server.pdfItems, _ → _))
  | .converted _ _ | .failed _ => .isTrue trivial

end Clb
