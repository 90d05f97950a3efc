/-
# Document.Package -- several documents in one archive

`GetMultiDocsContentHandler` resolves its pairs with two batch queries. The metadata of the documents
overwrites the version of the last pair of each document, whatever that pair asked for, and the versions
are then read by the pairs and written to the archive, up to the first one without stored content.
`requested_rows_iff` says exactly when the rows that are written are those that were asked for;
`other_rows` has a request for an old version, which is answered with the last one, a document without
content, which ends the archive, and the empty request, which raises.

The entries of the archive are named after the stored files, with a number before a name that occurred
already. The numbered names are not remembered. `entryNames_distinct_iff` says exactly when the names are
distinct: no numbered name is the name of a stored file. `shadowed_entry` has a file of such a name. -/
import Clb.Document.Linked
import Clb.Document.Readable

set_option autoImplicit false

namespace Clb

open Clb.Lib Clb.Lib.Action Clb.Dao DocumentFacade Handlers

/-! ## The pairs after `replaceDocVersion` -/

namespace DocumentFacade

/-- The last pair of each document gets the version that `version` has for the document. -/
def setLast (version : Int → Option Int) : List DPair → List DPair
  | [] => []
  | p :: rest =>
    (if rest.any (·.docid == p.docid) then p else { p with version := (version p.docid).getD p.version }) ::
      setLast version rest

theorem any_docid_setLast (version : Int → Option Int) (docid : Int) (pairs : List DPair) :
    (setLast version pairs).any (·.docid == docid) = pairs.any (·.docid == docid) := by
  induction pairs with
  | nil => rfl
  | cons p rest ih =>
    unfold setLast
    rw [List.any_cons, List.any_cons, ih]
    split <;> rfl

theorem setLast_eq_self {version : Int → Option Int} {pairs : List DPair}
    (none_ : ∀ p ∈ pairs, version p.docid = none) : setLast version pairs = pairs := by
  induction pairs with
  | nil => rfl
  | cons p rest ih =>
    unfold setLast
    rw [ih fun q member => none_ q (.tail _ member), none_ p (.head _)]
    split <;> rfl

theorem setLastIndex_eq (docid version : Int) (pairs : List DPair) :
    setLastIndex docid version pairs = setLast (fun d => if d = docid then some version else none) pairs := by
  induction pairs with
  | nil => rfl
  | cons p rest ih =>
    unfold setLastIndex setLast
    by_cases here : p.docid = docid
    · cases later : rest.any (·.docid == docid) with
      | true => rw [if_neg (by simp), here, later, if_pos rfl, ih]
      | false =>
        have apart : ∀ q ∈ rest, (if q.docid = docid then some version else none) = none := by
          intro q member
          rw [if_neg]
          simpa using List.any_eq_false.mp later q member
        rw [if_pos ⟨here, rfl⟩, setLast_eq_self apart, here, later, if_neg Bool.false_ne_true]
        simp
    · rw [if_neg (fun both => here both.1), ih, if_neg here]
      split <;> rfl

theorem setLast_setLast (first second : Int → Option Int) (pairs : List DPair) :
    setLast second (setLast first pairs) = setLast (fun d => (second d).or (first d)) pairs := by
  induction pairs with
  | nil => rfl
  | cons p rest ih =>
    rw [setLast, setLast, setLast, ih, any_docid_setLast]
    cases later : rest.any (·.docid == p.docid) with
    | true => simp [later]
    | false =>
      cases asked : second p.docid with
      | none => simp [later, asked]
      | some version => simp [later, asked]

/-- The version that a list of documents has for a docid, the last one of them if there are several. -/
def lastVersionIn (metas : List DocMeta) (docid : Int) : Option Int :=
  (metas.reverse.find? fun m => m.docid == docid).map (·.lastVersion)

theorem replaceDocVersion_eq (pairs : List DPair) (metas : List DocMeta) :
    replaceDocVersion pairs metas = setLast (lastVersionIn metas) pairs := by
  -- from the end of the list, as `foldl` takes the documents one after the other
  induction metas using List.reverseRecOn with
  | nil => exact (setLast_eq_self fun _ _ => rfl).symm
  | append_singleton metas m ih =>
    have step : replaceDocVersion pairs (metas ++ [m]) =
        setLastIndex m.docid m.lastVersion (replaceDocVersion pairs metas) := by
      unfold replaceDocVersion
      rw [List.foldl_append, List.foldl_cons, List.foldl_nil]
    rw [step, ih, setLastIndex_eq, setLast_setLast]
    congr 1
    funext docid
    unfold lastVersionIn
    rw [List.reverse_append, List.reverse_singleton, List.singleton_append, List.find?_cons]
    by_cases here : m.docid = docid
    · simp [here]
    · have other : (m.docid == docid) = false := beq_eq_false_iff_ne.mpr here
      simp [other, Ne.symm here]

theorem lastVersionIn_eq {metas : List DocMeta} {d : DocMeta} (member : d ∈ metas)
    (unique : ∀ m ∈ metas, m.docid = d.docid → m = d) : lastVersionIn metas d.docid = some d.lastVersion := by
  unfold lastVersionIn
  cases found : metas.reverse.find? fun m => m.docid == d.docid with
  | none =>
    have absent := List.find?_eq_none.mp found d (List.mem_reverse.mpr member)
    simp at absent
  | some m =>
    have same : m.docid = d.docid := by simpa using List.find?_some found
    rw [unique m (List.mem_reverse.mp (List.mem_of_find?_eq_some found)) same]
    rfl

/-- A pair that no later one of its document follows. -/
def IsLast (pairs before : List DPair) (p : DPair) : Prop :=
  ∃ after, pairs = before ++ p :: after ∧ ∀ q ∈ after, q.docid ≠ p.docid

theorem isLast_cons {p r : DPair} {rest before : List DPair} :
    IsLast (p :: rest) before r ↔
      (before = [] ∧ r = p ∧ ∀ q ∈ rest, q.docid ≠ p.docid) ∨
      ∃ before', before = p :: before' ∧ IsLast rest before' r := by
  constructor
  · rintro ⟨after, split, apart⟩
    cases before with
    | nil =>
      obtain ⟨rfl, rfl⟩ := List.cons.inj split
      exact .inl ⟨rfl, rfl, apart⟩
    | cons b before' =>
      obtain ⟨rfl, split'⟩ := List.cons.inj split
      exact .inr ⟨before', rfl, after, split', apart⟩
  · rintro (⟨rfl, rfl, apart⟩ | ⟨before', rfl, after, rfl, apart⟩)
    · exact ⟨rest, rfl, apart⟩
    · exact ⟨after, rfl, apart⟩

theorem exists_isLast {pairs : List DPair} {docid : Int} (asked : ∃ p ∈ pairs, p.docid = docid) :
    ∃ before r, IsLast pairs before r ∧ r.docid = docid := by
  induction pairs with
  | nil =>
    obtain ⟨p, member, -⟩ := asked
    cases member
  | cons first rest ih =>
    by_cases later : ∃ p ∈ rest, p.docid = docid
    · obtain ⟨before, r, last, same⟩ := ih later
      exact ⟨first :: before, r, isLast_cons.mpr (.inr ⟨before, rfl, last⟩), same⟩
    · obtain ⟨p, member, rfl⟩ := asked
      rcases List.mem_cons.mp member with rfl | inside
      · refine ⟨[], p, isLast_cons.mpr (.inl ⟨rfl, rfl, fun q inside same => ?_⟩), rfl⟩
        exact later ⟨q, inside, same⟩
      · exact absurd ⟨p, inside, rfl⟩ later

theorem IsLast.mem {pairs before : List DPair} {p : DPair} (last : IsLast pairs before p) : p ∈ pairs := by
  obtain ⟨after, rfl, -⟩ := last
  exact List.mem_append_right _ (.head _)

theorem IsLast.mem_of_before {pairs before : List DPair} {p q : DPair} (last : IsLast pairs before p)
    (inside : q ∈ before) : q ∈ pairs := by
  obtain ⟨after, rfl, -⟩ := last
  exact List.mem_append_left _ inside

/-- A pair of the document stands before the last one, or is that one. -/
theorem IsLast.before_or_eq {pairs before : List DPair} {p q : DPair} (last : IsLast pairs before p)
    (asked : q ∈ pairs) (same : q.docid = p.docid) : q ∈ before ∨ q = p := by
  obtain ⟨after, rfl, apart⟩ := last
  rcases List.mem_append.mp asked with inside | later
  · exact .inl inside
  · rcases List.mem_cons.mp later with here | past
    · exact .inr here
    · exact absurd same (apart q past)

theorem IsLast.unique {pairs before before' : List DPair} {p p' : DPair} (last : IsLast pairs before p)
    (last' : IsLast pairs before' p') (same : p.docid = p'.docid) : before = before' ∧ p = p' := by
  induction pairs generalizing before before' with
  | nil => cases last.mem
  | cons first rest ih =>
    rcases isLast_cons.mp last with ⟨rfl, rfl, apart⟩ | ⟨b, rfl, inner⟩
    · rcases isLast_cons.mp last' with ⟨rfl, rfl, -⟩ | ⟨b', rfl, inner'⟩
      · exact ⟨rfl, rfl⟩
      · exact absurd same.symm (apart p' inner'.mem)
    · rcases isLast_cons.mp last' with ⟨rfl, rfl, apart'⟩ | ⟨b', rfl, inner'⟩
      · exact absurd same (apart' p inner.mem)
      · obtain ⟨rfl, rfl⟩ := ih inner inner'
        exact ⟨rfl, rfl⟩

/-- The pairs that the rows are read by: the last one of each document with the version of the metadata,
and the earlier ones as they are. -/
theorem mem_setLast {version : Int → Option Int} {pairs : List DPair} {q : DPair} :
    q ∈ setLast version pairs ↔
      (∃ before p, IsLast pairs before p ∧ q = { p with version := (version p.docid).getD p.version }) ∨
      ∃ before p, IsLast pairs before p ∧ q ∈ before ∧ q.docid = p.docid := by
  induction pairs with
  | nil =>
    refine ⟨fun member => (nomatch member), ?_⟩
    rintro (⟨before, p, last, -⟩ | ⟨before, p, last, -⟩)
    · cases last.mem
    · cases last.mem
  | cons first rest ih =>
    have later_iff : rest.any (·.docid == first.docid) = true ↔ ∃ r ∈ rest, r.docid = first.docid := by
      simp
    rw [setLast, List.mem_cons, ih]
    constructor
    · rintro (head | ⟨before, p, last, same⟩ | ⟨before, p, last, inside, docid⟩)
      · split at head
        · rename_i later
          obtain ⟨before, r, last, same⟩ := exists_isLast (later_iff.mp later)
          obtain rfl := head
          exact .inr ⟨q :: before, r, isLast_cons.mpr (.inr ⟨before, rfl, last⟩), .head _, same.symm⟩
        · rename_i alone
          have apart : ∀ r ∈ rest, r.docid ≠ first.docid := fun r member same =>
            alone (later_iff.mpr ⟨r, member, same⟩)
          exact .inl ⟨[], first, isLast_cons.mpr (.inl ⟨rfl, rfl, apart⟩), head⟩
      · exact .inl ⟨first :: before, p, isLast_cons.mpr (.inr ⟨before, rfl, last⟩), same⟩
      · exact .inr ⟨first :: before, p, isLast_cons.mpr (.inr ⟨before, rfl, last⟩), .tail _ inside, docid⟩
    · rintro (⟨before, p, last, same⟩ | ⟨before, p, last, inside, docid⟩)
      · rcases isLast_cons.mp last with ⟨rfl, rfl, apart⟩ | ⟨before', rfl, last'⟩
        · refine .inl ?_
          rw [if_neg]
          · exact same
          · intro later
            obtain ⟨r, member, docid⟩ := later_iff.mp later
            exact apart r member docid
        · exact .inr (.inl ⟨before', p, last', same⟩)
      · rcases isLast_cons.mp last with ⟨rfl, rfl, -⟩ | ⟨before', rfl, last'⟩
        · cases inside
        · rcases List.mem_cons.mp inside with rfl | inside'
          · refine .inl ?_
            rw [if_pos (later_iff.mpr ⟨p, last'.mem, docid.symm⟩)]
          · exact .inr (.inr ⟨before', p, last', inside', docid⟩)

end DocumentFacade

/-! ## The rows that were asked for -/

/-- There is a stored file with a name, and its stream does not break. -/
def sendable (m : Mongo) (dv : DocVersion) : Bool :=
  match documentFile dv m with
  | none => false
  | some f => f.filename.isSome && !(f.getInputStream m).fails

/-- The rows whose entries are written whole. -/
def ZipAnswer.rows (answer : ZipAnswer) (m : Mongo) : List DocVersion :=
  (answer.entries.filter fun entry => !(entry.file.getInputStream m).fails).map (·.row)

theorem rows_readDocuments (m : Mongo) (dvs : List DocVersion) : ∀ (i : Nat) (dupMap : List Text),
    (readDocuments m dvs i dupMap).rows m = dvs.takeWhile (sendable m) := by
  induction dvs with
  | nil => exact fun _ _ => rfl
  | cons dv rest ih =>
    intro i dupMap
    have first : sendable m dv = match documentFile dv m with
        | none => false
        | some f => f.filename.isSome && !(f.getInputStream m).fails := rfl
    rw [List.takeWhile_cons, first]
    unfold readDocuments
    cases documentFile dv m with
    | none => rfl
    | some f =>
      cases named : f.filename with
      | none => simp [named, ZipAnswer.rows]
      | some filename =>
        have tail := ih (i + 1) (filename :: dupMap)
        unfold ZipAnswer.rows at tail ⊢
        cases fails : (f.getInputStream m).fails with
        | true => simp [named, fails]
        | false => simp [named, fails, tail]

theorem mem_takeWhile_filter {α : Type} [DecidableEq α] {p q : α → Bool} {a : α} {l : List α} :
    a ∈ (l.filter p).takeWhile q ↔
      a ∈ l ∧ p a = true ∧ ∀ b ∈ l.takeWhile (· ≠ a) ++ [a], p b = true → q b = true := by
  induction l with
  | nil => simp
  | cons first rest ih =>
    by_cases chosen : p first = true
    · by_cases passes : q first = true
      · rw [List.filter_cons_of_pos chosen, List.takeWhile_cons_of_pos passes, List.mem_cons, ih]
        by_cases same : a = first
        · simp [same, chosen, passes]
        · simp [same, Ne.symm same, passes]
      · -- the first element is read and stops everything behind it
        rw [List.filter_cons_of_pos chosen, List.takeWhile_cons_of_neg passes]
        by_cases same : a = first
        · simp [same, chosen, passes]
        · simp [same, Ne.symm same, chosen, passes]
    · rw [List.filter_cons_of_neg chosen, ih]
      by_cases same : a = first
      · simp [same, chosen]
      · simp [same, Ne.symm same, chosen]

/-- The version that a pair stands for. -/
def DPair.wanted (lastVersion : Int) (p : DPair) : Int :=
  if p.version = DPair.LATEST then lastVersion else p.version

section Requests

variable (session : Session) (pairs : List DPair) (s : Store)

/-- The documents of the pairs exist, and the session may read them. -/
def Offered : Prop :=
  ∀ p ∈ pairs, ∃ d ∈ s.docs.rows, d.appid = session.appid ∧ d.docid = p.docid ∧
    ¬ (d.isPub = 0 ∧ d.authId ≠ some session.user)

instance : Decidable (Offered session pairs s) :=
  inferInstanceAs (Decidable (∀ p ∈ pairs, ∃ d ∈ s.docs.rows, d.appid = session.appid ∧ d.docid = p.docid ∧
    ¬ (d.isPub = 0 ∧ d.authId ≠ some session.user)))

/-- A row of a version that is asked for. -/
def Requested (v : DocVersion) : Prop :=
  v ∈ s.versions.rows ∧ ∃ p ∈ pairs, ∃ d ∈ s.docs.rows, d.appid = session.appid ∧ d.docid = p.docid ∧
    v.appid = d.appid ∧ v.docid = d.docid ∧ v.version = p.wanted d.lastVersion

/-- A row is read if it is the last version of a document that is asked for, or the version of a pair
that is not the last one of its document. -/
def RowRead (v : DocVersion) : Prop :=
  ∃ before p, IsLast pairs before p ∧ ∃ d ∈ s.docs.rows, d.appid = session.appid ∧ d.docid = p.docid ∧
    v.appid = d.appid ∧ v.docid = d.docid ∧
    (v.version = d.lastVersion ∨ ∃ q ∈ before, q.docid = p.docid ∧ q.version = v.version)

/-- The row and those that are read before it, in the order of the table, can be sent. -/
def SentUpTo (v : DocVersion) : Prop :=
  ∀ w ∈ s.versions.rows.takeWhile (· ≠ v) ++ [v], RowRead session pairs s w → sendable s.mongo w = true

/-- The last pair of each document may be replaced by its last version: that version is asked for too,
or is not sent, and a version that the pair asks for is the last one or is asked for before; unless there
is no such row. -/
def Replaceable : Prop :=
  ∀ before p, IsLast pairs before p → ∀ d ∈ s.docs.rows, d.appid = session.appid → d.docid = p.docid →
    ∀ v ∈ s.versions.rows, v.appid = d.appid → v.docid = d.docid →
      (v.version = d.lastVersion → SentUpTo session pairs s v →
        ∃ q ∈ pairs, q.docid = p.docid ∧ q.wanted d.lastVersion = d.lastVersion) ∧
      (v.version = p.version → v.version = d.lastVersion ∨
        ∃ q ∈ before, q.docid = p.docid ∧ q.version = p.version)

end Requests

variable {config : Config} {session : Session} {s : Store} {dps : List DocPair} {pairs : List DPair}

theorem appid_of_converted (converted : dps.mapM (convertToPair session.appid) = some pairs) :
    ∀ p ∈ pairs, p.appid = session.appid := by
  intro p member
  have listed : some p ∈ pairs.map some := List.mem_map_of_mem member
  rw [← map_of_mapM_eq_some converted] at listed
  obtain ⟨dp, -, same⟩ := List.mem_map.mp listed
  exact (convertToPair_eq_some same).1

theorem mem_getDocMetaByIds {d : DocMeta} :
    d ∈ getDocMetaByIds session.appid pairs s.docs ↔
      d ∈ s.docs.rows ∧ d.appid = session.appid ∧ ∃ p ∈ pairs, p.docid = d.docid := by
  simp [getDocMetaByIds, List.mem_filter]

theorem Offered.permitted (offered : Offered session pairs s)
    (unique : s.docs.UniqueBy fun d => (d.appid, d.docid)) :
    ¬ ∃ d ∈ getDocMetaByIds session.appid pairs s.docs, d.isPub = 0 ∧ d.authId ≠ some session.user := by
  rintro ⟨d, member, closed⟩
  obtain ⟨row, appid, p, asked, docid⟩ := mem_getDocMetaByIds.mp member
  obtain ⟨d', row', appid', docid', open_⟩ := offered p asked
  obtain rfl : d = d' := unique d row d' row' (Prod.ext (appid.trans appid'.symm) (docid.symm.trans docid'.symm))
  exact open_ closed

/-- The rows that are read, for documents that the session may read. -/
theorem multiDocVersions_eq (converted : dps.mapM (convertToPair session.appid) = some pairs)
    (unique : s.docs.UniqueBy fun d => (d.appid, d.docid)) (offered : Offered session pairs s) :
    (multiDocVersions session dps s).1 =
      if pairs = [] then .error .badSqlGrammar
      else .ok (getMultipleDocVersion
        (replaceDocVersion pairs (getDocMetaByIds session.appid pairs s.docs)) s.versions) := by
  unfold multiDocVersions
  rw [converted, require_some_bind]
  by_cases empty : pairs = []
  · rw [if_pos empty, raiseIf_pos_bind empty]
  · rw [if_neg empty, raiseIf_neg_bind empty, read_bind, raiseIf_neg_bind (offered.permitted unique)]
    rfl

theorem mem_getMultipleDocVersion {v : DocVersion} {versions : Table DocVersion} :
    v ∈ getMultipleDocVersion pairs versions ↔
      v ∈ versions.rows ∧ (⟨v.appid, v.docid, v.version⟩ : DPair) ∈ pairs := by
  simp [getMultipleDocVersion, List.mem_filter]

theorem mem_read_iff (wf : Wf config s) (converted : dps.mapM (convertToPair session.appid) = some pairs)
    (offered : Offered session pairs s) {v : DocVersion} (row : v ∈ s.versions.rows) :
    v ∈ getMultipleDocVersion (replaceDocVersion pairs (getDocMetaByIds session.appid pairs s.docs))
        s.versions ↔ RowRead session pairs s v := by
  have appids := appid_of_converted converted
  rw [mem_getMultipleDocVersion, and_iff_right row, replaceDocVersion_eq, mem_setLast]
  -- the version that the metadata gives a document that is asked for
  have found : ∀ p ∈ pairs, ∃ d ∈ s.docs.rows, d.appid = session.appid ∧ d.docid = p.docid ∧
      lastVersionIn (getDocMetaByIds session.appid pairs s.docs) p.docid = some d.lastVersion := by
    intro p asked
    obtain ⟨d, member, appid, docid, -⟩ := offered p asked
    refine ⟨d, member, appid, docid, ?_⟩
    rw [← docid]
    refine lastVersionIn_eq (mem_getDocMetaByIds.mpr ⟨member, appid, p, asked, docid.symm⟩) ?_
    intro m listed same
    obtain ⟨row', appid', -⟩ := mem_getDocMetaByIds.mp listed
    exact wf.docsUnique m row' d member (Prod.ext (appid'.trans appid.symm) same)
  constructor
  · rintro (⟨before, p, last, same⟩ | ⟨before, p, last, inside, docid'⟩)
    · obtain ⟨d, member, appid, docid, version⟩ := found p last.mem
      rw [version] at same
      obtain ⟨app, doc, number⟩ := DPair.mk.inj same
      exact ⟨before, p, last, d, member, appid, docid, by rw [app, appids p last.mem, appid],
        doc.trans docid.symm, .inl number⟩
    · obtain ⟨d, member, appid, docid, -⟩ := found p last.mem
      have early := last.mem_of_before inside
      exact ⟨before, p, last, d, member, appid, docid, (appids _ early).trans appid.symm,
        docid'.trans docid.symm, .inr ⟨_, inside, docid', rfl⟩⟩
  · rintro ⟨before, p, last, d, member, appid, docid, app, doc, version | ⟨q, inside, docid', number⟩⟩
    · obtain ⟨d', member', appid', same', version'⟩ := found p last.mem
      obtain rfl : d' = d := wf.docsUnique d' member' d member
        (Prod.ext (appid'.trans appid.symm) (same'.trans docid.symm))
      refine .inl ⟨before, p, last, ?_⟩
      rw [version', version, app, doc, docid, appid, ← appids p last.mem]
      rfl
    · refine .inr ⟨before, p, last, ?_, doc.trans docid⟩
      have early := last.mem_of_before inside
      have same : q = ⟨v.appid, v.docid, v.version⟩ := by
        rcases q with ⟨a, d', n⟩
        have app' : a = session.appid := appids _ early
        simp only at docid' number
        rw [app', docid', number, app, doc, appid, docid]
      rw [← same]
      exact inside

/-- The rows that the handler writes to the archive are those that were asked for. -/
def SendsRequested (session : Session) (dps : List DocPair) (pairs : List DPair) (s : Store) : Prop :=
  ∃ answer, (getMultiDocsContent session dps s).1 = .ok answer ∧
    ∀ v, v ∈ answer.rows s.mongo ↔ Requested session pairs s v

/-- The rows that are written, for documents that the session may read. -/
theorem mem_written_iff (wf : Wf config s) (converted : dps.mapM (convertToPair session.appid) = some pairs)
    (offered : Offered session pairs s) {v : DocVersion} :
    v ∈ (readDocuments s.mongo (getMultipleDocVersion (replaceDocVersion pairs
        (getDocMetaByIds session.appid pairs s.docs)) s.versions) 1 []).rows s.mongo ↔
      v ∈ s.versions.rows ∧ RowRead session pairs s v ∧ SentUpTo session pairs s v := by
  have read : ∀ w ∈ s.versions.rows,
      ((replaceDocVersion pairs (getDocMetaByIds session.appid pairs s.docs)).contains
        ⟨w.appid, w.docid, w.version⟩ = true ↔ RowRead session pairs s w) := by
    intro w row
    rw [← mem_read_iff wf converted offered row, mem_getMultipleDocVersion, and_iff_right row,
      List.contains_iff_mem]
  unfold getMultipleDocVersion SentUpTo
  rw [rows_readDocuments, mem_takeWhile_filter]
  refine and_congr_right fun row => ?_
  rw [read v row]
  refine and_congr_right fun _ => forall₂_congr fun w inside => ?_
  rcases List.mem_append.mp inside with before | last
  · rw [read w ((List.takeWhile_subset _) before)]
  · rw [List.mem_singleton.mp last, read v row]

/-- A version that a row has is not the number that stands for the latest one. -/
theorem Wf.wanted_eq (wf : Wf config s) {v : DocVersion} (row : v ∈ s.versions.rows) {p : DPair}
    {last : Int} (same : v.version = p.version) : p.wanted last = v.version := by
  have positive := (wf.versionsPos v row).2
  unfold DPair.wanted
  rw [if_neg, same]
  unfold DPair.LATEST
  omega

/-- **Package downloads.** For documents that exist and that the session may read, the handler sends the
rows that were asked for exactly if something is asked for, the last pair of each document may be
replaced by the last version, and nothing that is read up to a row that was asked for is without content
to send. -/
theorem requested_rows_iff (wf : Wf config s)
    (converted : dps.mapM (convertToPair session.appid) = some pairs)
    (offered : Offered session pairs s) :
    SendsRequested session dps pairs s ↔ pairs ≠ [] ∧ Replaceable session pairs s ∧
      ∀ v, Requested session pairs s v → SentUpTo session pairs s v := by
  have written := @mem_written_iff config session s dps pairs wf converted offered
  unfold SendsRequested
  rw [getMultiDocsContent_eq, multiDocVersions_eq converted wf.docsUnique offered]
  constructor
  · rintro ⟨answer, sent, exactly⟩
    have some_ : pairs ≠ [] := by
      rintro rfl
      cases sent
    rw [if_neg some_] at sent
    obtain rfl := Except.ok.inj sent
    refine ⟨some_, fun before p last d member appid docid v row app doc =>
      ⟨fun version reached => ?_, fun version => ?_⟩,
      fun v asked => (written.mp ((exactly v).mpr asked)).2.2⟩
    · -- the last version is sent, so somebody asks for it
      have sent := written.mpr
        ⟨row, ⟨before, p, last, d, member, appid, docid, app, doc, .inl version⟩, reached⟩
      obtain ⟨-, q, asked, d', member', appid', docid', -, doc', wanted⟩ := (exactly v).mp sent
      obtain rfl : d' = d := wf.docsUnique d' member' d member
        (Prod.ext (appid'.trans appid.symm) (doc'.symm.trans doc))
      exact ⟨q, asked, docid'.symm.trans docid, by rw [← wanted, version]⟩
    · -- the version of the pair is asked for, so it is sent
      have wanted : p.wanted d.lastVersion = v.version := wf.wanted_eq row version
      have sent := (exactly v).mpr
        ⟨row, p, last.mem, d, member, appid, docid, app, doc, wanted.symm⟩
      obtain ⟨before', p', last', d', member', appid', docid', -, doc', found⟩ := (written.mp sent).2.1
      obtain rfl : d' = d := wf.docsUnique d' member' d member
        (Prod.ext (appid'.trans appid.symm) (doc'.symm.trans doc))
      obtain ⟨rfl, rfl⟩ := last'.unique last (docid'.symm.trans docid)
      rcases found with lastVersion | ⟨q, inside, same, number⟩
      · exact .inl lastVersion
      · exact .inr ⟨q, inside, same, number.trans version⟩
  · rintro ⟨some_, replaceable, reached⟩
    rw [if_neg some_]
    refine ⟨_, rfl, fun v => ⟨fun sent => ?_, fun asked => written.mpr ⟨asked.1, ?_, reached v asked⟩⟩⟩
    · obtain ⟨row, ⟨before, p, last, d, member, appid, docid, app, doc, found⟩, upTo⟩ := written.mp sent
      rcases found with version | ⟨q, inside, same, number⟩
      · obtain ⟨q, asked, same, wanted⟩ :=
          (replaceable before p last d member appid docid v row app doc).1 version upTo
        exact ⟨row, q, asked, d, member, appid, docid.trans same.symm, app, doc, version.trans wanted.symm⟩
      · exact ⟨row, q, last.mem_of_before inside, d, member, appid, docid.trans same.symm, app, doc,
          (wf.wanted_eq row number.symm).symm⟩
    · obtain ⟨row, p, asked, d, member, appid, docid, app, doc, wanted⟩ := asked
      obtain ⟨before, r, last, same⟩ := exists_isLast ⟨p, asked, rfl⟩
      refine ⟨before, r, last, d, member, appid, docid.trans same.symm, app, doc, ?_⟩
      unfold DPair.wanted at wanted
      split at wanted
      · exact .inl wanted
      · rcases last.before_or_eq asked same.symm with inside | rfl
        · exact .inr ⟨p, inside, same.symm, wanted.symm⟩
        · rcases (replaceable before p last d member appid docid v row app doc).2 wanted with
            lastVersion | ⟨q, inside, docid', number⟩
          · exact .inl lastVersion
          · exact .inr ⟨q, inside, docid', number.trans wanted.symm⟩

/-- A document of two versions. -/
def twoVersions : Store :=
  storeAfter [.createDoc 0 (namedFile "a".toList), .updateDoc 1 (namedFile "b".toList)]

/-- The last version is asked for. -/
theorem requested_rows_iff_latest :
    SendsRequested someSession [⟨1, "latest".toList⟩] [⟨1, 1, DPair.LATEST⟩] twoVersions := by
  refine (requested_rows_iff (reachable_storeAfter _).wf (by decide) (by decide +kernel)).mpr
    ⟨by decide, ?_, ?_⟩
  · intro before p last d _ _ _ v row _ _
    obtain rfl := List.mem_singleton.mp last.mem
    have numbered : ∀ v ∈ twoVersions.versions.rows, v.version ≠ DPair.LATEST := by decide +kernel
    exact ⟨fun _ _ => ⟨_, .head _, rfl, rfl⟩, fun latest => absurd latest (numbered v row)⟩
  · rintro v ⟨row, -⟩
    have stored : ∀ v ∈ twoVersions.versions.rows, sendable twoVersions.mongo v = true := by
      decide +kernel
    intro w inside _
    rcases List.mem_append.mp inside with before | last
    · exact stored w ((List.takeWhile_subset _) before)
    · exact stored w (List.mem_singleton.mp last ▸ row)

/-- An upload that was prepared, and a document that was created. -/
def preparedFirst : Store :=
  storeAfter [.prepareUpload ⟨some "a".toList, some "m".toList, 1, 1⟩, .createDoc 0 (namedFile "b".toList)]

/-- **Another row is sent.** A request for the first version is answered with the row of the second one; a
document without content keeps the next one out of the archive; and a request for nothing raises. -/
theorem other_rows :
    ¬ SendsRequested someSession [⟨1, "1".toList⟩] [⟨1, 1, 1⟩] twoVersions ∧
      ((getMultiDocsContent someSession [⟨1, "1".toList⟩] twoVersions).1.map
        fun answer => (answer.rows twoVersions.mongo).map (·.version)) = .ok [2] ∧
      (getMultiDocsContent someSession [⟨1, "1".toList⟩, ⟨2, "1".toList⟩] preparedFirst).1 =
        .ok ⟨[], some .fileContentNotFound⟩ ∧
      (getMultiDocsContent someSession [] twoVersions).1 = .error .badSqlGrammar := by
  have answered : ((getMultiDocsContent someSession [⟨1, "1".toList⟩] twoVersions).1.map
      fun answer => (answer.rows twoVersions.mongo).map (·.version)) = .ok [2] := by decide +kernel
  refine ⟨?_, answered, by decide +kernel, rfl⟩
  rintro ⟨answer, sent, exactly⟩
  rw [sent] at answered
  have versions : (answer.rows twoVersions.mongo).map (·.version) = [2] := Except.ok.inj answered
  have second : (2 : Int) ∈ (answer.rows twoVersions.mongo).map (·.version) := by
    rw [versions]
    exact .head _
  obtain ⟨v, member, version⟩ := List.mem_map.mp second
  obtain ⟨-, p, asked, d, -, -, -, -, -, wanted⟩ := (exactly v).mp member
  obtain rfl := List.mem_singleton.mp asked
  rw [version] at wanted
  cases wanted

/-! ## The names of the entries -/

namespace Handlers

/-- The names of the stored files that are put into the archive, up to the first one that cannot be
sent. -/
def packedNames (m : Mongo) : List DocVersion → List Text
  | [] => []
  | dv :: rest =>
    match documentFile dv m with
    | none => []
    | some f =>
      match f.filename with
      | none => []
      | some filename =>
        if (f.getInputStream m).fails then [filename] else filename :: packedNames m rest

/-- The name that a file gets after the files of `before` if its own name is among theirs. -/
def numberedName (before : List Text) (filename : Text) : Text :=
  decimalText ((before.length + 2 : Nat) : Int) ++ '-' :: filename

/-- The name of the entry for a file after the files of `before`. -/
def entryName (before : List Text) (filename : Text) : Text :=
  if filename ∈ before then numberedName before filename else filename

/-- The names of the entries for files after the files of `before`. -/
def entryNames (before : List Text) : List Text → List Text
  | [] => []
  | filename :: rest => entryName before filename :: entryNames (before ++ [filename]) rest

/-- The loop of `readDocuments` names its entries after the files it has put into the archive before. -/
theorem names_readDocuments (m : Mongo) (dvs : List DocVersion) :
    ∀ (before dupMap : List Text), (∀ name, name ∈ dupMap ↔ name ∈ before) →
      (readDocuments m dvs (before.length + 1) dupMap).entries.map (·.name) =
        entryNames before (packedNames m dvs) := by
  induction dvs with
  | nil => exact fun _ _ _ => rfl
  | cons dv rest ih =>
    intro before dupMap same
    unfold readDocuments packedNames
    cases documentFile dv m with
    | none => rfl
    | some f =>
      cases named : f.filename with
      | none => simp [named, entryNames]
      | some filename =>
        have entry : (if filename ∈ dupMap then
            decimalText ((before.length : Int) + 1 + 1) ++ '-' :: filename else filename) =
            entryName before filename := by
          have position : ((before.length : Int) + 1 + 1) = ((before.length + 2 : Nat) : Int) := by
            omega
          rw [position]
          simp only [same]
          rfl
        have next := ih (before ++ [filename]) (filename :: dupMap) fun name => by
          rw [List.mem_cons, List.mem_append, List.mem_singleton, same, or_comm]
        rw [List.length_append, List.length_singleton] at next
        simp only [named]
        cases fails : (f.getInputStream m).fails with
        | true => simp [entryNames, entry]
        | false => simp [entryNames, entry, next]

theorem getElem?_entryNames (names : List Text) : ∀ (before : List Text) (k : Nat),
    (entryNames before names)[k]? = names[k]?.map (entryName (before ++ names.take k)) := by
  induction names with
  | nil => exact fun _ _ => rfl
  | cons filename rest ih =>
    intro before k
    cases k with
    | zero => simp [entryNames]
    | succ k => simp [entryNames, ih]

/-- No file has the name that the archive makes for another one. -/
def NamesApart (names : List Text) : Prop :=
  ∀ before filename after, names = before ++ filename :: after → filename ∈ before →
    numberedName before filename ∉ names

theorem numberedName_inj {before before' : List Text} {filename filename' : Text}
    (same : numberedName before filename = numberedName before' filename') :
    before.length = before'.length := by
  have numbers := (append_sep_inj (minus_not_mem_decimalText _) (minus_not_mem_decimalText _) same).1
  have positions := decimalText_natCast_injective numbers
  omega

theorem numberedName_ne (before : List Text) (filename : Text) : numberedName before filename ≠ filename := by
  intro same
  have lengths := congrArg List.length same
  simp [numberedName] at lengths
  omega

theorem getElem?_entryNames_split {names before after : List Text} {filename : Text}
    (split : names = before ++ filename :: after) :
    (entryNames [] names)[before.length]? = some (entryName before filename) := by
  subst split
  simp [getElem?_entryNames]

theorem length_entryNames (names : List Text) : ∀ before, (entryNames before names).length = names.length := by
  induction names with
  | nil => exact fun _ => rfl
  | cons filename rest ih => exact fun before => by rw [entryNames, List.length_cons, ih, List.length_cons]

theorem exists_split {names : List Text} {k : Nat} (bound : k < (entryNames [] names).length) :
    ∃ before filename after, names = before ++ filename :: after ∧ before.length = k := by
  rw [length_entryNames] at bound
  refine ⟨names.take k, names[k], names.drop (k + 1), ?_, List.length_take_of_le bound.le⟩
  rw [List.getElem_cons_drop, List.take_append_drop]

/-- Equal names at two places are a made name and the name of a file. -/
theorem NamesApart.entryName_ne {names before before' after after' : List Text} {filename filename' : Text}
    (apart : NamesApart names) (split : names = before ++ filename :: after)
    (split' : names = before' ++ filename' :: after') (earlier : before.length < before'.length) :
    entryName before filename ≠ entryName before' filename' := by
  have member : filename ∈ names := split ▸ List.mem_append_right _ (.head _)
  have member' : filename' ∈ names := split' ▸ List.mem_append_right _ (.head _)
  have past : filename ∈ before' := by
    have shorter : before ++ [filename] <+: before' := by
      refine List.prefix_of_prefix_length_le ⟨after, ?_⟩ ⟨filename' :: after', split'.symm⟩ (by simpa)
      rw [split, List.append_assoc, List.singleton_append]
    exact shorter.subset (List.mem_append_right _ (.head _))
  unfold entryName
  intro same
  split at same
  · rename_i repeated
    split at same
    · exact absurd (numberedName_inj same) (Nat.ne_of_lt earlier)
    · exact apart before filename after split repeated (same ▸ member')
  · split at same
    · rename_i repeated
      exact apart before' filename' after' split' repeated (same ▸ member)
    · rename_i first
      exact first (same ▸ past)

theorem entryNames_nodup_iff (names : List Text) : (entryNames [] names).Nodup ↔ NamesApart names := by
  rw [List.nodup_iff_getElem?_ne_getElem?]
  constructor
  · intro distinct before filename after split repeated member
    -- the first file of the made name keeps its name
    obtain ⟨before', after', split', first⟩ := List.eq_append_cons_of_mem member
    have kept := getElem?_entryNames_split split'
    have made := getElem?_entryNames_split split
    rw [entryName, if_neg first] at kept
    rw [entryName, if_pos repeated] at made
    have inside : ∀ k, (entryNames [] names)[k]? = some (numberedName before filename) →
        k < (entryNames [] names).length := fun k found => (List.getElem?_eq_some_iff.mp found).1
    rcases Nat.lt_trichotomy before.length before'.length with less | same | more
    · exact distinct _ _ less (inside _ kept) (made.trans kept.symm)
    · have files := (List.append_inj (split.symm.trans split') same).2
      exact numberedName_ne before filename (List.cons.inj files).1.symm
    · exact distinct _ _ more (inside _ made) (kept.trans made.symm)
  · intro apart i j less bound same
    obtain ⟨before', filename', after', split', rfl⟩ := exists_split bound
    obtain ⟨before, filename, after, split, rfl⟩ := exists_split (less.trans bound)
    rw [getElem?_entryNames_split split, getElem?_entryNames_split split'] at same
    exact apart.entryName_ne split split' less (Option.some.inj same)

end Handlers

/-- **Distinct names.** The names of the entries of an archive are pairwise distinct exactly if no stored
file has the name that the archive makes for another one. -/
theorem entryNames_distinct_iff (m : Mongo) (dvlist : List DocVersion) :
    ((readDocuments m dvlist 1 []).entries.map (·.name)).Nodup ↔ NamesApart (packedNames m dvlist) := by
  have names : (readDocuments m dvlist 1 []).entries.map (·.name) =
      entryNames [] (packedNames m dvlist) := names_readDocuments m dvlist [] [] fun _ => Iff.rfl
  rw [names]
  exact entryNames_nodup_iff _

/-- Three files, the last of which has the name that the second one gets. -/
def threeFiles : Store :=
  storeAfter [.createDoc 0 (namedFile "a".toList), .createDoc 0 (namedFile "a".toList),
    .createDoc 0 (namedFile "3-a".toList)]

/-- **An entry is shadowed.** The second file of the name a is put into the archive as 3-a, and so is the
file that is stored under that name. -/
theorem shadowed_entry :
    ¬ ((readDocuments threeFiles.mongo threeFiles.versions.rows 1 []).entries.map (·.name)).Nodup ∧
      (readDocuments threeFiles.mongo threeFiles.versions.rows 1 []).entries.map (·.name) =
        ["a".toList, "3-a".toList, "3-a".toList] := by
  decide +kernel

end Clb
