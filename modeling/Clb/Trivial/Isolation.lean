/-
# Trivial.Isolation -- the spaces of other owners

A space is guarded against a user if an item of it belongs to a private document of somebody else. A
call isolates if it leaves every guarded space alone: its files, what is scheduled for it, its rows
(`Untouched`). `isolated_iff` says exactly when a call does:

* `getTrivialSpace` always does;
* `createTrivialSpace` unless the archive it unpacks has the storage key of a guarded space;
* `updateTrivialSpace` unless it is let through for its document while its parameter names a guarded
  space, from which something is removed or for which something is scheduled;
* `deleteTrivialSpace` unless the rows it deletes, those of the version of the item it found, include
  one of a guarded space.

`space_taken` is the update of another user's space through a document of one's own. -/
import Clb.Document.System
import Clb.Trivial.Space

set_option autoImplicit false

namespace Clb

open Clb.Lib Clb.Lib.Action Clb.Dao DocumentFacade Handlers TrivialFacade TrivialHandlers

inductive TrivialCall where
  | create (tp : TrivialParam)
  | get (spaceName : Option Text)
  | update (tp : TrivialParam)
  | delete (spaceName : Option Text)

section Spaces

variable (codec : HexCodec)

/-- The space of an item. -/
def TrivialItem.space (item : TrivialItem) : Option ObjectId := item.spaceName.bind codec.ofHex

/-- The space that an event adds files to. -/
def DecompressEvent.space (e : DecompressEvent) : Option ObjectId := e.spaceName.bind codec.ofHex

/-- An item of the space belongs to a private document that is not the user's. -/
def Guarded (session : Session) (s : TrivialServer) (key : ObjectId) : Prop :=
  ∃ item ∈ s.items.rows, item.space codec = some key ∧
    ∃ doc ∈ s.store.docs.rows, doc.appid = item.appid ∧ doc.docid = item.docid ∧ doc.isPub = 0 ∧
      doc.authId ≠ some session.user

instance (session : Session) (s : TrivialServer) (key : ObjectId) :
    Decidable (Guarded codec session s key) :=
  inferInstanceAs (Decidable (∃ item ∈ s.items.rows, item.space codec = some key ∧
    ∃ doc ∈ s.store.docs.rows, doc.appid = item.appid ∧ doc.docid = item.docid ∧ doc.isPub = 0 ∧
      doc.authId ≠ some session.user))

/-- No file of the space is removed or added, nothing is scheduled for it, and its rows stay. -/
structure Untouched (key : ObjectId) (s s' : TrivialServer) : Prop where
  files : (s'.files.filter fun f => f.spaceName = key) = s.files.filter fun f => f.spaceName = key
  events : (s'.eventQueue.filter fun e => e.space codec = some key) =
    s.eventQueue.filter fun e => e.space codec = some key
  rows : (s'.items.rows.filter fun i => i.space codec = some key) =
    s.items.rows.filter fun i => i.space codec = some key

end Spaces

/-- The state after a call. -/
def serveTrivial (codec : HexCodec) (config : Config) (session : Session) (call : TrivialCall)
    (s : TrivialServer) : TrivialServer :=
  match call with
  | .create tp => (createTrivialSpace codec config session tp s).2
  | .get spaceName => (TrivialHandlers.getTrivialSpace session spaceName s).2
  | .update tp => (updateTrivialSpace codec session tp s).2
  | .delete spaceName => (deleteTrivialSpace codec session spaceName s).2

/-- The call leaves alone every space that is guarded against its user. -/
def Isolates (codec : HexCodec) (config : Config) (session : Session) (s : TrivialServer)
    (call : TrivialCall) : Prop :=
  ∀ key, Guarded codec session s key → Untouched codec key s (serveTrivial codec config session call s)

/-- What a call has to find for that. -/
def Respects (codec : HexCodec) (config : Config) (session : Session) (s : TrivialServer) :
    TrivialCall → Prop
  | .get _ => True
  | .create tp => ∀ dv zipFile key, (archive config session tp s.store).1 = .ok (dv, zipFile) →
      dv.storageKey = some key → ¬ Guarded codec session s key
  | .update tp => ∀ p key, (openDocument session tp.docPair s.store).1 = .ok p →
      tp.spaceName.bind codec.ofHex = some key → Guarded codec session s key →
      (∀ f ∈ s.files, f.spaceName ≠ key) ∧ ∀ r, (replacement tp p s).1 ≠ .ok r
  | .delete spaceName => ∀ itm space, (openSpace session spaceName s).1 = .ok itm →
      itm.space codec = some space → ∀ row ∈ s.items.rows,
        Selects itm.appid row.appid → Selects itm.docid row.docid → Selects itm.version row.version →
          ∀ key, row.space codec = some key → ¬ Guarded codec session s key

variable {codec : HexCodec} {config : Config} {session : Session} {s : TrivialServer} {key : ObjectId}

theorem Untouched.refl (key : ObjectId) (s : TrivialServer) : Untouched codec key s s := ⟨rfl, rfl, rfl⟩

/-! ## What the handlers read -/

theorem readOnly_onDocuments {α : Type} {act : Act α} (readOnly : ReadOnly act) :
    ReadOnly (onDocuments act) :=
  readOnly_within readOnly fun _ => rfl

theorem readOnly_writeZip (gfile : GridFSFile) : ReadOnly (writeZipFileToTempFile gfile) :=
  (readOnly_read _).bind fun _ => (readOnly_raiseIf _ _).bind fun _ => readOnly_pure _

theorem readOnly_archive (tp : TrivialParam) : ReadOnly (archive config session tp) :=
  (readOnly_checkSystemIOMode config).bind fun _ => (readOnly_openDocument session _).bind fun p =>
    (readOnly_getDocVersion p).bind fun dv => (readOnly_raiseIf _ _).bind fun _ =>
      (readOnly_readDocContent dv).bind fun f => (readOnly_writeZip f).bind fun _ => readOnly_pure _

theorem readOnly_getTrivialItem (spaceName : Option Text) :
    ReadOnly (getTrivialItemByStorageKey spaceName) :=
  (readOnly_read _).bind fun _ => readOnly_require _ _

theorem readOnly_openSpace (spaceName : Option Text) : ReadOnly (openSpace session spaceName) :=
  (readOnly_getTrivialItem spaceName).bind fun item =>
    (readOnly_onDocuments (readOnly_getDocMetaByDocid item.appid item.docid)).bind fun doc =>
      (readOnly_onDocuments (readOnly_checkPermission session doc)).bind fun _ => readOnly_pure _

theorem readOnly_replacement (tp : TrivialParam) (p : DPair) : ReadOnly (replacement tp p) :=
  (readOnly_onDocuments (readOnly_getDocVersion p)).bind fun dv =>
    (readOnly_onDocuments (readOnly_raiseIf _ _)).bind fun _ =>
      (readOnly_getTrivialItem tp.spaceName).bind fun _ =>
        (readOnly_onDocuments (readOnly_readDocContent dv)).bind fun f =>
          (readOnly_onDocuments (readOnly_writeZip f)).bind fun _ => readOnly_pure _

/-! ## Getting -/

theorem getTrivialSpace_eq (spaceName : Option Text) :
    (TrivialHandlers.getTrivialSpace session spaceName s).2 = s :=
  ((readOnly_openSpace spaceName).bind fun _ => readOnly_pure _) s

/-! ## Creating -/

/-- `createTrivialSpace` schedules the unpacking of its archive and inserts a row, or does nothing. -/
theorem createTrivialSpace_ends (tp : TrivialParam) :
    Ends (createTrivialSpace codec config session tp) s fun _ s' =>
      ((∃ fault, (archive config session tp s.store).1 = .error fault) ∧ s' = s) ∨
      ∃ dv zipFile items, (archive config session tp s.store).1 = .ok (dv, zipFile) ∧
        s' = { s with
          eventQueue := s.eventQueue ++ [⟨zipFile, dv.storageKey.map codec.toHex, tp.unzipBaseDir⟩]
          items } ∧
        (items = s.items ∨ ∃ item : TrivialItem, item.spaceName = dv.storageKey.map codec.toHex ∧
          items = s.items.insert trivialItemDAO.setId item) := by
  unfold createTrivialSpace
  refine (readOnly_onDocuments (readOnly_archive tp)).ends_bind ?_ fun fault raised =>
    .inl ⟨⟨fault, raised⟩, rfl⟩
  rintro ⟨dv, zipFile⟩ read
  refine ends_bind (ends_write (ends_bind (ends_attempt ?_ fun _ => ?_)))
  · rintro ⟨⟩ s' created
    obtain ⟨out, inserted, same⟩ := Option.map_eq_some_iff.mp created
    obtain ⟨-, -, rfl⟩ := BaseDAO.insertObject_eq_some inserted
    obtain rfl := (Prod.mk.inj same).2
    exact ends_pure (.inr ⟨dv, zipFile, _, read, rfl, .inr ⟨_, rfl, rfl⟩⟩)
  · exact .inr ⟨dv, zipFile, _, read, rfl, .inl rfl⟩

theorem filter_append_singleton_iff {α : Type} {p : α → Bool} {l : List α} {a : α} :
    (l ++ [a]).filter p = l.filter p ↔ p a = false := by
  cases holds : p a with
  | true => simp [List.filter_append, holds]
  | false => simp [List.filter_append, holds]

theorem space_toHex {name : Option Text} {dv : DocVersion} (named : name = dv.storageKey.map codec.toHex) :
    name.bind codec.ofHex = dv.storageKey := by
  rw [named]
  cases dv.storageKey with
  | none => rfl
  | some key => exact codec.ofHex_toHex key

/-- **Creating a space isolates** unless the archive has the key of a guarded space. -/
theorem isolates_create_iff (tp : TrivialParam) :
    Isolates codec config session s (.create tp) ↔ Respects codec config session s (.create tp) := by
  rcases (createTrivialSpace_ends tp : Ends (createTrivialSpace codec config session tp) s _) with
    ⟨⟨fault, raised⟩, same⟩ | ⟨dv, zipFile, items, read, same, rows⟩
  · refine ⟨fun _ dv zipFile key read => (nomatch raised.symm.trans read), fun _ key _ => ?_⟩
    change Untouched codec key s (createTrivialSpace codec config session tp s).2
    rw [same]
    exact .refl key s
  · have event : DecompressEvent.space codec ⟨zipFile, dv.storageKey.map codec.toHex, tp.unzipBaseDir⟩ =
        dv.storageKey := space_toHex rfl
    constructor
    · intro isolates dv' zipFile' key read' stored guarded
      obtain ⟨rfl, rfl⟩ := Prod.mk.inj (Except.ok.inj (read.symm.trans read'))
      have untouched : Untouched codec key s (createTrivialSpace codec config session tp s).2 :=
        isolates key guarded
      rw [same] at untouched
      have apart := filter_append_singleton_iff.mp untouched.events
      rw [decide_eq_false_iff_not, event] at apart
      exact apart stored
    · intro respects key guarded
      have other : dv.storageKey ≠ some key := fun stored => respects dv zipFile key read stored guarded
      change Untouched codec key s (createTrivialSpace codec config session tp s).2
      rw [same]
      refine ⟨rfl, filter_append_singleton_iff.mpr (decide_eq_false (by rw [event]; exact other)), ?_⟩
      rcases rows with rfl | ⟨item, named, rfl⟩
      · rfl
      · refine filter_append_singleton_iff.mpr (decide_eq_false ?_)
        exact fun inside => other ((space_toHex named).symm.trans inside)

/-! ## Updating -/

/-- The files of a space are removed. -/
def TrivialServer.withoutFiles (key : ObjectId) (s : TrivialServer) : TrivialServer :=
  { s with files := s.files.filter fun f => f.spaceName != key }

theorem withoutFiles_eq_self (none_ : ∀ f ∈ s.files, f.spaceName ≠ key) : s.withoutFiles key = s := by
  unfold TrivialServer.withoutFiles
  rw [List.filter_eq_self.mpr fun f member => bne_iff_ne.mpr (none_ f member)]

theorem files_withoutFiles {key' : ObjectId} (other : key' ≠ key) :
    ((s.withoutFiles key).files.filter fun f => f.spaceName = key') =
      s.files.filter fun f => f.spaceName = key' := by
  unfold TrivialServer.withoutFiles
  rw [List.filter_filter]
  refine List.filter_congr fun f _ => ?_
  by_cases here : f.spaceName = key'
  · simp [here, other]
  · simp [here]

theorem removeTrivialFiles_ends {spaceName : Option Text} {post : Except Fault Unit → TrivialServer → Prop}
    (removed : ∀ key, spaceName.bind codec.ofHex = some key → post (.ok ()) (s.withoutFiles key))
    (refused : spaceName.bind codec.ofHex = none → ∀ fault, post (.error fault) s) :
    Ends (removeTrivialFiles codec spaceName) s post :=
  ends_bind (ends_require (fun key named => ends_write (removed key named)) fun malformed =>
    refused malformed _)

theorem readBySpaceName_some {name : Text} {table : Table TrivialItem} {item : TrivialItem}
    (found : TrivialItemDAO.readBySpaceName (some name) table = some item) :
    item ∈ table.rows ∧ item.spaceName = some name := by
  obtain ⟨member, chosen⟩ := BaseDAO.findAndReturnOnly_eq_some found
  refine ⟨member, ?_⟩
  rw [choseAllFieldsAsQueryClause_iff] at chosen
  have equal := chosen (text "spaceName" (·.spaceName) fun v t => { t with spaceName := v })
    (by simp [trivialItemDAO]) rfl
  cases stored : item.spaceName with
  | none => simp [text, stored] at equal
  | some name' => simpa [text, stored] using equal

theorem replacement_item (tp : TrivialParam) (p : DPair) :
    Ends (replacement tp p) s fun r _ => ∀ dv item zipFile, r = .ok (dv, item, zipFile) →
      TrivialItemDAO.readBySpaceName tp.spaceName s.items = some item := by
  have failed : ∀ fault : Fault, ∀ dv item zipFile,
      (.error fault : Except Fault (DocVersion × TrivialItem × Bytes)) = .ok (dv, item, zipFile) →
        TrivialItemDAO.readBySpaceName tp.spaceName s.items = some item :=
    fun _ _ _ _ returned => nomatch returned
  unfold replacement
  refine (readOnly_onDocuments (readOnly_getDocVersion p)).ends_bind (fun dv _ => ?_) fun _ _ => failed _
  refine (readOnly_onDocuments (readOnly_raiseIf _ _)).ends_bind (fun _ _ => ?_) fun _ _ => failed _
  refine ends_bind (ends_bind (ends_read (ends_require (fun item found => ?_) fun _ => failed _)))
  refine (readOnly_onDocuments (readOnly_readDocContent dv)).ends_bind (fun f _ => ?_) fun _ _ => failed _
  refine (readOnly_onDocuments (readOnly_writeZip f)).ends_bind (fun zipFile _ => ?_) fun _ _ => failed _
  refine ends_pure fun dv' item' zipFile' returned => ?_
  obtain ⟨-, rest⟩ := Prod.mk.inj (Except.ok.inj returned)
  rw [← (Prod.mk.inj rest).1]
  exact found

/-- The rows of other spaces stay when the row of an item is updated. -/
theorem updateTrivialItemInfo_ends {dv : DocVersion} {item : TrivialItem}
    (numbered : Table.Numbered TrivialItem.id s.items) (member : item ∈ s.items.rows) :
    Ends (updateTrivialItemInfo dv item) s fun _ s' => ∃ items, s' = { s with items } ∧
      ∀ key, item.space codec ≠ some key → (items.rows.filter fun i => i.space codec = some key) =
        s.items.rows.filter fun i => i.space codec = some key := by
  refine ends_attempt ?_ fun _ => ⟨s.items, rfl, fun _ _ => rfl⟩
  rintro found s' updated
  obtain ⟨items, done, same⟩ := Option.map_eq_some_iff.mp updated
  obtain rfl := (Prod.mk.inj same).2
  refine ⟨items, rfl, fun key other => ?_⟩
  unfold TrivialItemDAO.update at done
  rw [@BaseDAO.updateObject_eq _ trivialItemDAO
    { item with
      appid := dv.appid, docid := dv.docid, version := dv.version
      status := some CLBStatus.READY.name } _ numbered item member rfl,
    Option.ite_none_right_eq_some] at done
  obtain ⟨-, same'⟩ := done
  rw [← Option.some.inj same']
  refine numbered.filter_replace member (decide_eq_false other) (decide_eq_false ?_)
  -- the columns that are written leave the name of the space as it is
  have named : (getSetValuesClause trivialItemDAO.fields
      { item with
        appid := dv.appid, docid := dv.docid, version := dv.version
        status := some CLBStatus.READY.name } [] item).spaceName = item.spaceName := by
    refine @getSetValuesClause_keeps _ _ _ _ (fun r : TrivialItem => r.spaceName = item.spaceName) _ rfl ?_
    intro f listed _ _ r kept
    simp only [trivialItemDAO, List.mem_cons, List.not_mem_nil, or_false] at listed
    rcases listed with rfl | rfl | rfl | rfl | rfl | rfl
    · exact kept
    · exact kept
    · exact kept
    · exact kept
    · rfl
    · exact kept
  unfold TrivialItem.space at other ⊢
  rw [named]
  exact other

/-- The rule of updates: a refused one has done nothing; otherwise the files of the space are removed,
and what is left to do is to update the row, if there is something to replace them with. -/
theorem ends_updateTrivialSpace {tp : TrivialParam} {post : Except Fault Bool → TrivialServer → Prop}
    (refused : (∀ p key, (openDocument session tp.docPair s.store).1 = .ok p →
      tp.spaceName.bind codec.ofHex ≠ some key) → ∀ fault, post (.error fault) s)
    (bare : ∀ p key fault, (openDocument session tp.docPair s.store).1 = .ok p →
      tp.spaceName.bind codec.ofHex = some key →
      (replacement tp p (s.withoutFiles key)).1 = .error fault → post (.error fault) (s.withoutFiles key))
    (replaced : ∀ p key dv item zipFile, (openDocument session tp.docPair s.store).1 = .ok p →
      tp.spaceName.bind codec.ofHex = some key →
      (replacement tp p (s.withoutFiles key)).1 = .ok (dv, item, zipFile) →
      Ends (updateTrivialItemInfo dv item)
        { s.withoutFiles key with
          eventQueue := s.eventQueue ++ [⟨zipFile, item.spaceName, tp.unzipBaseDir⟩] } post) :
    Ends (updateTrivialSpace codec session tp) s post := by
  unfold updateTrivialSpace
  refine (readOnly_onDocuments (readOnly_openDocument session tp.docPair)).ends_bind
    (fun p opened => ends_bind (removeTrivialFiles_ends (fun key named => ?_) fun malformed fault => ?_))
    fun fault raised => refused (fun p _ opened => nomatch raised.symm.trans opened) fault
  · refine (readOnly_replacement tp p).ends_bind ?_ fun fault raised => bare p key fault opened named raised
    rintro ⟨dv, item, zipFile⟩ read
    exact ends_bind (ends_write (replaced p key dv item zipFile opened named read))
  · refine refused (fun p key _ named => ?_) fault
    rw [malformed] at named
    cases named

/-- What `updateTrivialSpace` has done once it is let through for its document: the files are gone, and
the archive is scheduled and the row updated if there is something to replace them with. -/
theorem updateTrivialSpace_ends (numbered : Table.Numbered TrivialItem.id s.items) (tp : TrivialParam) :
    Ends (updateTrivialSpace codec session tp) s fun _ s' =>
      (s' = s ∧ ∀ p key, (openDocument session tp.docPair s.store).1 = .ok p →
        tp.spaceName.bind codec.ofHex ≠ some key) ∨
      ∃ p key, (openDocument session tp.docPair s.store).1 = .ok p ∧
        tp.spaceName.bind codec.ofHex = some key ∧
        ((s' = s.withoutFiles key ∧ ∀ r, (replacement tp p (s.withoutFiles key)).1 ≠ .ok r) ∨
          ∃ r event items, (replacement tp p (s.withoutFiles key)).1 = .ok r ∧
            event.space codec = some key ∧
            s' = { s.withoutFiles key with eventQueue := s.eventQueue ++ [event], items } ∧
            ∀ key', key' ≠ key → (items.rows.filter fun i => i.space codec = some key') =
              s.items.rows.filter fun i => i.space codec = some key') := by
  refine ends_updateTrivialSpace (fun refused _ => .inl ⟨rfl, refused⟩)
    (fun p key fault opened named raised => ?_) fun p key dv item zipFile opened named read => ?_
  · exact .inr ⟨p, key, opened, named, .inl ⟨rfl, fun r returned => nomatch raised.symm.trans returned⟩⟩
  · obtain ⟨name, isName, decoded⟩ := Option.bind_eq_some_iff.mp named
    have found : TrivialItemDAO.readBySpaceName tp.spaceName s.items = some item :=
      (replacement_item tp p : Ends _ (s.withoutFiles key) _) dv item zipFile read
    rw [isName] at found
    obtain ⟨member, sameName⟩ := readBySpaceName_some found
    have space : item.space codec = some key := by
      unfold TrivialItem.space
      rw [sameName]
      exact decoded
    let event : DecompressEvent := ⟨zipFile, item.spaceName, tp.unzipBaseDir⟩
    refine (@updateTrivialItemInfo_ends codec
      { s.withoutFiles key with eventQueue := s.eventQueue ++ [event] } dv item numbered member).mono ?_
    rintro r s' ⟨items, rfl, others⟩
    refine .inr ⟨p, key, opened, named, .inr ⟨_, event, items, read, space, rfl, fun key' other =>
      others key' ?_⟩⟩
    rw [space]
    exact fun same => other (Option.some.inj same).symm

/-- **Updating a space isolates** unless it is let through for a guarded space and finds something to
remove or to schedule. -/
theorem isolates_update_iff (numbered : Table.Numbered TrivialItem.id s.items) (tp : TrivialParam) :
    Isolates codec config session s (.update tp) ↔ Respects codec config session s (.update tp) := by
  have ends := (updateTrivialSpace_ends numbered tp : Ends (updateTrivialSpace codec session tp) s _)
  constructor
  · intro isolates p key opened named guarded
    have untouched : Untouched codec key s (updateTrivialSpace codec session tp s).2 :=
      isolates key guarded
    rcases ends with ⟨-, refused⟩ | ⟨p', key', opened', named', after⟩
    · exact absurd named (refused p key opened)
    · obtain rfl := Except.ok.inj (opened.symm.trans opened')
      obtain rfl := Option.some.inj (named.symm.trans named')
      have files : (updateTrivialSpace codec session tp s).2.files = (s.withoutFiles key).files := by
        rcases after with ⟨same, -⟩ | ⟨r, event, items, -, -, same, -⟩
        · rw [same]
        · rw [same]
      have none_ : ∀ f ∈ s.files, f.spaceName ≠ key := by
        intro f member here
        have kept : f ∈ (updateTrivialSpace codec session tp s).2.files := by
          have listed : f ∈ s.files.filter fun f => f.spaceName = key :=
            List.mem_filter.mpr ⟨member, decide_eq_true here⟩
          rw [← untouched.files] at listed
          exact List.mem_of_mem_filter listed
        rw [files] at kept
        exact bne_iff_ne.mp (List.mem_filter.mp kept).2 here
      refine ⟨none_, fun r read => ?_⟩
      rw [withoutFiles_eq_self none_] at after
      rcases after with ⟨-, failed⟩ | ⟨r', event, items, -, space, same, -⟩
      · exact failed r read
      · rw [same] at untouched
        have apart := filter_append_singleton_iff.mp untouched.events
        exact of_decide_eq_false apart space
  · intro respects key guarded
    change Untouched codec key s (updateTrivialSpace codec session tp s).2
    rcases ends with ⟨same, -⟩ | ⟨p, key', opened, named, after⟩
    · rw [same]
      exact .refl key s
    · by_cases here : key = key'
      · subst here
        obtain ⟨none_, failed⟩ := respects p key opened named guarded
        rw [withoutFiles_eq_self none_] at after
        rcases after with ⟨same, -⟩ | ⟨r, event, items, read, -⟩
        · rw [same]
          exact .refl key s
        · exact absurd read (failed r)
      · rcases after with ⟨same, -⟩ | ⟨r, event, items, -, space, same, others⟩
        · rw [same]
          exact ⟨files_withoutFiles here, rfl, rfl⟩
        · rw [same]
          refine ⟨files_withoutFiles here, filter_append_singleton_iff.mpr (decide_eq_false ?_),
            others key here⟩
          rw [space]
          exact fun same => here (Option.some.inj same).symm

/-! ## Deleting -/

theorem openSpace_mem (spaceName : Option Text) :
    Ends (openSpace session spaceName) s fun r _ => ∀ itm, r = .ok itm → itm ∈ s.items.rows := by
  have failed : ∀ fault : Fault, ∀ itm, (.error fault : Except Fault TrivialItem) = .ok itm →
      itm ∈ s.items.rows := fun _ _ returned => nomatch returned
  unfold openSpace
  refine ends_bind (ends_bind (ends_read (ends_require (fun item found => ?_) fun _ => failed _)))
  refine (readOnly_onDocuments (readOnly_getDocMetaByDocid item.appid item.docid)).ends_bind
    (fun doc _ => ?_) fun _ _ => failed _
  refine (readOnly_onDocuments (readOnly_checkPermission session doc)).ends_bind (fun _ _ => ?_)
    fun _ _ => failed _
  refine ends_pure fun itm returned => ?_
  rw [← Except.ok.inj returned]
  exact (BaseDAO.findAndReturnOnly_eq_some found).1

/-- `deleteTrivialSpace` removes the files of the space of the item and the rows of its version. -/
theorem deleteTrivialSpace_ends (spaceName : Option Text) :
    Ends (deleteTrivialSpace codec session spaceName) s fun _ s' =>
      (s' = s ∧ ∀ itm space, (openSpace session spaceName s).1 = .ok itm →
        itm.space codec ≠ some space) ∨
      ∃ itm space, (openSpace session spaceName s).1 = .ok itm ∧ itm.space codec = some space ∧
        s' = { s.withoutFiles space with
          items := TrivialItemDAO.delete ⟨itm.appid, itm.docid, itm.version⟩ s.items } := by
  unfold deleteTrivialSpace
  refine (readOnly_openSpace spaceName).ends_bind
    (fun itm opened => ends_bind (removeTrivialFiles_ends (fun space named => ?_) fun malformed fault => ?_))
    fun fault raised => .inl ⟨rfl, fun itm _ opened => (nomatch raised.symm.trans opened)⟩
  · refine ends_bind (ends_read (ends_bind (ends_write (ends_read ?_))))
    exact .inr ⟨itm, space, opened, named, rfl⟩
  · refine .inl ⟨rfl, fun itm' space opened' named => ?_⟩
    obtain rfl := Except.ok.inj (opened.symm.trans opened')
    unfold TrivialItem.space at named
    rw [malformed] at named
    cases named

/-- **Deleting a space isolates** unless a row of its version is of a guarded space. -/
theorem isolates_delete_iff (spaceName : Option Text) :
    Isolates codec config session s (.delete spaceName) ↔
      Respects codec config session s (.delete spaceName) := by
  have ends := (deleteTrivialSpace_ends spaceName :
    Ends (deleteTrivialSpace codec session spaceName) s _)
  constructor
  · intro isolates itm space opened named row member app doc version key inside guarded
    have untouched : Untouched codec key s (deleteTrivialSpace codec session spaceName s).2 :=
      isolates key guarded
    rcases ends with ⟨-, refused⟩ | ⟨itm', space', opened', named', same⟩
    · exact refused itm space opened named
    · obtain rfl := Except.ok.inj (opened.symm.trans opened')
      rw [same] at untouched
      have listed : row ∈ s.items.rows.filter fun i => i.space codec = some key :=
        List.mem_filter.mpr ⟨member, decide_eq_true inside⟩
      rw [← untouched.rows] at listed
      have kept := (Table.mem_delete.mp (List.mem_of_mem_filter listed)).2
      exact kept (trivialItem_clause.mpr ⟨app, doc, version⟩)
  · intro respects key guarded
    change Untouched codec key s (deleteTrivialSpace codec session spaceName s).2
    rcases ends with ⟨same, -⟩ | ⟨itm, space, opened, named, same⟩
    · rw [same]
      exact .refl key s
    · have apart := respects itm space opened named
      rw [same]
      refine ⟨files_withoutFiles ?_, rfl, Table.filter_delete fun row member selected => ?_⟩
      · rintro rfl
        have member := (openSpace_mem spaceName : Ends (openSpace session spaceName) s _) itm opened
        exact apart itm member (fun _ => rfl) (fun _ => rfl) (fun _ => rfl) key named guarded
      · obtain ⟨app, doc, version⟩ := trivialItem_clause.mp selected
        exact decide_eq_false fun inside => apart row member app doc version key inside guarded

/-! ## Every call -/

/-- **Isolation of the spaces.** Whatever the state, the session and the call, the spaces that are guarded
against the user are left alone exactly if the call finds what `Respects` says. -/
theorem isolated_iff (numbered : Table.Numbered TrivialItem.id s.items) (call : TrivialCall) :
    Isolates codec config session s call ↔ Respects codec config session s call := by
  cases call with
  | create tp => exact isolates_create_iff tp
  | get spaceName =>
    refine ⟨fun _ => trivial, fun _ key _ => ?_⟩
    change Untouched codec key s (TrivialHandlers.getTrivialSpace session spaceName s).2
    rw [getTrivialSpace_eq]
    exact .refl key s
  | update tp => exact isolates_update_iff numbered tp
  | delete spaceName => exact isolates_delete_iff spaceName

/-! ## Another user's space -/

/-- The serial number in 24 digits, of which only decimal ones are used, or in more. -/
def digitCodec : HexCodec where
  toHex key := (Nat.toDigits 10 key.serial).leftpad 24 '0'
  ofHex t := if t.length < 24 then none else some ⟨Nat.ofDigitChars 10 t 0⟩
  ofHex_toHex key := by
    rw [if_neg, List.leftpad, Nat.ofDigitChars_append]
    · simp [Nat.ofDigitChars_toDigits]
    · simp only [List.leftpad, List.length_append, List.length_replicate]
      omega

def otherSession : Session := ⟨3, "other".toList, by decide, by decide⟩

def archiveFile : Resource :=
  { filename := some "a.zip".toList, length := 1, stream := { reads := [[7]] } }

/-- The users of two applications with a private archive each; the first has a space, and its archive has
been unpacked. -/
def twoArchives : TrivialServer where
  store := run (exec countingConfig)
    [⟨someSession, .createDoc 0 archiveFile⟩, ⟨otherSession, .createDoc 0 archiveFile⟩] Store.empty
  items := Table.empty.insert trivialItemDAO.setId
    { appid := 1, docid := 1, version := 1, spaceName := some (digitCodec.toHex ⟨0⟩)
      status := some CLBStatus.READY.name }
  files := [⟨⟨0⟩, "index.html".toList⟩]
  eventQueue := []

/-- An update of the first user's space with the first document of the application. -/
def updateFirstSpace : TrivialCall := .update ⟨⟨1, "1".toList⟩, none, some (digitCodec.toHex ⟨0⟩)⟩

theorem numbered_twoArchives : Table.Numbered TrivialItem.id twoArchives.items :=
  Table.Numbered.empty.insert (fun _ _ => rfl) _

/-- The first user updates the own space. -/
theorem isolated_iff_own :
    Table.Numbered TrivialItem.id twoArchives.items ∧
      Isolates digitCodec countingConfig someSession twoArchives updateFirstSpace := by
  refine ⟨numbered_twoArchives, (isolated_iff numbered_twoArchives updateFirstSpace).mpr ?_⟩
  intro p key _ named guarded
  obtain rfl : ⟨0⟩ = key := Option.some.inj named
  have unguarded : ¬ Guarded digitCodec someSession twoArchives ⟨0⟩ := by decide +kernel
  exact absurd guarded unguarded

/-- **A space is taken over.** The second user names the space of the first one next to the own document:
the files of the space are removed, the other archive is scheduled for it, and its row is that of the
other document. -/
theorem space_taken :
    Guarded digitCodec otherSession twoArchives ⟨0⟩ ∧
      ¬ Isolates digitCodec countingConfig otherSession twoArchives updateFirstSpace ∧
      (serveTrivial digitCodec countingConfig otherSession updateFirstSpace twoArchives).files = [] ∧
      ((serveTrivial digitCodec countingConfig otherSession updateFirstSpace twoArchives).eventQueue.map
        fun e => (e.zipFile, e.space digitCodec)) = [([7], some ⟨0⟩)] ∧
      ((serveTrivial digitCodec countingConfig otherSession updateFirstSpace twoArchives).items.rows.map
        fun i => (i.appid, i.docid, i.space digitCodec)) = [(3, 1, some ⟨0⟩)] := by
  have guarded : Guarded digitCodec otherSession twoArchives ⟨0⟩ := by decide +kernel
  have removed : (serveTrivial digitCodec countingConfig otherSession updateFirstSpace
      twoArchives).files = [] := by decide +kernel
  refine ⟨guarded, fun isolates => ?_, removed, by decide +kernel, by decide +kernel⟩
  have files := (isolates ⟨0⟩ guarded).files
  rw [removed] at files
  cases files

end Clb
