/-
# Derived.Resizing -- what the image handlers and the workers do

The effects of `ImageFacade`, its handlers and its workers as steps of the derivation of resized
copies. A request mints a key for each size (`Minted`), replaces the rows of these sizes and queues
their events; a row in memory follows the row it was read from (`Held`); a worker writes the file its
event asks for. The results are `createResizeCopy_evolves`, `queryResizeStatus_evolves`,
`getResizeImageInfo_evolves`, `getImageContent_evolves` and `runWorker_evolves`. -/
import Clb.Derived.Conversion

set_option autoImplicit false

namespace Clb

open Clb.Lib Clb.Dao Clb.Lib.Action DocumentFacade Handlers ImageFacade ImageHandlers

variable {pm : ResizeParam} {f : GridFSFile} {key : ObjectId} {rzp : ResizeParam}
variable {size width height : Int} {dv : DocVersion} {status : CLBStatus} {row : ImageItem}

/-! ## The original -/

section Original

variable {config : Config} {t : Store} {s : Server} {precise : Prop}

theorem readDocContent_ends :
    Ends (readDocContent dv) t fun r t' => t' = t ∧
      ∀ f, r = .ok f → f ∈ t.mongo.files ∧ dv.storageKey = some f.storageKey := by
  unfold readDocContent
  refine ends_bind (ends_require (fun key stored => ?_) fun _ => ⟨rfl, nofun⟩)
  refine ends_bind (ends_read (ends_require (fun f found => ?_) fun _ => ⟨rfl, nofun⟩))
  refine ⟨rfl, fun f' same => ?_⟩
  obtain rfl := Except.ok.inj same
  obtain ⟨member, named⟩ := Mongo.readFile_eq_some found
  exact ⟨member, by rw [stored, named]⟩

/-- The local copy is a temp file under the key of the original. -/
theorem loadOriginalImage_ends (issued : Issued t f.storageKey) :
    Ends (loadOriginalImage f) t fun r t' => Lends t t' ∧ ∀ sp, r = .ok sp → sp = f.storageKey := by
  unfold loadOriginalImage
  refine ends_bind (ends_read (ends_bind (ends_within (saveTempFile_ends.mono ?_))))
  rintro _ c ⟨temp, rfl | ⟨rfl, -⟩⟩
  · exact ends_bind (ends_raiseIf (fun _ => ⟨.withCache temp issued, nofun⟩) (by simp))
  · refine ends_bind (ends_raiseIf (by simp) fun _ => ends_pure ⟨.withCache temp issued, ?_⟩)
    rintro sp same
    exact (Except.ok.inj same).symm

/-- The two steps that fetch the original of a version. -/
theorem original_evolves {α : Type} {next : ObjectId → Serve α}
    {post : Except Fault α → Server → Prop} (wf : ServerWf config s)
    (failed : ∀ fault s', Evolves precise s s' → post (.error fault) s')
    (fetched : ∀ sp s', Evolves precise s s' → s'.imageItems = s.imageItems → s'.queue = s.queue →
      dv.storageKey = some sp → Ends (next sp) s' post) :
    Ends (do
      let gfile ← onStore (readDocContent dv)
      let sp ← onStore (loadOriginalImage gfile)
      next sp) s post := by
  refine ends_bind (ends_within (readDocContent_ends.mono ?_))
  rintro (fault | f) _ ⟨rfl, read⟩
  · exact failed fault _ (.refl s)
  · obtain ⟨member, stored⟩ := read f rfl
    refine ends_bind (ends_within ((loadOriginalImage_ends (wf.store.mongo.filesIssued f member).2).mono ?_))
    rintro (fault | sp) t ⟨lends, named⟩
    · exact failed fault _ (.ofStore lends)
    · refine fetched sp _ (.ofStore lends) rfl rfl ?_
      rw [stored, named sp rfl]

/-- What the handlers do with a version before they queue an event for it. -/
def loadVersion (dv : DocVersion) : Serve ObjectId := do
  checkFileOperation dv
  let gfile ← onStore (readDocContent dv)
  onStore (loadOriginalImage gfile)

/-- The version is a picture, its file is stored, and there is a temp file of it or the stored file
can be read to its end. -/
def Loads (dv : DocVersion) (t : Store) : Prop :=
  (dv.fileExtension.any fun ext => canResize (ext.map Char.toLower)) = true ∧
    ∃ f, documentFile dv t.mongo = some f ∧
      (t.cache.hit f.storageKey = true ∨ (f.getInputStream t.mongo).fails = false)

theorem loadOriginalImage_returns :
    Ends (loadOriginalImage f) t fun r _ => (∃ sp, r = .ok sp) ↔
      t.cache.hit f.storageKey = true ∨ (f.getInputStream t.mongo).fails = false := by
  unfold loadOriginalImage onCache Ends within LocalFileCache.saveTempFile
  rw [read_bind]
  by_cases hit : t.cache.hit f.storageKey = true
  · simp [hit, bind, raiseIf, pure]
  · cases fails : (f.getInputStream t.mongo).fails <;> simp [hit, bind, raiseIf, raise, pure]

/-- A version is loaded into the store, or the call raises. -/
theorem loadVersion_ends :
    Ends (loadVersion dv) s fun r s' => (∃ t, s' = { s with store := t }) ∧
      ((∃ sp, r = .ok sp) ↔ Loads dv s.store) := by
  unfold loadVersion checkFileOperation readDocContent Loads documentFile
  refine ends_bind (ends_raiseIf (fun other => ⟨⟨_, rfl⟩, by simp [other]⟩) fun picture => ?_)
  refine ends_bind (ends_within (ends_bind (ends_require (fun key stored => ?_) fun missing => ?_)))
  · refine ends_bind (ends_read (ends_require (fun f found => ?_) fun missing => ?_))
    · refine ends_within (loadOriginalImage_returns.mono fun r t' returns => ⟨⟨_, rfl⟩, ?_⟩)
      rw [returns]
      simpa [stored, found] using fun _ => picture
    · exact ⟨⟨_, rfl⟩, by simp [stored, missing]⟩
  · exact ⟨⟨_, rfl⟩, by simp [missing]⟩

end Original

/-! ## New rows -/

/-- Items of a version with keys of their own, handed out between two states of the counter. -/
structure Minted (p : DPair) (lower upper : Nat) (items : List ImageItem) : Prop where
  owned : ∀ item ∈ items, item.pair = p
  keyed : ∀ item ∈ items, ∃ key : ObjectId, item.storageKey = some key ∧ lower ≤ key.serial ∧
    key.serial < upper
  waiting : ∀ item ∈ items, ¬ CLBStatus.isReady item.status = true
  distinct : (items.map ImageItem.storageKey).Nodup

namespace Minted

variable {p : DPair} {lower lower' upper : Nat} {item : ImageItem} {items : List ImageItem}

theorem nil : Minted p lower upper [] := ⟨by simp, by simp, by simp, by simp⟩

theorem mono (minted : Minted p lower upper items) (below : lower' ≤ lower) :
    Minted p lower' upper items :=
  { minted with
    keyed := fun item member => by
      obtain ⟨key, stored, above, issued⟩ := minted.keyed item member
      exact ⟨key, stored, Nat.le_trans below above, issued⟩ }

theorem cons {key : ObjectId} (minted : Minted p (key.serial + 1) upper items) (owned : item.pair = p)
    (stored : item.storageKey = some key) (issued : key.serial < upper)
    (waits : ¬ CLBStatus.isReady item.status = true) :
    Minted p key.serial upper (item :: items) where
  owned := by
    rintro i (_ | ⟨_, member⟩)
    · exact owned
    · exact minted.owned i member
  keyed := by
    rintro i (_ | ⟨_, member⟩)
    · exact ⟨key, stored, Nat.le_refl _, issued⟩
    · exact (minted.mono (Nat.le_succ _)).keyed i member
  waiting := by
    rintro i (_ | ⟨_, member⟩)
    · exact waits
    · exact minted.waiting i member
  distinct := by
    refine List.nodup_cons.mpr ⟨fun inside => ?_, minted.distinct⟩
    obtain ⟨other, member, same⟩ := List.mem_map.mp inside
    obtain ⟨key', stored', above, -⟩ := minted.keyed other member
    rw [stored', stored] at same
    obtain rfl := Option.some.inj same
    exact absurd above (Nat.not_succ_le_self _)

end Minted

section Rows

variable {config : Config} {precise : Prop} {s : Server} {p : DPair} {lower upper : Nat}

theorem buildImageItems_ends (types : List ResizeType) :
    ∀ s : Server, Ends (buildImageItems pm dv types) s fun r s' =>
      ∃ t jobs, r = .ok jobs ∧ s' = { s with store := t } ∧ Lends s.store t ∧
        Minted dv.pair s.store.mongo.issued t.mongo.issued (jobs.map (·.2)) := by
  induction types with
  | nil =>
    intro s
    exact ends_pure ⟨s.store, [], rfl, rfl, Lends.refl _, .nil⟩
  | cons rt rest ih =>
    intro s
    unfold buildImageItems
    refine ends_ite (fun _ => ih s) fun _ => ?_
    refine ends_bind (ends_of_eq (generateStorageKey_eq s) (ends_bind (ends_read (ends_bind ?_))))
    refine (ih { s with store := s.store.issueKey }).mono ?_
    rintro _ _ ⟨t, jobs, rfl, rfl, lends, minted⟩
    refine ends_pure ⟨t, _, rfl, rfl, (Lends.issueKey _).trans lends, ?_⟩
    split
    · exact minted.mono (Nat.le_succ _)
    · exact @Minted.cons _ _ _ _ s.store.newKey minted rfl rfl lends.issued
        CLBStatus.not_isReady_notReady

/-- A copy of the type is asked for, and no event for it is in the queue. -/
def Asked (pm : ResizeParam) (dv : DocVersion) (keys : List Text) (rt : ResizeType) : Prop :=
  0 < getPoint pm rt ∧
    ∀ key, (buildImageItem dv key rt (getPoint pm rt) pm.useWidthOrHeight).getUniqueKey ∉ keys

theorem fits_buildImageItem {rt : ResizeType} {point : Int} {dimension : Option Text} :
    imageItemDAO.fits (buildImageItem dv key rt point dimension) = true ↔
      dv.filename.isSome = true ∧ varchar .utf8 255 dv.filename = true := by
  have typed : varchar .utf8 255 (some rt.name) = true := by cases rt <;> decide
  have image : varchar .utf8 20 (some ['j', 'p', 'e', 'g']) = true := by decide
  simp [imageItemDAO, buildImageItem, typed, image, CLBStatus.varchar_name]

theorem buildImageItems_jobs (types : List ResizeType) :
    ∀ s : Server, Ends (buildImageItems pm dv types) s fun r _ => ∀ jobs, r = .ok jobs →
      (∀ job ∈ jobs, ∃ rt key, job.2 = buildImageItem dv key rt (getPoint pm rt) pm.useWidthOrHeight) ∧
      (jobs ≠ [] ↔ ∃ rt ∈ types, Asked pm dv s.filterSet rt) := by
  induction types with
  | nil =>
    intro s
    refine ends_pure fun jobs returned => ?_
    obtain rfl := Except.ok.inj returned
    simp
  | cons rt rest ih =>
    intro s
    unfold buildImageItems
    refine ends_ite (fun unasked => (ih s).mono fun r _ built jobs returned => ?_) fun asked => ?_
    · have none_ : ¬Asked pm dv s.filterSet rt := fun asked => absurd asked.1 (by omega)
      rw [List.exists_mem_cons_iff, or_iff_right none_]
      exact built jobs returned
    refine ends_bind (ends_of_eq (generateStorageKey_eq s) (ends_bind (ends_read (ends_bind ?_))))
    refine (ih { s with store := s.store.issueKey }).mono ?_
    rintro (fault | items) s' built
    · nofun
    obtain ⟨ofTypes, nonempty⟩ := built items rfl
    refine ends_pure fun jobs returned => ?_
    obtain rfl := Except.ok.inj returned
    split
    · rename_i queued
      have none_ : ¬Asked pm dv s.filterSet rt := fun asked =>
        asked.2 s.store.newKey (List.contains_iff_mem.mp queued)
      rw [List.exists_mem_cons_iff, or_iff_right none_]
      exact ⟨ofTypes, nonempty⟩
    · rename_i waits
      have one : Asked pm dv s.filterSet rt :=
        ⟨by omega, fun _ queued => waits (List.contains_iff_mem.mpr queued)⟩
      refine ⟨?_, iff_of_true (List.cons_ne_nil _ _) ⟨rt, List.mem_cons_self, one⟩⟩
      rintro job (_ | ⟨_, listed⟩)
      exacts [⟨rt, _, rfl⟩, ofTypes job listed]

theorem mem_of_mem_delete {types : List ResizeType} {table : Table ImageItem}
    (member : row ∈ (ImageItemDAO.delete p types table).rows) : row ∈ table.rows := by
  induction types generalizing table with
  | nil => exact member
  | cons rt rest ih => exact (Table.mem_delete.mp (ih member)).1

/-- The rows of some types are deleted. -/
theorem Evolves.deleteImages (p : DPair) (types : List ResizeType) :
    Evolves precise s { s with imageItems := ImageItemDAO.delete p types s.imageItems } := by
  induction types generalizing s with
  | nil => exact .refl s
  | cons rt rest ih =>
    refine Evolves.trans (.rewriteImage (fun numbered => numbered.delete) fun row member => ?_) ih
    exact ⟨row, (Table.mem_delete.mp member).1, rfl, rfl, .inl⟩

theorem create_ends (items : List ImageItem) :
    ∀ table : Table ImageItem, Ends (ImageItemDAO.create items) table fun r table' =>
      ∃ inserted, inserted <+: items ∧
        table' = inserted.foldl (fun t i => t.insert imageItemDAO.setId i) table ∧
        (r = .ok () → inserted = items) ∧
        (r = .ok () ↔ ∀ item ∈ items, imageItemDAO.fits item = true) := by
  induction items with
  | nil =>
    intro table
    exact ends_pure ⟨[], List.prefix_rfl, rfl, fun _ => rfl, by simp⟩
  | cons item rest ih =>
    intro table
    refine ends_bind (ends_attempt ?_ fun refused => ⟨[], List.nil_prefix, rfl, nofun, nofun, ?_⟩)
    · rintro ⟨⟩ table' created
      obtain ⟨out, inserted, same⟩ := Option.map_eq_some_iff.mp created
      obtain ⟨fits, -, rfl⟩ := BaseDAO.insertObject_eq_some inserted
      obtain ⟨-, rfl⟩ := Prod.mk.inj same
      refine (ih _).mono ?_
      rintro r _ ⟨first, isPrefix, rfl, all, returns⟩
      exact ⟨item :: first, List.cons_prefix_cons.mpr ⟨rfl, isPrefix⟩, rfl,
        fun done => by rw [all done], by simp [returns, fits]⟩
    · intro fits
      rw [BaseDAO.insertObject_of_fits (fits item List.mem_cons_self) fun _ _ => rfl] at refused
      cases refused

/-- Inserting items with keys that nothing mentions. -/
theorem Evolves.insertImages {items : List ImageItem} (minted : Minted p lower upper items)
    (issued : upper ≤ s.store.mongo.issued) (owner : Owners precise s.store p)
    (unused : ∀ item ∈ items, ∀ key, item.storageKey = some key →
      ¬ s.copies.Mentions imageLedger key) :
    Evolves precise s
      { s with imageItems := items.foldl (fun t i => t.insert imageItemDAO.setId i) s.imageItems } := by
  induction items generalizing s with
  | nil => exact .refl s
  | cons item rest ih =>
    obtain ⟨key, stored, -, below⟩ := minted.keyed item List.mem_cons_self
    obtain ⟨apart, distinct⟩ := List.nodup_cons.mp minted.distinct
    have minted' : Minted p lower upper rest :=
      ⟨fun i member => minted.owned i (List.mem_cons_of_mem _ member),
        fun i member => minted.keyed i (List.mem_cons_of_mem _ member),
        fun i member => minted.waiting i (List.mem_cons_of_mem _ member), distinct⟩
    refine Evolves.trans (.enterImage p key (fun numbered => numbered.insert (fun _ _ => rfl) item)
      (unused item List.mem_cons_self key stored) (Nat.lt_of_lt_of_le below issued) (.inl owner)
      fun row member => ?_) (ih minted' issued owner fun i member key' stored' mentions => ?_)
    · rcases List.mem_append.mp member with old | new
      · exact .inl old
      · rw [List.mem_singleton.mp new]
        exact .inr ⟨minted.owned item List.mem_cons_self, stored,
          minted.waiting item List.mem_cons_self⟩
    · rcases mentions with ⟨row, inside, named⟩ | made
      · rcases List.mem_append.mp inside with old | new
        · exact unused i (List.mem_cons_of_mem _ member) key' stored' (.inl ⟨row, old, named⟩)
        · rw [List.mem_singleton.mp new] at named
          refine apart (List.mem_map.mpr ⟨i, member, ?_⟩)
          rw [stored']
          exact named.symm
      · exact unused i (List.mem_cons_of_mem _ member) key' stored' (.inr made)

theorem mem_insertImages {items : List ImageItem} {table : Table ImageItem} {item : ImageItem}
    (member : item ∈ items) :
    ∃ row ∈ (items.foldl (fun t i => t.insert imageItemDAO.setId i) table).rows,
      row.pair = item.pair ∧ row.storageKey = item.storageKey := by
  induction items generalizing table with
  | nil => cases member
  | cons first rest ih =>
    rcases List.mem_cons.mp member with rfl | inside
    · have kept : ∀ (l : List ImageItem) (t : Table ImageItem), ∀ row ∈ t.rows,
          row ∈ (l.foldl (fun t i => t.insert imageItemDAO.setId i) t).rows := by
        intro l
        induction l with
        | nil => exact fun _ _ inside => inside
        | cons i l ihl => exact fun t row inside => ihl _ row (List.mem_append_left _ inside)
      exact ⟨_, kept rest _ _ (List.mem_append_right _ (List.mem_singleton_self _)), rfl, rfl⟩
    · exact ih inside

end Rows

/-! ## Events -/

section Events

variable {config : Config} {precise : Prop} {s : Server} {sp : ObjectId}

/-- The item has a row of its key, whose version has the source `sp`. -/
def Backed (precise : Prop) (sp : ObjectId) (s : Server) (item : ImageItem) : Prop :=
  ∃ row ∈ s.imageItems.rows, row.storageKey = item.storageKey ∧
    (precise → Current s.store row.pair (some sp))

/-- The event of an item that has a row enters the queue. -/
theorem Evolves.enqueue {item : ImageItem} (filterSet : List Text)
    (backed : Backed precise sp s item) :
    Evolves precise s { s with queue := s.queue ++ [⟨sp, item⟩], filterSet } := by
  obtain ⟨row, member, named, has⟩ := backed
  have queued : ∀ a, a ∈ ({ s with queue := s.queue ++ [⟨sp, item⟩], filterSet } : Server).copies.asked ↔
      a ∈ s.copies.asked ∨ (item.storageKey = some a.1 ∧ some sp = a.2) := by
    intro a
    constructor
    · rintro ⟨e, inside, target, from_⟩
      rcases List.mem_append.mp inside with old | new
      · exact .inl ⟨e, old, target, from_⟩
      · obtain rfl := List.mem_singleton.mp new
        exact .inr ⟨target, from_⟩
    · rintro (⟨e, old, target, from_⟩ | ⟨target, from_⟩)
      · exact ⟨e, List.mem_append_left _ old, target, from_⟩
      · exact ⟨_, List.mem_append_right _ (List.mem_singleton_self _), target, from_⟩
  cases stored : item.storageKey with
  | none =>
    refine .of_same (Lends.refl _) rfl rfl rfl ?_
    have same : ({ s with queue := s.queue ++ [⟨sp, item⟩], filterSet } : Server).copies.asked =
        s.copies.asked := by
      ext a
      rw [queued, stored]
      simp
    exact congrArg (fun asked => { s.copies with asked }) same
  | some key =>
    have same : ({ s with queue := s.queue ++ [⟨sp, item⟩], filterSet } : Server).copies =
        { s.copies with asked := insert (key, some sp) s.copies.asked } := by
      have asked : ({ s with queue := s.queue ++ [⟨sp, item⟩], filterSet } : Server).copies.asked =
          insert (key, some sp) s.copies.asked := by
        ext ⟨key', source⟩
        rw [queued, stored, Set.mem_insert_iff, Prod.mk.injEq, or_comm]
        simp only [Option.some.injEq, eq_comm]
      exact congrArg (fun asked => { s.copies with asked }) asked
    refine .of_rows (Lends.refl _) rfl rfl .refl ?_
    rw [same]
    exact .single (.ask row key (some sp) member (named.trans stored) has)

theorem addEvents_ends (precise : Prop) (items : List ImageItem) :
    ∀ s : Server, (∀ item ∈ items, Backed precise sp s item) →
      Ends (addEvents sp items) s fun r s' => r = .ok () ∧ Evolves precise s s' := by
  induction items with
  | nil => exact fun s _ => ends_pure ⟨rfl, .refl s⟩
  | cons item rest ih =>
    intro s backed
    have restBacked := fun i member => backed i (List.mem_cons_of_mem item member)
    refine ends_bind (ends_write ?_)
    simp only
    split
    · exact ih s restBacked
    · refine (ih _ fun i member => ?_).mono ?_
      · exact restBacked i member
      · rintro r s' ⟨done, evolves⟩
        exact ⟨done, (Evolves.enqueue _ (backed item List.mem_cons_self)).trans evolves⟩

theorem convertImage_ends (wf : ServerWf config s)
    (member : dv ∈ s.store.versions.rows) (docid : precise → dv.docid ≠ 0)
    (stored : dv.storageKey = some sp) :
    Ends (convertImage pm dv sp) s fun _ s' => Evolves precise s s' := by
  unfold convertImage
  refine ends_bind ((buildImageItems_ends ResizeType.values s).mono ?_)
  rintro _ _ ⟨t, jobs, rfl, rfl, lends, minted⟩
  have keyed : Evolves precise s { s with store := t } := .ofStore lends
  have inside : dv ∈ t.versions.rows := by
    rw [lends.versions]
    exact member
  refine ends_bind (ends_write ?_)
  have deleted := keyed.trans (.deleteImages dv.pair (jobs.map (·.1)))
  have unused : ∀ item ∈ jobs.map (·.2), ∀ key, item.storageKey = some key →
      ¬ ({ s with store := t, imageItems := ImageItemDAO.delete dv.pair (jobs.map (·.1)) s.imageItems } :
        Server).copies.Mentions imageLedger key := by
    intro item listed key named mentions
    obtain ⟨key', named', above, -⟩ := minted.keyed item listed
    obtain rfl := Option.some.inj (named.symm.trans named')
    have before : s.copies.Mentions imageLedger key := by
      rcases mentions with ⟨row, kept, target⟩ | made
      · exact .inl ⟨row, mem_of_mem_delete kept, target⟩
      · exact .inr made
    exact (wf.unused above).2 before
  refine ends_bind (ends_within ((create_ends (jobs.map (·.2)) _).mono ?_))
  rintro r _ ⟨first, isPrefix, rfl, all, -⟩
  have entered : Evolves precise s
      { s with
        store := t
        imageItems := first.foldl (fun t i => t.insert imageItemDAO.setId i)
          (ImageItemDAO.delete dv.pair (jobs.map (·.1)) s.imageItems) } := by
    have part := isPrefix.subset
    refine deleted.trans (.insertImages ⟨fun i listed => minted.owned i (part listed),
      fun i listed => minted.keyed i (part listed), fun i listed => minted.waiting i (part listed),
      minted.distinct.sublist (isPrefix.sublist.map _)⟩ (Nat.le_refl _) ⟨⟨dv, inside, rfl⟩, docid⟩
      fun i listed => unused i (part listed))
  cases r with
  | error fault => exact entered
  | ok done =>
    obtain rfl := all rfl
    refine ends_bind ((addEvents_ends precise (jobs.map (·.2)) _ fun item listed => ?_).mono ?_)
    · obtain ⟨row, present, owner, named⟩ := mem_insertImages listed
      refine ⟨row, present, named, fun _ => ⟨dv, inside, ?_, stored⟩⟩
      rw [owner, minted.owned item listed]
    · rintro _ _ ⟨rfl, evolves⟩
      exact entered.trans evolves

theorem addEvents_returns (items : List ImageItem) : ∀ s : Server, (addEvents sp items s).1 = .ok () := by
  induction items with
  | nil => exact fun _ => rfl
  | cons item rest ih => exact fun s => ih (addEvent sp item s).2

theorem convertImage_returns :
    Ends (convertImage pm dv sp) s fun r _ =>
      ((∃ items, r = .ok items) ↔ ((∃ rt, Asked pm dv s.filterSet rt) →
        dv.filename.isSome = true ∧ varchar .utf8 255 dv.filename = true)) ∧
      ∀ items, r = .ok items → ∀ item ∈ items, ∃ rt : ResizeType, item.resizeType = some rt.name := by
  unfold convertImage
  rcases built : buildImageItems pm dv ResizeType.values s with ⟨r, s'⟩
  obtain ⟨t, jobs, rfl, rfl, -, -⟩ := (buildImageItems_ends ResizeType.values s).apply built
  obtain ⟨ofTypes, nonempty⟩ := (buildImageItems_jobs ResizeType.values s).apply built jobs rfl
  have fit : (∀ item ∈ jobs.map (·.2), imageItemDAO.fits item = true) ↔
      ((∃ rt, Asked pm dv s.filterSet rt) →
        dv.filename.isSome = true ∧ varchar .utf8 255 dv.filename = true) := by
    have one : jobs ≠ [] ↔ ∃ rt, Asked pm dv s.filterSet rt :=
      nonempty.trans ⟨fun ⟨rt, _, asked⟩ => ⟨rt, asked⟩, fun ⟨rt, asked⟩ => ⟨rt, by cases rt <;> decide, asked⟩⟩
    rw [← one, List.forall_mem_map]
    constructor
    · intro fits some_
      obtain ⟨job, listed⟩ := List.exists_mem_of_ne_nil jobs some_
      obtain ⟨rt, key, item⟩ := ofTypes job listed
      exact fits_buildImageItem.mp (item ▸ fits job listed)
    · intro named job listed
      obtain ⟨rt, key, item⟩ := ofTypes job listed
      rw [item]
      exact fits_buildImageItem.mpr (named (List.ne_nil_of_mem listed))
  refine ends_bind (ends_of_eq built ?_)
  refine ends_bind (ends_write (ends_bind (ends_within ((create_ends (jobs.map (·.2)) _).mono ?_))))
  rintro (fault | _) _ ⟨_, -, -, -, returns⟩
  · refine ⟨iff_of_false (by simp) fun named => ?_, nofun⟩
    cases returns.mpr (fit.mpr named)
  · refine ends_bind (ends_of_eq (Prod.ext (addEvents_returns _ _) rfl) (ends_pure ⟨?_, ?_⟩))
    · exact iff_of_true ⟨_, rfl⟩ (fit.mp (returns.mp rfl))
    · intro items returned item listed
      obtain rfl := Except.ok.inj returned
      obtain ⟨job, inside, rfl⟩ := List.mem_map.mp listed
      obtain ⟨rt, key, same⟩ := ofTypes job inside
      exact ⟨rt, by rw [same]; rfl⟩

end Events

/-! ## Rows in memory -/

section Memory

variable {config : Config} {precise : Prop} {s : Server}

/-- An item that was read from a row, with a status and sizes of its own. -/
def Held (s : Server) (t : ImageItem) : Prop :=
  ∃ row ∈ s.imageItems.rows,
    t = { row with size := t.size, width := t.width, height := t.height, status := t.status }

theorem held_of_mem (member : row ∈ s.imageItems.rows) : Held s row :=
  ⟨row, member, rfl⟩

/-- The change that `updateImageItem` makes to the server. -/
structure Marks (precise : Prop) (s s' : Server) : Prop where
  evolves : Evolves precise s s'
  rest : ∃ table, s' = { s with imageItems := table }
  held : ∀ t, Held s t → Held s' t

theorem Marks.refl (s : Server) : Marks precise s s := ⟨.refl s, ⟨_, rfl⟩, fun _ held => held⟩

theorem Marks.trans {s' s'' : Server} (first : Marks precise s s') (next : Marks precise s' s'') :
    Marks precise s s'' := by
  obtain ⟨table, rfl⟩ := first.rest
  obtain ⟨table', rfl⟩ := next.rest
  exact ⟨first.evolves.trans next.evolves, ⟨table', rfl⟩, fun t held => next.held t (first.held t held)⟩

/-- The row that an update by an item in memory leaves; a size of zero is not written. -/
def marked (row : ImageItem) (size width height : Int) (status : CLBStatus) : ImageItem :=
  { row with
    size := if size = 0 then row.size else size
    width := if width = 0 then row.width else width
    height := if height = 0 then row.height else height
    status := some status.name }

/-- An update of a row by an item with the same columns. -/
theorem imageItem_update_eq {table : Table ImageItem} (numbered : Table.Numbered ImageItem.id table)
    (member : row ∈ table.rows) :
    ImageItemDAO.update { row with size, width, height, status := some status.name } table =
      if imageItemDAO.fits { row with status := some status.name } then
        some (table.replace ImageItem.id row (marked row size width height status))
      else
        none := by
  have equation := @BaseDAO.updateObject_eq _ imageItemDAO
    { row with size, width, height, status := some status.name } _ numbered row member rfl
  rw [imageItem_set] at equation
  exact equation

theorem held_replace {other : ImageItem}
    (numbered : Table.Numbered ImageItem.id s.imageItems) (member : row ∈ s.imageItems.rows)
    (held : Held s other) :
    Held
      { s with imageItems := s.imageItems.replace ImageItem.id row (marked row size width height status) }
      other := by
  obtain ⟨row', inside, equal⟩ := held
  by_cases replaced : row' = row
  · refine ⟨_, (numbered.mem_replace member).mpr (.inl rfl), ?_⟩
    rw [replaced] at equal
    exact equal
  · exact ⟨row', (numbered.mem_replace member).mpr (.inr ⟨inside, replaced⟩), equal⟩

/-- `updateImageItem` marks the row that the item was read from, or raises. -/
theorem updateImageItem_row {t : ImageItem}
    (numbered : Table.Numbered ImageItem.id s.imageItems) (held : Held s t) :
    Ends (updateImageItem t size width height status) s fun r s' =>
      (s' = s ∧ (∃ fault, r = .error fault) ∧
        imageItemDAO.fits { t with status := some status.name } = false) ∨
      (r = .ok { t with size, width, height, status := some status.name } ∧
        imageItemDAO.fits { t with status := some status.name } = true ∧
        ∃ row ∈ s.imageItems.rows, row.storageKey = t.storageKey ∧
          s' = { s with
            imageItems :=
              s.imageItems.replace ImageItem.id row (marked row size width height status) }) := by
  obtain ⟨row, member, same⟩ := held
  have named : row.storageKey = t.storageKey := by
    rw [same]
  have written : ({ t with size, width, height, status := some status.name } : ImageItem) =
      { row with size, width, height, status := some status.name } := by
    rw [same]
  have columns : imageItemDAO.fits { t with status := some status.name } =
      imageItemDAO.fits { row with status := some status.name } := by
    rw [same]
    rfl
  have update := @imageItem_update_eq size width height status row _ numbered member
  unfold updateImageItem
  simp only [written, columns]
  cases fits : imageItemDAO.fits { row with status := some status.name } with
  | false =>
    rw [fits, if_neg Bool.false_ne_true] at update
    refine ends_bind (ends_within (ends_attempt (fun _ _ updated => ?_)
      fun _ => .inl ⟨rfl, ⟨_, rfl⟩, rfl⟩))
    simp [update] at updated
  | true =>
    rw [fits, if_pos rfl] at update
    refine ends_bind (ends_within (ends_attempt (fun _ _ updated => ?_) fun refused => ?_))
    · simp only [update, Option.map_some, Option.some.injEq, Prod.mk.injEq] at updated
      obtain ⟨-, rfl⟩ := updated
      exact ends_pure (.inr ⟨rfl, rfl, row, member, named, rfl⟩)
    · simp [update] at refused

theorem updateImageItem_ends {t : ImageItem} {size width height : Int} {status : CLBStatus}
    (numbered : Table.Numbered ImageItem.id s.imageItems) (held : Held s t)
    (ready : status = .READY → ∃ key source, t.storageKey = some key ∧ (key, source) ∈ s.copies.files) :
    Ends (updateImageItem t size width height status) s fun r s' => Marks precise s s' ∧
      ∀ t', r = .ok t' ↔ imageItemDAO.fits { t with status := some status.name } = true ∧
        t' = { t with size, width, height, status := some status.name } := by
  refine (updateImageItem_row numbered held).mono ?_
  rintro r s' (⟨rfl, ⟨fault, rfl⟩, refused⟩ | ⟨rfl, fits, row, member, named, rfl⟩)
  · exact ⟨.refl _, fun _ => by simp [refused]⟩
  · refine ⟨⟨?_, ⟨_, rfl⟩, fun _ => held_replace numbered member⟩, fun t' => by simp [fits, eq_comm]⟩
    refine .rewriteImage (fun numbered => numbered.replace rfl) fun i inside => ?_
    rcases (numbered.mem_replace member).mp inside with rfl | ⟨old, -⟩
    · refine ⟨row, member, rfl, rfl, fun isReady => .inr ?_⟩
      obtain ⟨key, source, stored, filed⟩ := ready (by simpa [imageLedger, marked] using isReady)
      exact ⟨key, source, named.trans stored, filed⟩
    · exact ⟨i, old, rfl, rfl, .inl⟩

theorem marked_marked (row : ImageItem) (size width height : Int) (status : CLBStatus) :
    marked (marked row size width height status) size width height status =
      marked row size width height status := by
  unfold marked
  by_cases noSize : size = 0 <;> by_cases noWidth : width = 0 <;> by_cases noHeight : height = 0 <;>
    simp only [noSize, noWidth, noHeight, if_true, if_false]

/-- Every row is an old one, or an old one of the key with its mark. -/
def MarkedOnly (key : ObjectId) (size width height : Int) (status : CLBStatus)
    (table table' : Table ImageItem) : Prop :=
  ∀ row' ∈ table'.rows, row' ∈ table.rows ∨
    ∃ row ∈ table.rows, row.storageKey = some key ∧ row' = marked row size width height status

/-- `updateImageItem` of a key marks rows of that key and changes nothing else. -/
theorem updateImageItems_marked (numbered : Table.Numbered ImageItem.id s.imageItems) :
    Ends (updateImageItems (some key) size width height status) s fun _ s' =>
      ∃ table, s' = { s with imageItems := table } ∧ Table.Numbered ImageItem.id table ∧
        MarkedOnly key size width height status s.imageItems table := by
  -- The items in memory stay items of rows, which the loop needs for its later turns.
  have loop : Ends (updateImageItems (some key) size width height status) s fun _ s' =>
      (∃ table, s' = { s with imageItems := table } ∧ Table.Numbered ImageItem.id table ∧
        MarkedOnly key size width height status s.imageItems table) ∧
      ∀ t ∈ ImageItemDAO.readByStorageKey (some key) s.imageItems, Held s' t := by
    unfold updateImageItems
    refine ends_bind (ends_read (ends_forEach (fun t listed s' => ?_) ?_))
    · rintro ⟨⟨table, rfl, numbered', only⟩, held⟩
      refine ends_bind ((updateImageItem_row numbered' (held t listed)).mono ?_)
      rintro r s'' (⟨rfl, ⟨fault, rfl⟩, -⟩ | ⟨rfl, -, row, member, named, rfl⟩)
      · exact ⟨⟨table, rfl, numbered', only⟩, held⟩
      · refine ends_pure ⟨⟨_, rfl, numbered'.replace rfl, fun row' inside => ?_⟩,
          fun t' listed' => held_replace numbered' member (held t' listed')⟩
        rcases (numbered'.mem_replace member).mp inside with rfl | ⟨old, -⟩
        · have keyed : row.storageKey = some key := named.trans (mem_readByStorageKey.mp listed).2
          rcases only row member with before | ⟨row₀, before, keyed₀, rfl⟩
          · exact .inr ⟨row, before, keyed, rfl⟩
          · exact .inr ⟨row₀, before, keyed₀, marked_marked ..⟩
        · exact only row' old
    · exact ⟨⟨_, rfl, numbered, fun _ => .inl⟩,
        fun t listed => held_of_mem (List.mem_of_mem_filter listed)⟩
  exact loop.mono fun _ _ ends => ends.1

/-- The rows of clb_image_item change and nothing else. -/
def RowsOnly (s s' : Server) : Prop := ∃ table, s' = { s with imageItems := table }

theorem RowsOnly.trans {s' s'' : Server} (first : RowsOnly s s') (next : RowsOnly s' s'') :
    RowsOnly s s'' := by
  obtain ⟨table, rfl⟩ := first
  obtain ⟨table', rfl⟩ := next
  exact ⟨table', rfl⟩

theorem updateImageItem_rowsOnly {t : ImageItem} :
    Ends (updateImageItem t size width height status) s fun _ s' => RowsOnly s s' := by
  unfold updateImageItem
  refine ends_bind (ends_within (ends_attempt ?_ fun _ => ⟨_, rfl⟩))
  rintro ⟨⟩ table -
  exact ends_pure ⟨table, rfl⟩

theorem updateImageItems_rowsOnly {targetKey : Option ObjectId} :
    Ends (updateImageItems targetKey size width height status) s fun _ s' => RowsOnly s s' := by
  unfold updateImageItems
  refine ends_bind (ends_read (ends_forEach (fun t _ s' changed => ?_) ⟨_, rfl⟩))
  refine ends_bind (updateImageItem_rowsOnly.mono ?_)
  rintro (fault | _) s'' changed'
  · exact changed.trans changed'
  · exact ends_pure (changed.trans changed')

theorem updateRetryCounts_rowsOnly (items : List ImageItem) :
    ∀ s, Ends (updateRetryCounts items) s fun _ s' => RowsOnly s s' := by
  induction items with
  | nil => exact fun s => ends_pure ⟨_, rfl⟩
  | cons m rest ih =>
    intro s
    have counted : Ends (updateRetryCount m) s fun _ s' => RowsOnly s s' := by
      unfold updateRetryCount
      refine ends_ite (fun _ => ends_bind (ends_read ?_)) fun _ => ends_pure ⟨_, rfl⟩
      exact ends_ite (fun _ => ends_pure ⟨_, rfl⟩) fun _ => updateImageItem_rowsOnly
    refine ends_bind (counted.mono ?_)
    rintro (fault | _) s' changed
    · exact changed
    · refine ends_bind ((ih s').mono ?_)
      rintro (fault | _) s'' changed'
      · exact changed.trans changed'
      · exact ends_pure (changed.trans changed')

/-- The row waits and has no event: the next look at it makes it a zombie. -/
def waitsAlone (keys : List Text) (row : ImageItem) : Bool :=
  CLBStatus.getStatus row.status == some .NOT_READY && !keys.contains row.getUniqueKey

/-- The item as `updateRetryCount` leaves it. -/
def retried (keys : List Text) (row : ImageItem) : ImageItem :=
  if waitsAlone keys row then
    { row with size := 0, width := 0, height := 0, status := some CLBStatus.ZOMBIE.name }
  else
    row

/-- What `updateRetryCount` writes of the row fits its columns. -/
def Writable (keys : List Text) (row : ImageItem) : Prop :=
  waitsAlone keys row = true →
    imageItemDAO.fits { row with status := some CLBStatus.ZOMBIE.name } = true

theorem pair_retried (keys : List Text) (row : ImageItem) : (retried keys row).pair = row.pair := by
  unfold retried
  split <;> rfl

theorem Marks.held_retried {s' : Server} {items : List ImageItem} {keys : List Text}
    (marks : Marks precise s s') (held : ∀ m ∈ items, Held s m) :
    ∀ m ∈ items.map (retried keys), Held s' m := by
  refine List.forall_mem_map.mpr fun m listed => ?_
  obtain ⟨row, member, same⟩ := marks.held m (held m listed)
  refine ⟨row, member, ?_⟩
  unfold retried
  split <;> rw [same]

/-- An item that waits alone becomes a zombie, if the row fits. -/
theorem updateRetryCount_ends {m : ImageItem} (numbered : Table.Numbered ImageItem.id s.imageItems)
    (held : Held s m) :
    Ends (updateRetryCount m) s fun r s' => Marks precise s s' ∧
      ∀ m', r = .ok m' ↔ Writable s.filterSet m ∧ m' = retried s.filterSet m := by
  have kept (rests : waitsAlone s.filterSet m = false) (m' : ImageItem) :
      (.ok m : Except Fault ImageItem) = .ok m' ↔
        Writable s.filterSet m ∧ m' = retried s.filterSet m := by
    rw [retried, rests, if_neg Bool.false_ne_true, Except.ok.injEq, eq_comm]
    exact (and_iff_right fun alone => nomatch rests.symm.trans alone).symm
  unfold updateRetryCount
  refine ends_ite (fun waits => ends_bind (ends_read (ends_ite (fun queued => ?_) fun alone => ?_)))
    fun rests => ?_
  · exact ends_pure ⟨.refl s, kept (by rw [waitsAlone, queued, Bool.not_true, Bool.and_false])⟩
  · have lone : waitsAlone s.filterSet m = true := by
      rw [waitsAlone, waits, Bool.eq_false_of_not_eq_true alone]
      rfl
    refine (@updateImageItem_ends precise s m 0 0 0 .ZOMBIE numbered held nofun).mono ?_
    rintro r s' ⟨marks, returned⟩
    refine ⟨marks, fun m' => ?_⟩
    rw [retried, if_pos lone, returned]
    exact and_congr_left' ⟨fun fits _ => fits, fun writable => writable lone⟩
  · exact ends_pure ⟨.refl s, kept (by rw [waitsAlone, beq_false_of_ne rests, Bool.false_and])⟩

theorem updateRetryCounts_ends (precise : Prop) (items : List ImageItem) :
    ∀ s : Server, Table.Numbered ImageItem.id s.imageItems → (∀ m ∈ items, Held s m) →
      Ends (updateRetryCounts items) s fun r s' => Marks precise s s' ∧
        ∀ items', r = .ok items' ↔
          (∀ m ∈ items, Writable s.filterSet m) ∧ items' = items.map (retried s.filterSet) := by
  induction items with
  | nil => exact fun s _ _ => ends_pure ⟨.refl s, fun items' => by simp [eq_comm]⟩
  | cons m rest ih =>
    intro s numbered held
    refine ends_bind ((@updateRetryCount_ends precise s m numbered (held m List.mem_cons_self)).mono ?_)
    rintro (fault | m') s' ⟨marks, counted⟩
    · refine ⟨marks, fun items' => iff_of_false nofun fun written => ?_⟩
      cases (counted _).mpr ⟨written.1 m List.mem_cons_self, rfl⟩
    · obtain ⟨writable, rfl⟩ := (counted m').mp rfl
      refine ends_bind ((ih s' (marks.evolves.imageNumbered numbered) fun i member =>
        marks.held i (held i (List.mem_cons_of_mem _ member))).mono ?_)
      obtain ⟨table, rfl⟩ := marks.rest
      rintro (fault | others) s'' ⟨marks', counted'⟩
      · refine ⟨marks.trans marks', fun items' => iff_of_false nofun fun written => ?_⟩
        cases (counted' _).mpr ⟨fun i member => written.1 i (List.mem_cons_of_mem m member), rfl⟩
      · obtain ⟨writable', rfl⟩ := (counted' others).mp rfl
        refine ends_pure ⟨marks.trans marks', fun items' => ?_⟩
        rw [List.forall_mem_cons, and_iff_right ⟨writable, writable'⟩, List.map_cons, Except.ok.injEq,
          eq_comm]

end Memory

/-! ## The handlers -/

section Handlers

variable {config : Config} {session : Session} {precise : Prop} {s : Server}

theorem resizeAgain_ends (precise : Prop) {items : List ImageItem} (wf : ServerWf config s)
    (held : ∀ m ∈ items, Held s m)
    (current : precise → ∀ m ∈ items, Current s.store m.pair dv.storageKey) :
    Ends (resizeAgain dv items) s fun _ s' => Evolves precise s s' := by
  unfold resizeAgain
  refine ends_bind (ends_raiseIf (fun _ => .refl s) fun _ => ?_)
  refine original_evolves wf (fun _ _ evolves => evolves) fun sp s' evolves same _ stored => ?_
  refine (addEvents_ends precise items s' fun m listed => ?_).mono
    fun _ _ added => evolves.trans added.2
  obtain ⟨row, member, equal⟩ := held m listed
  have owner : m.pair = row.pair := by
    rw [equal]
    rfl
  refine ⟨row, same ▸ member, ?_, fun exactly => ?_⟩
  · rw [equal]
  · obtain ⟨v, inside, pair, source⟩ := current exactly m listed
    exact ⟨v, evolves.store.versions ▸ inside, pair.trans owner, source.trans stored⟩

theorem resizeImage_ends
    (wf : ServerWf config s) (member : dv ∈ s.store.versions.rows) (docid : precise → dv.docid ≠ 0)
    (filed : f ∈ s.store.mongo.files) (stored : dv.storageKey = some f.storageKey) :
    Ends (resizeImage dv f rzp) s fun _ s' => Evolves precise s s' := by
  unfold resizeImage
  refine ends_bind (ends_within
    ((loadOriginalImage_ends (wf.store.mongo.filesIssued f filed).2).mono ?_))
  rintro (fault | sp) t ⟨lends, named⟩
  · exact .ofStore lends
  · have loaded : Evolves precise s { s with store := t } := .ofStore lends
    have inside : dv ∈ t.versions.rows := by
      rw [lends.versions]
      exact member
    refine ends_bind ((convertImage_ends (loaded.wf wf) inside docid ?_).mono ?_)
    · rw [named sp rfl]
      exact stored
    · rintro (fault | items) s' evolves
      · exact loaded.trans evolves
      · exact (readOnly_require _ _).ends (loaded.trans evolves)

/-- What `CreateResizeCopyHandler` does with a version, and `GetImageContentHandler` where there is no
copy. -/
def resizeVersion (p : DPair) (rzp : ResizeParam) : Serve ResizeImage := do
  let dv ← onStore (getDocVersion p)
  checkFileOperation dv
  let gfile ← onStore (readDocContent dv)
  resizeImage dv gfile rzp

theorem setURL_some_iff {result : ResizeImage} {item : ImageItem} :
    (∃ result', setURL result item = some result') ↔ (ResizeType.getEnum item.resizeType).isSome := by
  unfold setURL
  cases ResizeType.getEnum item.resizeType <;> simp

theorem metaList_setURL {result result' : ResizeImage} {item : ImageItem}
    (set : setURL result item = some result') : result'.metaList = result.metaList := by
  obtain ⟨rt, -, rfl⟩ := Option.map_eq_some_iff.mp set
  cases rt <;> rfl

/-- The `switch` in the loop knows the types of all the items, or the call raises. -/
theorem buildResizeImageInfo_returns (items : List ImageItem) :
    ∀ result : ResizeImage,
      ((∃ result', items.foldlM setURL result = some result') ↔
        ∀ item ∈ items, (ResizeType.getEnum item.resizeType).isSome) ∧
      ∀ result', items.foldlM setURL result = some result' → result'.metaList = result.metaList := by
  induction items with
  | nil => simp
  | cons item rest ih =>
    intro result
    rw [List.foldlM_cons, List.forall_mem_cons, ← @setURL_some_iff result item]
    cases set : setURL result item with
    | none => simp
    | some next =>
      obtain ⟨known, same⟩ := ih next
      refine ⟨known.trans (and_iff_right ⟨next, rfl⟩).symm, fun result' done => ?_⟩
      exact (same result' done).trans (metaList_setURL set)

/-- What a resize of a version needs. -/
def Resizes (p : DPair) (rzp : ResizeParam) (s : Server) : Prop :=
  ∃ dv, DocVersionDAO.read p s.store.versions = some dv ∧ Loads dv s.store ∧
    ((∃ rt, Asked rzp dv s.filterSet rt) →
      dv.filename.isSome = true ∧ varchar .utf8 255 dv.filename = true)

theorem resizeVersion_returns_iff {p : DPair} :
    (∃ rsi, (resizeVersion p rzp s).1 = .ok rsi) ↔ Resizes p rzp s := by
  have regrouped : resizeVersion p rzp = onStore (getDocVersion p) >>= fun dv =>
      loadVersion dv >>= fun sp => convertImage rzp dv sp >>= fun items => buildResizeImageInfo items dv := by
    unfold resizeVersion resizeImage loadVersion
    simp only [bind_assoc]
  rw [regrouped]
  change Ends _ s fun r _ => (∃ rsi, r = .ok rsi) ↔ Resizes p rzp s
  unfold getDocVersion Resizes
  refine ends_bind (ends_within (ends_bind (ends_read (ends_require (fun dv read => ?_) fun missing => ?_))))
  · simp only [read, Option.some.injEq, exists_eq_left']
    refine ends_bind (loadVersion_ends.mono ?_)
    rintro (fault | sp) _ ⟨⟨t, rfl⟩, loads⟩
    · exact iff_of_false (by simp) fun resizes => by simpa using loads.mpr resizes.1
    refine ends_bind (convertImage_returns.mono ?_)
    rintro (fault | items) s' ⟨returns, typed⟩
    · exact iff_of_false (by simp) fun resizes => by simpa using returns.mpr resizes.2
    have known : ∀ item ∈ items, (ResizeType.getEnum item.resizeType).isSome := by
      intro item listed
      obtain ⟨rt, same⟩ := typed items rfl item listed
      rw [same]
      cases rt <;> decide
    refine ends_require (fun rsi _ => ?_) fun failed => ?_
    · exact iff_of_true ⟨rsi, rfl⟩ ⟨loads.mp ⟨sp, rfl⟩, returns.mp ⟨items, rfl⟩⟩
    · obtain ⟨rsi, done⟩ := (buildResizeImageInfo_returns items _).1.mpr known
      cases failed.symm.trans done
  · simp [missing]

theorem resizeVersion_ends {p : DPair} {rzp : ResizeParam} (wf : ServerWf config s) :
    Ends (resizeVersion p rzp) s fun _ s' => Evolves (p.docid ≠ 0) s s' := by
  unfold resizeVersion
  refine ends_bind (onStore_getDocVersion_ends (fun dv found => ?_) fun _ => .refl s)
  obtain ⟨member, -, sameDoc⟩ := docVersion_read_some found
  refine ends_bind (ends_raiseIf (fun _ => .refl s) fun _ => ?_)
  refine ends_bind (ends_within (readDocContent_ends.mono ?_))
  rintro (fault | f) _ ⟨rfl, read⟩
  · exact .refl s
  · obtain ⟨filed, stored⟩ := read f rfl
    exact resizeImage_ends wf member (fun docid => sameDoc docid ▸ docid) filed stored

/-- `CreateResizeCopyHandler` for a document other than 0. -/
theorem createResizeCopy_evolves {config : ServerConfig} (wf : ServerWf config.toConfig s) :
    Evolves (rzp.docid ≠ 0) s (createResizeCopy config session rzp s).2 := by
  change Ends (createResizeCopy config session rzp) s fun _ s' => Evolves (rzp.docid ≠ 0) s s'
  unfold createResizeCopy
  refine ends_bind ((readOnly_onStore (readOnly_checkSystemIOMode _)).ends ?_)
  split
  · refine ends_bind ((readOnly_onStore (readOnly_getDocMetaByDocid _ _)).ends ?_)
    split
    · refine ends_bind ((readOnly_onStore (readOnly_checkPermission _ _)).ends ?_)
      split
      · refine ends_bind (ends_require (fun version parsed => ?_) fun _ => .refl s)
        exact resizeVersion_ends wf
      · exact .refl s
    · exact .refl s
  · exact .refl s

/-- `QueryResizeStatusHandler` for a version other than 0. -/
theorem queryResizeStatus_evolves {dp : DocPair} (wf : ServerWf config s) :
    Evolves (parseInt dp.version ≠ some 0) s (queryResizeStatus session dp s).2 := by
  change Ends (queryResizeStatus session dp) s fun _ s' => Evolves _ s s'
  unfold queryResizeStatus
  refine ends_bind (onStore_openDocument_ends (fun p converted => ?_) fun _ => .refl s)
  refine ends_bind (ends_read (ends_ite (fun _ => .refl s) fun _ => ?_))
  refine ends_bind ((updateRetryCounts_ends (parseInt dp.version ≠ some 0)
    (ImageItemDAO.readByDocPair p s.imageItems) s wf.imageNumbered fun m listed =>
      held_of_mem (mem_readByDocPair.mp listed).1).mono ?_)
  rintro (fault | items) s' ⟨marks, returned⟩
  · exact marks.evolves
  · obtain ⟨-, rfl⟩ := (returned items).mp rfl
    refine ends_ite (fun _ => ?_) fun _ => ends_pure marks.evolves
    obtain ⟨appid, docid, positive⟩ := convertToPair_eq_some converted
    have session_pos := session.appid_pos
    refine ends_bind (onStore_getDocVersion_ends (fun dv found => ?_) fun _ => marks.evolves)
    refine ends_bind ((resizeAgain_ends (parseInt dp.version ≠ some 0) (marks.evolves.wf wf)
      (marks.held_retried fun m₀ listed => held_of_mem (mem_readByDocPair.mp listed).1)
      fun exactly => List.forall_mem_map.mpr fun m₀ listed => ?_).mono ?_)
    · obtain ⟨inside, sameApp, sameDoc, sameVersion⟩ := mem_readByDocPair.mp listed
      rw [pair_retried]
      rw [← appid] at found
      exact current_of_selects (by omega) (by omega) (version_ne_zero converted exactly) found
        (wf.imageWithin.owned m₀ inside).2 sameApp sameDoc sameVersion
    · rintro (fault | _) _ evolves
      · exact marks.evolves.trans evolves
      · exact marks.evolves.trans evolves

/-- `GetResizeImageInfoHandler`. -/
theorem getResizeImageInfo_evolves {dp : DocPair} (wf : ServerWf config s) :
    Evolves True s (getResizeImageInfo session dp s).2 := by
  change Ends (getResizeImageInfo session dp) s fun _ s' => Evolves _ s s'
  unfold getResizeImageInfo
  refine ends_bind (onStore_openDocument_ends (fun p converted => ?_) fun _ => .refl s)
  refine ends_bind (onStore_getDocVersion_ends (fun dv found => ?_) fun _ => .refl s)
  obtain ⟨appid, docid, positive⟩ := convertToPair_eq_some converted
  obtain ⟨member, -, sameDoc⟩ := docVersion_read_some found
  obtain ⟨dvApp, dvVersion⟩ := wf.store.versionsPos dv member
  have dvDoc : dv.docid ≠ 0 := by
    rw [sameDoc (by omega)]
    omega
  refine ends_bind (ends_read ?_)
  refine ends_bind ((updateRetryCounts_ends True (ImageItemDAO.readByDocPair dv.pair s.imageItems) s
    wf.imageNumbered fun m listed => held_of_mem (mem_readByDocPair.mp listed).1).mono ?_)
  rintro (fault | items) s' ⟨marks, returned⟩
  · exact marks.evolves
  · obtain ⟨-, rfl⟩ := (returned items).mp rfl
    refine ends_bind ((readOnly_require _ _).ends ?_)
    split
    · refine ends_ite (fun _ => ?_) fun _ => ends_pure marks.evolves
      refine ends_bind ((resizeAgain_ends True (marks.evolves.wf wf)
        (marks.held_retried fun m₀ listed => held_of_mem (mem_readByDocPair.mp listed).1)
        fun _ => List.forall_mem_map.mpr fun m₀ listed => ?_).mono ?_)
      · obtain ⟨-, sameApp', sameDoc', sameVersion'⟩ := mem_readByDocPair.mp listed
        refine ⟨dv, marks.evolves.store.versions ▸ member, ?_, rfl⟩
        rw [pair_retried]
        unfold ImageItem.pair
        rw [sameApp' (show dv.appid ≠ 0 by omega), sameDoc' dvDoc,
          sameVersion' (show dv.version ≠ 0 by omega)]
      · rintro (fault | _) _ evolves
        · exact marks.evolves.trans evolves
        · exact marks.evolves.trans evolves
    · exact marks.evolves

/-- `GetImageContentHandler` for a document other than 0. -/
theorem getImageContent_evolves {q : ImageQuery} (wf : ServerWf config s) :
    Evolves (q.docid ≠ 0) s (getImageContent session q s).2 := by
  have sent : ∀ (p : DPair) (s' : Server), Evolves (q.docid ≠ 0) s s' →
      Ends (originalIfNeeded q p) s' fun _ s' => Evolves (q.docid ≠ 0) s s' := by
    intro p s' evolves
    unfold originalIfNeeded originalContent
    refine ends_ite (fun _ => ends_bind (ends_read ?_)) fun _ => ends_raise evolves
    exact ends_bind (ends_require (fun _ _ => evolves) fun _ => evolves)
  change Ends (getImageContent session q) s fun _ s' => Evolves _ s s'
  unfold getImageContent
  refine ends_bind ((readOnly_onStore (readOnly_getDocMetaByDocid _ _)).ends ?_)
  split
  · refine ends_bind ((readOnly_onStore (readOnly_checkPermission _ _)).ends ?_)
    split
    · refine ends_bind (ends_require (fun version parsed => ?_) fun _ => .refl s)
      refine ends_bind (ends_read ?_)
      dsimp only
      split
      · unfold loadImage
        refine ends_bind (ends_bind (ends_require (fun key stored => ?_) fun _ => .refl s))
        refine ends_read ?_
        dsimp only
        split
        · exact ends_pure (.refl s)
        · exact sent _ s (.refl s)
      · split
        · exact sent _ s (.refl s)
        · rename_i rzp _
          have resized : Ends (resizeVersion ⟨session.appid, q.docid, version⟩ rzp >>= fun _ =>
              originalIfNeeded q ⟨session.appid, q.docid, version⟩) s
              fun _ s' => Evolves (q.docid ≠ 0) s s' := by
            refine ends_bind ((resizeVersion_ends wf).mono ?_)
            rintro (fault | _) s' evolves
            · exact evolves
            · exact sent _ s' evolves
          simpa only [resizeVersion, bind_assoc] using resized
    · exact .refl s
  · exact .refl s

end Handlers

/-! ## The workers -/

section Workers

variable {config : Config} {precise : Prop} {s : Server} {e : ResizeEvent}

theorem updateImageItems_ends {targetKey : Option ObjectId}
    (status : CLBStatus) (wf : ServerWf config s)
    (ready : status = .READY → ∃ key source, targetKey = some key ∧ (key, source) ∈ s.copies.files) :
    Ends (updateImageItems targetKey size width height status) s fun _ s' => Marks precise s s' := by
  unfold updateImageItems
  refine ends_bind (ends_read (ends_forEach (fun t listed s' marks => ?_) (.refl s)))
  have filed : status = .READY →
      ∃ key source, t.storageKey = some key ∧ (key, source) ∈ s'.copies.files := by
    intro isReady
    obtain ⟨key, source, rfl, filed⟩ := ready isReady
    obtain ⟨table, rfl⟩ := marks.rest
    exact ⟨key, source, (mem_readByStorageKey.mp listed).2, filed⟩
  refine ends_bind ((@updateImageItem_ends precise s' t size width height status
    (marks.evolves.imageNumbered wf.imageNumbered)
    (marks.held t (held_of_mem (List.mem_of_mem_filter listed))) filed).mono ?_)
  rintro (fault | _) s'' ⟨marks', -⟩
  · exact marks.trans marks'
  · exact ends_pure (marks.trans marks')

theorem copies_erase_subset :
    ({ s with queue := s.queue.erase e } : Server).copies.asked ⊆ s.copies.asked := by
  rintro a ⟨e', inside, target, from_⟩
  exact ⟨e', List.mem_of_mem_erase inside, target, from_⟩

theorem Evolves.dequeue : Evolves precise s { s with queue := s.queue.erase e } :=
  .of_rows (Lends.refl _) rfl rfl .refl (.single (.forget _ copies_erase_subset))

/-- The file of an event is written, and the event is gone. -/
theorem Evolves.finishCopy {length : Int} (queued : e ∈ s.queue)
    (stored : e.item.storageKey = some key) :
    Evolves precise s
      { s with queue := s.queue.erase e, images := s.images ++ [⟨key, length, e.source⟩] } := by
  have files : ({ s with images := s.images ++ [⟨key, length, e.source⟩] } : Server).copies.files =
      insert (key, some e.source) s.copies.files := artifacts_append s.images _
  have finished := @Derivation.Step.finish _ _ _ _ imageLedger (Owners precise s.store)
    (Issued s.store) (fun p source => precise → Current s.store p source) s.copies key (some e.source)
    ⟨e, queued, stored, rfl⟩
  rw [← files] at finished
  exact .of_rows (Lends.refl _) rfl rfl .refl
    ((Derivation.Steps.single finished).trans (.single (.forget _ copies_erase_subset)))

/-- A worker takes an event from the queue. -/
theorem runWorker_evolves {outcome : ResizeOutcome} (wf : ServerWf config s) (queued : e ∈ s.queue) :
    Evolves precise s (runWorker e outcome s).2 := by
  have dequeued : Evolves precise s { s with queue := s.queue.erase e } := .dequeue
  have handled : Ends (resizeImageHandler e outcome) { s with queue := s.queue.erase e } fun _ s' =>
      Evolves precise s s' := by
    unfold resizeImageHandler
    refine ends_bind (ends_read (ends_ite (fun _ => dequeued) fun _ => ?_))
    cases outcome with
    | unresizable =>
      exact (updateImageItems_ends .FAILED (dequeued.wf wf) nofun).mono fun _ _ marks =>
        dequeued.trans marks.evolves
    | lost => exact dequeued
    | unwritable => exact ends_raise dequeued
    | resized length width height =>
      refine ends_bind (ends_require (fun _ _ => ?_) fun _ => dequeued)
      refine ends_bind (ends_require (fun key stored => ?_) fun _ => dequeued)
      have finished : Evolves precise s
          { s with queue := s.queue.erase e, images := s.images ++ [⟨key, length, e.source⟩] } :=
        .finishCopy queued stored
      refine ends_bind (ends_write (ends_ite (fun _ => ?_) fun _ => finished))
      refine (updateImageItems_ends .READY (finished.wf wf) fun _ => ?_).mono fun _ _ marks =>
        finished.trans marks.evolves
      exact ⟨key, _, stored, _, List.mem_append_right _ (List.mem_singleton_self _), rfl, rfl⟩
  change Ends (runWorker e outcome) s fun _ s' => Evolves _ s s'
  unfold runWorker
  refine ends_bind (ends_write (ends_bind (handled.mono ?_)))
  rintro (fault | _) s' evolves
  · exact evolves
  · exact ends_write (evolves.trans (.of_same (Lends.refl _) rfl rfl rfl rfl))

end Workers

end Clb
