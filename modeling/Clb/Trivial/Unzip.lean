/-
# Trivial.Unzip -- the names of the unpacked files

`DecompressWorker` takes the events that the handlers of clb.trivial have queued. For each it walks over
the entries of the archive (`UnCompress.unzip`), skips the directories, and stores every other entry
under a name from which `filterDir/` was removed (`BatchCreateTrivialFileListener`). An entry that cannot
be opened or read ends the walk.

`decompress_files` says which files a walk adds. The names are removed wherever they occur in the path,
so `names_faithful_iff` says exactly which archives keep the names they should. -/
import Clb.Lib.Replace
import Clb.Trivial.Isolation

set_option autoImplicit false

namespace Clb

open Clb.Lib Clb.Lib.Action

/-- An entry of an archive, as `ZipFile` lists it: its name, whether it can be opened, and its bytes. -/
structure ZipArchiveEntry where
  name : Text
  opens : Bool := true
  stream : InputStream := { reads := [] }

namespace ZipArchiveEntry

/-- `ZipArchiveEntry.isDirectory`. -/
def isDirectory (e : ZipArchiveEntry) : Bool := e.name.getLast? == some '/'

/-- The entry can be opened and read to its end. -/
def readable (e : ZipArchiveEntry) : Bool := e.opens && !e.stream.fails

end ZipArchiveEntry

/-- The entries that the worker stores: those before the first one that it cannot read. -/
def storedEntries (entries : List ZipArchiveEntry) : List ZipArchiveEntry :=
  (entries.filter fun e => !e.isDirectory).takeWhile ZipArchiveEntry.readable

namespace TrivialFacade

/-- `filterDir + File.separator`; a null is written as text. -/
def filterText (filterDir : Option Text) : Text := filterDir.getD "null".toList ++ ['/']

/-- The name under which `buildMTrivialFile` stores an entry. -/
def relativeFileName (filterDir : Option Text) (name : Text) : Text :=
  replace (filterText filterDir) [] name

section Worker

variable (codec : HexCodec) (spaceName filterDir : Option Text)

/-- `BatchCreateTrivialFileListener.onNewEntry`. -/
def onNewEntry (e : ZipArchiveEntry) : Trivial Unit := do
  let key ← Action.require .illegalArgument (spaceName.bind codec.ofHex)
  Action.raiseIf (e.stream.fails = true) .mongo
  Action.write fun s => { s with files := s.files ++ [⟨key, relativeFileName filterDir e.name⟩] }

/-- The loop of `UnCompress.unzip`. -/
def unzipEntries : List ZipArchiveEntry → Trivial Unit
  | [] => return ()
  | e :: rest =>
    if e.isDirectory then
      unzipEntries rest
    else do
      Action.raiseIf (e.opens = false) .io
      onNewEntry codec spaceName filterDir e
      unzipEntries rest

/-- `UnCompress.unzip`: what is not an archive is logged, as is an entry that cannot be opened. -/
def unzip (archive : Option (List ZipArchiveEntry)) : Trivial Unit :=
  Action.catching Handlers.swallowed () do
    let entries ← Action.require .io archive
    unzipEntries codec spaceName filterDir entries

end Worker

/-- One turn of `DecompressWorker`. `zipFile` is the archive that a file holds, if it is one. -/
def decompress (codec : HexCodec) (zipFile : Bytes → Option (List ZipArchiveEntry)) : Trivial Unit := do
  let queue ← Action.read TrivialServer.eventQueue
  match queue with
  | [] => return ()
  | evt :: rest => do
      Action.write fun s => { s with eventQueue := rest }
      unzip codec evt.spaceName evt.filterDir (zipFile evt.zipFile)

end TrivialFacade

open TrivialFacade

variable {codec : HexCodec} {spaceName filterDir : Option Text} {key : ObjectId} {s : TrivialServer}

/-! ## The files that a walk adds -/

/-- The files that a walk stores for these entries. -/
def unzippedFiles (key : ObjectId) (filterDir : Option Text) (entries : List ZipArchiveEntry) :
    List TrivialFile :=
  entries.map fun e => ⟨key, relativeFileName filterDir e.name⟩

theorem onNewEntry_eq (named : spaceName.bind codec.ofHex = some key) {e : ZipArchiveEntry}
    (whole : e.stream.fails = false) :
    onNewEntry codec spaceName filterDir e s =
      (.ok (), { s with files := s.files ++ [⟨key, relativeFileName filterDir e.name⟩] }) := by
  unfold onNewEntry
  rw [named, Action.require_some_bind, Action.raiseIf_neg_bind (by simp [whole])]
  rfl

theorem onNewEntry_broken (named : spaceName.bind codec.ofHex = some key) {e : ZipArchiveEntry}
    (broken : e.stream.fails = true) :
    onNewEntry codec spaceName filterDir e s = (.error .mongo, s) := by
  unfold onNewEntry
  rw [named, Action.require_some_bind, Action.raiseIf_pos_bind broken]

theorem unzipEntries_files (named : spaceName.bind codec.ofHex = some key)
    (entries : List ZipArchiveEntry) :
    (unzipEntries codec spaceName filterDir entries s).2 =
      { s with files := s.files ++ unzippedFiles key filterDir (storedEntries entries) } := by
  induction entries generalizing s with
  | nil => simp [unzipEntries, storedEntries, unzippedFiles, pure]
  | cons e rest ih =>
    unfold unzipEntries
    cases folder : e.isDirectory with
    | true =>
      rw [if_pos rfl, ih]
      simp [storedEntries, folder]
    | false =>
      rw [if_neg Bool.false_ne_true]
      cases opened : e.opens with
      | false =>
        rw [Action.raiseIf_pos_bind rfl]
        simp [storedEntries, folder, opened, ZipArchiveEntry.readable, unzippedFiles]
      | true =>
        rw [Action.raiseIf_neg_bind (by decide)]
        cases broken : e.stream.fails with
        | true =>
          rw [Action.bind_error (onNewEntry_broken named broken)]
          simp [storedEntries, folder, broken, ZipArchiveEntry.readable, unzippedFiles]
        | false =>
          rw [Action.bind_ok (onNewEntry_eq named broken), ih]
          simp [storedEntries, folder, opened, broken, ZipArchiveEntry.readable, unzippedFiles]

/-- A turn of the worker stores the entries of the archive of the first event. -/
theorem decompress_files {zipFile : Bytes → Option (List ZipArchiveEntry)} {evt : DecompressEvent}
    {rest : List DecompressEvent} {entries : List ZipArchiveEntry}
    (queued : s.eventQueue = evt :: rest) (named : evt.spaceName.bind codec.ofHex = some key)
    (archive : zipFile evt.zipFile = some entries) :
    (decompress codec zipFile s).2.files =
      s.files ++ unzippedFiles key evt.filterDir (storedEntries entries) := by
  unfold decompress
  rw [Action.read_bind, queued]
  dsimp only
  rw [Action.write_bind]
  unfold unzip
  rw [Action.snd_catching, archive, Action.require_some_bind, unzipEntries_files named]

/-! ## The names -/

/-- The entry `filterDir/x`. -/
def Under (filterDir : Option Text) (name x : Text) : Prop :=
  ∃ dir, filterDir = some dir ∧ name = dir ++ '/' :: x

/-- An entry below `filterDir` is stored by its path below it, any other by its own name. -/
def NamedFaithfully (filterDir : Option Text) (e : ZipArchiveEntry) (stored : Text) : Prop :=
  (∀ x, Under filterDir e.name x → stored = x) ∧
    ((∀ x, ¬Under filterDir e.name x) → stored = e.name)

/-- The stored names of a list of entries are faithful, and no two entries below `filterDir` share
one. -/
structure FaithfulNames (filterDir : Option Text) (entries : List ZipArchiveEntry)
    (stored : List Text) : Prop where
  each : List.Forall₂ (NamedFaithfully filterDir) entries stored
  distinct : (entries.zip stored).Pairwise fun p q =>
    (∃ x, Under filterDir p.1.name x) → (∃ x, Under filterDir q.1.name x) → p.2 ≠ q.2

/-- The text that is removed does not occur in what is to be kept of the name. -/
def Unrepeated (filterDir : Option Text) (name : Text) : Prop :=
  (∀ x, Under filterDir name x → ¬filterText filterDir <:+: x) ∧
    ((∀ x, ¬Under filterDir name x) → ¬filterText filterDir <:+: name)

theorem filterText_ne_nil : filterText filterDir ≠ [] := by
  simp [filterText]

theorem relativeFileName_under {name x : Text} (below : Under filterDir name x) :
    relativeFileName filterDir name = replace (filterText filterDir) [] x := by
  obtain ⟨dir, rfl, rfl⟩ := below
  have split : dir ++ '/' :: x = filterText (some dir) ++ x := by simp [filterText]
  rw [relativeFileName, split, replace_target_append filterText_ne_nil, List.nil_append]

theorem namedFaithfully_iff {e : ZipArchiveEntry} :
    NamedFaithfully filterDir e (relativeFileName filterDir e.name) ↔ Unrepeated filterDir e.name := by
  refine and_congr (forall_congr' fun x => imp_congr_right fun below => ?_)
    (imp_congr_right fun _ => ?_)
  · rw [relativeFileName_under below]
    exact replace_nil_eq_self_iff filterText_ne_nil
  · exact replace_nil_eq_self_iff filterText_ne_nil

/-- Names with a part in common are told apart by the rest. -/
theorem Under.name_eq {name name' x : Text} (below : Under filterDir name x)
    (below' : Under filterDir name' x) : name = name' := by
  obtain ⟨dir, rfl, rfl⟩ := below
  obtain ⟨dir', same, rfl⟩ := below'
  rw [Option.some.inj same]

theorem faithfulNames_iff {entries : List ZipArchiveEntry}
    (distinct : (entries.map ZipArchiveEntry.name).Nodup) :
    FaithfulNames filterDir entries (entries.map fun e => relativeFileName filterDir e.name) ↔
      ∀ e ∈ entries, Unrepeated filterDir e.name := by
  have each : List.Forall₂ (NamedFaithfully filterDir) entries
      (entries.map fun e => relativeFileName filterDir e.name) ↔
        ∀ e ∈ entries, Unrepeated filterDir e.name := by
    rw [List.forall₂_map_right_iff, List.forall₂_same]
    exact forall₂_congr fun e _ => namedFaithfully_iff
  refine ⟨fun faithful => each.mp faithful.each, fun unrepeated => ⟨each.mpr unrepeated, ?_⟩⟩
  have paired : entries.zip (entries.map fun e => relativeFileName filterDir e.name) =
      entries.map fun e => (e, relativeFileName filterDir e.name) := by
    have both := @List.zip_map' _ _ _ id (fun e => relativeFileName filterDir e.name) entries
    rwa [List.map_id] at both
  rw [paired, List.pairwise_map]
  refine (List.pairwise_map.mp distinct).imp_of_mem fun {e e'} member member' differ => ?_
  rintro ⟨x, below⟩ ⟨x', below'⟩ same
  -- both are stored by what follows `filterDir`, so equal names come from equal entries
  have kept := (namedFaithfully_iff.mpr (unrepeated e member)).1 x below
  have kept' := (namedFaithfully_iff.mpr (unrepeated e' member')).1 x' below'
  obtain rfl : x = x' := kept.symm.trans (same.trans kept')
  exact differ (below.name_eq below')

/-- **When the unpacked files keep their names.** -/
theorem names_faithful_iff {zipFile : Bytes → Option (List ZipArchiveEntry)} {evt : DecompressEvent}
    {rest : List DecompressEvent} {entries : List ZipArchiveEntry}
    (queued : s.eventQueue = evt :: rest) (named : evt.spaceName.bind codec.ofHex = some key)
    (archive : zipFile evt.zipFile = some entries)
    (distinct : ((entries.filter fun e => !e.isDirectory).map ZipArchiveEntry.name).Nodup) :
    FaithfulNames evt.filterDir (storedEntries entries)
        (((decompress codec zipFile s).2.files.drop s.files.length).map TrivialFile.fileName) ↔
      ∀ e ∈ storedEntries entries, Unrepeated evt.filterDir e.name := by
  have stored : ((decompress codec zipFile s).2.files.drop s.files.length).map TrivialFile.fileName =
      (storedEntries entries).map fun e => relativeFileName evt.filterDir e.name := by
    rw [decompress_files queued named archive, List.drop_left, unzippedFiles, List.map_map]
    rfl
  rw [stored]
  exact faithfulNames_iff (distinct.sublist ((List.takeWhile_sublist _).map _))

/-- A server with one archive to unpack, of which only the directory `d` is wanted. -/
def oneArchive : TrivialServer :=
  { twoArchives with eventQueue := [⟨[7], some (digitCodec.toHex ⟨0⟩), some "d".toList⟩] }

def plainEntries : List ZipArchiveEntry :=
  [{ name := "d/".toList }, { name := "d/a".toList }, { name := "e/b".toList }]

theorem names_faithful_iff_plain :
    ((plainEntries.filter fun e => !e.isDirectory).map ZipArchiveEntry.name).Nodup ∧
      (FaithfulNames (some "d".toList) (storedEntries plainEntries)
          (((decompress digitCodec (fun _ => some plainEntries) oneArchive).2.files.drop
            oneArchive.files.length).map TrivialFile.fileName) ↔
        ∀ e ∈ storedEntries plainEntries, Unrepeated (some "d".toList) e.name) :=
  ⟨by decide, @names_faithful_iff digitCodec ⟨0⟩ oneArchive (fun _ => some plainEntries)
    ⟨[7], some (digitCodec.toHex ⟨0⟩), some "d".toList⟩ [] plainEntries rfl (by decide) rfl (by decide)⟩

/-- A directory of the same name further down, and one whose name ends in it. -/
def nestedEntries : List ZipArchiveEntry :=
  [{ name := "d/a/b".toList }, { name := "d/a/d/b".toList }, { name := "ed/c".toList }]

/-- Two files of the directory get one name, and a file outside of it loses a part of its path. -/
theorem names_collide :
    ((nestedEntries.filter fun e => !e.isDirectory).map ZipArchiveEntry.name).Nodup ∧
      storedEntries nestedEntries = nestedEntries ∧
      ((decompress digitCodec (fun _ => some nestedEntries) oneArchive).2.files.drop
          oneArchive.files.length).map TrivialFile.fileName =
        ["a/b".toList, "a/b".toList, "ec".toList] ∧
      ¬FaithfulNames (some "d".toList) nestedEntries ["a/b".toList, "a/b".toList, "ec".toList] := by
  refine ⟨by decide, rfl, by decide, fun faithful => ?_⟩
  have apart := List.pairwise_cons.mp faithful.distinct
  have differ := apart.1 ({ name := "d/a/d/b".toList }, "a/b".toList) (by simp)
    ⟨"a/b".toList, "d".toList, rfl, by decide⟩ ⟨"a/d/b".toList, "d".toList, rfl, by decide⟩
  exact differ rfl

end Clb
