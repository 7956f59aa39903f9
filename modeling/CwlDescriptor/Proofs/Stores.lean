import CwlDescriptor.Proofs.Paths
import CwlDescriptor.Proofs.Tables
import CwlDescriptor.SourceStore
set_option autoImplicit false

/-!
# The last file at a path counts

A store is made from a list of files that may have several files at one path, and several spellings
of it. It holds the last of them, in whatever way its path is spelled when it is looked up. The
files of a store have different paths in normal form; so a store that is made from them is the same
one.

## Main definitions

* `SourceStore.lastContent?`: the content of the last file of a list at a path.
* `SourceStore.paths`: the paths of a list of files, in the order in which they occur first.

## Main results

* `SourceStore.get?_ofFiles`: the last file at a path is found there.
* `SourceStore.keys_ofFiles`: the paths of a store.
* `SourceStore.ofFiles_toFiles`: a store is made again from its files.
* `SourceStore.last_file_wins`: construction, look-up and listing agree.
-/

namespace CwlDescriptor.SourceStore

variable {store : SourceStore} {f : SourceFile} {path : String}

/-! ## Spellings of a path -/

/-- A path finds the same as its normal form. -/
lemma get?_normalize (store : SourceStore) (path : String) :
    store.get? (Path.normalize path) = store.get? path := by
  rw [get?, get?, Path.normalize_normalize]

/-- A file is found by its path in normal form, with the content that the store has there. -/
lemma file?_eq_some_iff :
    store.file? path = some f ↔
      f.path = Path.normalize path ∧ store.get? path = some f.content := by
  unfold file?
  constructor
  · intro h
    obtain ⟨content, hget, rfl⟩ := Option.map_eq_some_iff.1 h
    exact ⟨rfl, hget⟩
  · rintro ⟨hpath, hget⟩
    rw [hget, Option.map_some, ← hpath]

/-! ## The store of a list of files -/

/-- The content of the last file of a list whose path is another spelling of the given one. -/
def lastContent? (files : List SourceFile) (path : String) : Option String :=
  ((files.filter fun f => Path.normalize f.path = Path.normalize path).getLast?).map (·.content)

/-- The normal forms of the paths of a list of files, in the order in which they occur first. -/
def paths (files : List SourceFile) : List String :=
  (files.map fun f => Path.normalize f.path).eraseDups

variable (files : List SourceFile)

/-- The last file at a path is found there, in whatever way its path was spelled. -/
lemma get?_ofFiles (path : String) : (ofFiles files).get? path = lastContent? files path := by
  unfold get? ofFiles lastContent?
  simp only [Table.get?_ofList, List.filter_map, List.getLast?_map, Option.map_map,
    Function.comp_def]

/-- The files at other paths make no difference to what is found. -/
lemma get?_ofFiles_filter {files : List SourceFile} {keep : SourceFile → Bool}
    (h : ∀ f ∈ files, Path.normalize f.path = Path.normalize path → keep f = true) :
    (ofFiles (files.filter keep)).get? path = (ofFiles files).get? path := by
  have hfilter : ∀ f ∈ files, (decide (Path.normalize f.path = Path.normalize path) && keep f) =
      decide (Path.normalize f.path = Path.normalize path) := by
    intro f hf
    by_cases hpath : Path.normalize f.path = Path.normalize path
    · simp [hpath, h f hf hpath]
    · simp [hpath]
  rw [get?_ofFiles, get?_ofFiles, lastContent?, lastContent?, List.filter_filter,
    List.filter_congr hfilter]

/-- The paths of a store of files are those of the files. -/
lemma keys_ofFiles : Table.keys (ofFiles files).table = paths files := by
  unfold ofFiles paths
  rw [Table.keys_ofList, List.map_map]
  rfl

/-- The paths of a store of files are distinct. -/
private lemma nodup_keys_ofFiles : (Table.keys (ofFiles files).table).Nodup := by
  rw [keys_ofFiles]
  exact nodup_eraseDups _

/-- The paths of files are in normal form in their store. -/
private lemma normalize_of_mem_paths {files : List SourceFile} (h : path ∈ paths files) :
    Path.normalize path = path := by
  obtain ⟨f, -, rfl⟩ := List.mem_map.1 (List.mem_eraseDups.1 h)
  exact Path.normalize_normalize f.path

/-! ## The files of a store -/

/-- The files of a store have its paths. -/
private lemma map_path_toFiles (store : SourceStore) :
    store.toFiles.map (·.path) = Table.keys store.table := by
  unfold toFiles Table.keys
  rw [List.map_map]
  rfl

/-- The files of a store stand in it with the last content that was given for their paths. -/
private lemma toFiles_ofFiles :
    (ofFiles files).toFiles.map (fun f => (f.path, some f.content)) =
      (paths files).map fun path => (path, lastContent? files path) := by
  rw [← keys_ofFiles, Table.keys, toFiles, List.map_map, List.map_map]
  refine List.map_congr_left fun e he => ?_
  have hkey : e.1 ∈ paths files := keys_ofFiles files ▸ List.mem_map_of_mem he
  have hget : Table.get? (ofFiles files).table e.1 = some e.2 :=
    (Table.get?_eq_some_iff (nodup_keys_ofFiles files)).2 he
  show (e.1, some e.2) = (e.1, lastContent? files e.1)
  rw [← get?_ofFiles, get?, normalize_of_mem_paths hkey, hget]

/-- The files of a store have different paths in normal form, so the same store is made from them
again. -/
lemma ofFiles_toFiles : ofFiles (ofFiles files).toFiles = ofFiles files := by
  have hpairs : ((ofFiles files).toFiles.map fun f => (Path.normalize f.path, f.content)) =
      (ofFiles files).table := by
    rw [toFiles, List.map_map]
    refine (List.map_congr_left fun e he => ?_).trans (List.map_id _)
    have hkey : e.1 ∈ paths files := keys_ofFiles files ▸ List.mem_map_of_mem he
    show (Path.normalize e.1, e.2) = e
    rw [normalize_of_mem_paths hkey]
  rw [ofFiles, hpairs, Table.ofList_of_nodup (nodup_keys_ofFiles files)]

/-- **The last file at a path counts.** A store finds the content of the last file whose path is a
spelling of the one that is looked up, and nothing if there is no such file; the three ways to look
a path up agree. Its list of files has each path once, in normal form, in the order in which the
paths occur first and with the last content; and the store is made again from this list. -/
theorem last_file_wins (path : String) :
    let store := ofFiles files
    store.get? path = lastContent? files path ∧
    store.contains path = (store.get? path).isSome ∧
    (store.file? path).isSome = (store.get? path).isSome ∧
    (∀ f, store.file? path = some f ↔
      f.path = Path.normalize path ∧ store.get? path = some f.content) ∧
    store.toFiles.map (fun f => (f.path, some f.content)) =
      (paths files).map (fun path => (path, lastContent? files path)) ∧
    (store.toFiles.map (·.path)).Nodup ∧
    store.toFiles.length = store.size ∧
    ofFiles store.toFiles = store := by
  have hnodup : ((ofFiles files).toFiles.map (·.path)).Nodup := by
    rw [map_path_toFiles]
    exact nodup_keys_ofFiles files
  exact ⟨get?_ofFiles files path, rfl, Option.isSome_map, fun f => file?_eq_some_iff,
    toFiles_ofFiles files, hnodup, List.length_map _, ofFiles_toFiles files⟩

/-- An empty file is found; the second spelling of a path counts, at the first place. -/
example :
    let store := ofFiles [⟨"a.cwl", "1"⟩, ⟨"//b.cwl", ""⟩, ⟨"/lib/../a.cwl", "2"⟩]
    store.toFiles = [⟨"/a.cwl", "2"⟩, ⟨"/b.cwl", ""⟩] ∧ store.get? "./b.cwl" = some "" :=
  ⟨rfl, rfl⟩

end CwlDescriptor.SourceStore
