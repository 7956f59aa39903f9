import CwlDescriptor.Imports
import CwlDescriptor.Proofs.Stores
import Mathlib
set_option autoImplicit false

/-!
# The files that are discovered are those that can be reached

A file refers to those files of the store that its references name, addresses of the web apart.
Discovery reads the root and then each file that it finds, in the order in which it finds them. So
what it has found is always the list of files that were mentioned by what it has read, each at the
place where it was mentioned first; and when nothing is left to be read, this is the list of all
files that can be reached.

## Main definitions

* `SourceFile.references`, `SourceFile.target`: what a file refers to.
* `SourceStore.Refers`, `SourceStore.ReachedIn`: a file refers to another one, or leads to it by a
  number of references.
* `SourceStore.mentioned`: the files that a file refers to, in the order of its references.
* `Discovery.Tracks`: what is known behind the references that were followed.
* `Discovery.Frontier`: what is known behind the files that were read.
* `Discovery.Readable`: the files that can be reached are documents, or their texts are refused.
* `Discovery.Exact`: what is found at the end.

## Main results

* `Discovery.Tracks.follow`: following one reference.
* `Discovery.Frontier.step`: reading one file.
* `discover_exact`: discovery ends, with the files that can be reached, in breadth-first order.
-/

namespace CwlDescriptor

/-! ## Lists without repetitions -/

/-- What stands in front of an item that was mentioned early was mentioned early itself. -/
private lemma mem_of_sublist_eraseDups {α : Type} [DecidableEq α] {early late : List α} {a b : α}
    (h : List.Sublist [a, b] (early ++ late).eraseDups) (hb : b ∈ early) : a ∈ early := by
  have hnodup := nodup_eraseDups (early ++ late)
  rw [List.eraseDups_append] at h hnodup
  have hdisjoint : ∀ c ∈ (late.removeAll early).eraseDups, c ∉ early := by
    intro c hc hearly
    rw [List.nodup_append] at hnodup
    exact hnodup.2.2 c (List.mem_eraseDups.2 hearly) c hc rfl
  obtain ⟨l₁, l₂, heq, h₁, h₂⟩ := List.sublist_append_iff.1 h
  cases l₁ with
  | nil =>
    rw [List.nil_append] at heq
    exact absurd hb (hdisjoint b (h₂.subset (heq ▸ by simp)))
  | cons c l₁ =>
    rw [List.cons_append, List.cons.injEq] at heq
    rw [heq.1]
    exact List.mem_eraseDups.1 (h₁.subset List.mem_cons_self)

/-! ## Which files refer to each other -/

namespace SourceFile

/-- Two files with the same path and content are the same. -/
lemma ext {f g : SourceFile} (hpath : f.path = g.path) (hcontent : f.content = g.content) :
    f = g := by
  cases f
  cases g
  exact congrArg₂ SourceFile.mk hpath hcontent

/-- The references in the document of a file; a file that is no document has none. -/
def references (f : SourceFile) : List String :=
  match load f.content (some f.path) with
  | .ok document => document.references
  | .error _ => []

/-- The path that a reference of a file names. -/
def target (f : SourceFile) (reference : String) : String :=
  Path.resolve f.path (Reference.asPath reference)

/-- The references of a file that can be read are those of its document. -/
lemma references_of_ok {f : SourceFile} {document : Node}
    (h : load f.content (some f.path) = .ok document) : f.references = document.references := by
  rw [references, h]

/-- A file that cannot be read has no references. -/
private lemma references_of_error {f : SourceFile} {e : Failure}
    (h : load f.content (some f.path) = .error e) : f.references = [] := by
  rw [references, h]

end SourceFile

namespace SourceStore

variable {store : SourceStore} {f g : SourceFile} {p : String}

/-- A file that is found at the path that a reference names has this path. -/
private lemma path_of_file?_target {reference : String}
    (h : store.file? (f.target reference) = some g) :
    g.path = f.target reference := by
  rw [(file?_eq_some_iff.1 h).1]
  exact Path.normalize_resolve _ _

/-- The document of the first file has a reference that is no address of the web and that names the
second one. -/
def Refers (store : SourceStore) (f g : SourceFile) : Prop :=
  ∃ reference ∈ f.references, Reference.isUrl reference = false ∧
    store.file? (f.target reference) = some g

/-- A file that is reached from the root by a chain of references, through files that do not have
the path of the root. -/
inductive ReachedIn (store : SourceStore) (root : SourceFile) : Nat → SourceFile → Prop
  | direct {f : SourceFile} (h : store.Refers root f) : ReachedIn store root 1 f
  | through {n : Nat} {f g : SourceFile} (hf : ReachedIn store root n f)
    (hpath : f.path ≠ Path.normalize root.path) (h : store.Refers f g) :
    ReachedIn store root (n + 1) g

/-- The file that a reference names, unless it has the path of the root. -/
def mentioned? (store : SourceStore) (root : String) (f : SourceFile) (reference : String) :
    Option SourceFile :=
  if Reference.isUrl reference then none
  else (store.file? (f.target reference)).filter (·.path ≠ Path.normalize root)

/-- The files that a file refers to, in the order of its references and without the root. -/
def mentioned (store : SourceStore) (root : String) (f : SourceFile) : List SourceFile :=
  f.references.filterMap (store.mentioned? root f)

/-- A reference mentions a file of the store that it names, unless this is the root or an address.
-/
private lemma mentioned?_eq_some {root reference : String} :
    store.mentioned? root f reference = some g ↔ Reference.isUrl reference = false ∧
      store.file? (f.target reference) = some g ∧ g.path ≠ Path.normalize root := by
  unfold mentioned?
  cases Reference.isUrl reference with
  | true => simp
  | false => simp [Option.filter_eq_some_iff]

/-- The files that a file mentions are those it refers to, without the root. -/
private lemma mem_mentioned {root : String} :
    g ∈ store.mentioned root f ↔ store.Refers f g ∧ g.path ≠ Path.normalize root := by
  simp only [mentioned, List.mem_filterMap, mentioned?_eq_some, Refers]
  constructor
  · rintro ⟨reference, hmem, hurl, hfile, hpath⟩
    exact ⟨⟨reference, hmem, hurl, hfile⟩, hpath⟩
  · rintro ⟨⟨reference, hmem, hurl, hfile⟩, hpath⟩
    exact ⟨reference, hmem, hurl, hfile, hpath⟩

/-- A file that is reached is in the store, under a path in normal form. -/
lemma ReachedIn.path_content {root : SourceFile} {n : Nat} (h : store.ReachedIn root n f) :
    Path.normalize f.path = f.path ∧ store.get? f.path = some f.content := by
  have hrefers : ∃ g, store.Refers g f := by
    cases h with
    | direct h | through _ _ h => exact ⟨_, h⟩
  obtain ⟨g, reference, -, -, hfile⟩ := hrefers
  obtain ⟨hpath, hget⟩ := file?_eq_some_iff.1 hfile
  rw [hpath, Path.normalize_normalize, get?_normalize]
  exact ⟨rfl, hget⟩

/-- A file that can be reached is an entry of the table of the store. -/
private lemma ReachedIn.mem_table {root : SourceFile} {n : Nat} (h : store.ReachedIn root n f) :
    (f.path, f.content) ∈ store.table := by
  obtain ⟨hpath, hget⟩ := h.path_content
  rw [get?, hpath] at hget
  exact Table.mem_of_get? hget

/-- Files of the store with different paths are no more than the store has files. -/
private lemma length_le_size {files : List SourceFile} (hnodup : (files.map (·.path)).Nodup)
    (h : ∀ f ∈ files, Path.normalize f.path = f.path ∧ store.get? f.path = some f.content) :
    files.length ≤ store.size := by
  have hsub : files.map (·.path) ⊆ Table.keys store.table := by
    intro p hp
    obtain ⟨f, hf, rfl⟩ := List.mem_map.1 hp
    obtain ⟨hpath, hget⟩ := h f hf
    rw [get?, hpath] at hget
    by_contra hkey
    rw [Table.get?_eq_none_iff.2 hkey] at hget
    cases hget
  have hle := (List.subperm_of_subset hnodup hsub).length_le
  simpa [Table.keys, size] using hle

end SourceStore

/-! ## Following references -/

namespace Discovery

open SourceStore

variable {store : SourceStore} {root : SourceFile} {d : Discovery}

/-- What is known behind the references `seen`, each of which is given with its file: whether there
were addresses of the web and others, which paths were looked up, and that the files that were found
are those that were mentioned, in their order and each once. -/
structure Tracks (store : SourceStore) (root : SourceFile) (seen : List (SourceFile × String))
    (d : Discovery) : Prop where
  http : d.hasHttpImports = seen.any fun m => Reference.isUrl m.2
  files : d.hasLocalImports = seen.any fun m => !Reference.isUrl m.2
  visited : ∀ p, p ∈ d.visited ↔ p = Path.normalize root.path ∨
    ∃ m ∈ seen, Reference.isUrl m.2 = false ∧ m.1.target m.2 = p
  found : d.found = (seen.filterMap fun m => store.mentioned? root.path m.1 m.2).eraseDups

variable {seen : List (SourceFile × String)}

/-- A path was looked up before if and only if its file, if there is one, has been found. -/
private lemma Tracks.mem_mentioned_iff (h : Tracks store root seen d) {f g : SourceFile}
    {reference : String} (hg : store.mentioned? root.path f reference = some g) :
    g ∈ (seen.filterMap fun m => store.mentioned? root.path m.1 m.2) ↔
      f.target reference ∈ d.visited := by
  obtain ⟨-, hfile, hpath⟩ := mentioned?_eq_some.1 hg
  have htarget := path_of_file?_target hfile
  rw [h.visited, List.mem_filterMap]
  constructor
  · rintro ⟨m, hm, hgm⟩
    obtain ⟨hurl, hfile', -⟩ := mentioned?_eq_some.1 hgm
    exact .inr ⟨m, hm, hurl, by rw [← path_of_file?_target hfile', htarget]⟩
  · rintro (hroot | ⟨m, hm, hurl, hm'⟩)
    · exact absurd (htarget.trans hroot) hpath
    · exact ⟨m, hm, mentioned?_eq_some.2 ⟨hurl, hm' ▸ hfile, hpath⟩⟩

/-- What has been found behind one more reference. -/
private lemma Tracks.found_concat (h : Tracks store root seen d) (f : SourceFile)
    (reference : String) :
    ((seen ++ [(f, reference)]).filterMap fun m => store.mentioned? root.path m.1 m.2).eraseDups =
      if f.target reference ∈ d.visited then d.found
      else d.found ++ (store.mentioned? root.path f reference).toList := by
  rw [List.filterMap_append, h.found]
  cases hg : store.mentioned? root.path f reference with
  | none => simp [hg]
  | some g =>
    rw [show [(f, reference)].filterMap (fun m => store.mentioned? root.path m.1 m.2) = [g] by
      simp [hg], eraseDups_concat]
    simp only [h.mem_mentioned_iff hg, Option.toList_some]

/-- Following a reference: an address of the web is noted, and so is any other reference; a path
that was not looked up before is, and its file is added if there is one. -/
lemma follow_eq (store : SourceStore) (f : SourceFile) (d : Discovery) (reference : String) :
    d.follow store f.path reference =
      if Reference.isUrl reference then { d with hasHttpImports := true }
      else if f.target reference ∈ d.visited then { d with hasLocalImports := true }
      else { d with
        hasLocalImports := true
        visited := d.visited ++ [f.target reference]
        found := d.found ++ (store.file? (f.target reference)).toList
        queue := d.queue ++ (store.file? (f.target reference)).toList } := by
  unfold follow SourceFile.target
  cases Reference.isUrl reference with
  | true => rfl
  | false =>
    by_cases hseen : Path.resolve f.path (Reference.asPath reference) ∈ d.visited
    · simp [hseen]
    · cases hfile : store.file? (Path.resolve f.path (Reference.asPath reference)) <;>
        simp [hseen, hfile]

/-- **Following one reference** adds it to those that are known. A file that it leads to for the
first time is added to the files that were found and to those that are still to be read. -/
theorem Tracks.follow (h : Tracks store root seen d) (f : SourceFile) (reference : String) :
    Tracks store root (seen ++ [(f, reference)]) (d.follow store f.path reference) ∧
      ∃ new, (d.follow store f.path reference).found = d.found ++ new ∧
        (d.follow store f.path reference).queue = d.queue ++ new := by
  have hfound := h.found_concat f reference
  rw [follow_eq]
  cases hurl : Reference.isUrl reference with
  | true =>
    rw [if_pos rfl]
    have hnone : store.mentioned? root.path f reference = none := by simp [mentioned?, hurl]
    refine ⟨⟨by simp [hurl], by simp [h.files, hurl], fun p => ?_, ?_⟩, [], by simp, by simp⟩
    · simpa [hurl, or_and_right, exists_or] using h.visited p
    · simpa [hnone] using hfound.symm
  | false =>
    rw [if_neg (by simp)]
    have hhttp : d.hasHttpImports = (seen ++ [(f, reference)]).any fun m =>
        Reference.isUrl m.2 := by simp [h.http, hurl]
    have hfiles : true = (seen ++ [(f, reference)]).any fun m => !Reference.isUrl m.2 := by
      simp [hurl]
    have hvisited : ∀ p, (p ∈ d.visited ∨ f.target reference = p) ↔
        p = Path.normalize root.path ∨ ∃ m ∈ seen ++ [(f, reference)],
          Reference.isUrl m.2 = false ∧ m.1.target m.2 = p := by
      intro p
      rw [h.visited p]
      simp [hurl, or_and_right, exists_or, or_assoc]
    by_cases hseen : f.target reference ∈ d.visited
    · rw [if_pos hseen] at hfound ⊢
      refine ⟨⟨hhttp, hfiles, fun p => ?_, hfound.symm⟩, [], by simp, by simp⟩
      rw [← hvisited]
      exact ⟨.inl, fun hp => hp.elim id fun heq => heq ▸ hseen⟩
    · rw [if_neg hseen] at hfound ⊢
      have hnew : f.target reference ≠ Path.normalize root.path :=
        fun hroot => hseen ((h.visited _).2 (.inl hroot))
      -- a path that is looked up for the first time is not that of the root
      have hsame : store.mentioned? root.path f reference = store.file? (f.target reference) := by
        rw [mentioned?, hurl, if_neg (by simp)]
        cases hfile : store.file? (f.target reference) with
        | none => rfl
        | some g => simpa [path_of_file?_target hfile] using hnew
      rw [hsame] at hfound
      refine ⟨⟨hhttp, hfiles, fun p => ?_, hfound.symm⟩, _, rfl, rfl⟩
      rw [← hvisited, List.mem_append, List.mem_singleton, eq_comm (a := p)]

/-- Following all references of a file. The files that were found after the root are those that were
read and those that are still to be read. -/
lemma Tracks.foldl (f : SourceFile) (done : List SourceFile) (references : List String) :
    ∀ {seen : List (SourceFile × String)} {d : Discovery}, Tracks store root seen d →
      root :: d.found = done ++ d.queue →
      Tracks store root (seen ++ references.map (f, ·))
          (references.foldl (Discovery.follow store f.path) d) ∧
        root :: (references.foldl (Discovery.follow store f.path) d).found =
          done ++ (references.foldl (Discovery.follow store f.path) d).queue := by
  induction references with
  | nil =>
    intro seen d h hsplit
    simpa using And.intro h hsplit
  | cons reference references ih =>
    intro seen d h hsplit
    obtain ⟨hnext, new, hfound, hqueue⟩ := h.follow f reference
    have hrest := ih hnext (by rw [hfound, hqueue, ← List.cons_append, hsplit, List.append_assoc])
    rwa [List.append_assoc] at hrest

/-- A file that is found is not the root. -/
private lemma Tracks.path_ne (h : Tracks store root seen d) {f : SourceFile} (hf : f ∈ d.found) :
    f.path ≠ Path.normalize root.path := by
  rw [h.found, List.mem_eraseDups, List.mem_filterMap] at hf
  obtain ⟨m, -, hm⟩ := hf
  exact (mentioned?_eq_some.1 hm).2.2

/-! ## Reading files -/

/-- What is known behind the files `done` that were read: all their references were followed, the
files that were found are the other ones that were read and those that are still to be read, and
each of them can be reached. -/
structure Frontier (store : SourceStore) (root : SourceFile) (done : List SourceFile)
    (d : Discovery) : Prop where
  tracks : Tracks store root (done.flatMap fun f => f.references.map (f, ·)) d
  split : root :: d.found = done ++ d.queue
  reached : ∀ f ∈ d.found, ∃ n, store.ReachedIn root n f

/-- The files of the store that can be reached are documents, or their texts are refused. -/
def Readable (store : SourceStore) (root : SourceFile) : Prop :=
  ∀ f n, store.ReachedIn root n f → f.path ≠ Path.normalize root.path →
    ∀ e, load f.content (some f.path) = .error e → ∃ refusal, e = .refused refusal

variable {done : List SourceFile}

/-- At the beginning nothing has been read. -/
private lemma frontier_start (store : SourceStore) (root : SourceFile) :
    Frontier store root [] { visited := [Path.normalize root.path], queue := [root] } where
  tracks := ⟨rfl, rfl, fun p => by simp, rfl⟩
  split := rfl
  reached := by simp

namespace Frontier

/-- The files that are found are those that are mentioned in the files that were read, each once. -/
private lemma found_eq (h : Frontier store root done d) :
    d.found = (done.flatMap (store.mentioned root.path)).eraseDups := by
  rw [h.tracks.found, List.filterMap_flatMap]
  simp only [List.filterMap_map, Function.comp_def]
  rfl

/-- A file that is found is in the store, under a path in normal form. -/
lemma stored (h : Frontier store root done d) {f : SourceFile} (hf : f ∈ d.found) :
    Path.normalize f.path = f.path ∧ store.get? f.path = some f.content := by
  obtain ⟨n, hn⟩ := h.reached f hf
  exact hn.path_content

/-- No path is found twice, since the store has one file at each path. -/
private lemma nodup_paths (h : Frontier store root done d) : (d.found.map (·.path)).Nodup := by
  refine List.Nodup.map_on (fun f hf g hg hpath => ?_) ?_
  · have hcontent := (h.stored hf).2
    rw [hpath, (h.stored hg).2, Option.some_inj] at hcontent
    exact SourceFile.ext hpath hcontent.symm
  · rw [h.found_eq]
    exact nodup_eraseDups _

/-- The root and each file of the store are read once at most. -/
private lemma length_le (h : Frontier store root done d) :
    done.length + d.queue.length ≤ store.size + 1 := by
  have hsplit := congrArg List.length h.split
  have hsize := length_le_size h.nodup_paths fun f hf => h.stored hf
  simp only [List.length_cons, List.length_append] at hsplit
  omega

/-- What the files that were read refer to can be reached. -/
private lemma reached_of_mentioned (h : Frontier store root done d) {f g : SourceFile}
    (hf : f ∈ root :: d.found) (hg : g ∈ store.mentioned root.path f) :
    ∃ n, store.ReachedIn root n g := by
  obtain ⟨hrefers, -⟩ := mem_mentioned.1 hg
  rcases List.mem_cons.1 hf with rfl | hf
  · exact ⟨1, .direct hrefers⟩
  · obtain ⟨n, hn⟩ := h.reached f hf
    exact ⟨n + 1, .through hn (h.tracks.path_ne hf) hrefers⟩

/-- **Reading one file** follows all its references. It fails neither at the root nor at a file that
is no document.

**Proof sketch.** If the file is a document, its references are followed one by one; whatever is
found now is referred to by a file that was found before. If not, the file is not the root, and its
text is refused, so that it is passed over like a file without references. -/
theorem step (hroot : ∃ document, load root.content (some root.path) = .ok document)
    (hload : Readable store root) (h : Frontier store root done d) {f : SourceFile}
    {queue : List SourceFile} (hqueue : d.queue = f :: queue) :
    ∃ d', Discovery.step store root.path f { d with queue := queue } = .ok d' ∧
      Frontier store root (done ++ [f]) d' := by
  have htracks : Tracks store root (done.flatMap fun f => f.references.map (f, ·))
      { d with queue := queue } := ⟨h.tracks.http, h.tracks.files, h.tracks.visited, h.tracks.found⟩
  have hsplit : root :: d.found = (done ++ [f]) ++ queue := by rw [h.split, hqueue]; simp
  have hf : f ∈ root :: d.found := by rw [hsplit]; simp
  unfold Discovery.step
  cases hread : load f.content (some f.path) with
  | ok document =>
    obtain ⟨htracks', hsplit'⟩ := htracks.foldl f (done ++ [f]) f.references hsplit
    have hseen : (done.flatMap fun f => f.references.map (f, ·)) ++ f.references.map (f, ·) =
        (done ++ [f]).flatMap fun f => f.references.map (f, ·) := by simp
    rw [hseen] at htracks'
    rw [SourceFile.references_of_ok hread] at htracks' hsplit'
    refine ⟨_, rfl, htracks', hsplit', fun g hg => ?_⟩
    rw [htracks'.found, List.mem_eraseDups, List.mem_filterMap] at hg
    obtain ⟨⟨f', reference⟩, hseen, hmentioned⟩ := hg
    obtain ⟨_, hf', hpair⟩ := List.mem_flatMap.1 hseen
    obtain ⟨_, hreference, heq⟩ := List.mem_map.1 hpair
    cases heq
    refine h.reached_of_mentioned ?_ (List.mem_filterMap.2 ⟨reference, hreference, hmentioned⟩)
    exact hsplit ▸ List.mem_append_left queue hf'
  | error e =>
    rcases List.mem_cons.1 hf with rfl | hf
    · obtain ⟨document, hdocument⟩ := hroot
      rw [hread] at hdocument
      cases hdocument
    · obtain ⟨n, hn⟩ := h.reached f hf
      obtain ⟨refusal, rfl⟩ := hload f n hn (h.tracks.path_ne hf) e hread
      have hpath : f.path ≠ root.path := by
        intro hpath
        refine h.tracks.path_ne hf ?_
        rw [← hpath, hn.path_content.1]
      refine ⟨_, if_neg hpath, ?_, hsplit, h.reached⟩
      simpa [SourceFile.references_of_error hread] using htracks

/-- **Discovery reads everything that it finds**, and more steps than there are files change
nothing.

**Proof sketch.** Induction on the number of files that may still be read: with every step, one more
file was read, and no more files can be read than there are. -/
theorem run (hroot : ∃ document, load root.content (some root.path) = .ok document)
    (hload : Readable store root) (h : Frontier store root done d) :
    ∃ d', (∀ n, store.size + 1 ≤ n + done.length →
        Discovery.run store root.path n d = .ok d') ∧ d'.queue = [] ∧
      Frontier store root (root :: d'.found) d' := by
  generalize hk : store.size + 1 - done.length = k
  induction k generalizing done d with
  | zero =>
    have hlength := h.length_le
    have hempty : d.queue = [] := List.eq_nil_of_length_eq_zero (by omega)
    have hdone : root :: d.found = done := by rw [h.split, hempty, List.append_nil]
    refine ⟨d, fun n _ => ?_, hempty, hdone ▸ h⟩
    cases n with
    | zero => rfl
    | succ n => rw [Discovery.run, hempty]
  | succ k ih =>
    cases hqueue : d.queue with
    | nil =>
      have hdone : root :: d.found = done := by rw [h.split, hqueue, List.append_nil]
      refine ⟨d, fun n _ => ?_, hqueue, hdone ▸ h⟩
      cases n with
      | zero => rfl
      | succ n => rw [Discovery.run, hqueue]
    | cons f queue =>
      obtain ⟨d₁, hstep, h₁⟩ := h.step hroot hload hqueue
      obtain ⟨d', hrun, hend⟩ := ih h₁ (by rw [List.length_append, List.length_singleton]; omega)
      refine ⟨d', fun n hn => ?_, hend⟩
      obtain ⟨m, rfl⟩ : ∃ m, n = m + 1 := ⟨n - 1, by omega⟩
      rw [Discovery.run, hqueue]
      show (Discovery.step store root.path f _ >>= _) = _
      rw [hstep]
      exact hrun m (by rw [List.length_append, List.length_singleton]; omega)

end Frontier

/-! ## Everything that can be reached -/

/-- What discovery finds if nothing is left to be read. -/
structure Exact (store : SourceStore) (root : SourceFile) (d : Discovery) : Prop where
  /-- All files that were found have been read. -/
  queue : d.queue = []
  /-- The files that were found are those that can be reached and do not have the path of the
  root. -/
  mem_found : ∀ f, f ∈ d.found ↔
    f.path ≠ Path.normalize root.path ∧ ∃ n, store.ReachedIn root n f
  /-- No path occurs twice. -/
  nodup : (d.found.map (·.path)).Nodup
  /-- The files have paths in normal form and are those of the store. -/
  stored : ∀ f ∈ d.found, Path.normalize f.path = f.path ∧ store.get? f.path = some f.content
  /-- The files stand in the order in which the root and they themselves mention them first. -/
  found_eq : d.found = ((root :: d.found).flatMap (store.mentioned root.path)).eraseDups
  /-- A file that stands before another one is reached by no more references. -/
  breadth_first : d.found.Pairwise fun f g =>
    ∀ n, store.ReachedIn root n g → ∃ m ≤ n, store.ReachedIn root m f
  /-- There is an address of the web among the references of the root and of these files. -/
  http : d.hasHttpImports = true ↔
    ∃ f ∈ root :: d.found, ∃ reference ∈ f.references, Reference.isUrl reference = true
  /-- There is another reference among them. -/
  files : d.hasLocalImports = true ↔
    ∃ f ∈ root :: d.found, ∃ reference ∈ f.references, Reference.isUrl reference = false

/-- A test finds one of the references of some files if it finds one in a single file. -/
private lemma any_references (q : String → Bool) (files : List SourceFile) :
    (files.flatMap fun f => f.references.map (f, ·)).any (fun m => q m.2) = true ↔
      ∃ f ∈ files, ∃ reference ∈ f.references, q reference = true := by
  simp only [List.any_eq_true, List.mem_flatMap, List.mem_map]
  constructor
  · rintro ⟨_, ⟨f, hf, reference, hreference, rfl⟩, hq⟩
    exact ⟨f, hf, reference, hreference, hq⟩
  · rintro ⟨f, hf, reference, hreference, hq⟩
    exact ⟨_, ⟨f, hf, reference, hreference, rfl⟩, hq⟩

section Reached

variable (h : Frontier store root (root :: d.found) d)

include h

/-- What a file refers to that was read has been found. -/
private lemma mem_found_of_refers {f g : SourceFile} (hf : f ∈ root :: d.found)
    (hrefers : store.Refers f g) (hpath : g.path ≠ Path.normalize root.path) : g ∈ d.found := by
  rw [h.found_eq, List.mem_eraseDups, List.mem_flatMap]
  exact ⟨f, hf, mem_mentioned.2 ⟨hrefers, hpath⟩⟩

/-- If all files that were found have been read, everything that can be reached was found. -/
private lemma mem_found_of_reachedIn {f : SourceFile} {n : Nat} (hf : store.ReachedIn root n f)
    (hpath : f.path ≠ Path.normalize root.path) : f ∈ d.found := by
  induction hf with
  | direct hrefers => exact mem_found_of_refers h List.mem_cons_self hrefers hpath
  | through _ hpath' hrefers ih =>
    exact mem_found_of_refers h (List.mem_cons_of_mem _ (ih hpath')) hrefers hpath

/-- A file that was found before another one is reached by no more references.

**Proof sketch.** Induction on the chain of references to the later file `g`, the last of which is
that of a file `f'`. The earlier file `f` was mentioned no later than `g`, so that it was mentioned
by the root, by `f'`, or by a file that was found before `f'`; to the latter the hypothesis of the
induction applies. -/
private lemma exists_reachedIn_of_sublist {f g : SourceFile} {n : Nat}
    (hg : store.ReachedIn root n g) (hfg : List.Sublist [f, g] d.found) :
    ∃ m ≤ n, store.ReachedIn root m f := by
  induction hg generalizing f with
  | @direct g hrefers =>
    have hg := h.tracks.path_ne (hfg.subset (show g ∈ [f, g] by simp))
    rw [h.found_eq, List.flatMap_cons] at hfg
    have hf := mem_of_sublist_eraseDups hfg (mem_mentioned.2 ⟨hrefers, hg⟩)
    exact ⟨1, le_rfl, .direct (mem_mentioned.1 hf).1⟩
  | @through n f' g hf' hpath hrefers ih =>
    have hg := h.tracks.path_ne (hfg.subset (show g ∈ [f, g] by simp))
    obtain ⟨before, after, hsplit⟩ := List.append_of_mem (mem_found_of_reachedIn h hf' hpath)
    have hcut : root :: d.found = (root :: before ++ [f']) ++ after := by rw [hsplit]; simp
    rw [h.found_eq, hcut, List.flatMap_append] at hfg
    have hf := mem_of_sublist_eraseDups hfg
      (List.mem_flatMap.2 ⟨f', by simp, mem_mentioned.2 ⟨hrefers, hg⟩⟩)
    obtain ⟨a, ha, hfa⟩ := List.mem_flatMap.1 hf
    have hrefers' := (mem_mentioned.1 hfa).1
    rcases List.mem_append.1 ha with ha | ha
    · rcases List.mem_cons.1 ha with rfl | ha
      · exact ⟨1, by omega, .direct hrefers'⟩
      · have hsub : List.Sublist [a, f'] d.found := by
          rw [hsplit]
          exact (List.singleton_sublist.2 ha).append (List.singleton_sublist.2 List.mem_cons_self)
        obtain ⟨m, hm, hreached⟩ := ih hsub
        have ha' := h.tracks.path_ne (hsub.subset (show a ∈ [a, f'] by simp))
        exact ⟨m + 1, by omega, .through hreached ha' hrefers'⟩
    · obtain rfl := List.mem_singleton.1 ha
      exact ⟨n + 1, le_rfl, .through hf' hpath hrefers'⟩

/-- When every file has been read, discovery has found exactly what can be reached. -/
private lemma exact_of_frontier (hqueue : d.queue = []) : Exact store root d where
  queue := hqueue
  mem_found := fun f => ⟨fun hf => ⟨h.tracks.path_ne hf, h.reached f hf⟩,
    fun ⟨hpath, _, hn⟩ => mem_found_of_reachedIn h hn hpath⟩
  nodup := h.nodup_paths
  stored := fun f hf => h.stored hf
  found_eq := h.found_eq
  breadth_first := List.pairwise_iff_forall_sublist.2 fun hfg n hn =>
    exists_reachedIn_of_sublist h hn hfg
  http := by rw [h.tracks.http, any_references]
  files := by
    rw [h.tracks.files, any_references (fun reference => !Reference.isUrl reference)]
    simp only [Bool.not_eq_eq_eq_not, Bool.not_true]

end Reached

end Discovery

/-- **Discovery finds exactly the files that can be reached**, if the root is a document and the
texts of the other files are documents or refused. It ends, however many steps it may take beyond
one for the root and one for each file of the store; and it finds the files in breadth-first order.

**Proof sketch.** Reading one file keeps the frontier, and when all files that were found have been
read, the frontier encloses everything that can be reached. -/
theorem discover_exact (root : SourceFile) (store : SourceStore)
    (hroot : ∃ document, load root.content (some root.path) = .ok document)
    (hload : Discovery.Readable store root) :
    ∃ d, discover root store = .ok d ∧
      (∀ n, store.size + 1 ≤ n → Discovery.run store root.path n
        { visited := [Path.normalize root.path], queue := [root] } = .ok d) ∧
      Discovery.Exact store root d := by
  obtain ⟨d, hrun, hqueue, hfrontier⟩ := (Discovery.frontier_start store root).run hroot hload
  refine ⟨d, hrun _ le_rfl, fun n hn => hrun n (by simpa using hn), ?_⟩
  exact Discovery.exact_of_frontier hfrontier hqueue

/-- A file that refers to `ringTool`. -/
def ringRoot : SourceFile := ⟨"/main", "run: tool"⟩

/-- A file that refers to `ringRoot` and `ringText`. -/
def ringTool : SourceFile := ⟨"/tool", "[run: main, run: text]"⟩

/-- A file that is no document. -/
def ringText : SourceFile := ⟨"/text", "]"⟩

/-- Two files that refer to each other, and a third one that is no document. -/
def ring : SourceStore := .ofFiles [ringRoot, ringTool, ringText]

/-- The root refers to the tool. -/
private lemma load_ringRoot : load ringRoot.content (some ringRoot.path) =
    .ok (.map [(.str "run", .str "tool")]) := by
  cbv

/-- The tool refers back to the root, and to a text. -/
private lemma load_ringTool : load ringTool.content (some ringTool.path) =
    .ok (.list [.map [(.str "run", .str "main")], .map [(.str "run", .str "text")]]) := by
  cbv

/-- The text is no document. -/
lemma load_ringText : load ringText.content (some ringText.path) =
    .error (.refuse (.unreadable .notYaml) (some "/text")) := by
  cbv

/-- The root and the tool can be read, and the text refers to nothing. -/
private lemma readable_ring : Discovery.Readable ring ringRoot := by
  intro f n hf _ e he
  have hmem : (f.path, f.content) ∈ [(ringRoot.path, ringRoot.content),
      (ringTool.path, ringTool.content), (ringText.path, ringText.content)] := hf.mem_table
  simp only [List.mem_cons, Prod.mk.injEq, List.not_mem_nil, or_false] at hmem
  rcases hmem with ⟨hpath, hcontent⟩ | ⟨hpath, hcontent⟩ | ⟨hpath, hcontent⟩
  · rw [hpath, hcontent, load_ringRoot] at he
    cases he
  · rw [hpath, hcontent, load_ringTool] at he
    cases he
  · rw [hpath, hcontent, load_ringText] at he
    cases he
    exact ⟨_, rfl⟩

/-- The text is reached in two steps. -/
private lemma reachedIn_ringText : ring.ReachedIn ringRoot 2 ringText := by
  have htool : ring.Refers ringRoot ringTool := by
    refine ⟨"tool", ?_, by decide, by decide⟩
    rw [SourceFile.references_of_ok load_ringRoot]
    decide
  have htext : ring.Refers ringTool ringText := by
    refine ⟨"text", ?_, by decide, by decide⟩
    rw [SourceFile.references_of_ok load_ringTool]
    decide
  exact .through (.direct htool) (by decide) htext

/-- The file that is no document is found, and the root is not. -/
theorem ring_discover_exact :
    (∃ document, load ringRoot.content (some ringRoot.path) = .ok document) ∧
      Discovery.Readable ring ringRoot ∧
      ∃ d, discover ringRoot ring = .ok d ∧ Discovery.Exact ring ringRoot d ∧
        ringText ∈ d.found ∧ ringRoot ∉ d.found := by
  obtain ⟨d, hd, -, hexact⟩ := discover_exact ringRoot ring ⟨_, load_ringRoot⟩ readable_ring
  refine ⟨⟨_, load_ringRoot⟩, readable_ring, d, hd, hexact, ?_, fun hmem => ?_⟩
  · exact (hexact.mem_found _).2 ⟨by decide, 2, reachedIn_ringText⟩
  · exact ((hexact.mem_found _).1 hmem).1 (by decide)

end CwlDescriptor
