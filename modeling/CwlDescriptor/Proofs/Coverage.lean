import CwlDescriptor.Proofs.Discovery
import CwlDescriptor.Proofs.Expansion.References
set_option autoImplicit false

/-!
# Discovery covers expansion

Discovery reads the references of a file off its document as it is written, and an expansion follows
these references and those that it brings about. So every file that an expansion finds has been
discovered if and only if the latter lead to no other files.

The root is a special case. Discovery does not look up its path, so that the store may have another
file there, to which the expansion may come.

## Main definitions

* `Discovery.Knows`: the paths of the root and of the files that were discovered.
* `Expander.Foreseen`: what an expansion brings about leads to files that were discovered.
* `Expander.Misses`: an expansion finds a file that has not been discovered.

## Main results

* `discover_covers`: discovery finds every file that an expansion finds if and only if what is
  brought about is foreseen.
* `discover_misses`: it may miss files, for three reasons.
-/

namespace CwlDescriptor

open Expansion Expander

/-! ## What discovery knows -/

/-- A text is loaded as a document under any path. -/
private lemma load_of_yaml {text : String} {n : Node} (h : Yaml.load text.toList = .ok n)
    (path : Option String) : load text path = .ok n := by
  rw [load, h]
  rfl

/-- The document of a text does not depend on its path. -/
private lemma load_of_load {text : String} {path : Option String} {n : Node}
    (h : load text path = .ok n) (path' : Option String) : load text path' = .ok n := by
  cases hyaml : Yaml.load text.toList with
  | error e =>
    rw [load, hyaml] at h
    cases h
  | ok n' =>
    rw [load_of_yaml hyaml] at h
    rw [load_of_yaml hyaml, h]

/-- A path is that of the root or of a file that was discovered. -/
def Discovery.Knows (d : Discovery) (root : SourceFile) (path : String) : Prop :=
  path = Path.normalize root.path ∨ ∃ content, ⟨path, content⟩ ∈ d.found

/-- No reference of a file begins like an address of the web. -/
def SourceFile.Local (f : SourceFile) : Prop :=
  ∀ reference ∈ f.references, Reference.dropScheme? reference.toList = none

/-- Every reference names the same path from two places. -/
def Reference.SamePlace (path path' : String) : Prop :=
  ∀ reference, target? reference path = target? reference path'

/-- The store has the root itself at its path: a file with the same text, in which references name
the same paths, although the path of the root need not be in normal form. -/
def SourceFile.IsStoredAs (root : SourceFile) (content : String) : Prop :=
  content = root.content ∧ Reference.SamePlace (Path.normalize root.path) root.path

/-- The beginning of the expansion of a root. -/
def Expander.opening (x : Expander) (root : SourceFile) (document : Node) : Opening :=
  ⟨x.limits.maxFiles, .root root.path, document, {}⟩

/-- What the expansion of a root brings about is foreseen. -/
structure Expander.Foreseen (x : Expander) (root : SourceFile) (document : Node) (d : Discovery) :
    Prop where
  /-- A reference that the expansion comes to in a document, and that is not written in this
  document, leads to no other files than those that were discovered. -/
  unwritten : ∀ o p, x.Opens (x.opening root document) o → o.Pursues x p →
    p.reference ∉ o.document.references → x.Leads (d.Knows root) p.frame.path p.reference
  /-- If the file of the store at the path of the root is another one, then all references that the
  expansion comes to in this file lead to no other files than those that were discovered. -/
  root : ∀ content, x.store.get? root.path = some content → ¬ root.IsStoredAs content →
    ∀ o p, x.Opens (x.opening root document) o → o.frame.path = Path.normalize root.path →
      o.Pursues x p → x.Leads (d.Knows root) p.frame.path p.reference

section Knows

variable {x : Expander} {root : SourceFile} {d : Discovery}
  (hexact : Discovery.Exact x.store root d)

include hexact

/-- What is written in a file that was discovered leads to files that were discovered. -/
private lemma leads_of_written {f : SourceFile} (hf : f ∈ root :: d.found) (hlocal : f.Local)
    {reference : String} (hmem : reference ∈ f.references) :
    x.Leads (d.Knows root) f.path reference := by
  intro target htarget hfound
  obtain ⟨content, hget⟩ := Option.isSome_iff_exists.1 hfound
  have heq : f.target reference = target := by
    unfold Reference.target? at htarget
    split at htarget
    · cases htarget
    · exact Option.some_inj.1 htarget
  subst heq
  have hnormal : Path.normalize (f.target reference) = f.target reference :=
    Path.normalize_resolve _ _
  have hrefers : x.store.Refers f ⟨f.target reference, content⟩ := by
    refine ⟨reference, hmem, ?_, ?_⟩
    · unfold Reference.isUrl
      rw [hlocal reference hmem]
    · unfold SourceStore.file?
      rw [hget, hnormal]
      rfl
  by_cases hroot : f.target reference = Path.normalize root.path
  · exact .inl hroot
  · refine .inr ⟨content, (hexact.mem_found _).2 ⟨hroot, ?_⟩⟩
    rcases List.mem_cons.1 hf with rfl | hf
    · exact ⟨1, .direct hrefers⟩
    · obtain ⟨hpath, n, hn⟩ := (hexact.mem_found f).1 hf
      exact ⟨n + 1, .through hn hpath hrefers⟩

/-- What is written in a file of the store that is known leads to files that were discovered, unless
the file is another one than the root at the path of the root. -/
private lemma leads_of_known
    (hlocal : ∀ f : SourceFile, f = root ∨ x.store.get? f.path = some f.content → f.Local)
    {path content reference : String} {document : Node} (hknown : d.Knows root path)
    (hget : x.store.get? path = some content)
    (hdocument : load content (some path) = .ok document)
    (hroot : path = Path.normalize root.path → root.IsStoredAs content)
    (hmem : reference ∈ document.references) : x.Leads (d.Knows root) path reference := by
  rcases hknown with hpath | ⟨content', hfound⟩
  · obtain ⟨rfl, hplace⟩ := hroot hpath
    have hreferences := SourceFile.references_of_ok (load_of_load hdocument (some root.path))
    have hleads := leads_of_written hexact List.mem_cons_self (hlocal root (.inl rfl))
      (hreferences ▸ hmem)
    unfold Leads
    rw [hpath, hplace reference]
    exact hleads
  · have hcontent := (hexact.stored _ hfound).2
    cases hget.symm.trans hcontent
    refine leads_of_written hexact (List.mem_cons_of_mem _ hfound) (hlocal _ (.inr hget)) ?_
    rwa [SourceFile.references_of_ok hdocument]

section Foreseen

variable (hread : x.read = load)
  (hlocal : ∀ f : SourceFile, f = root ∨ x.store.get? f.path = some f.content → f.Local)
  {document : Node} (hload : load root.content (some root.path) = .ok document)
  (hforeseen : x.Foreseen root document d)

include hlocal hload hforeseen

/-- What is pursued in the root or in a known file leads to files that were discovered. -/
private lemma leads_of_pursues {o : Opening} {p : Pursuit}
    (hopens : x.Opens (x.opening root document) o)
    (hknown : o = x.opening root document ∨ ∃ content, x.store.get? o.frame.path = some content ∧
      load content (some o.frame.path) = .ok o.document ∧ d.Knows root o.frame.path)
    (hpursues : o.Pursues x p) : x.Leads (d.Knows root) p.frame.path p.reference := by
  by_cases hmem : p.reference ∈ o.document.references
  · have hpath : p.frame.path = o.frame.path := Pursues.path_eq hpursues
    rcases hknown with rfl | ⟨content, hget, hdocument, hknows⟩
    · rw [hpath]
      refine leads_of_written hexact List.mem_cons_self (hlocal root (.inl rfl)) ?_
      rwa [SourceFile.references_of_ok hload]
    · by_cases hroot : o.frame.path = Path.normalize root.path → root.IsStoredAs content
      · rw [hpath]
        exact leads_of_known hexact hlocal hknows hget hdocument hroot hmem
      · obtain ⟨hplace, hnot⟩ := Classical.not_imp.1 hroot
        rw [hplace, SourceStore.get?_normalize] at hget
        exact hforeseen.root content hget hnot o p hopens hplace hpursues
  · exact hforeseen.unwritten o p hopens hpursues hmem

include hread

/-- **An expansion opens the root and known files only**, if what it brings about is foreseen.

**Proof sketch.** Induction on the documents that are opened: a file is opened for a reference that
is pursued in the root or in a known file. -/
private lemma known_of_opens {o : Opening} (h : x.Opens (x.opening root document) o) :
    o = x.opening root document ∨ ∃ content, x.store.get? o.frame.path = some content ∧
      load content (some o.frame.path) = .ok o.document ∧ d.Knows root o.frame.path := by
  induction h with
  | first => exact .inl rfl
  | file hopens hpursues htarget hloaded hdocument ih =>
    have hget := (loadFile_eq_ok hloaded).1
    rw [hread] at hdocument
    refine .inr ⟨_, hget.symm, hdocument, ?_⟩
    exact leads_of_pursues hexact hlocal hload hforeseen hopens ih hpursues _ htarget
      (Option.isSome_of_eq_some hget.symm)

end Foreseen

end Knows

/-- **Discovery covers expansion.** Suppose that the root and all files of the store can be read and
that none of their references begins like an address of the web. If the root is expanded, then
discovery succeeds; and every file that the expansion finds has been discovered or has the path of
the root if and only if what the expansion brings about is foreseen. This is the text of a file that
is included as the value of `run`, or a reference in the values that a map gets from a mixin.

**Proof sketch.** The expansion finds known files only if and only if all references that it reaches
lead to known files. Those that are written in the root or in a known file do, since discovery has
followed them, and the others are foreseen. So no other file is opened. -/
theorem discover_covers (x : Expander) (hread : x.read = load) (root : SourceFile)
    (hreadable : ∀ path content, x.store.get? path = some content →
      ∃ n, load content (some path) = .ok n)
    (hlocal : ∀ f : SourceFile, f = root ∨ x.store.get? f.path = some f.content → f.Local)
    {document r : Node} {t : ExpansionState}
    (hload : load root.content (some root.path) = .ok document)
    (h : x.expand (.root root.path) document {} = .ok r t) :
    ∃ d, discover root x.store = .ok d ∧
      ((∀ request ∈ t.requests, ∀ path content, request.path = some path →
          x.store.get? path = some content →
            path = Path.normalize root.path ∨ ⟨path, content⟩ ∈ d.found) ↔
        x.Foreseen root document d) ∧
      ∀ o p, x.Opens (x.opening root document) o → o.Pursues x p →
        p.reference ∈ o.document.references ∨
          x.BringsAbout (x.Reaches (x.opening root document)) o.frame o.document p.reference := by
  have hsettled : Discovery.Readable x.store root := by
    intro f n hf _ e he
    obtain ⟨document, hdocument⟩ := hreadable _ _ hf.path_content.2
    rw [hdocument] at he
    cases he
  obtain ⟨d, hd, -, hexact⟩ := discover_exact root x.store ⟨document, hload⟩ hsettled
  have hexpands : Expands x (x.opening root document).levels .whole (.root root.path) document {}
      r t := expands_iff.2 h
  have hcovers : x.Covers (d.Knows root) {} t ↔
      ∀ p, x.Reaches (x.opening root document) p →
        x.Leads (d.Knows root) p.frame.path p.reference :=
    covers_iff rfl hexpands
  refine ⟨d, hd, ⟨fun hknown => ?_, fun hforeseen => ?_⟩, fun o p hopens hpursues => ?_⟩
  · have hleads := hcovers.1 ⟨t.requests, rfl, fun request hmem path hpath hfound => by
      obtain ⟨content, hget⟩ := Option.isSome_iff_exists.1 hfound
      exact (hknown request hmem path content hpath hget).imp_right fun hmem => ⟨content, hmem⟩⟩
    exact ⟨fun o p hopens hpursues _ => hleads p ⟨o, hopens, hpursues⟩,
      fun _ _ _ o p hopens _ hpursues => hleads p ⟨o, hopens, hpursues⟩⟩
  · intro request hrequest path content hpath hget
    obtain ⟨requests, hrequests, hknown⟩ := hcovers.2 fun p ⟨o, hopens, hpursues⟩ =>
      leads_of_pursues hexact hlocal hload hforeseen hopens
        (known_of_opens hexact hread hlocal hload hforeseen hopens) hpursues
    rw [hrequests] at hrequest
    rcases hknown request hrequest path hpath (Option.isSome_of_eq_some hget) with
      hroot | ⟨content', hmem⟩
    · exact .inl hroot
    · have hcontent := (hexact.stored _ hmem).2
      cases hget.symm.trans hcontent
      exact .inr hmem
  · exact (Pursues.follows hpursues fun p hp => ⟨o, hopens, hp⟩ :
      x.Follows _ o.frame o.document p.reference).written_or_broughtAbout

/-! ## Files that are foreseen, and files that are missed -/

/-- Reading one file that is a document. -/
lemma Discovery.run_cons {store : SourceStore} {root : String} {n : Nat} {d : Discovery}
    (f : SourceFile) {queue : List SourceFile} {document : Node} (hqueue : d.queue = f :: queue)
    (hload : load f.content (some f.path) = .ok document) :
    Discovery.run store root (n + 1) d = Discovery.run store root n
      (document.references.foldl (follow store f.path) { d with queue := queue }) := by
  rw [run, hqueue]
  show (step store root f _ >>= _) = _
  rw [step, hload]
  rfl

/-- Discovery goes on with the files that the root refers to. -/
private lemma discover_of_load {store : SourceStore} {root : SourceFile} {document : Node}
    {d : Discovery} (hload : load root.content (some root.path) = .ok document)
    (hfollow : document.references.foldl (Discovery.follow store root.path)
      { visited := [Path.normalize root.path], queue := [] } = d) :
    discover root store = Discovery.run store root.path store.size d := by
  rw [discover, Discovery.run_cons root rfl hload, ← hfollow]

/-- A text is that of a document, and no reference in it begins like an address of the web. -/
def IsLocalText (text : String) : Prop :=
  ∃ n, Yaml.load text.toList = .ok n ∧
    ∀ reference ∈ n.references, Reference.dropScheme? reference.toList = none

/-- If all texts are local, all files can be read, and all of them are local. -/
private lemma readable_of_local {store : SourceStore} (root : SourceFile)
    (hroot : IsLocalText root.content) (hstore : ∀ e ∈ store.table, IsLocalText e.2) :
    (∀ path content, store.get? path = some content →
      ∃ n, load content (some path) = .ok n) ∧
    ∀ f : SourceFile, f = root ∨ store.get? f.path = some f.content → f.Local := by
  have hget (path content : String) (h : store.get? path = some content) : IsLocalText content :=
    hstore _ (Table.mem_of_get? h)
  refine ⟨fun path content h => ?_, fun f hf => ?_⟩
  · obtain ⟨n, hn, -⟩ := hget path content h
    exact ⟨n, load_of_yaml hn _⟩
  · have htext : IsLocalText f.content := hf.elim (fun h => h ▸ hroot) (hget _ _)
    obtain ⟨n, hn, hlocal⟩ := htext
    intro reference hmem
    rw [SourceFile.references_of_ok (load_of_yaml hn _)] at hmem
    exact hlocal reference hmem

/-! ### A text that is brought about, and is written in the root, too -/

/-- A repository with a file that holds the name of another one. -/
def includer : Expander where
  store := .ofFiles [⟨"/name", "tool"⟩, ⟨"/tool", "[]"⟩]
  limits := {}
  newId n := toString n

/-- A map whose value of `run` is included. -/
def includedRun : Node := .map [(.str "run", .map [(.str "$include", .str "name")])]

/-- The text of a file that holds a name. -/
private lemma load_name : Yaml.load "tool".toList = .ok (.str "tool") := by
  cbv

/-- The text of a file that holds an empty list. -/
private lemma load_emptyList : Yaml.load "[]".toList = .ok (.list []) := by
  cbv

/-- All files of the repository are local. -/
private lemma isLocalText_includer : ∀ e ∈ includer.store.table, IsLocalText e.2 := by
  have htable : includer.store.table = [("/name", "tool"), ("/tool", "[]")] := rfl
  rw [htable, List.forall_mem_cons, List.forall_mem_singleton]
  exact ⟨⟨_, load_name, nofun⟩, _, load_emptyList, nofun⟩

/-- A map with a reference at `run`. -/
def runOf (reference : String) : Entries := [(.str "run", .str reference)]

/-- A file that includes a name as the value of `run`, and holds the same name itself. -/
def listingRoot : SourceFile := ⟨"/main", "[{run: {$include: name}}, {run: tool}]"⟩

/-- The document of the file. -/
def listing : Node := .list [includedRun, .map (runOf "tool")]

/-- The text of the list is read as the list. -/
private lemma load_listingRoot : Yaml.load listingRoot.content.toList = .ok listing := by
  cbv

/-- The only text that is brought about is that of the included file. -/
private lemma eq_of_broughtAbout_listing {pursued : Pursuit → Prop} {frame : Frame}
    {reference : String} (h : includer.BringsAbout pursued frame listing reference) :
    reference = includer.includedText frame.path "name" := by
  cases h with
  | item hmem h =>
    rcases List.mem_cons.1 hmem with rfl | hmem
    · cases h with
      | value _ _ _ hmem h =>
        cases List.mem_singleton.1 hmem
        cases h with
        | value _ hinclude => cases hinclude
        | runIncluded _ hinclude => cases hinclude
        | added _ hmixes => cases hmixes.including
      | runIncluded _ _ hmem _ hinclude =>
        cases List.mem_singleton.1 hmem
        cases hinclude
        rfl
      | added _ hmixes => cases hmixes.mixing
    · cases List.mem_singleton.1 hmem
      cases h with
      | value _ _ _ hmem h =>
        cases List.mem_singleton.1 hmem
        cases h
      | runIncluded _ _ hmem => cases List.mem_singleton.1 hmem
      | added _ hmixes => cases hmixes.mixing

/-- What has been discovered from the list. -/
def listingFound : Discovery where
  found := [⟨"/name", "tool"⟩, ⟨"/tool", "[]"⟩]
  hasLocalImports := true
  visited := ["/main", "/name", "/tool"]
  queue := []

/-- Discovery finds both files from the list. -/
private lemma discover_listing : discover listingRoot includer.store = .ok listingFound := by
  have hroot : load listingRoot.content (some listingRoot.path) = .ok listing :=
    load_of_yaml load_listingRoot _
  have hname : load "tool" (some "/name") = .ok (.str "tool") := load_of_yaml load_name _
  have hfollow : listing.references.foldl (Discovery.follow includer.store "/main")
      { visited := ["/main"], queue := [] } =
        { listingFound with queue := [⟨"/name", "tool"⟩, ⟨"/tool", "[]"⟩] } := by decide
  rw [discover_of_load hroot hfollow]
  show Discovery.run _ _ (1 + 1) _ = _
  rw [Discovery.run_cons ⟨"/name", "tool"⟩ rfl hname]
  rfl

/-- Nothing is pursued in the files of the repository. -/
private lemma not_pursues_includer {content path : String} {document : Node}
    (hget : includer.store.get? path = some content)
    (hread : includer.read content (some path) = .ok document) {levels : Nat} {frame : Frame}
    {s : ExpansionState} {p : Pursuit} : ¬ Pursues includer levels .whole frame document s p := by
  have hmem : (Path.normalize path, content) ∈ [("/name", "tool"), ("/tool", "[]")] :=
    Table.mem_of_get? hget
  rw [show includer.read = load from rfl] at hread
  intro h
  simp only [List.mem_cons, Prod.mk.injEq, List.not_mem_nil, or_false] at hmem
  rcases hmem with ⟨-, rfl⟩ | ⟨-, rfl⟩
  · rw [load_of_yaml load_name] at hread
    cases hread
    cases h
  · rw [load_of_yaml load_emptyList] at hread
    cases hread
    cases h with
    | list _ h => cases h

/-- What is brought about in the list is foreseen, since the same name is written there. -/
private lemma foreseen_listing : includer.Foreseen listingRoot listing listingFound where
  unwritten := by
    intro o p hopens hpursues hmem
    rcases hopens.eq_or_stored with rfl | ⟨content, hget, hread⟩
    · have hfollows : includer.Follows (fun _ => True) (.root "/main") listing p.reference :=
        Pursues.follows hpursues fun _ _ => trivial
      have hpath : p.frame.path = "/main" := Pursues.path_eq hpursues
      rcases hfollows.written_or_broughtAbout with hwritten | hbrought
      · exact absurd hwritten hmem
      · rw [eq_of_broughtAbout_listing hbrought, hpath]
        intro target htarget _
        have htool : Reference.target? (includer.includedText "/main" "name") "/main" =
            some "/tool" := rfl
        cases htool.symm.trans htarget
        exact .inr ⟨"[]", by decide⟩
    · exact absurd hpursues (not_pursues_includer hget hread)
  root := nofun

/-- The file that is found by a text that was brought about has been discovered. -/
theorem includer_discover_covers :
    includer.read = load ∧
      (∀ path content, includer.store.get? path = some content →
        ∃ n, load content (some path) = .ok n) ∧
      (∀ f : SourceFile, f = listingRoot ∨ includer.store.get? f.path = some f.content → f.Local) ∧
      ∃ r t d, load listingRoot.content (some listingRoot.path) = .ok listing ∧
        includer.expand (.root listingRoot.path) listing {} = .ok r t ∧
        discover listingRoot includer.store = .ok d ∧ includer.Foreseen listingRoot listing d ∧
        ⟨some "/tool", true⟩ ∈ t.requests ∧ ⟨"/tool", "[]"⟩ ∈ d.found := by
  obtain ⟨hreadable, hlocal⟩ := readable_of_local listingRoot
    ⟨_, load_listingRoot, by decide⟩ isLocalText_includer
  have hroot : load listingRoot.content (some listingRoot.path) = .ok listing :=
    load_of_yaml load_listingRoot _
  obtain ⟨r, t, h, hrequests⟩ : ∃ r t, includer.expand (.root listingRoot.path) listing {} =
      .ok r t ∧ t.requests = [⟨some "/name", false⟩, ⟨some "/tool", true⟩, ⟨some "/tool", true⟩] :=
    ⟨_, _, rfl, rfl⟩
  have hrequest : ⟨some "/tool", true⟩ ∈ t.requests := by
    rw [hrequests]
    decide
  obtain ⟨d, hd, hcovers, -⟩ :=
    discover_covers includer rfl listingRoot hreadable hlocal hroot h
  obtain rfl : d = listingFound := Except.ok.inj (hd.symm.trans discover_listing)
  refine ⟨rfl, hreadable, hlocal, r, t, listingFound, hroot, h, hd, foreseen_listing, hrequest, ?_⟩
  exact (hcovers.2 foreseen_listing _ hrequest _ _ rfl rfl).resolve_left (by decide)

/-! ### The text of an included file -/

/-- The root and all files of the store can be read, none of their references begins like an address
of the web, and the root is expanded; and yet the expansion finds a file that has not been
discovered. -/
structure Expander.Misses (x : Expander) (root : SourceFile) : Prop where
  read : x.read = load
  readable : ∀ path content, x.store.get? path = some content →
    ∃ n, load content (some path) = .ok n
  web : ∀ f : SourceFile, f = root ∨ x.store.get? f.path = some f.content → f.Local
  missed : ∃ document r t d request path content,
    load root.content (some root.path) = .ok document ∧
    x.expand (.root root.path) document {} = .ok r t ∧ discover root x.store = .ok d ∧
    request ∈ t.requests ∧ request.path = some path ∧ x.store.get? path = some content ∧
    path ≠ Path.normalize root.path ∧ ⟨path, content⟩ ∉ d.found

/-- A file that includes the name as the value of `run`. -/
def includerRoot : SourceFile := ⟨"/main", "run: {$include: name}"⟩

/-- The text of the root is read as a map with an included run. -/
private lemma load_includerRoot : Yaml.load includerRoot.content.toList = .ok includedRun := by
  cbv

/-- What has been discovered from the file. -/
def includerFound : Discovery where
  found := [⟨"/name", "tool"⟩]
  hasLocalImports := true
  visited := ["/main", "/name"]
  queue := []

/-- Discovery from the root finds the included file only. -/
private lemma discover_includerRoot : discover includerRoot includer.store = .ok includerFound := by
  have hroot : load includerRoot.content (some includerRoot.path) = .ok includedRun :=
    load_of_yaml load_includerRoot _
  have hname : load "tool" (some "/name") = .ok (.str "tool") := load_of_yaml load_name _
  have hfollow : includedRun.references.foldl (Discovery.follow includer.store "/main")
      { visited := ["/main"], queue := [] } =
        { includerFound with queue := [⟨"/name", "tool"⟩] } := by decide
  rw [discover_of_load hroot hfollow]
  show Discovery.run _ _ (1 + 1) _ = _
  rw [Discovery.run_cons ⟨"/name", "tool"⟩ rfl hname]
  rfl

/-- The file that is named in the included one is missed. -/
private lemma includer_misses : includer.Misses includerRoot := by
  obtain ⟨hreadable, hlocal⟩ := readable_of_local includerRoot
    ⟨_, load_includerRoot, by decide⟩ isLocalText_includer
  have hroot : load includerRoot.content (some includerRoot.path) = .ok includedRun :=
    load_of_yaml load_includerRoot _
  obtain ⟨t, h, hrequests⟩ : ∃ t, includer.expand (.root "/main") includedRun {} =
      .ok (.map [(.str "run", .list [])]) t ∧
        t.requests = [⟨some "/name", false⟩, ⟨some "/tool", true⟩] := ⟨_, rfl, rfl⟩
  refine ⟨rfl, hreadable, hlocal, _, _, t, includerFound, ⟨some "/tool", true⟩, "/tool", "[]",
    hroot, h, discover_includerRoot, ?_, rfl, rfl, by decide, by decide⟩
  rw [hrequests]
  decide

/-! ### A value that comes from a mixin -/

/-- A repository with a file in a directory of its own, in which the value of `run` names no file,
and a file of this name in another directory. -/
def annex : Expander where
  store := .ofFiles [⟨"/sub/m", "run: x"⟩, ⟨"/x", "[]"⟩]
  limits := {}
  newId n := toString n

/-- A workflow with a mixin. -/
def annexRoot : SourceFile := ⟨"/main", "{class: Workflow, cwlVersion: v1.0, $mixin: sub/m}"⟩

/-- The document of the workflow. -/
def annexed : Entries :=
  [(.str "class", .str "Workflow"), (.str "cwlVersion", .str "v1.0"), (.str "$mixin", .str "sub/m")]

/-- The text of the root is read as a map with a mixin. -/
private lemma load_annexRoot : Yaml.load annexRoot.content.toList = .ok (.map annexed) := by
  cbv

/-- The text of the mixin is read as a map with a reference at `run`. -/
private lemma load_annexRun : Yaml.load "run: x".toList = .ok (.map (runOf "x")) := by
  cbv

/-- All files of the repository are local. -/
private lemma isLocalText_annex : ∀ e ∈ annex.store.table, IsLocalText e.2 := by
  have htable : annex.store.table = [("/sub/m", "run: x"), ("/x", "[]")] := rfl
  rw [htable, List.forall_mem_cons, List.forall_mem_singleton]
  exact ⟨⟨_, load_annexRun, by decide⟩, _, load_emptyList, nofun⟩

/-- The place inside the workflow. -/
def inAnnexed : Frame := ⟨"/main", some "v1.0", 0⟩

/-- The state in which the workflow has been entered. -/
def annexEntered : ExpansionState := { idPaths := [("0", "main")], idCount := 1 }

/-- The state in which the file of the mixin has been expanded. -/
def annexLoaded : ExpansionState where
  idPaths := [("0", "main")]
  idCount := 1
  fileCount := 2
  charCount := 6
  requests := [⟨some "/sub/m", true⟩, ⟨some "/sub/x", true⟩]

/-- The mixin is loaded, and its reference at `run` names no file there. -/
private lemma annex_loads :
    Loads annex 1000 inAnnexed "sub/m" annexEntered (some (.map (runOf "x"))) annexLoaded := by
  have hread : annex.read "run: x" (some "/sub/m") = .ok (.map (runOf "x")) := by
    rw [show annex.read = load from rfl]
    exact load_of_yaml load_annexRun _
  have hload : annex.loadFile true (some "/sub/m") annexEntered = .ok (some "run: x")
      { idPaths := [("0", "main")], idCount := 1, fileCount := 1, charCount := 6,
        requests := [⟨some "/sub/m", true⟩] } := rfl
  have htarget : Reference.target? "sub/m" inAnnexed.path = some "/sub/m" := rfl
  have hexpand : annex.expandWithin 999 .whole
      { inAnnexed with path := "/sub/m", depth := inAnnexed.depth + 1 } (.map (runOf "x"))
      { idPaths := [("0", "main")], idCount := 1, fileCount := 1, charCount := 6,
        requests := [⟨some "/sub/m", true⟩] } = .ok (.map (runOf "x")) annexLoaded := rfl
  exact .found htarget hload hread (expands_iff.2 hexpand)

/-- The expansion of the root finds the file that the reference names beside the root. -/
private lemma annex_expands : ∃ r t, annex.expand (.root "/main") (.map annexed) {} = .ok r t ∧
    ⟨some "/x", true⟩ ∈ t.requests := by
  have hcheck : annex.checkDepth (.root "/main") {} = .ok () {} := rfl
  have henter : annex.enter (.root "/main") annexed {} =
      .ok (some "0", inAnnexed) annexEntered := rfl
  obtain ⟨r, t, hrest, hrequests⟩ : ∃ r t, annex.expandWithin 999 .merged inAnnexed
      (.map [(.str "class", .str "Workflow"), (.str "cwlVersion", .str "v1.0"),
        (.str "id", .str "0"), (.str "run", .str "x")]) { annexLoaded with merges := 1 } =
      .ok r t ∧ t.requests = annexLoaded.requests ++ [⟨some "/x", true⟩] := ⟨_, _, rfl, rfl⟩
  have hdirect : Directs annex 1000 inAnnexed (withId annexed (some "0")) annexEntered
      (.merged [(.str "class", .str "Workflow"), (.str "cwlVersion", .str "v1.0"),
        (.str "id", .str "0"), (.str "run", .str "x")]) { annexLoaded with merges := 1 } :=
    .mixedMap ⟨rfl, rfl, rfl, rfl⟩ annex_loads
  refine ⟨r, t, expands_iff.1 (.mixed hcheck henter hdirect (expands_iff.2 hrest)), ?_⟩
  rw [hrequests]
  exact List.mem_append_right _ List.mem_cons_self

/-- What has been discovered from the workflow. -/
def annexFound : Discovery where
  found := [⟨"/sub/m", "run: x"⟩]
  hasLocalImports := true
  visited := ["/main", "/sub/m", "/sub/x"]
  queue := []

/-- Discovery from the root finds the file of the mixin only. -/
private lemma discover_annexRoot : discover annexRoot annex.store = .ok annexFound := by
  have hroot : load annexRoot.content (some annexRoot.path) = .ok (.map annexed) :=
    load_of_yaml load_annexRoot _
  have hmixin : load "run: x" (some "/sub/m") = .ok (.map (runOf "x")) :=
    load_of_yaml load_annexRun _
  have hfollow : (Node.map annexed).references.foldl (Discovery.follow annex.store "/main")
      { visited := ["/main"], queue := [] } =
        { annexFound with visited := ["/main", "/sub/m"], queue := [⟨"/sub/m", "run: x"⟩] } := by
    decide
  rw [discover_of_load hroot hfollow]
  show Discovery.run _ _ (1 + 1) _ = _
  rw [Discovery.run_cons ⟨"/sub/m", "run: x"⟩ rfl hmixin]
  rfl

/-- The file that the reference from the mixin names beside the root is missed. -/
private lemma annex_misses : annex.Misses annexRoot := by
  obtain ⟨hreadable, hlocal⟩ := readable_of_local annexRoot
    ⟨_, load_annexRoot, by decide⟩ isLocalText_annex
  have hroot : load annexRoot.content (some annexRoot.path) = .ok (.map annexed) :=
    load_of_yaml load_annexRoot _
  obtain ⟨r, t, h, hrequest⟩ := annex_expands
  exact ⟨rfl, hreadable, hlocal, _, r, t, annexFound, ⟨some "/x", true⟩, "/x", "[]", hroot, h,
    discover_annexRoot, hrequest, rfl, rfl, by decide, by decide⟩

/-! ### Another file at the path of the root -/

/-- A repository with a file at the path of the root that is not the root. -/
def namesake : Expander where
  store := .ofFiles [⟨"/main", "run: t"⟩, ⟨"/t", "[]"⟩]
  limits := {}
  newId n := toString n

/-- A file that names its own path. -/
def namesakeRoot : SourceFile := ⟨"/main", "run: main"⟩

/-- The text of the root is read as a map that runs its own path. -/
private lemma load_namesakeRoot :
    Yaml.load namesakeRoot.content.toList = .ok (.map (runOf "main")) := by
  cbv

/-- The text of the other file at this path is read as a map that runs a file. -/
private lemma load_namesake : Yaml.load "run: t".toList = .ok (.map (runOf "t")) := by
  cbv

/-- All files of the repository are local. -/
private lemma isLocalText_namesake : ∀ e ∈ namesake.store.table, IsLocalText e.2 := by
  have htable : namesake.store.table = [("/main", "run: t"), ("/t", "[]")] := rfl
  rw [htable, List.forall_mem_cons, List.forall_mem_singleton]
  exact ⟨⟨_, load_namesake, by decide⟩, _, load_emptyList, nofun⟩

/-- The expansion of the root finds the file that the other one names. -/
private lemma namesake_expands : ∃ r t,
    namesake.expand (.root "/main") (.map (runOf "main")) {} = .ok r t ∧
      ⟨some "/t", true⟩ ∈ t.requests := by
  have hcheck : namesake.checkDepth (.root "/main") {} = .ok () {} := rfl
  have henter : namesake.enter (.root "/main") (runOf "main") {} =
      .ok (none, .root "/main") {} := rfl
  have hdirect : Directs namesake 1000 (.root "/main") (withId (runOf "main") none) {}
      .unchanged {} := .inert ⟨rfl, rfl, .inl rfl⟩
  have hentries : ExpandsEntries namesake 1000 (.root "/main")
      ⟨none, Entries.importedRun? (runOf "main")⟩ (runOf "main" ++ []) {} (runOf "main") {} :=
    .value rfl (.leaf trivial hcheck) .nil
  have htarget : Reference.target? "main" (Frame.root "/main").path = some "/main" := rfl
  have hload : namesake.loadFile true (some "/main") {} = .ok (some "run: t")
      { fileCount := 1, charCount := 6, requests := [⟨some "/main", true⟩] } := rfl
  have hread : namesake.read "run: t" (some "/main") = .ok (.map (runOf "t")) := by
    rw [show namesake.read = load from rfl]
    exact load_of_yaml load_namesake _
  obtain ⟨r, t, hexpand, hrequests⟩ : ∃ r t, namesake.expandWithin 999 .whole
      ⟨"/main", none, 1⟩ (.map (runOf "t"))
      { fileCount := 1, charCount := 6, requests := [⟨some "/main", true⟩] } = .ok (.map r) t ∧
        t.requests = [⟨some "/main", true⟩, ⟨some "/t", true⟩] := ⟨_, _, rfl, rfl⟩
  have hloads : Loads namesake 1000 (.root "/main") "main" {} (some (.map r)) t :=
    .found htarget hload hread (expands_iff.2 hexpand)
  have hrun : ExpandsRun namesake 1000 (.root "/main") (runOf "main") {}
      (Entries.set (runOf "main") "run" (.map r)) t := .loaded rfl hloads
  refine ⟨_, t, expands_iff.1 (.unchanged hcheck henter hdirect hentries hrun), ?_⟩
  rw [hrequests]
  decide

/-- What has been discovered from the file: nothing. -/
def namesakeFound : Discovery where
  hasLocalImports := true
  visited := ["/main"]
  queue := []

/-- Discovery from the root does not read the other file at its path. -/
private lemma discover_namesakeRoot : discover namesakeRoot namesake.store = .ok namesakeFound := by
  have hroot : load namesakeRoot.content (some namesakeRoot.path) = .ok (.map (runOf "main")) :=
    load_of_yaml load_namesakeRoot _
  have hfollow : (Node.map (runOf "main")).references.foldl
      (Discovery.follow namesake.store "/main") { visited := ["/main"], queue := [] } =
        namesakeFound := by decide
  rw [discover_of_load hroot hfollow]
  rfl

/-- The file that is named in the other one is missed. -/
private lemma namesake_misses : namesake.Misses namesakeRoot := by
  obtain ⟨hreadable, hlocal⟩ := readable_of_local namesakeRoot
    ⟨_, load_namesakeRoot, by decide⟩ isLocalText_namesake
  have hroot : load namesakeRoot.content (some namesakeRoot.path) = .ok (.map (runOf "main")) :=
    load_of_yaml load_namesakeRoot _
  obtain ⟨r, t, h, hrequest⟩ := namesake_expands
  exact ⟨rfl, hreadable, hlocal, _, r, t, namesakeFound, ⟨some "/t", true⟩, "/t", "[]", hroot, h,
    discover_namesakeRoot, hrequest, rfl, rfl, by decide, by decide⟩

/-- **Discovery does not cover all expansions.** A file is missed if its name is the text of an
included file, or stands in a file elsewhere that is the mixin of the map, or stands in another file
at the path of the root. -/
theorem discover_misses :
    includer.Misses includerRoot ∧ annex.Misses annexRoot ∧ namesake.Misses namesakeRoot :=
  ⟨includer_misses, annex_misses, namesake_misses⟩

end CwlDescriptor
