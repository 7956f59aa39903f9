import CwlDescriptor.Proofs.Expansion.Derivation
import CwlDescriptor.Proofs.Expansion.Simulation
import CwlDescriptor.Proofs.Tables
set_option autoImplicit false

/-!
# Imports are transparent

An import of a list or a map from the same directory may be replaced by what it imports: the
document has the same expansion, the same ids are claimed in the same order, and no more files and
characters are counted. The two expansions differ in the path, the depth and the counters with which
the imported document is expanded; but a path counts by its directory only, and a smaller depth and
smaller counters never make an expansion fail.

The import must be reached through items and values. If it is in the version of an entry, the
imported document must be one that can be shown, since the version is shown before it is expanded.

## Main definitions

* `Context`: a place in a document.
* `Context.InVersion`: a place in the version of an entry.
* `Simulation.inlining`: an expansion beside one that asks for more files.

## Main results

* `expand_fill_of_import`: an import may be replaced by what it imports.
* `sameExpansion_import_fails`: neither of the two conditions can be left out.
-/

namespace CwlDescriptor

open Expansion Expander

/-! ## Places in documents -/

/-- A place in a document that is reached through items and values. -/
inductive Context where
  | hole
  | item (before : List Node) (place : Context) (after : List Node)
  | value (before : Entries) (key : Scalar) (place : Context) (after : Entries)

namespace Context

/-- The document with a part at a place. -/
def fill : Context → Node → Node
  | hole, n => n
  | item before place after, n => .list (before ++ place.fill n :: after)
  | value before key place after, n => .map (before ++ (key, place.fill n) :: after)

/-- The place is not the value of a key `run`. -/
def AvoidsRun : Context → Prop
  | hole => True
  | item _ place _ => place.AvoidsRun
  | value _ key place _ => (key = .str "run" → place ≠ hole) ∧ place.AvoidsRun

/-- The place is in the version of an entry. -/
def InVersion : Context → Prop
  | hole => False
  | item _ place _ => place.InVersion
  | value before key place after =>
    (key = .str "cwlVersion" ∧ (Entries.entryClass? (before ++ after)).isSome) ∨ place.InVersion

end Context

/-- The map that is nothing but an import. -/
def importing (reference : String) : Node :=
  .map [(.str "$import", .str reference)]

/-! ## The simulation -/

/-- The state `s'` beside the state `s` of an expansion that asks for more files. -/
structure ExpansionState.Cheaper (s s' : ExpansionState) : Prop where
  keys : Table.keys s'.idPaths = Table.keys s.idPaths
  idCount : s'.idCount = s.idCount
  fileCount : s'.fileCount ≤ s.fileCount
  charCount : s'.charCount ≤ s.charCount

/-- The place `f'` beside the place `f` of an expansion that asks for more files. -/
structure Frame.Nearer (f f' : Frame) : Prop where
  directory : Path.directory f'.path.toList = Path.directory f.path.toList
  depth : f'.depth ≤ f.depth
  supportsMixin : supportsMixin f'.version = supportsMixin f.version

/-- A reference means the same in two files of one directory. -/
private lemma target?_eq_of_directory {path path' : String}
    (h : Path.directory path'.toList = Path.directory path.toList) (reference : String) :
    Reference.target? reference path' = Reference.target? reference path := by
  unfold Reference.target? Path.resolve Path.resolveChars
  rw [h]

/-- Tables with the same keys have the same key or lack it. -/
private lemma Table.hasKey_congr {α : Type} {t t' : Table α} (h : keys t' = keys t) (key : String) :
    hasKey t' key = hasKey t key := by
  rw [Bool.eq_iff_iff, hasKey_iff, hasKey_iff, h]

section Cheaper

variable {x : Expander} {s s' : ExpansionState}

/-- A state stays cheaper when the same id is recorded with whatever path. -/
lemma ExpansionState.Cheaper.recorded (h : s.Cheaper s') (id path path' : String) :
    (recorded s id path).Cheaper (recorded s' id path') where
  keys := by
    show Table.keys (Table.insert s'.idPaths id _) = Table.keys (Table.insert s.idPaths id _)
    rw [Table.keys_insert, Table.keys_insert, h.keys]
  idCount := h.idCount
  fileCount := h.fileCount
  charCount := h.charCount

/-- The check of the depth is followed at a nearer place. -/
private lemma followed_checkDepth (hstrict : x.strict = true) {f f' : Frame} (hf : f.Nearer f')
    (hs : s.Cheaper s') :
    Followed ExpansionState.Cheaper (fun _ => True) Eq (x.checkDepth f) (x.checkDepth f') s s' := by
  unfold Followed
  rw [checkDepth_strict hstrict, checkDepth_strict hstrict]
  have hdepth := hf.depth
  by_cases h : (x.limits.maxDepth : Int) < f.depth
  · rw [if_pos h]
    exact .inl trivial
  · rw [if_neg h, if_neg (by omega)]
    exact ⟨_, _, rfl, rfl, hs⟩

/-- The load of a file is followed in a cheaper state. -/
private lemma followed_loadFile (hstrict : x.strict = true) (hs : s.Cheaper s') (asDocument : Bool)
    (path : Option String) :
    Followed ExpansionState.Cheaper (fun _ => True) Eq (x.loadFile asDocument path)
      (x.loadFile asDocument path) s s' := by
  unfold Followed
  rw [loadFile_strict hstrict, loadFile_strict hstrict]
  have hfiles := hs.fileCount
  have hchars := hs.charCount
  have hcounted : (counted s asDocument path).Cheaper (counted s' asDocument path) :=
    ⟨hs.keys, hs.idCount, Nat.succ_le_succ hfiles, hchars⟩
  by_cases hf : x.limits.maxFiles < s.fileCount + 1
  · rw [if_pos hf]
    exact .inl trivial
  · rw [if_neg hf, if_neg (by omega)]
    cases path.bind x.store.get? with
    | none => exact ⟨_, _, rfl, rfl, hcounted⟩
    | some content =>
      by_cases hc : x.limits.maxCharacters < s.charCount + Text.length content
      · simp only [if_pos hc]
        exact .inl trivial
      · have hc' : ¬ x.limits.maxCharacters < s'.charCount + Text.length content := by omega
        simp only [if_neg hc, if_neg hc']
        exact ⟨_, _, rfl, rfl, hcounted.keys, hcounted.idCount, hcounted.fileCount,
          Nat.add_le_add_right hchars _⟩

/-- The claim of the same id is followed in a cheaper state. -/
private lemma followed_claimId (hs : s.Cheaper s') {es es' : Entries} {path path' : String}
    (hid : (es.field "id").text? = (es'.field "id").text?) :
    Followed ExpansionState.Cheaper (fun _ => True) Eq (x.claimId es path) (x.claimId es' path')
      s s' := by
  unfold Followed
  rcases claimId_cases x es path s with ⟨id, hfield, hfree, hclaim⟩ | ⟨htaken, hclaim⟩
  · rw [hclaim]
    refine ⟨_, _, claimId_of_free (hid ▸ hfield) ?_, rfl, hs.recorded id path path'⟩
    rw [Table.hasKey_congr hs.keys, hfree]
  · rw [hclaim]
    have hmade : (x.made s).Cheaper (x.made s') :=
      ⟨hs.keys, congrArg (· + 1) hs.idCount, hs.fileCount, hs.charCount⟩
    refine ⟨_, _, claimId_of_taken fun id h => ?_, ?_, ?_⟩
    · rw [Table.hasKey_congr hs.keys]
      exact htaken id (hid ▸ h)
    · rw [hs.idCount]
    · rw [hs.idCount]
      exact hmade.recorded _ path path'

end Cheaper

/-- An expansion beside one that asks for more files, of which nothing is promised if it fails. -/
def Simulation.inlining (x : Expander) (hstrict : x.strict = true) : Simulation x x where
  state := ExpansionState.Cheaper
  frame := Frame.Nearer
  version v v' := supportsMixin v' = supportsMixin v
  excused _ := True
  exhausted := trivial
  version_refl _ := rfl
  supportsMixin_eq hf := hf.supportsMixin.symm
  target?_eq hf reference := (target?_eq_of_directory hf.directory reference).symm
  frame_version hf hv := ⟨hf.directory, hf.depth, hv⟩
  frame_load _ hf := ⟨rfl, Int.add_le_add_right hf.depth 1, hf.supportsMixin⟩
  read := .refl x
  merge hs := ⟨hs.keys, hs.idCount, hs.fileCount, hs.charCount⟩
  checkDepth hf _ _ hs := followed_checkDepth hstrict hf hs
  loadFile asDocument path _ _ hs := followed_loadFile hstrict hs asDocument path
  claimId _ _ _ hid _ _ hs := followed_claimId hs hid

/-! ## What an import is replaced by -/

/-- An import beside the document that it imports, which is a list or a map. -/
structure Imports (x : Expander) (file : String) (document : Node) (path : String)
    (n n' : Node) : Prop where
  directory : Path.directory file.toList = Path.directory path.toList
  collection : ¬ document.IsLeaf
  reads : ∃ text, x.store.get? file = some text ∧ x.read text (some file) = .ok document
  target : ∃ reference, n = importing reference ∧ Reference.target? reference path = some file
  result : n' = document

/-- A document that is loaded is not null. -/
lemma Loads.isNull_eq_false {x : Expander} {levels : Nat} {f : Frame} {reference : String}
    {document : Node} {s t : ExpansionState}
    (h : Loads x levels f reference s (some document) t) : document.isNull = false := by
  generalize hd : some document = d at h
  cases h with
  | absent => cases hd
  | @found _ _ _ _ _ _ r =>
    cases hr : r.isNull with
    | true =>
      rw [hr] at hd
      cases hd
    | false =>
      rw [hr] at hd
      cases hd
      exact hr

/-- The expansion of a list or a map is not null. -/
lemma Expands.isNull_eq_false {x : Expander} {levels : Nat} {f : Frame} {n r : Node}
    {s t : ExpansionState} (h : Expands x levels .whole f n s r t) (hn : ¬ n.IsLeaf) :
    r.isNull = false := by
  cases h with
  | leaf hleaf => exact absurd hleaf hn
  | list => rfl
  | replaced hcheck henter hdirect =>
    generalize hd : Directed.replaced r = directed at hdirect
    cases hdirect with
    | @imported _ _ _ _ document _ _ himport hload =>
      cases hd
      cases document with
      | none => rfl
      | some document => exact hload.isNull_eq_false
    | included =>
      cases hd
      rfl
    | mixedAbsent | mixedMap | mixedOther | inert => cases hd
  | mixed hcheck henter hdirect hrest =>
    cases hrest with
    | leaf hleaf => cases hleaf
    | merged => rfl
  | unchanged => rfl

section Importing

variable {x : Expander} {levels : Nat} {f : Frame} {s t : ExpansionState}

/-- The directive of an import is followed, and no other one. -/
private lemma directs_importing {reference : String} {directed : Directed}
    (h : Directs x levels f [(.str "$import", .str reference)] s directed t) :
    ∃ document, Loads x levels f reference s document t ∧
      directed = .replaced (document.getD (.map [])) := by
  have himporting : Entries.directive? .importing [(.str "$import", .str reference)] =
      some reference := rfl
  cases h with
  | imported himport hload =>
    rw [himporting] at himport
    cases himport
    exact ⟨_, hload, rfl⟩
  | included hnone => simp [himporting] at hnone
  | mixedAbsent hmixes | mixedMap hmixes | mixedOther hmixes =>
    have hnone := hmixes.importing
    simp [himporting] at hnone
  | inert hinert =>
    have hnone := hinert.importing
    simp [himporting] at hnone

/-- An import is no entry: nothing but its file is loaded. -/
private lemma expands_importing {reference : String} {r : Node}
    (h : Expands x levels .whole f (importing reference) s r t) :
    ∃ ws document, Loads x levels f reference { s with warnings := ws } document t ∧
      r = document.getD (.map []) := by
  have henters : ∀ s, x.enter f [(.str "$import", .str reference)] s = .ok (none, f) s :=
    fun s => enter_of_none rfl
  unfold importing at h
  cases h with
  | leaf hleaf => cases hleaf
  | replaced hcheck henter hdirect =>
    obtain ⟨ws, rfl⟩ := checkDepth_eq_ok hcheck
    rw [henters] at henter
    cases henter
    obtain ⟨document, hload, hr⟩ := directs_importing hdirect
    cases hr
    exact ⟨ws, document, hload, rfl⟩
  | mixed hcheck henter hdirect =>
    rw [henters] at henter
    cases henter
    obtain ⟨_, -, hr⟩ := directs_importing hdirect
    cases hr
  | unchanged hcheck henter hdirect =>
    rw [henters] at henter
    cases henter
    obtain ⟨_, -, hr⟩ := directs_importing hdirect
    cases hr

/-- Where an import succeeds, the document has the same expansion at the place of its file, from a
state in which more was counted. -/
lemma Imports.expands {file : String} {document n n' r : Node}
    (h : Imports x file document f.path n n') (hn : Expands x levels .whole f n s r t) :
    ∃ l s₁, levels = l + 1 ∧ s₁.Cheaper s ∧
      Expands x l .whole { f with path := file, depth := f.depth + 1 } document s₁ r t := by
  obtain ⟨reference, rfl, htarget⟩ := h.target
  obtain ⟨text, hget, hread⟩ := h.reads
  obtain ⟨ws, loaded, hload, rfl⟩ := expands_importing hn
  cases hload with
  | absent habsent =>
    obtain ⟨hcontent, -⟩ := loadFile_eq_ok habsent
    rw [htarget] at hcontent
    simp [hget] at hcontent
  | @found l _ _ path text' document' r _ s₁ _ htarget' hfound hread' hexpand =>
    rw [htarget] at htarget'
    cases htarget'
    have hcheaper : s₁.Cheaper s := by
      obtain ⟨-, ws', rfl⟩ := loadFile_eq_ok hfound
      exact ⟨rfl, rfl, Nat.le_succ _, Nat.le_add_right _ _⟩
    obtain ⟨hcontent, -⟩ := loadFile_eq_ok hfound
    have htext : some text' = some text := hcontent.trans hget
    cases htext
    rw [hread] at hread'
    cases hread'
    refine ⟨l, s₁, rfl, hcheaper, ?_⟩
    rw [hexpand.isNull_eq_false h.collection]
    exact hexpand

end Importing

/-! ## Documents that differ in an import -/

/-- The importing map and the imported document are neither texts nor null. -/
private lemma collections_imports (x : Expander) (file : String) (document : Node) (path : String) :
    Simulation.Collections (Imports x file document path) := by
  rintro n n' ⟨-, hcollection, -, ⟨reference, rfl, -⟩, rfl⟩
  refine ⟨rfl, ?_, rfl, ?_⟩
  · cases n' with
    | list _ | map _ => rfl
    | scalar _ | set _ | pair _ _ => exact absurd trivial hcollection
  · cases n' with
    | list _ | map _ => rfl
    | scalar _ | set _ | pair _ _ => exact absurd trivial hcollection

/-- An import is followed by the expansion of what it imports. -/
private lemma resolves_imports {x : Expander} (hstrict : x.strict = true) (file : String)
    (document : Node) :
    (Simulation.inlining x hstrict).Resolves (Imports x file document) := by
  intro levels levels' hle hbelow f f' n n' hf hn s s' hs
  unfold Followed
  cases hr : x.expandNode (x.inner levels) .whole f n s with
  | error e t => exact .inl trivial
  | ok r t =>
    rw [← expandWithin_eq] at hr
    obtain ⟨l, s₁, rfl, hs₁, hexpand⟩ := hn.expands (expands_iff.2 hr)
    -- the second expansion is already where the first one goes: at the document, but less deep
    have hg : Frame.Nearer { f with path := file, depth := f.depth + 1 } f' := by
      have hdepth := hf.depth
      exact ⟨hf.directory.trans hn.directory.symm, by show f'.depth ≤ f.depth + 1; omega,
        hf.supportsMixin⟩
    have hs' : s₁.Cheaper s' := ⟨hs.keys.trans hs₁.keys, hs.idCount.trans hs₁.idCount,
      hs.fileCount.trans hs₁.fileCount, hs.charCount.trans hs₁.charCount⟩
    -- loading the file took up one level of the first expansion, and none of the second one
    have hfollowed := (hbelow (levels' + 1) (Nat.le_succ_of_le hle)).whole _ _ document hg s₁ s' hs'
    unfold Followed at hfollowed
    rw [show x.inner (l + 1) = x.expandWithin l from rfl, expands_iff.1 hexpand] at hfollowed
    obtain ⟨r', t', hr', rfl, ht⟩ := hfollowed
    rw [hn.result]
    refine ⟨r, t', ?_, rfl, ht⟩
    rw [← expandWithin_eq]
    exact hr'

namespace Context

variable {n n' : Node}

/-- At the same place, documents with the same text make documents with the same text. -/
private lemma text?_fill (h : n.text? = n'.text?) (place : Context) :
    (place.fill n).text? = (place.fill n').text? := by
  cases place with
  | hole => exact h
  | item | value => rfl

/-- At any place, a document that is no leaf makes one that is none. -/
private lemma not_isLeaf_fill (h : ¬ n.IsLeaf) (place : Context) : ¬ (place.fill n).IsLeaf := by
  cases place with
  | hole => exact h
  | item | value => exact id

/-- Beyond the place itself, an import as the value of `run` is the same. -/
private lemma importIn_fill (h : n.text? = n'.text?) {place : Context} (hplace : place ≠ hole) :
    Simulation.importIn (place.fill n) = Simulation.importIn (place.fill n') := by
  cases place with
  | hole => exact absurd rfl hplace
  | item => rfl
  | value before key place after =>
    have hrel := Entries.Related.of_value (R := fun _ v v' => v.text? = v'.text?)
      (fun _ _ => rfl) key (text?_fill h place) before after
    exact hrel.directive?_eq (fun _ _ _ => id) .importing

/-- A document can be shown if the part at a place can be, and the document with another part. -/
private lemma quoted?_fill_isSome (hn' : n'.quoted?.isSome) (place : Context)
    (h : (place.fill n).quoted?.isSome) : (place.fill n').quoted?.isSome := by
  induction place with
  | hole => exact hn'
  | item before place after ih =>
    simp only [fill, Node.quoted?_list_isSome, List.forall_mem_append,
      List.forall_mem_cons] at h ⊢
    exact ⟨h.1, ih h.2.1, h.2.2⟩
  | value before key place after ih =>
    simp only [fill, Node.quoted?_map_isSome, List.forall_mem_append,
      List.forall_mem_cons] at h ⊢
    exact ⟨h.1, ⟨h.2.1.1, ih h.2.1.2⟩, h.2.2⟩

/-- A version in which a place is can be shown with both parts, or it is the same. -/
private lemma shown_version_fill (hn : ¬ n.IsLeaf) (hn' : ¬ n'.IsLeaf) (before after : Entries)
    (key : Scalar) (place : Context) (hquoted : key = .str "cwlVersion" → n'.quoted?.isSome)
    {text : String}
    (h : (Entries.field (before ++ (key, place.fill n) :: after) "cwlVersion").shown = .ok text) :
    ∃ text', (Entries.field (before ++ (key, place.fill n') :: after) "cwlVersion").shown =
      .ok text' ∧ supportsMixin (some text') = supportsMixin (some text) := by
  unfold Entries.field at h ⊢
  rw [Entries.get?_append] at h ⊢
  cases hbefore : before.get? "cwlVersion" with
  | some v =>
    rw [hbefore] at h
    exact ⟨text, h, rfl⟩
  | none =>
    rw [hbefore, Option.none_or] at h
    rw [Option.none_or]
    by_cases hkey : key = .str "cwlVersion"
    · simp only [Entries.get?, if_pos hkey, Option.getD_some] at h ⊢
      exact Node.shown_of_quoted (not_isLeaf_fill hn place) (not_isLeaf_fill hn' place)
        (quoted?_fill_isSome (hquoted hkey) place) h
    · simp only [Entries.get?, if_neg hkey] at h ⊢
      exact ⟨text, h, rfl⟩

/-- The class of a map does not depend on its version. -/
private lemma entryClass?_version (before after : Entries) (v : Node) :
    Entries.entryClass? (before ++ (.str "cwlVersion", v) :: after) =
      Entries.entryClass? (before ++ after) := by
  unfold Entries.entryClass? Entries.field
  rw [Entries.get?_append, Entries.get?_append]
  rfl

end Context

/-- Documents that differ in an import, and in what is imported, are alike. -/
private lemma alike_fill {x : Expander} (hstrict : x.strict = true) {file : String}
    {document n n' : Node} {path : String} (h : Imports x file document path n n') :
    ∀ place : Context, place.AvoidsRun → (place.InVersion → document.quoted?.isSome) →
      Simulation.Alike (Simulation.inlining x hstrict) (Imports x file document path)
        (place.fill n) (place.fill n')
  | .hole, _, _ => .special h
  | .item before place after, hrun, hversion => by
    exact .list (Simulation.AlikeItems.of_item (alike_fill hstrict h place hrun hversion)
      before after)
  | .value before key place after, hrun, hversion => by
    have hplace := alike_fill hstrict h place hrun.2 fun hin => hversion (.inr hin)
    obtain ⟨hn, hn', -, -⟩ := collections_imports x file document path n n' h
    have hcollection : ¬ n.IsLeaf := by
      obtain ⟨reference, rfl, -⟩ := h.target
      exact id
    have hcollection' : ¬ n'.IsLeaf := h.result ▸ h.collection
    refine .map (Simulation.alikeEntries_iff.2 ?_) ?_ fun _ _ _ => .inl trivial
    · refine .of_value Simulation.AlikeAt.refl key ⟨hplace, fun hkey => ?_⟩ before after
      exact Context.importIn_fill (hn.trans hn'.symm) (hrun.1 hkey)
    · intro hclass text htext
      refine Context.shown_version_fill hcollection hcollection' before after key place ?_ htext
      rintro rfl
      rw [Context.entryClass?_version] at hclass
      exact h.result ▸ hversion (.inl ⟨rfl, hclass⟩)

/-! ## Transparency -/

/-- Where the expansion of a document succeeds at a path, another document has the same expansion
there: the same ids are claimed in the same order, and no more files and characters are counted. -/
def Expander.SameExpansion (x : Expander) (path : String) (document document' : Node) : Prop :=
  ∀ r t, x.expand (.root path) document {} = .ok r t →
    ∃ t', x.expand (.root path) document' {} = .ok r t' ∧
      Table.keys t'.idPaths = Table.keys t.idPaths ∧ t'.idCount = t.idCount ∧
      t'.fileCount ≤ t.fileCount ∧ t'.charCount ≤ t.charCount

/-- **Imports are transparent.** With strict limits, an import of a list or a map from the same
directory may be replaced by what it imports, if it is reached through items and values and is not
the value of a key `run` itself. If it is in the version of an entry, what it imports must be such
that it can be shown.

**Proof sketch.** Both expansions go in lockstep, where the second one has the smaller counters. At
the import the first one loads the file and goes on with its document, at a greater depth and under
another path of the same directory; from there on the second one is beside it. -/
theorem expand_fill_of_import (x : Expander) (hstrict : x.strict = true)
    {path file reference text : String} {document : Node}
    (hdirectory : Path.directory file.toList = Path.directory path.toList)
    (hget : x.store.get? file = some text) (hread : x.read text (some file) = .ok document)
    (hcollection : ¬ document.IsLeaf) (htarget : Reference.target? reference path = some file)
    (place : Context) (hrun : place.AvoidsRun)
    (hversion : place.InVersion → document.quoted?.isSome) :
    x.SameExpansion path (place.fill (importing reference)) (place.fill document) := by
  intro r t h
  have himports : Imports x file document path (importing reference) document :=
    ⟨hdirectory, hcollection, ⟨text, hget, hread⟩, ⟨reference, rfl, htarget⟩, rfl⟩
  have hframe : (Frame.root path).Nearer (.root path) := ⟨rfl, Int.le_refl _, rfl⟩
  have hmatches := Simulation.expandWithin_matches (S := Simulation.inlining x hstrict)
    (Imports x file document) (collections_imports x file document)
    (resolves_imports hstrict file document) (Nat.le_refl x.limits.maxFiles) hframe
    (alike_fill hstrict himports place hrun hversion)
  have hfollowed := hmatches {} {} ⟨rfl, rfl, Nat.le_refl _, Nat.le_refl _⟩
  unfold expand at h ⊢
  unfold Followed at hfollowed
  rw [h] at hfollowed
  obtain ⟨r', t', hr', rfl, ht⟩ := hfollowed
  exact ⟨t', hr', ht.keys, ht.idCount, ht.fileCount, ht.charCount⟩

/-- The place of the value of `steps` in a workflow without an id. -/
def stepsPlace : Context :=
  .value [(.str "class", .str "Workflow")] (.str "steps") .hole []

/-- The steps of a workflow are imported, or written where they are needed. -/
theorem stepsPlace_fill_of_import :
    shelf.strict = true ∧ Path.directory "/f".toList = Path.directory "/main".toList ∧
      shelf.store.get? "/f" = some "[]" ∧ shelf.read "[]" (some "/f") = .ok (.list []) ∧
      Reference.target? "f" "/main" = some "/f" ∧
      ∃ r t t', shelf.expand (.root "/main") (stepsPlace.fill (importing "f")) {} = .ok r t ∧
        shelf.expand (.root "/main") (stepsPlace.fill (.list [])) {} = .ok r t' ∧
        Table.keys t'.idPaths = Table.keys t.idPaths ∧ t'.fileCount ≤ t.fileCount := by
  have hread : shelf.read "[]" (some "/f") = .ok (.list []) := rfl
  have htarget : Reference.target? "f" "/main" = some "/f" := rfl
  have hrun : stepsPlace.AvoidsRun := ⟨fun h => absurd h (by decide), trivial⟩
  have hversion : ¬ stepsPlace.InVersion := by simp [stepsPlace, Context.InVersion]
  have hdirectory : Path.directory "/f".toList = Path.directory "/main".toList := rfl
  have h := expand_fill_of_import shelf rfl hdirectory rfl hread id htarget stepsPlace hrun
    fun hin => absurd hin hversion
  obtain ⟨t', h', hkeys, -, hfiles, -⟩ := h _ _ rfl
  exact ⟨rfl, hdirectory, rfl, hread, htarget, _, _, t', rfl, h', hkeys, hfiles⟩

/-! ### What cannot be left out -/

/-- An entry is expanded only if its version can be shown. -/
lemma Expands.shown_version {x : Expander} {levels : Nat} {f : Frame} {es : Entries} {r : Node}
    {s t : ExpansionState} (h : Expands x levels .whole f (.map es) s r t)
    (hclass : es.entryClass?.isSome) (hnull : (es.field "cwlVersion").isNull = false) :
    ∃ text, (es.field "cwlVersion").shown = .ok text := by
  have henters : ∀ {newId : Option String} {g : Frame} {s t : ExpansionState},
      x.enter f es s = .ok (newId, g) t → ∃ text, (es.field "cwlVersion").shown = .ok text := by
    intro newId g s t henter
    rcases enter_eq_ok henter with ⟨hnone, -⟩ | ⟨-, -, version, hversion, -⟩
    · rw [hnone] at hclass
      cases hclass
    · unfold version? at hversion
      rw [hnull] at hversion
      cases hshown : (es.field "cwlVersion").shown with
      | ok text => exact ⟨text, rfl⟩
      | error e =>
        rw [hshown] at hversion
        cases hversion
  cases h with
  | leaf hleaf => cases hleaf
  | replaced _ henter | mixed _ henter | unchanged _ henter => exact henters henter

/-- An integer that has more digits than can be shown. -/
def unshowable : Int := Int.ofNat (10 ^ Integer.maxDigits)

/-- The integer that cannot be shown has no text. -/
lemma text?_unshowable : Integer.text? unshowable = none := by
  have hlength : ¬ (Nat.toDigits 10 (10 ^ Integer.maxDigits)).length ≤ Integer.maxDigits := by
    rw [Nat.length_toDigits_le_iff (by decide) (by decide)]
    exact Nat.lt_irrefl _
  exact if_pos (Nat.lt_of_not_le hlength)

/-- An import of a missing file, beside which stands what cannot be shown. All of it is replaced by
the empty map, so that it can be expanded. -/
def vanishing : Node :=
  .map [(.str "$import", .str "missing"), (.str "x", .scalar (.int unshowable))]

/-- The document with this integer cannot be quoted. -/
private lemma quoted?_vanishing : vanishing.quoted? = none := by
  unfold vanishing
  simp [Node.quoted?, Node.quotedEntries?, Scalar.quoted?, text?_unshowable]

/-- A repository with one file, whose document is `vanishing`. -/
def vanishingShelf : Expander where
  store := .ofFiles [⟨"/f", ""⟩]
  limits := {}
  newId n := toString n
  read _ _ := .ok vanishing

/-- The place of the version of a workflow without an id. -/
def versionPlace : Context :=
  .value [(.str "class", .str "Workflow")] (.str "cwlVersion") .hole []

/-- The expansion of the workflow whose version is imported. -/
def versionless : Node :=
  .map [(.str "class", .str "Workflow"), (.str "cwlVersion", .map []), (.str "id", .str "0")]

/-- The workflow whose version is imported is expanded, since the import takes away what cannot be
shown. -/
private lemma expand_versionPlace_import :
    ∃ t, vanishingShelf.expand (.root "/main") (versionPlace.fill (importing "f")) {} =
      .ok versionless t :=
  ⟨_, rfl⟩

/-- The workflow whose version is the document itself is not expanded, since the version cannot be
shown. -/
private lemma expand_versionPlace_document (r : Node) (t : ExpansionState) :
    vanishingShelf.expand (.root "/main") (versionPlace.fill vanishing) {} ≠ .ok r t := by
  intro h
  obtain ⟨text, htext⟩ := (expands_iff.2 h).shown_version rfl rfl
  rw [Node.shown_eq_ok] at htext
  have hnone : vanishing.shown? = none := (Node.shown?_eq_quoted? id).trans quoted?_vanishing
  have htext : vanishing.shown? = some text := htext
  rw [hnone] at htext
  cases htext

/-- A list with a pair, into which no expansion goes. -/
def paired (n : Node) : Node := .list [.pair (.str "a") n]

/-- **Neither condition on the place of an import can be left out.** An import inside a pair stays
as it is, and an import in a version is shown as such, whether what it imports can be shown or
not. -/
theorem sameExpansion_import_fails :
    (shelf.read "[]" (some "/f") = .ok (.list []) ∧
      ¬ shelf.SameExpansion "/main" (paired (importing "f")) (paired (.list []))) ∧
    (vanishingShelf.read "" (some "/f") = .ok vanishing ∧
      ¬ vanishingShelf.SameExpansion "/main" (versionPlace.fill (importing "f"))
        (versionPlace.fill vanishing)) := by
  refine ⟨⟨rfl, ?_⟩, rfl, ?_⟩
  · intro h
    obtain ⟨t', h', -⟩ := h (paired (importing "f")) {} rfl
    have hstays : shelf.expand (.root "/main") (paired (.list [])) {} =
        .ok (paired (.list [])) {} := rfl
    rw [hstays] at h'
    cases h'
  · intro h
    obtain ⟨t, ht⟩ := expand_versionPlace_import
    obtain ⟨t', h', -⟩ := h versionless t ht
    exact expand_versionPlace_document versionless t' h'

end CwlDescriptor
