import CwlDescriptor.Proofs.Standalone
set_option autoImplicit false

/-!
# Chains of imports

A chain is a list of files each of which is nothing but an import of the next one. A document that
imports the first file of a chain is replaced by the document of the last one, if none of the three
limits is exceeded on the way: each file adds one to the depth and to the number of files, and its
length to the number of characters. Otherwise the expansion fails at the first file at which a limit
is exceeded, because of the first limit that is exceeded there, in the order in which they are
checked: the number of files, then the number of characters, then the depth.

A last file that holds nothing counts as a missing one, and so an import of it is replaced by the
empty map.

## Main definitions

* `Expander.Chain`: the files of a chain.
* `Limits.exceededAt`: the first limit that is exceeded at a file of a chain.

## Main results

* `expand_chain`: the expansion of a document that imports the first file of a chain.
* `blank_expand_chain`: a chain whose last file is empty is replaced by the empty map.
-/

namespace CwlDescriptor

open Expansion Expander

/-! ## Documents in which nothing is to be done -/

section Settled

mutual

/-- Nothing is left to be replaced in a document without entries that refers to no files. -/
theorem Node.Standalone.settled {store : SourceStore} {frame : Frame} : ∀ {n : Node},
    n.Standalone → n.entryMaps = [] → Settled store frame n
  | .map es, hstandalone, hentries => by
    obtain ⟨hown, hvalues⟩ := List.append_eq_nil_iff.1 hentries
    have hinside : frame.inside es = .ok frame := by
      unfold Frame.inside
      split at hown
      · cases hown
      · next hclass => rw [if_neg hclass]
    refine .map hinside ?_ (fun reference hrun => ?_)
      (Node.StandaloneValues.settled hstandalone.2 hvalues)
    · exact ⟨hstandalone.1.importing, hstandalone.1.including, .inl hstandalone.1.mixing⟩
    · rw [hstandalone.1.run] at hrun
      cases hrun
  | .list _, hstandalone, hentries => .list (Node.StandaloneList.settled hstandalone hentries)
  | .scalar _, _, _ | .set _, _, _ | .pair _ _, _, _ => .leaf trivial

/-- A list that refers to no files and holds no entries has nothing left to be replaced. -/
theorem Node.StandaloneList.settled {store : SourceStore} {frame : Frame} : ∀ {items : List Node},
    Node.StandaloneList items → Node.entryMapsList items = [] → SettledItems store frame items
  | [], _, _ => .nil
  | item :: items, hstandalone, hentries => by
    obtain ⟨hitem, hitems⟩ := List.append_eq_nil_iff.1 hentries
    exact .cons (Node.Standalone.settled hstandalone.1 hitem)
      (Node.StandaloneList.settled hstandalone.2 hitems)

/-- The values of a map that refers to no files and holds no entries have nothing left to be
replaced. -/
theorem Node.StandaloneValues.settled {store : SourceStore} {frame : Frame} : ∀ {es : Entries},
    Node.StandaloneValues es → Node.entryMapsValues es = [] → SettledValues store frame es
  | [], _, _ => .nil
  | (_, value) :: es, hstandalone, hentries => by
    obtain ⟨hvalue, hvalues⟩ := List.append_eq_nil_iff.1 hentries
    exact .cons (Node.Standalone.settled hstandalone.1 hvalue)
      (Node.StandaloneValues.settled hstandalone.2 hvalues)

end

mutual

/-- A document that refers to no files leaves no text at `run`. -/
theorem Node.Standalone.openRuns : ∀ {n : Node}, n.Standalone → n.openRuns = 0
  | .map es, h => by
    rw [Node.openRuns, Node.StandaloneValues.openRuns h.2, h.1.run]
    rfl
  | .list _, h => Node.StandaloneList.openRuns h
  | .scalar _, _ | .set _, _ | .pair _ _, _ => rfl

/-- In a list that refers to no files, no text at `run` is left to be followed. -/
theorem Node.StandaloneList.openRuns : ∀ {items : List Node}, Node.StandaloneList items →
    Node.openRunsList items = 0
  | [], _ => rfl
  | item :: items, h => by
    rw [Node.openRunsList, Node.Standalone.openRuns h.1, Node.StandaloneList.openRuns h.2]

/-- In the values of a map that refers to no files, no text at `run` is left to be followed. -/
theorem Node.StandaloneValues.openRuns : ∀ {es : Entries}, Node.StandaloneValues es →
    Node.openRunsValues es = 0
  | [], _ => rfl
  | (_, value) :: es, h => by
    rw [Node.openRunsValues, Node.Standalone.openRuns h.1, Node.StandaloneValues.openRuns h.2]

end

end Settled

/-! ## Chains -/

/-- The files of a chain that begins with a reference in the file `parent`: each file but the last
one is nothing but an import of the next one, and the last one holds the document `n`. -/
inductive Expander.Chain (x : Expander) (n : Node) : String → String → List SourceFile → Prop
  | last {parent reference path content : String}
    (htarget : Reference.target? reference parent = some path)
    (hget : x.store.get? path = some content) (hread : x.read content (some path) = .ok n) :
    Chain x n parent reference [⟨path, content⟩]
  | more {parent reference path content next : String} {files : List SourceFile}
    (htarget : Reference.target? reference parent = some path)
    (hget : x.store.get? path = some content)
    (hread : x.read content (some path) = .ok (importing next))
    (hrest : Chain x n path next files) :
    Chain x n parent reference (⟨path, content⟩ :: files)

/-- The number of characters of some files. -/
def SourceFile.characters (files : List SourceFile) : Nat :=
  (files.map fun file => Text.length file.content).sum

/-- The first limit that is exceeded when the file at a position of a chain is loaded, the first
file being at position one. -/
def Limits.exceededAt (l : Limits) (files : List SourceFile) (position : Nat) : Option Limit :=
  if l.maxFiles < position then some .files
  else if l.maxCharacters < SourceFile.characters (files.take position) then some .characters
  else if l.maxDepth < position then some .depth
  else none

namespace Limits

variable {l : Limits} {files rest : List SourceFile} {file : SourceFile} {i j k : Nat}

/-- No limit is exceeded at a file exactly if the files up to it are within all three of them. -/
private lemma exceededAt_eq_none_iff : l.exceededAt files i = none ↔
    i ≤ l.maxFiles ∧ SourceFile.characters (files.take i) ≤ l.maxCharacters ∧ i ≤ l.maxDepth := by
  unfold exceededAt
  split_ifs <;> simp only [false_iff, true_iff] <;> omega

/-- More files have more characters. -/
private lemma characters_take_le (files : List SourceFile) (h : i ≤ j) :
    SourceFile.characters (files.take i) ≤ SourceFile.characters (files.take j) := by
  unfold SourceFile.characters
  exact ((List.take_sublist_take_left h).map _).sum_le_sum fun _ _ => Nat.zero_le _

/-- If no limit is exceeded at a file, then none is at those before. -/
private lemma exceededAt_eq_none_of_le (h : i ≤ j) (hj : l.exceededAt files j = none) :
    l.exceededAt files i = none := by
  rw [exceededAt_eq_none_iff] at hj ⊢
  have hcharacters := characters_take_le files h
  omega

/-- The first of the files that are left is the next one of all files. -/
private lemma take_succ_of_drop (h : files.drop k = file :: rest) :
    files[k]? = some file ∧ files.take (k + 1) = files.take k ++ [file] ∧
      files.drop (k + 1) = rest := by
  have hget : files[k]? = some file := by
    rw [← Nat.add_zero k, ← List.getElem?_drop, h]
    rfl
  refine ⟨hget, ?_, ?_⟩
  · rw [List.take_add_one, hget]
    rfl
  · rw [← List.tail_drop, h]
    rfl

/-- Behind `k` files the limits are checked for one more file and for its characters. -/
private lemma exceededAt_succ (h : files.drop k = file :: rest) : l.exceededAt files (k + 1) =
    if l.maxFiles < k + 1 then some .files
    else if l.maxCharacters < SourceFile.characters (files.take k) + Text.length file.content then
      some .characters
    else if l.maxDepth < k + 1 then some .depth
    else none := by
  unfold exceededAt
  rw [(take_succ_of_drop h).2.1]
  simp [SourceFile.characters]

end Limits

/-- A computation fails at the first file of a chain at which a limit is exceeded. -/
def Expander.StopsAt {α : Type} (x : Expander) (files : List SourceFile) (m : Expansion α)
    (s : ExpansionState) : Prop :=
  ∃ position limit file t, IsLeast {i | (x.limits.exceededAt files i).isSome} position ∧
    x.limits.exceededAt files position = some limit ∧ 0 < position ∧
    files[position - 1]? = some file ∧
    m s = .error (.refuse (.limitExceeded limit (x.limits.bound limit)) (some file.path)) t

/-- So many files of a chain were loaded, and no limit was exceeded. -/
structure Expander.Reached (x : Expander) (files : List SourceFile) (k : Nat)
    (s : ExpansionState) : Prop where
  nodup : (Table.keys s.idPaths).Nodup
  fileCount : s.fileCount = k
  charCount : s.charCount = SourceFile.characters (files.take k)
  within : x.limits.exceededAt files k = none

section Loading

variable {x : Expander} {files rest : List SourceFile} {file : SourceFile} {k : Nat}
  {s : ExpansionState}

/-- The next file is the first one at which a limit is exceeded. -/
private lemma Expander.Reached.stopsAt {α : Type} {m : Expansion α} {t : ExpansionState}
    {limit : Limit} (h : x.Reached files k s) (hrest : files.drop k = file :: rest)
    (hlimit : x.limits.exceededAt files (k + 1) = some limit)
    (hm : m s = .error (.refuse (.limitExceeded limit (x.limits.bound limit)) (some file.path)) t) :
    x.StopsAt files m s := by
  refine ⟨k + 1, limit, file, t, ⟨?_, fun i hi => ?_⟩, hlimit, Nat.succ_pos k,
    (Limits.take_succ_of_drop hrest).1, hm⟩
  · show (x.limits.exceededAt files (k + 1)).isSome
    rw [hlimit]
    rfl
  · by_contra hlt
    have hnone := Limits.exceededAt_eq_none_of_le (i := i) (by omega) h.within
    rw [Set.mem_ofPred_eq, hnone] at hi
    cases hi

/-- Asking for the next file fails because of a limit, or only the depth is left to be checked. -/
lemma Expander.Reached.loadFile (hstrict : x.strict = true) (h : x.Reached files k s)
    (hrest : files.drop k = file :: rest) (hget : x.store.get? file.path = some file.content) :
    (∃ limit t, x.limits.exceededAt files (k + 1) = some limit ∧
      x.loadFile true (some file.path) s =
        .error (.refuse (.limitExceeded limit (x.limits.bound limit)) (some file.path)) t) ∨
    ∃ t, x.loadFile true (some file.path) s = .ok (some file.content) t ∧
      (Table.keys t.idPaths).Nodup ∧ t.fileCount = k + 1 ∧
      t.charCount = SourceFile.characters (files.take (k + 1)) ∧ k + 1 ≤ x.limits.maxFiles ∧
      x.limits.exceededAt files (k + 1) =
        if x.limits.maxDepth < k + 1 then some .depth else none := by
  rw [loadFile_strict hstrict, Limits.exceededAt_succ hrest, h.fileCount, h.charCount,
    Option.bind_some, hget]
  by_cases hfiles : x.limits.maxFiles < k + 1
  · rw [if_pos hfiles, if_pos hfiles]
    exact .inl ⟨_, _, rfl, rfl⟩
  · rw [if_neg hfiles, if_neg hfiles]
    by_cases hcharacters : x.limits.maxCharacters <
        SourceFile.characters (files.take k) + Text.length file.content
    · simp only [if_pos hcharacters]
      exact .inl ⟨_, _, rfl, rfl⟩
    · simp only [if_neg hcharacters]
      refine .inr ⟨_, rfl, h.nodup, congrArg (· + 1) h.fileCount, ?_, by omega, trivial⟩
      rw [(Limits.take_succ_of_drop hrest).2.1]
      show s.charCount + _ = _
      simp [h.charCount, SourceFile.characters]

/-- A computation that fails whenever another one does stops where that one does. -/
lemma Expander.StopsAt.of_error {α β : Type} {m : Expansion α} {m' : Expansion β}
    {s' : ExpansionState} (h : x.StopsAt files m s)
    (hm : ∀ e t, m s = .error e t → ∃ u, m' s' = .error e u) : x.StopsAt files m' s' := by
  obtain ⟨position, limit, file, t, hleast, hlimit, hpos, hfile, hfails⟩ := h
  obtain ⟨u, hu⟩ := hm _ _ hfails
  exact ⟨position, limit, file, u, hleast, hlimit, hpos, hfile, hu⟩

/-- A place that is too deep makes every expansion fail. -/
private lemma expandWithin_of_too_deep (hstrict : x.strict = true) {frame : Frame}
    (h : (x.limits.maxDepth : Int) < frame.depth) (levels : Nat) (n : Node) :
    x.expandWithin levels .whole frame n s =
      .error (.refuse (.limitExceeded .depth x.limits.maxDepth) (some frame.path)) s := by
  have hcheck : x.checkDepth frame s = _ := checkDepth_strict hstrict
  rw [if_pos h] at hcheck
  rw [expandWithin_eq]
  cases n with
  | map es => rw [expandNode_map_whole, bind_apply, hcheck]
  | list items => rw [expandNode, bind_apply, hcheck]
  | scalar _ | set _ | pair _ _ =>
    show (x.checkDepth frame >>= fun _ => _) s = _
    rw [bind_apply, hcheck]

/-- What takes the place of an import of a file with a document. -/
def Node.imported (n : Node) : Node := if n.isNull then .map [] else n

/-- If a file cannot be loaded, neither can its document. -/
private lemma loadDocument_of_error {below : Below} {frame : Frame} {reference path : String}
    {e : Failure} {t : ExpansionState}
    (htarget : Reference.target? reference frame.path = some path)
    (hload : x.loadFile true (some path) s = .error e t) :
    x.loadDocument below frame reference s = .error e t := by
  unfold loadDocument
  rw [htarget, bind_apply, hload]

/-- Of a file that is loaded and read, the document is expanded one level deeper. -/
private lemma loadDocument_of_ok {below : Below} {frame : Frame} {reference path content : String}
    {document : Node} {t : ExpansionState}
    (htarget : Reference.target? reference frame.path = some path)
    (hload : x.loadFile true (some path) s = .ok (some content) t)
    (hread : x.read content (some path) = .ok document) :
    x.loadDocument below frame reference s =
      ((fun r => if r.isNull then none else some r) <$>
        below .whole { frame with path := path, depth := frame.depth + 1 } document) t := by
  unfold loadDocument
  rw [htarget, bind_apply, hload]
  show (lift (x.read content (some path)) >>= _) t = _
  rw [hread, map_eq_pure_bind]
  rfl

/-- A map with an import is replaced by what the file of the import holds. -/
private lemma expandDirected_of_importing {below : Below} {es : Entries} {reference : String}
    (h : es.directive? .importing = some reference) (frame : Frame) (newId : Option String) :
    (do
      let directed ← x.direct below frame (withId es newId)
      x.expandDirected below frame es newId directed) =
    (fun document => document.getD (.map [])) <$> x.loadDocument below frame reference := by
  rw [direct, directive?_withId, h]
  show (x.loadDocument below frame reference >>= _) >>= _ = _
  rw [bind_assoc, map_eq_pure_bind]
  rfl

/-- The import in a file of a chain is replaced by what its file holds. -/
private lemma expandWithin_importing {frame : Frame} (hdepth : frame.depth ≤ x.limits.maxDepth)
    (levels : Nat) (reference : String) :
    x.expandWithin levels .whole frame (importing reference) s =
      ((fun document => document.getD (.map [])) <$>
        x.loadDocument (x.inner levels) frame reference) s := by
  rw [expandWithin_eq, importing, expandNode_map_whole, bind_apply, checkDepth_of_le hdepth]
  dsimp only
  rw [bind_apply, enter_of_none rfl]
  dsimp only
  rw [expandDirected_of_importing rfl]

/-- What takes the place of an import is not null. -/
private lemma isNull_imported (n : Node) : n.imported.isNull = false := by
  unfold Node.imported
  cases hn : n.isNull with
  | true => rfl
  | false => exact hn

/-- The last file of a chain is expanded to what it holds. -/
private lemma expandWithin_last (hstrict : x.strict = true) {n : Node} (hstandalone : n.Standalone)
    (hentries : n.entryMaps = []) {frame : Frame} (hdepth : frame.depth ≤ x.limits.maxDepth)
    (hnodup : (Table.keys s.idPaths).Nodup) (hfiles : s.fileCount ≤ x.limits.maxFiles)
    (levels : Nat) :
    ∃ t, x.expandWithin levels .whole frame n s = .ok n t ∧ (Table.keys t.idPaths).Nodup ∧
      t.fileCount = s.fileCount ∧ t.charCount = s.charCount := by
  have hroom : Room x n.openRuns n.entryMaps [] s := by
    rw [hstandalone.openRuns, hentries]
    exact ⟨hfiles, rfl, by rwa [List.append_nil]⟩
  obtain ⟨t, hexpands, hvisited⟩ :=
    (hstandalone.settled hentries).expands hstrict levels hdepth hroom
  refine ⟨t, expands_iff.1 hexpands, ?_, ?_, hvisited.characters⟩
  · rwa [hvisited.keys, List.append_nil]
  · rw [hvisited.files, hstandalone.openRuns, Nat.add_zero]

/-- Loading the next file of a chain stops because of a limit, or it is one more file that was
loaded, and its document is expanded one level below. -/
private lemma loadDocument_next (hstrict : x.strict = true) (hreached : x.Reached files k s)
    {path content : String} (hrest : files.drop k = ⟨path, content⟩ :: rest) {frame : Frame}
    {reference : String} (htarget : Reference.target? reference frame.path = some path)
    (hget : x.store.get? path = some content) {document : Node}
    (hread : x.read content (some path) = .ok document) (hdepth : frame.depth = k) {levels : Nat}
    (hlevels : x.limits.maxFiles ≤ k + levels) :
    x.StopsAt files (x.loadDocument (x.inner levels) frame reference) s ∨
    ∃ l t, levels = l + 1 ∧ frame.depth + 1 ≤ x.limits.maxDepth ∧ x.Reached files (k + 1) t ∧
      x.loadDocument (x.inner levels) frame reference s =
        ((fun r => if r.isNull then none else some r) <$>
          x.expandWithin l .whole { frame with path := path, depth := frame.depth + 1 }
            document) t := by
  rcases hreached.loadFile hstrict hrest hget with ⟨limit, t, hlimit, hload⟩ |
    ⟨t, hload, hnodup, hfiles, hcharacters, hmax, hlimit⟩
  · exact .inl (hreached.stopsAt hrest hlimit (loadDocument_of_error htarget hload))
  · obtain ⟨l, rfl⟩ : ∃ l, levels = l + 1 := ⟨levels - 1, by omega⟩
    have hfound : x.loadDocument (x.inner (l + 1)) frame reference s = _ :=
      loadDocument_of_ok htarget hload hread
    by_cases hdeep : (x.limits.maxDepth : Int) < frame.depth + 1
    · rw [if_pos (by omega)] at hlimit
      refine .inl (hreached.stopsAt (t := t) hrest hlimit ?_)
      rw [hfound]
      exact map_of_error (expandWithin_of_too_deep hstrict hdeep l document) _
    · rw [if_neg (by omega)] at hlimit
      exact .inr ⟨l, t, rfl, not_lt.1 hdeep, ⟨hnodup, hfiles, hcharacters, hlimit⟩, hfound⟩

/-- **A chain is loaded file by file**: either the computation stops at the first file at which a
limit is exceeded, or all of its files are loaded.

**Proof sketch.** Induction on the chain. With `k` files loaded, the depth is `k` as well, and
`levels` is at least as large as the number of files that may still be asked for. -/
private lemma loadDocument_chain (hstrict : x.strict = true) {n : Node} (hstandalone : n.Standalone)
    (hentries : n.entryMaps = []) {parent reference : String}
    (hchain : x.Chain n parent reference rest) {levels : Nat} {frame : Frame}
    (hpath : frame.path = parent) (hdepth : frame.depth = k)
    (hlevels : x.limits.maxFiles ≤ k + levels) (hrest : files.drop k = rest)
    (hreached : x.Reached files k s) :
    x.StopsAt files (x.loadDocument (x.inner levels) frame reference) s ∨
    ∃ document t, x.loadDocument (x.inner levels) frame reference s = .ok document t ∧
      document.getD (.map []) = n.imported ∧ x.Reached files files.length t := by
  induction hchain generalizing levels frame k s with
  | @last parent reference path content htarget hget hread =>
    subst hpath
    rcases loadDocument_next hstrict hreached hrest htarget hget hread hdepth hlevels with
      hstops | ⟨l, t, rfl, hdeep, hnext, hfound⟩
    · exact .inl hstops
    · have hfiles := (Limits.exceededAt_eq_none_iff.1 hnext.within).1
      -- the place of the last file
      let inside : Frame := { frame with path := path, depth := frame.depth + 1 }
      have hinside : inside.depth ≤ x.limits.maxDepth := hdeep
      obtain ⟨u, hexpands, hnodup, hfiles', hcharacters⟩ :=
        expandWithin_last hstrict hstandalone hentries hinside hnext.nodup
          (hnext.fileCount.trans_le hfiles) l
      have hlength : files.length = k + 1 := by
        have hlength := congrArg List.length hrest
        rw [List.length_drop, List.length_singleton] at hlength
        omega
      refine .inr ⟨if n.isNull then none else some n, u, ?_, ?_, ?_⟩
      · rw [hfound]
        exact map_eq_ok.2 ⟨n, hexpands, rfl⟩
      · unfold Node.imported
        split <;> rfl
      · rw [hlength]
        exact ⟨hnodup, hfiles'.trans hnext.fileCount, hcharacters.trans hnext.charCount,
          hnext.within⟩
  | @more parent reference path content next rest htarget hget hread hchain ih =>
    subst hpath
    rcases loadDocument_next hstrict hreached hrest htarget hget hread hdepth hlevels with
      hstops | ⟨l, t, rfl, hdeep, hnext, hfound⟩
    · exact .inl hstops
    · -- the place of the next import
      let inside : Frame := { frame with path := path, depth := frame.depth + 1 }
      have hdepth' : inside.depth = (k + 1 : Nat) := by
        show frame.depth + 1 = _
        omega
      have hinside : inside.depth ≤ x.limits.maxDepth := hdeep
      have himport := expandWithin_importing (s := t) hinside l next
      have hlevels' : x.limits.maxFiles ≤ k + 1 + l := by omega
      rcases ih rfl hdepth' hlevels' (Limits.take_succ_of_drop hrest).2.2 hnext with
        hstops | ⟨document, u, hloads, hdocument, hreached'⟩
      · refine .inl (hstops.of_error fun e u hfails => ⟨u, ?_⟩)
        rw [hfound]
        exact map_of_error (himport.trans (map_of_error hfails _)) _
      · refine .inr ⟨some n.imported, u, ?_, rfl, hreached'⟩
        rw [hfound]
        refine map_eq_ok.2 ⟨n.imported, ?_, by rw [isNull_imported]; rfl⟩
        exact himport.trans (map_eq_ok.2 ⟨document, hloads, hdocument⟩)

end Loading

/-! ## A document that imports a chain -/

/-- Entering a map at the beginning of an expansion counts nothing. -/
private lemma enter_of_inside {x : Expander} {frame frame' : Frame} {es : Entries}
    (hinside : frame.inside es = .ok frame') (files : List SourceFile) :
    ∃ newId t, x.enter frame es {} = .ok (newId, frame') t ∧ x.Reached files 0 t := by
  have hwithin : x.limits.exceededAt files 0 = none :=
    Limits.exceededAt_eq_none_iff.2 ⟨Nat.zero_le _, Nat.zero_le _, Nat.zero_le _⟩
  unfold Frame.inside at hinside
  cases hclass : es.entryClass? with
  | none =>
    rw [hclass] at hinside
    cases hinside
    exact ⟨none, {}, enter_of_none hclass, List.nodup_nil, rfl, rfl, hwithin⟩
  | some entryClass =>
    have hsome : es.entryClass?.isSome := by rw [hclass]; rfl
    rw [if_pos hsome] at hinside
    cases hversion : version? frame es with
    | error e =>
      rw [hversion] at hinside
      cases hinside
    | ok version =>
      rw [hversion] at hinside
      cases hinside
      rw [enter_of_isSome hsome, hversion]
      rcases claimId_cases x es frame.path {} with ⟨id, -, -, hclaim⟩ | ⟨-, hclaim⟩ <;>
      exact ⟨_, _, bind_eq_ok.2 ⟨_, _, hclaim, rfl⟩, Table.nodup_keys_insert List.nodup_nil, rfl,
        rfl, hwithin⟩

/-- The expansion of a document that imports a chain stops because of a limit, or all files of the
chain are loaded. -/
private lemma expand_chain_cases {x : Expander} (hstrict : x.strict = true) {n : Node}
    (hstandalone : n.Standalone) (hentries : n.entryMaps = []) {path reference : String}
    {es : Entries} (himport : es.directive? .importing = some reference) {frame : Frame}
    (hinside : (Frame.root path).inside es = .ok frame) {files : List SourceFile}
    (hchain : x.Chain n path reference files) :
    x.StopsAt files (x.expand (.root path) (.map es)) {} ∨
    ∃ t, x.expand (.root path) (.map es) {} = .ok n.imported t ∧
      x.Reached files files.length t := by
  obtain ⟨hpath, hdepth⟩ := Frame.path_of_inside hinside
  obtain ⟨newId, s, henter, hreached⟩ := enter_of_inside (x := x) hinside files
  have hroot : (Frame.root path).depth ≤ x.limits.maxDepth := Int.natCast_nonneg _
  have hexpand : x.expand (.root path) (.map es) {} =
      ((fun document => document.getD (.map [])) <$>
        x.loadDocument (x.inner x.limits.maxFiles) frame reference) s := by
    rw [expand, expandWithin_eq, expandNode_map_whole, bind_apply, checkDepth_of_le hroot]
    dsimp only
    rw [bind_apply, henter]
    dsimp only
    rw [expandDirected_of_importing himport]
  have hlevels : x.limits.maxFiles ≤ 0 + x.limits.maxFiles := by omega
  rcases loadDocument_chain hstrict hstandalone hentries hchain hpath hdepth hlevels rfl
    hreached with
    hstops | ⟨document, t, hloads, hdocument, hreached'⟩
  · refine .inl (hstops.of_error fun e t hfails => ⟨t, ?_⟩)
    rw [hexpand]
    exact map_of_error hfails _
  · refine .inr ⟨t, ?_, hreached'⟩
    rw [hexpand]
    exact map_eq_ok.2 ⟨document, hloads, hdocument⟩

/-- A limit that is exceeded at a file of a chain is exceeded at the last one as well. -/
lemma Expander.StopsAt.exceeded {α : Type} {x : Expander} {files : List SourceFile}
    {m : Expansion α} {s : ExpansionState} (h : x.StopsAt files m s) :
    x.limits.exceededAt files files.length ≠ none := by
  obtain ⟨position, limit, file, t, -, hlimit, hpos, hfile, -⟩ := h
  obtain ⟨hlt, -⟩ := List.getElem?_eq_some_iff.1 hfile
  intro hnone
  rw [Limits.exceededAt_eq_none_of_le (by omega) hnone] at hlimit
  cases hlimit

/-- **Limits on a chain of imports are exact.** Let a document import the first file of a chain
whose last file holds a document that refers to no files and has no entries. With strict limits the
expansion is what takes the place of that document, after all files and their characters were
counted, exactly if the number of files is within the limits on depth and on files, and the number
of characters within that on characters. Otherwise it fails at the first file at which a limit is
exceeded, because of the first limit that is exceeded there. -/
theorem expand_chain (x : Expander) (hstrict : x.strict = true) {n : Node}
    (hstandalone : n.Standalone) (hentries : n.entryMaps = []) {path reference : String}
    {es : Entries} (himport : es.directive? .importing = some reference) {frame : Frame}
    (hinside : (Frame.root path).inside es = .ok frame) {files : List SourceFile}
    (hchain : x.Chain n path reference files) :
    ((∃ t, x.expand (.root path) (.map es) {} = .ok n.imported t ∧ t.fileCount = files.length ∧
        t.charCount = SourceFile.characters files) ↔
      files.length ≤ x.limits.maxDepth ∧ files.length ≤ x.limits.maxFiles ∧
        SourceFile.characters files ≤ x.limits.maxCharacters) ∧
    (¬ (files.length ≤ x.limits.maxDepth ∧ files.length ≤ x.limits.maxFiles ∧
        SourceFile.characters files ≤ x.limits.maxCharacters) →
      x.StopsAt files (x.expand (.root path) (.map es)) {}) := by
  have hwithin : x.limits.exceededAt files files.length = none ↔
      files.length ≤ x.limits.maxDepth ∧ files.length ≤ x.limits.maxFiles ∧
        SourceFile.characters files ≤ x.limits.maxCharacters := by
    rw [Limits.exceededAt_eq_none_iff, List.take_length]
    tauto
  rw [← hwithin]
  rcases expand_chain_cases hstrict hstandalone hentries himport hinside hchain with
    hstops | ⟨t, ht, hreached⟩
  · have hexceeded := hstops.exceeded
    refine ⟨iff_of_false ?_ hexceeded, fun _ => hstops⟩
    obtain ⟨_, _, _, _, -, -, -, -, hfails⟩ := hstops
    rintro ⟨t, ht, -⟩
    rw [hfails] at ht
    cases ht
  · have hcharacters := hreached.charCount
    rw [List.take_length] at hcharacters
    exact ⟨iff_of_true ⟨t, ht, hreached.fileCount, hcharacters⟩ hreached.within,
      fun hnot => absurd hreached.within hnot⟩

/-! ### Chains of two files -/

/-- A repository with a file that imports a list. -/
def linked (limits : Limits) : Expander where
  store := .ofFiles [⟨"/a", "$import: b"⟩, ⟨"/b", "[]"⟩]
  limits := limits
  newId n := toString n

/-- The two files. -/
def linkedFiles : List SourceFile := [⟨"/a", "$import: b"⟩, ⟨"/b", "[]"⟩]

/-- A map that imports the first file. -/
def linkedRoot : Entries := [(.str "$import", .str "a")]

/-- The files of a chain are read as descriptors are loaded. -/
private lemma read_linked (limits : Limits) : (linked limits).read = load := rfl

/-- The two files are a chain: the first one imports the second one. -/
private lemma linked_chain (limits : Limits) :
    (linked limits).Chain (.list []) "/main" "a" linkedFiles := by
  have hread : (linked limits).read "$import: b" (some "/a") = .ok (importing "b") := by
    rw [read_linked]
    cbv
  exact .more rfl rfl hread (.last rfl rfl rfl)

/-- With room for two files and twelve characters the list takes the place of the import; with room
for less, the limit on characters is the first one that is exceeded. -/
theorem linked_expand_chain :
    (∀ limits, (linked limits).strict = true) ∧ (Node.list []).Standalone ∧
      (Node.list []).entryMaps = [] ∧ linkedRoot.directive? .importing = some "a" ∧
      (Frame.root "/main").inside linkedRoot = .ok (.root "/main") ∧
      (∀ limits, (linked limits).Chain (.list []) "/main" "a" linkedFiles) ∧
      (∃ t, (linked ⟨2, 12, 2⟩).expand (.root "/main") (.map linkedRoot) {} = .ok (.list []) t ∧
        t.fileCount = 2 ∧ t.charCount = 12) ∧
      ∃ t, (linked ⟨1, 11, 2⟩).expand (.root "/main") (.map linkedRoot) {} =
        .error (.refuse (.limitExceeded .characters 11) (some "/b")) t := by
  have himport : linkedRoot.directive? .importing = some "a" := rfl
  have hinside : (Frame.root "/main").inside linkedRoot = .ok (.root "/main") := rfl
  have hexact := fun limits => expand_chain (linked limits) rfl (n := .list []) trivial rfl himport
    hinside (linked_chain limits)
  refine ⟨fun _ => rfl, trivial, rfl, himport, hinside, linked_chain, ?_, ?_⟩
  · exact (hexact ⟨2, 12, 2⟩).1.2 (by decide)
  · obtain ⟨position, limit, file, t, hleast, hlimit, hpos, hfile, h⟩ :=
      (hexact ⟨1, 11, 2⟩).2 (by decide)
    obtain rfl : position = 2 := by
      have hle : position ≤ 2 := hleast.2 (by decide)
      have hne : position ≠ 1 := by
        rintro rfl
        have hnone : (linked ⟨1, 11, 2⟩).limits.exceededAt linkedFiles 1 = none := by decide
        rw [hnone] at hlimit
        cases hlimit
      omega
    have hcharacters : (linked ⟨1, 11, 2⟩).limits.exceededAt linkedFiles 2 = some .characters := by
      decide
    rw [hcharacters] at hlimit
    cases hlimit
    cases hfile
    exact ⟨t, h⟩

/-! ### A last file that is empty -/

/-- A repository with one file, which is empty. -/
def blank : Expander where
  store := .ofFiles [⟨"/a", ""⟩]
  limits := {}
  newId n := toString n

/-- **An import of an empty file is replaced by the empty map**, and not by what the file holds,
although no limit is exceeded. -/
theorem blank_expand_chain :
    blank.strict = true ∧ blank.limits.Positive ∧ Node.null.Standalone ∧
      Node.null.entryMaps = [] ∧ linkedRoot.directive? .importing = some "a" ∧
      blank.Chain .null "/main" "a" [⟨"/a", ""⟩] ∧
      (∀ i ≤ 1, blank.limits.exceededAt [⟨"/a", ""⟩] i = none) ∧
      (∃ t, blank.expand (.root "/main") (.map linkedRoot) {} = .ok (.map []) t) ∧
      ∀ t, blank.expand (.root "/main") (.map linkedRoot) {} ≠ .ok .null t := by
  have hexpand : ∃ t, blank.expand (.root "/main") (.map linkedRoot) {} = .ok (.map []) t :=
    ⟨_, rfl⟩
  refine ⟨rfl, by decide, trivial, rfl, rfl, .last rfl rfl rfl, by decide, hexpand, fun t ht => ?_⟩
  obtain ⟨u, hu⟩ := hexpand
  rw [hu] at ht
  cases ht

end CwlDescriptor
