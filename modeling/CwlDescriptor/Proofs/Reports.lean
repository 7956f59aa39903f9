import CwlDescriptor.Proofs.Discovery
import CwlDescriptor.Proofs.Outcomes
import CwlDescriptor.Proofs.Validity
import Mathlib
set_option autoImplicit false

/-!
# What is reported instead of refused

Where the metadata of a descriptor are read, where the files that it refers to are discovered, and
where descriptors and parameters are validated, a text that cannot be read is no reason to fail.
There is a message instead, or the file is passed over. What is left are limits that are exceeded
where a descriptor has to be expanded, the root where files are discovered from it, and integers of
too many digits, which no message can show.

## Main definitions

* `Expander.Blames`: why and at which request an expansion fails.
* `Analyzer.Malformed`: the root or a file that its expansion meets is no document, or the expanded
  root is no map.

## Main results

* `expandWithin_blames`: a file that cannot be read was asked for last.
* `Analyzer.readMetadata_outcome`: there is one message for a malformed descriptor and none for
  others.
* `discover_outcome`, `validateDescriptor_outcome`, `validateParameters_outcome`: how a discovery
  and the validations end.
* `Analyzer.reports`: all of this for one root.
-/

namespace CwlDescriptor

open Expansion Expander

/-! ## The file at which an expansion fails -/

/-- The reasons for which an expansion fails, with the state in which it does: a file that cannot be
read is the one that was asked for last. -/
inductive Expander.Blames (x : Expander) : Failure → ExpansionState → Prop
  | limit {e : Failure} {t : ExpansionState} (h : e.IsLimit) : Blames x e t
  | unreadable {path text : String} {e : Failure} {t : ExpansionState}
    (hlast : t.requests.getLast? = some ⟨some path, true⟩) (hget : x.store.get? path = some text)
    (hread : x.read text (some path) = .error e) : Blames x e t
  | digits {t : ExpansionState} : Blames x (.fault .tooManyDigits) t
  | exhausted {t : ExpansionState} : Blames x .exhausted t

/-- Computations fail for these reasons only. -/
def Contract.blame (x : Expander) (hstrict : x.strict = true) : Contract x where
  ready _ _ := True
  success _ _ := True
  failure e _ t := x.Blames e t
  refl _ := trivial
  trans _ _ := trivial
  failure_trans _ := id
  ready_of_success _ _ := trivial
  exhausted _ := .exhausted
  checkDepth frame s := by
    unfold Ensures
    rw [checkDepth_strict hstrict]
    split_ifs
    · exact .limit rfl
    · trivial
  claimId es path s := by
    rcases claimId_cases x es path s with ⟨id, -, -, h⟩ | ⟨-, h⟩
    · exact .of_ok h trivial
    · exact .of_ok h trivial
  loadFile _ asDocument path s _ := by
    unfold Ensures
    rw [loadFile_strict hstrict]
    split_ifs
    · exact .limit rfl
    · cases path.bind x.store.get? with
      | none => exact ⟨trivial, trivial⟩
      | some content =>
        dsimp only
        split_ifs
        · exact .limit rfl
        · exact ⟨trivial, trivial⟩
  merge _ := trivial
  read _ _ _ _ := .unreadable
  shown n e s h := by
    obtain rfl := Node.shown_eq_error h
    exact .digits

/-- **A file that cannot be read was asked for last**, as a document: what an expansion reads and
where it stops belong together. -/
theorem expandWithin_blames {x : Expander} (hstrict : x.strict = true) {levels : Nat}
    {stage : Stage} {frame : Frame} {n : Node} {s t : ExpansionState} {e : Failure}
    (h : x.expandWithin levels stage frame n s = .error e t) : x.Blames e t :=
  Ensures.error ((Contract.blame x hstrict).expandWithin_meets levels stage frame n s trivial) h

/-! ## Metadata -/

section Metadata

variable {es : Entries} {e : Failure}

/-- A document of which no text is found is one that cannot be shown. -/
private lemma Node.not_legible_of_shown {n : Node} (h : n.shown = .error e) :
    e = .fault .tooManyDigits ∧ ¬ n.Legible :=
  ⟨Node.shown_eq_error h, fun hlegible => hlegible.shown_ne_error e h⟩

/-- Only a map that cannot be shown keeps its description from being read. -/
private lemma description_fails (h : description es = .error e) :
    e = .fault .tooManyDigits ∧ ¬ es.Legible := by
  unfold description joinedText at h
  rcases Except.bind_eq_error.1 h with h | ⟨doc, -, h⟩
  · cases hdoc : es.field "doc" with
    | list lines =>
      rw [hdoc] at h
      rcases Except.bind_eq_error.1 h with h | ⟨texts, -, h⟩
      · obtain ⟨line, hline, hshown⟩ := Except.exists_of_mapM_eq_error h
        obtain ⟨rfl, hnot⟩ := Node.not_legible_of_shown hshown
        refine ⟨rfl, fun hes => hnot ?_⟩
        have hlines := hes.field "doc"
        rw [hdoc, Node.legible_list] at hlines
        exact hlines line hline
      · cases h
    | scalar _ | map _ | set _ | pair _ _ =>
      rw [hdoc] at h
      cases h
  · cases h

/-- Of the author no more than the name is shown. -/
private lemma authorIn_fails {keys : AuthorKeys} (h : authorIn es keys = .error e) :
    e = .fault .tooManyDigits ∧ ¬ es.Legible := by
  obtain ⟨author, fields, hpart, hfields, hname⟩ : ∃ (author : Node) (fields : Entries),
      (es.Legible → author.Legible) ∧ author.entries? = some fields ∧
        (fields.field keys.name).shown = .error e := by
    unfold authorIn at h
    simp only at h
    split at h
    · cases h
    · next fields hfields =>
      refine ⟨_, fields, fun hes => ?_, hfields, ?_⟩
      · have hauthor := hes.field keys.author
        split
        · next first rest hlist =>
          rw [hlist, Node.legible_list] at hauthor
          exact hauthor first List.mem_cons_self
        · exact hauthor
      · split_ifs at h
        · cases h
        · rcases Except.bind_eq_error.1 h with h | ⟨name, -, h⟩
          · exact Except.map_eq_error.1 h
          · cases h
  obtain ⟨rfl, hnot⟩ := Node.not_legible_of_shown hname
  refine ⟨rfl, fun hes => hnot ?_⟩
  cases author with
  | map es' =>
    cases hfields
    exact (Node.legible_map.1 (hpart hes)).field keys.name
  | scalar _ | list _ | set _ | pair _ _ => cases hfields

/-- Only a map that cannot be shown keeps its author from being read. -/
private lemma author_fails (h : author es = .error e) :
    e = .fault .tooManyDigits ∧ ¬ es.Legible := by
  unfold author at h
  rcases Except.bind_eq_error.1 h with h | ⟨found, -, h⟩
  · exact authorIn_fails h
  · cases found with
    | some author => cases h
    | none =>
      dsimp only at h
      split_ifs at h
      · cases h
      · exact authorIn_fails h

end Metadata

namespace Analyzer

variable {a : Analyzer} {root : SourceFile} {e : Failure} {t : ExpansionState}

/-- The text of the root is that of no document, or the expansion meets such a file where it wants a
document, or what the root is expanded to is no map. -/
inductive Malformed (a : Analyzer) (root : SourceFile) : Prop
  | root {e : Failure} (hload : load root.content (some root.path) = .error e) : Malformed a root
  | file {e : Failure} {t : ExpansionState} {path text : String}
    (hrun : (CwlDescriptor.expandText a.expander root.path root.content).run {} = .error e t)
    (hlast : t.requests.getLast? = some ⟨some path, true⟩) (hget : a.store.get? path = some text)
    (hload : load text (some path) = .error e) : Malformed a root
  | noMap {n : Node} {t : ExpansionState}
    (hrun : (CwlDescriptor.expandText a.expander root.path root.content).run {} = .ok n t)
    (hmap : n.entries? = none) : Malformed a root

/-- The expansion of a malformed root is refused, since a text cannot be read, or it is no map. -/
lemma Malformed.run (h : a.Reads root) (hmalformed : a.Malformed root) :
    (∃ refusal t, (CwlDescriptor.expandText a.expander root.path root.content).run {} =
        .error (.refused refusal) t ∧ refusal.cause.kind = .parseError) ∨
      ∃ n t, (CwlDescriptor.expandText a.expander root.path root.content).run {} = .ok n t ∧
        n.entries? = none := by
  cases hmalformed with
  | root hload =>
    obtain ⟨refusal, rfl⟩ := h.root _ hload
    refine .inl ⟨refusal, {}, ?_, (load_refused hload).1⟩
    unfold CwlDescriptor.expandText
    rw [hload]
    rfl
  | file hrun _ hget hload =>
    obtain ⟨refusal, rfl⟩ := h.store _ _ hget _ hload
    exact .inl ⟨refusal, _, hrun, (load_refused hload).1⟩
  | noMap hrun hmap => exact .inr ⟨_, _, hrun, hmap⟩

/-- Why the expansion of a root fails: a text cannot be read, or a limit is exceeded, or something
that is read has too many digits. -/
private lemma Reads.run_fails (h : a.Reads root)
    (hrun : (CwlDescriptor.expandText a.expander root.path root.content).run {} = .error e t) :
    (∃ refusal, e = .refused refusal ∧ refusal.cause.kind = .parseError ∧ a.Malformed root) ∨
      e.IsLimit ∨ (e = .fault .tooManyDigits ∧ ¬ a.Legible root) := by
  have hexplained := (h.expandText True).error hrun
  cases hload : load root.content (some root.path) with
  | error e' =>
    obtain ⟨refusal, rfl⟩ := h.root e' hload
    refine .inl ⟨refusal, ?_, (load_refused hload).1, .root hload⟩
    unfold CwlDescriptor.expandText at hrun
    rw [hload] at hrun
    cases hrun
    rfl
  | ok n =>
    have hwithin := (run_expandText hload).symm.trans hrun
    cases expandWithin_blames rfl hwithin with
    | limit hlimit => exact .inr (.inl hlimit)
    | unreadable hlast hget hread =>
      obtain ⟨refusal, rfl⟩ := h.store _ _ hget _ hread
      exact .inl ⟨refusal, rfl, (load_refused hread).1, .file hrun hlast hget hread⟩
    | digits =>
      cases hexplained with
      | digits hnot => exact .inr (.inr ⟨rfl, hnot⟩)
    | exhausted => cases hexplained

/-- How the metadata of a root are read. -/
inductive MetadataOutcome (a : Analyzer) (root : SourceFile) : Except Failure Metadata → Prop
  | empty (htext : root.content = "") : MetadataOutcome a root (.ok {})
  | malformed (message : String) (htext : root.content ≠ "") (h : a.Malformed root) :
    MetadataOutcome a root (.ok { messages := [(root.path, message)] })
  | described (description : Option String) (author : Option Author) (h : ¬ a.Malformed root) :
    MetadataOutcome a root (.ok { description := description, author := author })
  | limit {e : Failure} (he : e.IsLimit) (h : ¬ a.Malformed root) :
    MetadataOutcome a root (.error e)
  | digits (hnot : ¬ a.Legible root) (h : ¬ a.Malformed root) :
    MetadataOutcome a root (.error (.fault .tooManyDigits))

/-- **Malformed descriptors have a message instead of metadata**, and other ones do not.

**Proof sketch.** If the expansion fails since a text cannot be read, the descriptor is malformed,
and its failure is reported; in no other way does it fail for a malformed one. The metadata of a map
are texts that are shown, so that nothing but their digits matters then. -/
theorem Reads.readMetadata_outcome (h : a.Reads root) :
    a.MetadataOutcome root (readMetadata a.expander root.path root.content) := by
  unfold readMetadata
  split_ifs with htext
  · exact .empty htext
  cases hrun : (CwlDescriptor.expandText a.expander root.path root.content).run {} with
  | error e t =>
    -- a malformed descriptor fails with a parse error only
    have hsound : (∀ refusal, e = .refused refusal → refusal.cause.kind ≠ .parseError) →
        ¬ a.Malformed root := by
      intro hkind hmalformed
      rcases hmalformed.run h with ⟨refusal, t', hrefused, hparse⟩ | ⟨n, t', hok, -⟩
      · cases hrun.symm.trans hrefused
        exact hkind refusal rfl hparse
      · cases hrun.symm.trans hok
    rcases h.run_fails hrun with ⟨refusal, rfl, hparse, hmalformed⟩ | hlimit | ⟨rfl, hnot⟩
    · simp only [hparse, if_true]
      exact .malformed _ htext hmalformed
    · cases e with
      | refused refusal =>
        have hkind : refusal.cause.kind ≠ .parseError := by
          rw [show refusal.cause.kind = _ from hlimit]
          decide
        simp only [hkind, if_false]
        exact .limit hlimit (hsound fun _ heq => by cases heq; exact hkind)
      | fault _ | exhausted => exact hlimit.elim
    · exact .digits hnot (hsound nofun)
  | ok n t =>
    have hlegible := (h.expandText True).ok hrun
    cases hentries : n.entries? with
    | none =>
      simp only [hentries]
      exact .malformed _ htext (.noMap hrun hentries)
    | some es =>
      have hwell : ¬ a.Malformed root := by
        intro hmalformed
        rcases hmalformed.run h with ⟨refusal, t', hrefused, -⟩ | ⟨n', t', hok, hmap⟩
        · cases hrun.symm.trans hrefused
        · cases hrun.symm.trans hok
          rw [hentries] at hmap
          cases hmap
      have hes : a.Legible root → es.Legible := by
        intro hl
        cases n with
        | map es' =>
          cases hentries
          exact Node.legible_map.1 (hlegible hl)
        | scalar _ | list _ | set _ | pair _ _ => cases hentries
      simp only [hentries]
      cases hdescription : description es with
      | error e =>
        obtain ⟨rfl, hnot⟩ := description_fails hdescription
        exact .digits (mt hes hnot) hwell
      | ok d =>
        cases hauthor : author es with
        | error e =>
          obtain ⟨rfl, hnot⟩ := author_fails hauthor
          exact .digits (mt hes hnot) hwell
        | ok someone => exact .described d someone hwell

end Analyzer

/-! ## Discovery -/

section Discovery

variable {a : Analyzer} {root : SourceFile}

/-- **Files are discovered from every root that can be read.** -/
theorem Analyzer.Reads.discover_outcome (h : a.Reads root) :
    (∃ d, discover root a.store = .ok d) ∨
      ∃ refusal, refusal.cause.kind = .parseError ∧
        load root.content (some root.path) = .error (.refused refusal) ∧
        discover root a.store = .error (.refused refusal) := by
  cases hload : load root.content (some root.path) with
  | ok document =>
    left
    obtain ⟨d, hd, -, -⟩ := discover_exact root a.store ⟨document, hload⟩ fun f n hf _ =>
      h.store f.path f.content hf.path_content.2
    exact ⟨d, hd⟩
  | error e =>
    right
    obtain ⟨refusal, rfl⟩ := h.root e hload
    refine ⟨refusal, (load_refused hload).1, rfl, ?_⟩
    unfold discover
    simp only [Discovery.run, Discovery.step, hload, if_true]
    rfl

end Discovery

/-! ## Validations -/

/-- A validation says whether it has no messages. -/
def Validation.Consistent (v : Validation) : Prop :=
  v.valid = true ↔ v.messages = []

/-- A validation without messages has passed. -/
lemma Validation.Consistent.passed : Validation.passed.Consistent :=
  ⟨fun _ => rfl, fun _ => rfl⟩

/-- A validation with a message has failed. -/
lemma Validation.Consistent.failed (path message : String) :
    (Validation.failed path message).Consistent :=
  ⟨nofun, nofun⟩

/-- Why a version is refused, or else that it has too many digits. -/
private lemma Node.cwlVersion_eq_error {n : Node} {path : Option String} {e : Failure}
    (h : n.cwlVersion path = .error e) :
    (∃ refusal, e = .refused refusal) ∨
      (e = .fault .tooManyDigits ∧ (n.field "cwlVersion").shown? = none) := by
  unfold Node.cwlVersion at h
  simp only at h
  split_ifs at h with hnull
  · cases h
    exact .inl ⟨⟨.missingVersion, path⟩, rfl⟩
  rcases Except.bind_eq_error.1 h with hshown | ⟨text, -, h⟩
  · right
    unfold Node.shown at hshown
    cases htext : (n.field "cwlVersion").shown? with
    | some text =>
      rw [htext] at hshown
      cases hshown
    | none =>
      rw [htext] at hshown
      cases hshown
      exact ⟨rfl, rfl⟩
  · split_ifs at h
    · cases h
    · cases h
      exact .inl ⟨⟨.unsupportedVersion text, path⟩, rfl⟩

/-- **A descriptor is validated, whatever it is**, unless its version has too many digits. -/
theorem validateDescriptor_outcome {store : SourceStore} {path : String} (subject : Subject)
    (h : ∀ text, store.get? path = some text → Analyzer.Readable text (some path)) :
    (∃ v, validateDescriptor subject store path = .ok v ∧ v.Consistent) ∨
      (validateDescriptor subject store path = .error (.fault .tooManyDigits) ∧
        ∃ text n, store.get? path = some text ∧ load text (some path) = .ok n ∧
          (n.field "cwlVersion").shown? = none) := by
  unfold validateDescriptor
  cases hget : store.get? path with
  | none => exact .inl ⟨_, rfl, .failed _ _⟩
  | some text =>
    dsimp only
    split_ifs
    · exact .inl ⟨_, rfl, .failed _ _⟩
    cases hload : load text (some path) with
    | error e =>
      obtain ⟨refusal, rfl⟩ := h text hget e hload
      exact .inl ⟨_, rfl, .failed _ _⟩
    | ok n =>
      dsimp only
      split_ifs
      · unfold Node.hasValidVersion
        cases hversion : n.cwlVersion none with
        | ok version => exact .inl ⟨_, rfl, .passed⟩
        | error e =>
          rcases Node.cwlVersion_eq_error hversion with ⟨refusal, rfl⟩ | ⟨rfl, hlong⟩
          · exact .inl ⟨_, rfl, .failed _ _⟩
          · exact .inr ⟨rfl, text, n, rfl, hload, hlong⟩
      · exact .inl ⟨_, rfl, .failed _ _⟩

/-- A file of parameters can be read. -/
def SourceFile.IsDocument (file : SourceFile) : Prop :=
  ∃ document, load file.content (some file.path) = .ok document

/-- There are no messages if all files can be read, and if there were none before. -/
private lemma parameterMessages_outcome {files : List SourceFile} (messages : Table String)
    (h : ∀ file ∈ files, Analyzer.Readable file.content (some file.path)) :
    ∃ messages', parameterMessages messages files = .ok messages' ∧
      (messages' = [] ↔ messages = [] ∧ ∀ file ∈ files, file.IsDocument) := by
  induction files generalizing messages with
  | nil => exact ⟨messages, rfl, by simp⟩
  | cons file files ih =>
    obtain ⟨hfile, hfiles⟩ := List.forall_mem_cons.1 h
    unfold parameterMessages
    rw [List.forall_mem_cons]
    cases hload : load file.content (some file.path) with
    | ok document =>
      obtain ⟨messages', hok, hiff⟩ := ih messages hfiles
      have hdocument : file.IsDocument := ⟨document, hload⟩
      refine ⟨messages', hok, ?_⟩
      simpa [hdocument] using hiff
    | error e =>
      obtain ⟨refusal, rfl⟩ := hfile e hload
      obtain ⟨messages', hok, hiff⟩ := ih (Table.insert messages file.path
        ("Test parameter file is not valid JSON or YAML: " ++ refusal.message)) hfiles
      have hdocument : ¬ file.IsDocument := by
        rintro ⟨document, hok⟩
        rw [hload] at hok
        cases hok
      refine ⟨messages', hok, ?_⟩
      rw [hiff]
      simp [hdocument, Table.insert_ne_nil]

/-- **Files of parameters are validated, whatever they are.** -/
theorem validateParameters_outcome {files : List SourceFile}
    (h : ∀ file ∈ files, Analyzer.Readable file.content (some file.path)) :
    ∃ v, validateParameters files = .ok v ∧ v.Consistent ∧
      (v.valid = true ↔ ∀ file ∈ files, file.IsDocument) := by
  obtain ⟨messages, hok, hiff⟩ := parameterMessages_outcome [] h
  refine ⟨⟨messages.isEmpty, messages⟩, ?_, List.isEmpty_iff, ?_⟩
  · unfold validateParameters
    rw [hok]
    rfl
  · simpa using hiff

/-! ## All that is reported -/

/-- **Malformed descriptors are reported**, up to limits and digits, as long as every text is the
text of a document or refused.

* The metadata are read, with one message for the path of the root if this is malformed and not
  empty, and with none otherwise. Only an exceeded limit, or something that has too many digits to
  be shown, leaves nothing to report.
* Files are discovered from a root unless its own text is refused.
* A descriptor is validated, unless its version has too many digits to be shown, and so are files of
  parameters. What is validated is valid if and only if there are no messages.

**Proof sketch.** An expansion that fails at a text fails at the file that was asked for last, which
makes the descriptor malformed; all other parts read one text after another. -/
theorem Analyzer.reports {a : Analyzer} {root : SourceFile} (h : a.Reads root) (subject : Subject)
    (path : String) {files : List SourceFile}
    (hfiles : ∀ file ∈ files, Readable file.content (some file.path)) :
    ((∀ e, readMetadata a.expander root.path root.content = .error e →
        e.IsLimit ∨ (e = .fault .tooManyDigits ∧ ¬ a.Legible root)) ∧
      (∀ m, readMetadata a.expander root.path root.content = .ok m →
        m.messages = [] ∨ ∃ message, m.messages = [(root.path, message)]) ∧
      ((∃ m message, readMetadata a.expander root.path root.content = .ok m ∧
        m.messages = [(root.path, message)]) ↔ root.content ≠ "" ∧ a.Malformed root)) ∧
    ((∃ d, discover root a.store = .ok d) ∨
      ∃ refusal, refusal.cause.kind = .parseError ∧
        load root.content (some root.path) = .error (.refused refusal) ∧
        discover root a.store = .error (.refused refusal)) ∧
    ((∃ v, validateDescriptor subject a.store path = .ok v ∧ v.Consistent) ∨
      (validateDescriptor subject a.store path = .error (.fault .tooManyDigits) ∧
        ∃ text n, a.store.get? path = some text ∧ load text (some path) = .ok n ∧
          (n.field "cwlVersion").shown? = none)) ∧
    ∃ v, validateParameters files = .ok v ∧ v.Consistent ∧
      (v.valid = true ↔ ∀ file ∈ files, file.IsDocument) := by
  refine ⟨?_, h.discover_outcome, validateDescriptor_outcome subject (h.store path),
    validateParameters_outcome hfiles⟩
  have houtcome := h.readMetadata_outcome
  refine ⟨fun e he => ?_, fun m hm => ?_, ?_⟩
  · rw [he] at houtcome
    cases houtcome with
    | limit hlimit => exact .inl hlimit
    | digits hnot => exact .inr ⟨rfl, hnot⟩
  · rw [hm] at houtcome
    cases houtcome with
    | empty | described => exact .inl rfl
    | malformed message => exact .inr ⟨message, rfl⟩
  · generalize hresult : readMetadata a.expander root.path root.content = result at houtcome ⊢
    cases houtcome with
    | empty htext =>
      refine ⟨?_, fun hmalformed => absurd htext hmalformed.1⟩
      rintro ⟨m, message, hm, hmessages⟩
      cases hm
      cases hmessages
    | malformed message htext hmalformed =>
      exact ⟨fun _ => ⟨htext, hmalformed⟩, fun _ => ⟨_, message, rfl, rfl⟩⟩
    | described _ _ hwell =>
      refine ⟨?_, fun hmalformed => absurd hmalformed.2 hwell⟩
      rintro ⟨m, message, hm, hmessages⟩
      cases hm
      cases hmessages
    | limit _ hwell | digits _ hwell =>
      refine ⟨?_, fun hmalformed => absurd hmalformed.2 hwell⟩
      rintro ⟨m, message, hm, -⟩
      cases hm

/-- A descriptor that imports `ringText`, which is no document. -/
def strayRoot : SourceFile := ⟨"/main", "$import: text"⟩

/-- Why the file is refused. -/
def strayRefusal : Refusal := ⟨.unreadable .notYaml, some "/text"⟩

/-- The text of the root is read as a map with an import. -/
private lemma load_strayRoot : load strayRoot.content (some strayRoot.path) =
    .ok (.map [(.str "$import", .str "text")]) := by
  cbv

/-- The files of the analysis can be read. -/
private lemma reads_strayRoot : oddAnalyzer.Reads strayRoot where
  root e he := by
    rw [load_strayRoot] at he
    cases he
  store := reads_oddRoot.store

/-- The root imports a file that cannot be read. -/
private lemma malformed_strayRoot : oddAnalyzer.Malformed strayRoot := by
  obtain ⟨t, hfile, hlast⟩ : ∃ t, oddAnalyzer.expander.loadFile true (some ringText.path) {} =
      .ok (some ringText.content) t ∧ t.requests.getLast? = some ⟨some ringText.path, true⟩ :=
    ⟨_, rfl, rfl⟩
  have hread : oddAnalyzer.expander.read = load := rfl
  have hload (below : Below) : oddAnalyzer.expander.loadDocument below (.root "/main") "text" {} =
      .error (.refused strayRefusal) t := by
    unfold loadDocument
    rw [show Reference.target? "text" (Frame.root "/main").path = some ringText.path from rfl]
    simp only [bind_apply, hfile, hread, load_ringText]
    rfl
  have hrun : (CwlDescriptor.expandText oddAnalyzer.expander strayRoot.path
      strayRoot.content).run {} = .error (.refused strayRefusal) t := by
    rw [Analyzer.run_expandText load_strayRoot, expandWithin_eq, expandNode_map_whole]
    have hcheck : oddAnalyzer.expander.checkDepth (.root strayRoot.path) {} = .ok () {} := rfl
    have henter : oddAnalyzer.expander.enter (.root strayRoot.path)
        [(.str "$import", .str "text")] {} = .ok (none, .root "/main") {} := rfl
    have himport : (withId [(.str "$import", .str "text")] none).directive? .importing =
        some "text" := rfl
    have hdirect (below : Below) : oddAnalyzer.expander.direct below (.root "/main")
        (withId [(.str "$import", .str "text")] none) {} = .error (.refused strayRefusal) t := by
      unfold direct
      rw [himport]
      dsimp only
      rw [bind_apply, hload]
    rw [bind_apply, hcheck]
    dsimp only
    rw [bind_apply, henter]
    dsimp only
    rw [bind_apply, hdirect]
  exact .file hrun hlast rfl load_ringText

/-- What is said of a descriptor that imports a file which is no document, and of the file itself:
there is a message for each, and nothing is wrong with the discovery. -/
theorem stray_reports :
    oddAnalyzer.Reads strayRoot ∧
      (∀ file ∈ [ringText], Analyzer.Readable file.content (some file.path)) ∧
      (∃ m message, readMetadata oddAnalyzer.expander strayRoot.path strayRoot.content = .ok m ∧
        m.messages = [(strayRoot.path, message)]) ∧
      (∃ d, discover strayRoot oddAnalyzer.store = .ok d) ∧
      ∃ v, validateParameters [ringText] = .ok v ∧ v.valid = false := by
  have hfiles : ∀ file ∈ [ringText], Analyzer.Readable file.content (some file.path) := by
    intro file hfile
    obtain rfl := List.mem_singleton.1 hfile
    exact reads_strayRoot.store ringText.path ringText.content rfl
  obtain ⟨⟨-, -, hmetadata⟩, hdiscover, -, v, hv, -, hvalid⟩ :=
    Analyzer.reports reads_strayRoot .tool "/text" hfiles
  refine ⟨reads_strayRoot, hfiles, hmetadata.2 ⟨by decide, malformed_strayRoot⟩, ?_, v, hv, ?_⟩
  · rcases hdiscover with hfound | ⟨refusal, -, hload, -⟩
    · exact hfound
    · cases load_strayRoot.symm.trans hload
  · rw [Bool.eq_false_iff, ne_eq, hvalid]
    intro hall
    obtain ⟨document, hload⟩ := hall ringText (List.mem_singleton_self _)
    cases load_ringText.symm.trans hload

end CwlDescriptor
