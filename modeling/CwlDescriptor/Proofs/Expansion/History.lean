import CwlDescriptor.Proofs.Expansion.Contract
import CwlDescriptor.Proofs.Expansion.Derivation
import CwlDescriptor.Proofs.Tables
set_option autoImplicit false

/-!
# The history of an expansion

What an expansion has recorded stays: requests, made ids and merges are only ever added, and the
paths of ids are kept as long as no id is made that is that of another entry. This is a contract, so
that it holds of all expansions and of all parts of a derivation.

## Main definitions

* `Later`: a state comes after another one.
* `Contract.history`: every computation ends in a later state.
* `Expander.documentOf?`: the document that is read for a request.

## Main results

* `expandWithin_later`: an expansion ends in a later state, whether it succeeds or fails.
* `Expands.later`, and the same for the other derivations.
-/

namespace CwlDescriptor

open Expansion Expander

/-- The state `t` comes after the state `s` in an expansion. -/
structure Later (s t : ExpansionState) : Prop where
  requests : s.requests <+: t.requests
  idCount : s.idCount ≤ t.idCount
  clashes : s.clashes ≤ t.clashes
  merges : s.merges ≤ t.merges
  /-- The paths of ids are kept if no id was made that was that of another entry. -/
  kept : t.clashes = s.clashes → ∀ id path, Table.get? s.idPaths id = some path →
    Table.get? t.idPaths id = some path

namespace Later

variable {s t u : ExpansionState}

/-- A state is as late as itself. -/
lemma refl (s : ExpansionState) : Later s s :=
  ⟨List.prefix_rfl, Nat.le_refl _, Nat.le_refl _, Nat.le_refl _, fun _ _ _ => id⟩

/-- What is later than a later state is later. -/
lemma trans (h : Later s t) (h' : Later t u) : Later s u where
  requests := h.requests.trans h'.requests
  idCount := h.idCount.trans h'.idCount
  clashes := h.clashes.trans h'.clashes
  merges := h.merges.trans h'.merges
  kept hc id path hp := by
    have hst := h.clashes
    have htu := h'.clashes
    exact h'.kept (by omega) id path (h.kept (by omega) id path hp)

/-- A run without merges had none before. -/
lemma merges_eq_zero (h : Later s t) (ht : t.merges = 0) : s.merges = 0 :=
  Nat.le_zero.1 (ht ▸ h.merges)

/-- If no id has clashed in the end, none has clashed before. -/
lemma clashes_eq_zero (h : Later s t) (ht : t.clashes = 0) : s.clashes = 0 :=
  Nat.le_zero.1 (ht ▸ h.clashes)

/-- A state that only counts more files and characters, asks for more files and warns more. -/
private lemma of_files {fileCount charCount : Nat} {requests : List Request}
    {warnings : List Warning} :
    Later s { s with
      fileCount := fileCount
      charCount := charCount
      requests := s.requests ++ requests
      warnings := warnings } :=
  ⟨List.prefix_append _ _, Nat.le_refl _, Nat.le_refl _, Nat.le_refl _, fun _ _ _ => id⟩

/-- A state with other warnings is as late. -/
private lemma of_warnings {warnings : List Warning} : Later s { s with warnings := warnings } :=
  ⟨List.prefix_rfl, Nat.le_refl _, Nat.le_refl _, Nat.le_refl _, fun _ _ _ => id⟩

/-- Recording an id that no entry has claimed. -/
private lemma of_recorded {id : String} (h : Table.hasKey s.idPaths id = false) (path : String) :
    Later s (recorded s id path) where
  requests := List.prefix_rfl
  idCount := Nat.le_refl _
  clashes := Nat.le_refl _
  merges := Nat.le_refl _
  kept _ id' path' hp := by
    show Table.get? (Table.insert s.idPaths id _) id' = some path'
    rw [Table.get?_insert, if_neg, hp]
    rintro rfl
    rw [Table.hasKey_eq_false_iff.1 h] at hp
    cases hp

/-- Making an id and recording it. -/
private lemma of_made (x : Expander) (s : ExpansionState) (path : String) :
    Later s (recorded (x.made s) (x.newId s.idCount) path) := by
  cases hk : Table.hasKey s.idPaths (x.newId s.idCount) with
  | false =>
    have hmade : Later s (x.made s) := by
      unfold made
      rw [hk]
      exact ⟨List.prefix_rfl, Nat.le_succ _, Nat.le_refl _, Nat.le_refl _, fun _ _ _ => id⟩
    exact hmade.trans (of_recorded (s := x.made s) hk path)
  | true =>
    have hclashes : (recorded (x.made s) (x.newId s.idCount) path).clashes = s.clashes + 1 := by
      show (if Table.hasKey s.idPaths (x.newId s.idCount) then s.clashes + 1 else s.clashes) = _
      rw [hk]
      rfl
    refine ⟨List.prefix_rfl, Nat.le_succ _, by omega, Nat.le_refl _, fun hc => ?_⟩
    omega

end Later

/-- Every computation ends in a later state. -/
def Contract.history (x : Expander) : Contract x where
  ready _ _ := True
  success := Later
  failure _ := Later
  refl := .refl
  trans := .trans
  failure_trans := .trans
  ready_of_success _ _ := trivial
  exhausted _ := .refl _
  checkDepth frame s := by
    refine checkDepth_ensures.weaken ?_ ?_
    · rintro _ _ ⟨ws, rfl⟩
      exact .of_warnings
    · rintro _ _ rfl
      exact .refl _
  claimId es path s := by
    rcases claimId_cases x es path s with ⟨id, -, hfree, h⟩ | ⟨-, h⟩
    · exact .of_ok h (.of_recorded hfree path)
    · exact .of_ok h (.of_made x s path)
  loadFile _ asDocument path s _ := by
    refine (loadFile_ensures asDocument path).weaken ?_ ?_
    · rintro _ _ ⟨-, ws, rfl⟩
      exact ⟨.of_files, trivial⟩
    · rintro _ _ ⟨chars, ws, rfl⟩
      exact .of_files
  merge s := ⟨List.prefix_rfl, Nat.le_refl _, Nat.le_refl _, Nat.le_succ _, fun _ _ _ => id⟩
  read _ _ _ _ _ _ _ := .refl _
  shown _ _ _ _ := .refl _

/-- **An expansion ends in a later state**, whether it succeeds or fails. -/
theorem expandWithin_later (x : Expander) (levels : Nat) (stage : Stage) (frame : Frame)
    (n : Node) (s : ExpansionState) :
    Later s (final (x.expandWithin levels stage frame n) s) := by
  have h := (Contract.history x).expandWithin_meets levels stage frame n s trivial
  unfold Contract.Keeps Ensures at h
  unfold final
  cases hr : x.expandWithin levels stage frame n s with
  | ok r t =>
    rw [hr] at h
    exact h.1
  | error e t =>
    rw [hr] at h
    exact h

section Derivations

variable {x : Expander} {levels : Nat} {stage : Stage} {frame : Frame} {s t : ExpansionState}

/-- The check of the depth leads to a later state. -/
lemma checkDepth_later {u : Unit} (h : x.checkDepth frame s = .ok u t) : Later s t :=
  ((Contract.history x).checkDepth frame s).ok h

/-- The load of a file leads to a later state. -/
lemma loadFile_later {asDocument : Bool} {path content : Option String}
    (h : x.loadFile asDocument path s = .ok content t) : Later s t :=
  (((Contract.history x).loadFile 0 asDocument path s trivial).ok h).1

/-- Entering a map leads to a later state. -/
lemma enter_later {es : Entries} {a : Option String × Frame}
    (h : x.enter frame es s = .ok a t) : Later s t :=
  ((@Contract.meets_enter x (Contract.history x) 0 frame es s trivial).ok h).1

/-- The expansion of a document leads to a later state. -/
lemma Expands.later {n r : Node} (h : Expands x levels stage frame n s r t) : Later s t :=
  (((Contract.history x).expandWithin_meets levels stage frame n s trivial).ok
    (expands_iff.1 h)).1

/-- The expansion of a list leads to a later state. -/
lemma ExpandsItems.later {items items' : List Node}
    (h : ExpandsItems x levels frame items s items' t) : Later s t :=
  ((Contract.meets_expandItems (Contract.meets_inner (Contract.history x) levels)
    frame items s trivial).ok h.ok).1

/-- The expansion of the values of a map leads to a later state. -/
lemma ExpandsEntries.later {r : Replacements} {es es' : Entries}
    (h : ExpandsEntries x levels frame r es s es' t) : Later s t :=
  ((Contract.meets_expandEntries (Contract.meets_inner (Contract.history x) levels)
    frame r es s trivial).ok h.ok).1

/-- Following the text at `run` leads to a later state. -/
lemma ExpandsRun.later {es es' : Entries} (h : ExpandsRun x levels frame es s es' t) :
    Later s t :=
  ((Contract.meets_expandRun (Contract.meets_inner (Contract.history x) levels)
    frame es s trivial).ok h.ok).1

/-- Following the directives of a map leads to a later state. -/
lemma Directs.later {es : Entries} {directed : Directed}
    (h : Directs x levels frame es s directed t) : Later s t :=
  ((Contract.keeps_direct (Contract.meets_inner (Contract.history x) levels)
    frame es trivial).ok h.ok).1

/-- Loading a document leads to a later state. -/
lemma Loads.later {reference : String} {document : Option Node}
    (h : Loads x levels frame reference s document t) : Later s t :=
  ((Contract.keeps_loadDocument (Contract.meets_inner (Contract.history x) levels)
    frame reference trivial).ok h.ok).1

end Derivations

/-! ## The documents that are read -/

/-- The document that is read for a request. -/
def Expander.documentOf? (x : Expander) (r : Request) : Option Node :=
  if r.asDocument then
    r.path.bind fun path =>
      (x.store.get? path).bind fun text => (x.read text (some path)).toOption
  else none

/-- The request for a document that was found and read. -/
lemma documentOf?_of_loadFile {x : Expander} {path text : String} {document : Node}
    {s t : ExpansionState} (h : x.loadFile true (some path) s = .ok (some text) t)
    (hread : x.read text (some path) = .ok document) :
    t.requests = s.requests ++ [⟨some path, true⟩] ∧
      x.documentOf? ⟨some path, true⟩ = some document := by
  obtain ⟨hcontent, ws, rfl⟩ := loadFile_eq_ok h
  have hget : x.store.get? path = some text := hcontent.symm
  exact ⟨rfl, by simp [documentOf?, hget, hread, Except.toOption]⟩

end CwlDescriptor
