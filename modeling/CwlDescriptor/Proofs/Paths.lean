import CwlDescriptor.Path
import Mathlib.Tactic
set_option autoImplicit false

/-!
# Normal forms of paths

The normal form of a path is found by following its segments from the root: a stack holds the names
of the directory that was reached. The segments of a path in normal form are names, which are
followed as they stand. So a path that is in normal form already is its own normal form, and every
path that a reference names is in normal form.

## Main definitions

* `Path.walk`: follows segments from a directory, given as a stack of names.
* `Path.ofStack`: the path from the root to a directory.
* `Path.IsName`: a segment that leads into a directory.

## Main results

* `Path.normalizeChars_eq`: the normal form of a path is the path to where its segments lead.
* `Path.walk_segments_ofStack`: following the path of a directory leads to this directory.
* `Path.normalize_normalize`, `Path.normalize_resolve`: paths that are in normal form.
-/

namespace CwlDescriptor

namespace Text

variable {sep : Char}

/-- A path is split as a list is. -/
private lemma splitOn_eq (s : List Char) : splitOn sep s = s.splitOn sep := by
  induction s with
  | nil => rfl
  | cons c s ih =>
    rw [splitOn, List.splitOn_cons_eq_if_modifyHead, ih]
    by_cases hc : c = sep
    · simp [hc]
    · rw [if_neg hc, if_neg (by simpa using hc)]
      cases h : s.splitOn sep with
      | nil => exact absurd h (List.splitOn_ne_nil _ _)
      | cons piece pieces => rfl

/-- Splitting gives at least one part. -/
lemma splitOn_ne_nil (sep : Char) (s : List Char) : splitOn sep s ≠ [] := by
  rw [splitOn_eq]
  exact List.splitOn_ne_nil _ _

/-- A text without a separator is one part. -/
lemma splitOn_of_not_mem {s : List Char} (h : sep ∉ s) : splitOn sep s = [s] := by
  rw [splitOn_eq, List.splitOn_eq_singleton h]

/-- The pieces of two texts with a separator between them. -/
lemma splitOn_append_cons (s t : List Char) :
    splitOn sep (s ++ sep :: t) = splitOn sep s ++ splitOn sep t := by
  rw [splitOn_eq, splitOn_eq, splitOn_eq, List.splitOn_append_cons_self]

/-- There is no separator in a piece. -/
lemma not_mem_of_mem_splitOn {s piece : List Char} (h : piece ∈ splitOn sep s) : sep ∉ piece := by
  rw [splitOn_eq] at h
  induction s generalizing piece with
  | nil => simp_all
  | cons c s ih =>
    rw [List.splitOn_cons_eq_if_modifyHead] at h
    split_ifs at h with hc
    · rcases List.mem_cons.1 h with rfl | h
      · exact List.not_mem_nil
      · exact ih h
    · have hne : sep ≠ c := fun h => hc (by simp [h])
      cases hs : s.splitOn sep with
      | nil => exact absurd hs (List.splitOn_ne_nil _ _)
      | cons first rest =>
        rw [hs] at h ih
        rcases List.mem_cons.1 h with rfl | h
        · simpa [hne] using ih List.mem_cons_self
        · exact ih (List.mem_cons_of_mem _ h)

end Text

namespace Path

/-! ## Directories as stacks of names -/

/-- One step from a directory, given by its names with the innermost first: the empty segment and
the dot stay, two dots go to the parent, and any other name goes down. -/
def step (stack : List (List Char)) (segment : List Char) : List (List Char) :=
  if segment = [] || segment = ['.'] then stack
  else if segment = ['.', '.'] then stack.tail
  else segment :: stack

/-- Follows segments from a directory. -/
def walk (stack : List (List Char)) (segments : List (List Char)) : List (List Char) :=
  segments.foldl step stack

/-- The path with the given names, the innermost first. -/
def ofStack (stack : List (List Char)) : List Char :=
  '/' :: List.intercalate ['/'] stack.reverse

variable {stack : List (List Char)}

/-- At the end of a path the walk is over. -/
@[simp] lemma walk_nil : walk stack [] = stack := rfl

/-- A path is walked one segment after another. -/
@[simp] lemma walk_cons (segment : List Char) (segments : List (List Char)) :
    walk stack (segment :: segments) = walk (step stack segment) segments := rfl

/-- Two parts of a path are walked one after the other. -/
lemma walk_append (segments segments' : List (List Char)) :
    walk stack (segments ++ segments') = walk (walk stack segments) segments' :=
  List.foldl_append

/-- An empty segment leads nowhere. -/
@[simp] lemma step_nil : step stack [] = stack := rfl

/-! ## The normal form as the end of a walk -/

/-- Two dots lead to the parent, or stay at the root; they are no name of a directory. -/
private lemma dots_not_mem_step (h : ['.', '.'] ∉ stack) (segment : List Char) :
    ['.', '.'] ∉ step stack segment := by
  unfold step
  split_ifs with hstays hdots
  · exact h
  · exact fun hmem => h (List.mem_of_mem_tail hmem)
  · exact List.not_mem_cons_of_ne_of_not_mem (Ne.symm hdots) h

/-- From a root, a path without detours gets longer and shorter as the stack of a walk. -/
private lemma shorten_eq_step (h : ['.', '.'] ∉ stack) (segment : List Char) :
    shorten true stack segment = step stack segment := by
  have hhead : stack.head? ≠ some ['.', '.'] := fun hhead => h (List.mem_of_head? hhead)
  by_cases hdots : segment = ['.', '.'] <;> simp [shorten, step, hdots, hhead]

/-- The segments of a path from the root are shortened as they are walked. -/
private lemma foldl_shorten (h : ['.', '.'] ∉ stack) (segments : List (List Char)) :
    segments.foldl (shorten true) stack = walk stack segments := by
  induction segments generalizing stack with
  | nil => rfl
  | cons segment segments ih =>
    rw [List.foldl_cons, shorten_eq_step h, walk_cons]
    exact ih (dots_not_mem_step h segment)

/-- A path with one slash in front of it is simplified by a walk from the root. -/
private lemma simplify_cons_slash {p : List Char} (h : p.head? ≠ some '/') :
    simplify ('/' :: p) = ofStack (walk [] (segments p)) := by
  have hslashes : rootSlashes ('/' :: p) = 1 := by
    cases p with
    | nil => rfl
    | cons c p => simp_all [rootSlashes]
  have hsegments : segments ('/' :: p) = [] :: segments p := rfl
  have hwalk : (segments ('/' :: p)).foldl (shorten true) [] = walk [] (segments p) := by
    rw [foldl_shorten List.not_mem_nil, hsegments, walk_cons, step_nil]
  simp [simplify, hslashes, hwalk, ofStack]

/-- The slashes that a path begins with lead nowhere. -/
private lemma walk_segments_dropWhile (p : List Char) :
    walk stack (segments (p.dropWhile (· = '/'))) = walk stack (segments p) := by
  induction p with
  | nil => rfl
  | cons c p ih =>
    by_cases hc : c = '/'
    · have hsegments : segments (c :: p) = [] :: segments p := if_pos hc
      rw [List.dropWhile_cons_of_pos (by simpa using hc), ih, hsegments, walk_cons, step_nil]
    · rw [List.dropWhile_cons_of_neg (by simpa using hc)]

/-- The normal form of a path is the path to the directory to which its segments lead. -/
theorem normalizeChars_eq (p : List Char) :
    normalizeChars p = ofStack (walk [] (segments p)) := by
  have hhead : (p.dropWhile (· = '/')).head? ≠ some '/' := by
    intro hhead
    simpa [hhead] using List.head?_dropWhile_not (· = '/') p
  rw [normalizeChars, simplify_cons_slash hhead, walk_segments_dropWhile]

/-! ## Names -/

/-- A segment that leads into a directory: it is neither empty nor one or two dots. -/
structure IsName (segment : List Char) : Prop where
  ne_nil : segment ≠ []
  ne_dot : segment ≠ ['.']
  ne_dots : segment ≠ ['.', '.']
  slash : '/' ∉ segment

/-- A name leads one directory down. -/
lemma step_of_isName {segment : List Char} (h : IsName segment) :
    step stack segment = segment :: stack := by
  simp [step, h.ne_nil, h.ne_dot, h.ne_dots]

/-- A directory has only names above it, and so have those to which segments lead from it. -/
private lemma isName_step (hstack : ∀ name ∈ stack, IsName name) {segment : List Char}
    (h : '/' ∉ segment) : ∀ name ∈ step stack segment, IsName name := by
  unfold step
  by_cases hstays : segment = [] ∨ segment = ['.']
  · simpa [hstays] using hstack
  · rw [not_or] at hstays
    by_cases hdots : segment = ['.', '.']
    · simpa [hdots] using fun name hname => hstack name (List.mem_of_mem_tail hname)
    · simpa [hstays.1, hstays.2, hdots] using
        And.intro (⟨hstays.1, hstays.2, hdots, h⟩ : IsName segment) hstack

/-- A walk passes through directories with names only. -/
lemma isName_walk {segments : List (List Char)} (h : ∀ segment ∈ segments, '/' ∉ segment)
    (hstack : ∀ name ∈ stack, IsName name) : ∀ name ∈ walk stack segments, IsName name := by
  induction segments generalizing stack with
  | nil => exact hstack
  | cons segment segments ih =>
    rw [List.forall_mem_cons] at h
    exact ih h.2 (isName_step hstack h.1)

/-- Names are followed as they stand. -/
lemma walk_of_isName {names : List (List Char)} (h : ∀ name ∈ names, IsName name) :
    walk stack names = names.reverse ++ stack := by
  induction names generalizing stack with
  | nil => rfl
  | cons name names ih =>
    rw [List.forall_mem_cons] at h
    rw [walk_cons, step_of_isName h.1, ih h.2]
    simp

/-- The path of a directory consists of the names on the way to it. -/
lemma segments_ofStack (h : ∀ name ∈ stack, IsName name) (hstack : stack ≠ []) :
    segments (ofStack stack) = [] :: stack.reverse := by
  have hnames : ∀ name ∈ stack.reverse, '/' ∉ name :=
    fun name hname => (h name (List.mem_reverse.1 hname)).slash
  show [] :: segments (List.intercalate ['/'] stack.reverse) = _
  rw [segments, Text.splitOn_eq, List.splitOn_intercalate _ hnames (by simpa using hstack)]

/-- Following the path of a directory from the root leads to this directory. -/
theorem walk_segments_ofStack (h : ∀ name ∈ stack, IsName name) :
    walk [] (segments (ofStack stack)) = stack := by
  by_cases hstack : stack = []
  · subst hstack
    rfl
  · have hnames : ∀ name ∈ stack.reverse, IsName name :=
      fun name hname => h name (List.mem_reverse.1 hname)
    rw [segments_ofStack h hstack, walk_cons, step_nil, walk_of_isName hnames]
    simp

/-- The names on the way that a path describes. -/
lemma isName_walk_segments (p : List Char) : ∀ name ∈ walk [] (segments p), IsName name :=
  isName_walk (fun _ => Text.not_mem_of_mem_splitOn) (by simp)

/-- The normal form is its own normal form. -/
private lemma normalizeChars_normalizeChars (p : List Char) :
    normalizeChars (normalizeChars p) = normalizeChars p := by
  rw [normalizeChars_eq, normalizeChars_eq, walk_segments_ofStack (isName_walk_segments p)]

/-- The normal form of a path is in normal form. -/
theorem normalize_normalize (p : String) : normalize (normalize p) = normalize p := by
  unfold normalize
  rw [String.toList_ofList, normalizeChars_normalizeChars]

/-- The path that a reference names is in normal form. -/
theorem normalize_resolve (parent child : String) :
    normalize (resolve parent child) = resolve parent child := by
  unfold normalize resolve resolveChars
  rw [String.toList_ofList]
  split_ifs <;> rw [normalizeChars_normalizeChars]

end Path

end CwlDescriptor
