import CwlDescriptor.Proofs.Cuts
import CwlDescriptor.Proofs.Paths
import Mathlib.Data.List.DropRight
set_option autoImplicit false

/-!
# Where references lead

A reference leads from the directory of the file that holds it, unless it begins with a slash. So
the path that it names is found by one walk from the root, through the segments of the path of the
file but the last one, and then through those of the reference. The slashes at the ends of the
pieces that are put together on the way make no difference, because empty segments lead nowhere.

What is found is a path in normal form: one slash, and then names with single slashes between them.

## Main definitions

* `Path.route`: the segments from the root to what a file refers to.
* `Path.height`: how far segments lead below the directory in which they begin.
* `Path.IsNormal`: the paths in normal form.

## Main results

* `Path.resolveChars_eq`: the path that a reference names is the path to where its route leads.
* `Path.isNormal_ofStack`: the path of a directory is in normal form.
* `Path.resolveChars_normalizeChars`: references from a file and from the normal form of its path.
* `Path.resolve_by_stack`: paths are resolved by a stack of names.
-/

namespace CwlDescriptor.Path

variable {p parent child : List Char} {stack : List (List Char)}

/-! ## The directory of a file -/

/-- The segments of two paths with a slash between them are those of both. -/
private lemma segments_append_slash (p q : List Char) :
    segments (p ++ '/' :: q) = segments p ++ segments q :=
  Text.splitOn_append_cons p q

/-- The slashes at the end of a path lead nowhere. -/
private lemma walk_segments_rdropWhile (p : List Char) :
    walk stack (segments (p.rdropWhile (· = '/'))) = walk stack (segments p) := by
  induction p using List.reverseRecOn with
  | nil => rfl
  | append_singleton p c ih =>
    by_cases hc : c = '/'
    · have hsegments : segments [] = [[]] := rfl
      rw [List.rdropWhile_concat_pos _ _ _ (by simpa using hc), ih, hc, segments_append_slash,
        walk_append, hsegments, walk_cons, step_nil, walk_nil]
    · rw [List.rdropWhile_concat_neg _ _ _ (by simpa using hc)]

/-- What stands in front of the last slash of a path is its directory, up to slashes at the end. -/
private lemma exists_join_directory (front : List Char) {last : List Char} (hlast : '/' ∉ last)
    (hchild : child.head? ≠ some '/') :
    ∃ dir, directory (front ++ '/' :: last) ≠ [] ∧
      join (directory (front ++ '/' :: last)) child = dir ++ '/' :: child ∧
      walk [] (segments dir) = walk [] (segments front) := by
  unfold directory
  rw [Text.throughLast_append front hlast]
  by_cases hall : (front ++ ['/']).all (· = '/') = true
  · refine ⟨front, ?_, ?_, rfl⟩ <;> simp [hall, join, hchild]
  · have hdir : ((front ++ ['/']).reverse.dropWhile (· = '/')).reverse =
        front.rdropWhile (· = '/') := by
      simp [List.rdropWhile]
    have hne : front.rdropWhile (· = '/') ≠ [] := by
      rw [ne_eq, List.rdropWhile_eq_nil_iff]
      intro h
      exact hall (by simpa using h)
    have hend : (front.rdropWhile (· = '/')).getLast? ≠ some '/' := by
      rw [List.getLast?_eq_some_getLast hne]
      intro h
      simpa [Option.some.inj h] using List.rdropWhile_last_not (· = '/') front hne
    refine ⟨front.rdropWhile (· = '/'), ?_, ?_, walk_segments_rdropWhile front⟩
    · rwa [if_neg hall, hdir]
    · rw [if_neg hall, hdir, join, if_neg hchild, if_neg (by simp [hne, hend])]

/-! ## The route to what a file refers to -/

/-- The segments from the root to what the file `parent` refers to by `child`: those of the
reference if it begins with a slash, and otherwise first those of the path of the file but the
last. -/
def route (parent child : List Char) : List (List Char) :=
  if child.head? = some '/' then segments child
  else (segments parent).dropLast ++ segments child

/-- A reference that is put behind the directory of a file leads where its route leads. -/
private lemma walk_segments_join (parent : List Char) (hchild : child.head? ≠ some '/') :
    walk [] (segments (join (if directory parent = [] then ['/'] else directory parent) child)) =
      walk [] ((segments parent).dropLast ++ segments child) := by
  have hlast := Text.not_mem_afterLast '/' parent
  rcases Text.exists_append_afterLast '/' parent with hparent | ⟨front, hparent⟩
  · -- a path without a slash is that of a file in the root
    rw [hparent] at hlast
    have hdir : directory parent = [] := by
      simp [directory, Text.throughLast_of_not_mem hlast]
    have hjoin : join ['/'] child = [] ++ '/' :: child := by simp [join, hchild]
    have hsegments : segments parent = [parent] := Text.splitOn_of_not_mem hlast
    rw [if_pos hdir, hjoin, segments_append_slash, hsegments]
    rfl
  · obtain ⟨dir, hne, hjoin, hwalk⟩ := exists_join_directory front hlast hchild
    have hsegments : segments parent = segments front ++ [Text.afterLast '/' parent] := by
      conv_lhs => rw [← hparent]
      rw [segments_append_slash]
      exact congrArg _ (Text.splitOn_of_not_mem hlast)
    rw [hparent] at hne hjoin
    rw [if_neg hne, hjoin, segments_append_slash, walk_append, hwalk, hsegments,
      List.dropLast_concat, walk_append]

/-- The path that a reference names is the path to the directory to which its route leads. -/
theorem resolveChars_eq (parent child : List Char) :
    resolveChars parent child = ofStack (walk [] (route parent child)) := by
  unfold resolveChars route
  split_ifs with hchild
  · exact normalizeChars_eq child
  · show normalizeChars (join (if directory parent = [] then ['/'] else directory parent) child) = _
    rw [normalizeChars_eq, walk_segments_join parent hchild]

/-- There is no slash in a segment of a route. -/
private lemma slash_not_mem_route : ∀ segment ∈ route parent child, '/' ∉ segment := by
  intro segment h
  unfold route at h
  split_ifs at h
  · exact Text.not_mem_of_mem_splitOn h
  · rcases List.mem_append.1 h with h | h
    · exact Text.not_mem_of_mem_splitOn (List.mem_of_mem_dropLast h)
    · exact Text.not_mem_of_mem_splitOn h

/-! ## Paths in normal form -/

/-- How far segments lead below the directory in which they begin; it is negative if they lead to a
directory above. -/
def height (segments : List (List Char)) : Int :=
  (segments.map fun segment =>
    if segment = [] || segment = ['.'] then 0 else if segment = ['.', '.'] then -1 else 1).sum

/-- A path in normal form is the root, or one slash in front of names. -/
structure IsNormal (p : List Char) : Prop where
  /-- It begins with exactly one slash. -/
  slash : p.takeWhile (· = '/') = ['/']
  isName : p ≠ ['/'] → ∀ segment ∈ segments p.tail, IsName segment
  getLast? : p ≠ ['/'] → p.getLast? ≠ some '/'
  /-- It does not leave the root on the way. -/
  height : ∀ n, 0 ≤ height ((segments p).take n)

/-- Without steps upwards, the height is not negative. -/
private lemma height_nonneg {names : List (List Char)}
    (h : ∀ name ∈ names, name = [] ∨ IsName name) :
    0 ≤ height names := by
  apply List.sum_nonneg
  intro rise hrise
  obtain ⟨name, hname, rfl⟩ := List.mem_map.1 hrise
  rcases h name hname with rfl | hname
  · exact le_rfl
  · simp [hname.ne_nil, hname.ne_dot, hname.ne_dots]

/-- Names are not empty. -/
private lemma nil_not_mem {names : List (List Char)} (h : ∀ name ∈ names, IsName name) :
    [] ∉ names :=
  fun hmem => (h [] hmem).ne_nil rfl

/-- One slash in front of names is a path in normal form: a slash at either end of the names would
leave an empty segment there. -/
private lemma isNormal_cons (h : ∀ segment ∈ segments p, IsName segment) : IsNormal ('/' :: p) where
  slash := by
    cases p with
    | nil => rfl
    | cons c p =>
      have hc : c ≠ '/' := by
        rintro rfl
        exact nil_not_mem h List.mem_cons_self
      simp [hc]
  isName _ := h
  getLast? _ := by
    intro hlast
    obtain ⟨front, hfront⟩ := List.getLast?_eq_some_iff.1 hlast
    cases front with
    | nil =>
      obtain rfl : p = [] := (List.cons.inj hfront).2
      exact nil_not_mem h List.mem_cons_self
    | cons c front =>
      obtain rfl : p = front ++ ['/'] := (List.cons.inj hfront).2
      rw [segments_append_slash] at h
      exact nil_not_mem h (List.mem_append_right _ List.mem_cons_self)
  height n := by
    apply height_nonneg
    intro name hname
    exact (List.mem_cons.1 (List.mem_of_mem_take hname)).imp_right (h name)

/-- The root directory is in normal form. -/
private lemma isNormal_root : IsNormal ['/'] where
  slash := rfl
  isName h := absurd rfl h
  getLast? h := absurd rfl h
  height n := by
    have hsegments : segments ['/'] = [[], []] := rfl
    apply height_nonneg
    intro name hname
    left
    simpa [hsegments] using List.mem_of_mem_take hname

/-- The path of a directory is in normal form. -/
lemma isNormal_ofStack (h : ∀ name ∈ stack, IsName name) : IsNormal (ofStack stack) := by
  by_cases hstack : stack = []
  · subst hstack
    exact isNormal_root
  · have hsegments : segments (List.intercalate ['/'] stack.reverse) = stack.reverse :=
      (List.cons.inj (segments_ofStack h hstack)).2
    apply isNormal_cons
    intro segment hsegment
    rw [hsegments] at hsegment
    exact h segment (List.mem_reverse.1 hsegment)

/-! ## References from the normal form of a path -/

/-- Following the path of a directory but for the last name leads to its parent. -/
private lemma walk_dropLast_segments_ofStack {name : List Char}
    (h : ∀ name' ∈ name :: stack, IsName name') :
    walk [] (segments (ofStack (name :: stack))).dropLast = stack := by
  have hstack : ∀ name' ∈ stack.reverse, IsName name' :=
    fun name' hname' => h name' (List.mem_cons_of_mem _ (List.mem_reverse.1 hname'))
  rw [segments_ofStack h (List.cons_ne_nil _ _), List.reverse_cons, ← List.cons_append,
    List.dropLast_concat, walk_cons, step_nil, walk_of_isName hstack]
  simp

/-- If the path of a file ends with a name, its references name the same paths as those of a file
whose path is the normal form. -/
theorem resolveChars_normalizeChars {name : List Char}
    (hlast : (segments parent).getLast? = some name) (hname : IsName name) (child : List Char) :
    resolveChars (normalizeChars parent) child = resolveChars parent child := by
  obtain ⟨front, hfront⟩ := List.getLast?_eq_some_iff.1 hlast
  have hwalk : walk [] (segments parent) = name :: walk [] front := by
    rw [hfront, walk_append, walk_cons, step_of_isName hname, walk_nil]
  have hnames := isName_walk_segments parent
  rw [resolveChars_eq, resolveChars_eq, normalizeChars_eq]
  unfold route
  split_ifs
  · rfl
  · rw [hwalk] at hnames ⊢
    rw [walk_append, walk_append, walk_dropLast_segments_ofStack hnames, hfront,
      List.dropLast_concat]

/-- **Paths are resolved by a stack of names.** The path that a file refers to and the normal form
of a path are found by following segments from the root: the empty segment and the dot stay, two
dots take the innermost name away if there is one, and any other segment is added. What is found
begins with one slash, consists of names with single slashes between them and does not leave the
root. The normal form of a path is its own normal form; and if the path of a file ends with a name,
the references of the file name the same paths from its normal form.

**Proof sketch.** The functions that put paths together and simplify them differ from the walk only
in the slashes that they leave, add or take away, and these make empty segments. A walk from the
root adds only names to its stack, and a walk through names leads to these names. -/
theorem resolve_by_stack (parent child p : String) :
    (resolve parent child).toList = ofStack (walk [] (route parent.toList child.toList)) ∧
    (normalize p).toList = ofStack (walk [] (segments p.toList)) ∧
    IsNormal (resolve parent child).toList ∧ IsNormal (normalize p).toList ∧
    normalize (normalize p) = normalize p ∧
    ∀ name, (segments parent.toList).getLast? = some name → IsName name →
      resolve (normalize parent) child = resolve parent child := by
  have hresolve : (resolve parent child).toList =
      ofStack (walk [] (route parent.toList child.toList)) := by
    rw [resolve, String.toList_ofList, resolveChars_eq]
  have hnormalize : (normalize p).toList = ofStack (walk [] (segments p.toList)) := by
    rw [normalize, String.toList_ofList, normalizeChars_eq]
  refine ⟨hresolve, hnormalize, ?_, ?_, normalize_normalize p, fun name hlast hname => ?_⟩
  · rw [hresolve]
    exact isNormal_ofStack (isName_walk (fun _ => slash_not_mem_route _) (by simp))
  · rw [hnormalize]
    exact isNormal_ofStack (isName_walk_segments p.toList)
  · rw [resolve, resolve, normalize, String.toList_ofList,
      resolveChars_normalizeChars hlast hname]

/-- The path of the file has a double slash, a dot and two dots, and the reference leaves the root
on its way. -/
theorem tangled_resolve_by_stack :
    (segments "tools//./../lib/main.cwl".toList).getLast? = some "main.cwl".toList ∧
      IsName "main.cwl".toList ∧
      resolve (normalize "tools//./../lib/main.cwl") "../../a.cwl" =
        resolve "tools//./../lib/main.cwl" "../../a.cwl" ∧
      resolve "tools//./../lib/main.cwl" "../../a.cwl" = "/a.cwl" := by
  have hlast : (segments "tools//./../lib/main.cwl".toList).getLast? = some "main.cwl".toList := rfl
  have hname : IsName "main.cwl".toList := ⟨by decide, by decide, by decide, by decide⟩
  obtain ⟨-, -, -, -, -, h⟩ := resolve_by_stack "tools//./../lib/main.cwl" "../../a.cwl" ""
  exact ⟨hlast, hname, h _ hlast hname, rfl⟩

/-- The last segment of a path is left out whatever it is; two dots are no name of a file. -/
example :
    resolve "lib/.." "a.cwl" = "/lib/a.cwl" ∧ resolve (normalize "lib/..") "a.cwl" = "/a.cwl" :=
  ⟨rfl, rfl⟩

end CwlDescriptor.Path
