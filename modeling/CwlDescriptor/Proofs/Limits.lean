import CwlDescriptor.Proofs.Counters
import CwlDescriptor.Proofs.Expansion.Coupling
import CwlDescriptor.Proofs.Failures
import CwlDescriptor.Proofs.Termination
set_option autoImplicit false

/-!
# Limits and the outcome of an expansion

A limit makes itself felt in one way only: an expansion that exceeds it ends. Until then nothing
depends on it, neither the document nor what is recorded. So greater limits do not change an
outcome that was not due to a limit, and an expansion that goes on where a limit is exceeded does
the same as one that stops there, up to its first warning.

## Main definitions

* `Limits.Within`: limits that are not greater than others.
* `Expander.lenient`: the expander that goes on where a limit is exceeded.
* `Coupling.raised`, `Coupling.lenient`: the couplings with other limits and with that expander.

## Main results

* `expand_raised`: greater limits do not change an outcome that was not due to a limit.
* `expand_lenient`: a strict expansion stops at the first warning of a lenient one, and does the
  same if there is none.
-/

namespace CwlDescriptor

open Expansion Expander

/-! ## Greater limits -/

/-- Every limit is at most as great as another one. -/
structure Limits.Within (l l' : Limits) : Prop where
  depth : l.maxDepth ≤ l'.maxDepth
  characters : l.maxCharacters ≤ l'.maxCharacters
  files : l.maxFiles ≤ l'.maxFiles

/-- A limit is within the greater one. -/
lemma Limits.Within.bound {l l' : Limits} (h : l.Within l') (limit : Limit) :
    l.bound limit ≤ l'.bound limit := by
  cases limit with
  | depth => exact h.depth
  | characters => exact h.characters
  | files => exact h.files

/-- Two computations end alike unless the first one fails since it exceeds a limit. -/
def Expansion.AgreesUnlessLimited {α : Type} (m m' : Expansion α) : Prop :=
  ∀ s, m' s = m s ∨ ∃ e t, m s = .error e t ∧ e.IsLimit

namespace Expansion.AgreesUnlessLimited

variable {α β : Type} {m m' : Expansion α} {f f' : α → Expansion β}

/-- A computation agrees with itself. -/
lemma refl (m : Expansion α) : AgreesUnlessLimited m m := fun _ => .inl rfl

/-- Sequences agree unless limited if both of their parts do. -/
lemma bind (hm : AgreesUnlessLimited m m') (hf : ∀ a, AgreesUnlessLimited (f a) (f' a)) :
    AgreesUnlessLimited (m >>= f) (m' >>= f') := by
  intro s
  rw [bind_apply, bind_apply]
  rcases hm s with heq | ⟨e, t, hm, he⟩
  · rw [heq]
    cases m s with
    | ok a t => exact hf a t
    | error e t => exact .inl rfl
  · rw [hm]
    exact .inr ⟨e, t, rfl, he⟩

end Expansion.AgreesUnlessLimited

section Raised

variable {x : Expander} (hstrict : x.strict = true) {limits : Limits}
  (hlimits : x.limits.Within limits)

include hstrict hlimits

/-- The checks of the depth agree unless limited. -/
private lemma checkDepth_raised (frame : Frame) :
    AgreesUnlessLimited (x.checkDepth frame)
      ({ x with limits := limits }.checkDepth frame) := by
  intro s
  have hdepth := hlimits.depth
  rw [checkDepth_strict hstrict, checkDepth_strict (x := { x with limits := limits }) hstrict]
  by_cases h : x.limits.maxDepth < frame.depth
  · rw [if_pos h]
    exact .inr ⟨_, _, rfl, rfl⟩
  · have h' : ¬ (limits.maxDepth : Int) < frame.depth := by omega
    rw [if_neg h, if_neg h']
    exact .inl rfl

/-- The checks of a counter agree unless limited. -/
private lemma checkCount_raised (limit : Limit) (count : ExpansionState → Nat)
    (path : Option String) :
    AgreesUnlessLimited (x.checkCount limit count path)
      ({ x with limits := limits }.checkCount limit count path) := by
  intro s
  have hbound := hlimits.bound limit
  rcases Nat.lt_or_ge (x.limits.bound limit) (count s) with hlt | hle
  · exact .inr ⟨_, s, checkCount_of_lt hstrict hlt, rfl⟩
  · rw [checkCount_of_le hle, checkCount_of_le (x := { x with limits := limits })
      (Nat.le_trans hle hbound)]
    exact .inl rfl

/-- The loads of a file agree unless limited. -/
private lemma loadFile_raised (asDocument : Bool) (path : Option String) :
    AgreesUnlessLimited (x.loadFile asDocument path)
      ({ x with limits := limits }.loadFile asDocument path) := by
  unfold loadFile
  refine .bind (.refl _) fun _ => ?_
  refine .bind (checkCount_raised hstrict hlimits _ _ _) fun _ => ?_
  cases path.bind x.store.get? with
  | none => exact .refl _
  | some content =>
    refine .bind (.refl _) fun _ => ?_
    exact .bind (checkCount_raised hstrict hlimits _ _ _) fun _ => .refl _

/-- An expansion and that of the same document with greater limits. -/
def Coupling.raised : Coupling x { x with limits := limits } where
  Related := AgreesUnlessLimited
  pure _ := .refl _
  throw _ := .refl _
  bind := .bind
  merge := .refl _
  checkDepth := checkDepth_raised hstrict hlimits
  loadFile := loadFile_raised hstrict hlimits
  claimId _ _ := .refl _
  read := .refl x

end Raised

/-- An expansion that ends with some number of levels has the same outcome with any other number
that is not too small. -/
private lemma expand_eq_of_ne_exhausted {x : Expander} (hstrict : x.strict = true)
    (hread : ∀ text path, x.read text path ≠ .error .exhausted) {levels : Nat} {frame : Frame}
    {document : Node} {s : ExpansionState}
    (h : ∀ t, x.expandWithin levels .whole frame document s ≠ .error .exhausted t) :
    x.expand frame document s = x.expandWithin levels .whole frame document s := by
  rcases Nat.le_total levels x.limits.maxFiles with hle | hle
  · exact expandWithin_mono hle frame document s h
  · exact (expandWithin_eq_expand hstrict hread (by omega) frame document).symm

/-- **Greater limits do not change an outcome that was not due to a limit.** If an expansion with
strict limits returns a document or fails for another reason than a limit, then with limits that are
all at least as great it has the same outcome and ends in the same state.

**Proof sketch.** Every check of a limit succeeds with the greater limits where it succeeds with the
smaller ones, and then changes nothing. What is computed does not depend on the limits otherwise,
but for the number of levels, and of these there are enough for the smaller limits already. -/
theorem expand_raised (x : Expander) (hstrict : x.strict = true)
    (hread : ∀ text path, x.read text path ≠ .error .exhausted) (limits : Limits)
    (hlimits : x.limits.Within limits) (frame : Frame) (document : Node) (s : ExpansionState)
    (houtcome : ∀ e t, x.expand frame document s = .error e t → ¬ e.IsLimit) :
    { x with limits := limits }.expand frame document s = x.expand frame document s := by
  have hends := (expand_terminates x hstrict hread frame document s).1
  have hrelated := (Coupling.raised hstrict hlimits).expandWithin_related x.limits.maxFiles .whole
    frame document s
  rcases hrelated with hsame | ⟨e, t, he, hlimit⟩
  · have hends' : ∀ t, { x with limits := limits }.expandWithin x.limits.maxFiles .whole frame
        document s ≠ .error .exhausted t := by
      rw [hsame]
      exact hends
    exact (expand_eq_of_ne_exhausted (x := { x with limits := limits }) hstrict hread hends').trans
      hsame
  · exact absurd hlimit (houtcome e t he)

/-- A repository with a file that is not well formed, of which two files may be asked for, and three
characters. -/
def torn : Expander where
  store := .ofFiles [⟨"/f", "[]"⟩, ⟨"/g", "]"⟩]
  limits := { maxDepth := 1, maxCharacters := 3, maxFiles := 2 }
  newId n := toString n

/-- Imports of the two files. -/
def tornImports : Node :=
  .list [.map [(.str "$import", .str "f")], .map [(.str "$import", .str "g")]]

/-- The file that is not well formed is refused with greater limits too, and the counters are the
same. -/
theorem torn_expand_raised :
    torn.strict = true ∧ (∀ text path, torn.read text path ≠ .error .exhausted) ∧
      torn.limits.Within {} ∧
      ∃ e t, torn.expand (.root "/main") tornImports {} = .error e t ∧ ¬ e.IsLimit ∧
        t.charCount = 3 ∧ { torn with limits := {} }.expand (.root "/main") tornImports {} =
          .error e t := by
  have hlimits : torn.limits.Within {} := ⟨by decide, by decide, by decide⟩
  obtain ⟨t, h, hcharacters⟩ : ∃ t, torn.expand (.root "/main") tornImports {} =
      .error (.refuse (.unreadable .notYaml) (some "/g")) t ∧ t.charCount = 3 := ⟨_, rfl, rfl⟩
  refine ⟨rfl, load_ne_exhausted, hlimits, _, t, h, nofun, hcharacters, ?_⟩
  rw [expand_raised torn rfl load_ne_exhausted {} hlimits _ _ _ fun e' t' h' => ?_, h]
  rw [h] at h'
  cases h'
  nofun

/-! ## Going on where a limit is exceeded -/

/-- The expander that goes on where a limit is exceeded. -/
def Expander.lenient (x : Expander) : Expander := { x with strict := false }

/-- What a warning says. -/
def Warning.message (w : Warning) (limits : Limits) : String :=
  Cause.limitText w.limit (limits.bound w.limit)

/-- A computation stops where another one records its first warning, with all that is recorded by
then, and ends like it if it records none. -/
def Expansion.StopsAtWarning {α : Type} (limits : Limits) (m m' : Expansion α) : Prop :=
  ∀ s, ∃ recorded, (final m' s).warnings = s.warnings ++ recorded ∧
    match recorded with
    | [] => m s = m' s
    | w :: _ => ∃ u,
        m s = .error (.refuse (.limitExceeded w.limit (limits.bound w.limit)) w.path) u ∧
        u.warning w.limit w.path = w

namespace Expansion.StopsAtWarning

variable {α β : Type} {limits : Limits} {m m' : Expansion α} {f f' : α → Expansion β}

/-- A computation without warnings. -/
lemma of_silent (h : ∀ s, (final m s).warnings = s.warnings) : StopsAtWarning limits m m :=
  fun s => ⟨[], by rw [h, List.append_nil], rfl⟩

/-- The warnings of a sequence are those of its parts. -/
lemma bind (hm : StopsAtWarning limits m m') (hf : ∀ a, StopsAtWarning limits (f a) (f' a)) :
    StopsAtWarning limits (m >>= f) (m' >>= f') := by
  intro s
  obtain ⟨recorded, hrecorded, hm⟩ := hm s
  cases hr : m' s with
  | error e t =>
    refine ⟨recorded, by rw [final_bind_of_error hr, ← final_of_error hr, hrecorded], ?_⟩
    rw [bind_apply, bind_apply, hr]
    cases recorded with
    | nil =>
      show _ = EStateM.Result.error e t
      rw [hm, hr]
    | cons w ws =>
      obtain ⟨u, hu, hw⟩ := hm
      exact ⟨u, by rw [hu], hw⟩
  | ok a t =>
    obtain ⟨recorded', hrecorded', hf⟩ := hf a t
    refine ⟨recorded ++ recorded', ?_, ?_⟩
    · rw [final_bind_of_ok hr, hrecorded', ← final_of_ok hr, hrecorded, List.append_assoc]
    · rw [bind_apply, bind_apply, hr]
      cases recorded with
      | nil =>
        rw [hm, hr]
        exact hf
      | cons w ws =>
        obtain ⟨u, hu, hw⟩ := hm
        exact ⟨u, by rw [hu], hw⟩

end Expansion.StopsAtWarning

section Lenient

variable {x : Expander} (hstrict : x.strict = true)

include hstrict

/-- Where one expander stops, the other one records a warning. -/
private lemma exceed_lenient (limit : Limit) (path : Option String) :
    StopsAtWarning x.limits (x.exceed limit path) (x.lenient.exceed limit path) := by
  intro s
  rw [exceed_strict hstrict]
  exact ⟨[s.warning limit path], rfl, s, rfl, rfl⟩

/-- The check of the depth stops where the lenient one gives a warning. -/
private lemma checkDepth_lenient (frame : Frame) :
    StopsAtWarning x.limits (x.checkDepth frame) (x.lenient.checkDepth frame) := by
  unfold checkDepth
  by_cases h : x.limits.maxDepth < frame.depth
  · rw [if_pos h, if_pos (c := (x.lenient.limits.maxDepth : Int) < frame.depth) h]
    exact exceed_lenient hstrict .depth _
  · rw [if_neg h, if_neg (c := (x.lenient.limits.maxDepth : Int) < frame.depth) h]
    exact .of_silent fun _ => rfl

/-- The check of a counter stops where the lenient one gives a warning. -/
private lemma checkCount_lenient (limit : Limit) (count : ExpansionState → Nat)
    (path : Option String) :
    StopsAtWarning x.limits (x.checkCount limit count path)
      (x.lenient.checkCount limit count path) := by
  unfold checkCount
  refine .bind (.of_silent fun _ => rfl) fun s => ?_
  by_cases h : x.limits.bound limit < count s
  · rw [if_pos h, if_pos (c := x.lenient.limits.bound limit < count s) h]
    exact exceed_lenient hstrict limit _
  · rw [if_neg h, if_neg (c := x.lenient.limits.bound limit < count s) h]
    exact .of_silent fun _ => rfl

/-- The load of a file stops where the lenient one gives a warning. -/
private lemma loadFile_lenient (asDocument : Bool) (path : Option String) :
    StopsAtWarning x.limits (x.loadFile asDocument path)
      (x.lenient.loadFile asDocument path) := by
  unfold loadFile
  refine .bind (.of_silent fun _ => rfl) fun _ => ?_
  refine .bind (checkCount_lenient hstrict _ _ _) fun _ => ?_
  rw [show x.lenient.store = x.store from rfl]
  cases path.bind x.store.get? with
  | none => exact .of_silent fun _ => rfl
  | some content =>
    refine .bind (.of_silent fun _ => rfl) fun _ => ?_
    exact .bind (checkCount_lenient hstrict _ _ _) fun _ => .of_silent fun _ => rfl

/-- A strict expansion and the lenient one of the same document. -/
def Coupling.lenient : Coupling x x.lenient where
  Related := StopsAtWarning x.limits
  pure _ := .of_silent fun _ => rfl
  throw _ := .of_silent fun _ => rfl
  bind := .bind
  merge := .of_silent fun _ => rfl
  checkDepth := checkDepth_lenient hstrict
  loadFile := loadFile_lenient hstrict
  claimId es path := .of_silent fun s => by
    unfold final
    rcases claimId_cases x es path s with ⟨id, -, -, h⟩ | ⟨-, h⟩ <;> rw [h] <;> rfl
  read := .refl x

end Lenient

/-- **A strict expansion stops at the first warning of a lenient one.** Suppose that an expansion
which goes on where a limit is exceeded comes to an end. If it records no warning, then the strict
expansion has the same outcome and ends in the same state. Otherwise the strict expansion is refused
with the message and the path of the first warning, and with the ids and the counters that the
lenient expansion had when it recorded that warning.

**Proof sketch.** Both expansions take the same steps up to the first check that fails, and a check
that succeeds changes nothing. If there is one that fails, it ends the strict expansion, however
the lenient one goes on; warnings are only ever added, so that it stays the first one. -/
theorem expand_lenient (x : Expander) (hstrict : x.strict = true)
    (hread : ∀ text path, x.read text path ≠ .error .exhausted) (levels : Nat) (frame : Frame)
    (document : Node) (s : ExpansionState)
    (hends : ∀ t, x.lenient.expandWithin levels .whole frame document s ≠ .error .exhausted t) :
    ∃ recorded, (final (x.lenient.expandWithin levels .whole frame document) s).warnings =
        s.warnings ++ recorded ∧
      match recorded with
      | [] => x.expand frame document s = x.lenient.expandWithin levels .whole frame document s
      | w :: _ => ∃ refusal t, x.expand frame document s = .error (.refused refusal) t ∧
          refusal.cause.kind = .recursionLimitExceeded ∧
          refusal.message = "CWL might be recursive: " ++ w.message x.limits ∧
          refusal.path = w.path ∧ t.idPaths = w.idPaths ∧ t.fileCount = w.fileCount ∧
          t.charCount = w.charCount := by
  obtain ⟨recorded, hrecorded, h⟩ :=
    (Coupling.lenient hstrict).expandWithin_related levels .whole frame document s
  refine ⟨recorded, hrecorded, ?_⟩
  cases recorded with
  | nil =>
    have hsame : x.expandWithin levels .whole frame document s =
        x.lenient.expandWithin levels .whole frame document s := h
    rw [← hsame] at hends ⊢
    exact expand_eq_of_ne_exhausted hstrict hread hends
  | cons w ws =>
    obtain ⟨u, hu, hw⟩ := h
    have hexpand : x.expand frame document s =
        .error (.refuse (.limitExceeded w.limit (x.limits.bound w.limit)) w.path) u := by
      rw [← hu]
      refine expand_eq_of_ne_exhausted hstrict hread fun t ht => ?_
      rw [hu] at ht
      cases ht
    have hids : u.idPaths = w.idPaths := congrArg Warning.idPaths hw
    have hfiles : u.fileCount = w.fileCount := congrArg Warning.fileCount hw
    have hcharacters : u.charCount = w.charCount := congrArg Warning.charCount hw
    exact ⟨_, u, hexpand, rfl, rfl, rfl, hids, hfiles, hcharacters⟩

/-- The second of two imports is one file too many. The lenient expansion comes to an end with one
warning, of which the strict one says the same; and there is no warning where two files are
allowed. -/
theorem narrowShelf_expand_lenient :
    narrowShelf.strict = true ∧ (∀ text path, narrowShelf.read text path ≠ .error .exhausted) ∧
      (∀ t, narrowShelf.lenient.expandWithin 1 .whole (.root "/main") twice {} ≠
        .error .exhausted t) ∧
      (∃ refusal t, narrowShelf.expand (.root "/main") twice {} = .error (.refused refusal) t ∧
        refusal.message = "CWL might be recursive: maximum file count (1) exceeded" ∧
        refusal.path = some "/f" ∧ t.fileCount = 2 ∧ t.charCount = 2) ∧
      shelf.expand (.root "/main") twice {} =
        shelf.lenient.expandWithin 1 .whole (.root "/main") twice {} := by
  have hread : ∀ text path, narrowShelf.read text path ≠ .error .exhausted := load_ne_exhausted
  have hends : ∀ t, narrowShelf.lenient.expandWithin 1 .whole (.root "/main") twice {} ≠
      .error .exhausted t := nofun
  have hends' : ∀ t, shelf.lenient.expandWithin 1 .whole (.root "/main") twice {} ≠
      .error .exhausted t := nofun
  refine ⟨rfl, hread, hends, ?_, ?_⟩
  · obtain ⟨recorded, hrecorded, h⟩ := expand_lenient narrowShelf rfl hread 1 _ twice {} hends
    have hw : recorded = [⟨.files, some "/f", [], 2, 2⟩] := hrecorded.symm
    subst hw
    obtain ⟨refusal, t, ht, -, hmessage, hpath, -, hfiles, hcharacters⟩ := h
    exact ⟨refusal, t, ht, hmessage, hpath, hfiles, hcharacters⟩
  · obtain ⟨recorded, hrecorded, h⟩ :=
      expand_lenient shelf rfl load_ne_exhausted 1 _ twice {} hends'
    have hw : recorded = [] := hrecorded.symm
    subst hw
    exact h

end CwlDescriptor
