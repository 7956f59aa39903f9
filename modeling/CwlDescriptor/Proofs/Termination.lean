import CwlDescriptor.Proofs.Expansion.Contract
import CwlDescriptor.Proofs.Expansion.Simulation
set_option autoImplicit false

/-!
# Expansions with strict limits come to an end

A file may refer to itself, and a document that is merged into a map may bring further references
into it, which are followed at the same depth. What comes to an end is the number of files that may
still be asked for: every document that is expanded inside another one, and every map into which a
document was merged, is preceded by a request of its own.

## Main definitions

* `Contract.budget`: how the number of requests is bounded.
* `Simulation.identity`: an expansion in lockstep with itself.

## Main results

* `expandWithin_eq_expand`: more levels than files that may still be asked for make no difference.
* `expand_terminates`: an expansion never uses up its levels, its outcome does not depend on their
  number, and it asks for one file more than the limit leaves at most.
-/

namespace CwlDescriptor

open Expansion Expander

/-- Reading a text never ends for want of levels. -/
lemma load_ne_exhausted (text : String) (path : Option String) :
    load text path ≠ .error .exhausted := by
  unfold load
  cases Yaml.load text.toList with
  | ok n => simp [Except.mapError]
  | error e => cases e <;> simp [Except.mapError, Yaml.LoadError.toFailure, Failure.refuse]

/-! ## The number of requests -/

/-- Between the states `s` and `t` every request was counted, and no more files were asked for than
the limit and `extra` files beyond it. -/
def WithinFiles (x : Expander) (extra : Nat) (s t : ExpansionState) : Prop :=
  t.requests.length + s.fileCount = s.requests.length + t.fileCount ∧ s.fileCount ≤ t.fileCount ∧
    t.fileCount ≤ max s.fileCount x.limits.maxFiles + extra

namespace WithinFiles

variable {x : Expander} {extra : Nat} {s t u : ExpansionState}

/-- Without requests, the number of files is right. -/
lemma of_eq (hr : t.requests = s.requests) (hf : t.fileCount = s.fileCount) :
    WithinFiles x extra s t := by
  refine ⟨?_, ?_, ?_⟩
  · rw [hr, hf]
  · rw [hf]
  · omega

/-- Two runs of requests one after another are as many as both together. -/
lemma trans (h : WithinFiles x 0 s t) (h' : WithinFiles x extra t u) :
    WithinFiles x extra s u := by
  obtain ⟨hr, hf, hm⟩ := h
  obtain ⟨hr', hf', hm'⟩ := h'
  exact ⟨by omega, by omega, by omega⟩

/-- A request that is not more than `extra` files beyond the limit. -/
private lemma of_request {r : Request} (hr : t.requests = s.requests ++ [r])
    (hf : t.fileCount = s.fileCount + 1)
    (hm : t.fileCount ≤ max s.fileCount x.limits.maxFiles + extra) : WithinFiles x extra s t := by
  refine ⟨?_, by omega, hm⟩
  rw [hr, hf, List.length_append, List.length_singleton]
  omega

end WithinFiles

/-- With strict limits every request is counted, and only one within the limit succeeds. -/
private lemma loadFile_counts {x : Expander} (hstrict : x.strict = true) (asDocument : Bool)
    (path : Option String) (s : ExpansionState) :
    (x.loadFile asDocument path).Ensures s
      (fun _ t => t.requests = s.requests ++ [⟨path, asDocument⟩] ∧
        t.fileCount = s.fileCount + 1 ∧ t.fileCount ≤ x.limits.maxFiles)
      (fun e t => e ≠ .exhausted ∧ t.requests = s.requests ++ [⟨path, asDocument⟩] ∧
        t.fileCount = s.fileCount + 1) := by
  unfold Ensures
  rw [loadFile_strict hstrict]
  by_cases hf : x.limits.maxFiles < s.fileCount + 1
  · rw [if_pos hf]
    exact ⟨nofun, rfl, rfl⟩
  · rw [if_neg hf]
    cases path.bind x.store.get? with
    | none => exact ⟨rfl, rfl, Nat.not_lt.1 hf⟩
    | some content =>
      by_cases hc : x.limits.maxCharacters < s.charCount + Text.length content
      · simp only [if_pos hc]
        exact ⟨nofun, rfl, rfl⟩
      · simp only [if_neg hc]
        exact ⟨rfl, rfl, Nat.not_lt.1 hf⟩

section Budget

variable {x : Expander} (hstrict : x.strict = true)
  (hread : ∀ text path, x.read text path ≠ .error .exhausted)

/-- Every request is counted, a request beyond the limit is the last one, and a computation never
uses up its levels if these are not fewer than the files that may still be asked for. -/
def Contract.budget : Contract x where
  ready
    | 0, _ => False
    | levels + 1, s => x.limits.maxFiles ≤ s.fileCount + levels
  success := WithinFiles x 0
  failure e s t := e ≠ .exhausted ∧ WithinFiles x 1 s t
  refl s := .of_eq rfl rfl
  trans := WithinFiles.trans
  failure_trans h h' := ⟨h'.1, h.trans h'.2⟩
  ready_of_success := by
    rintro (_ | levels) s t hs ⟨-, h, -⟩
    · exact hs
    · exact Nat.le_trans hs (Nat.add_le_add_right h levels)
  exhausted := False.elim
  checkDepth frame s := by
    unfold Ensures
    rw [checkDepth_strict hstrict]
    split_ifs
    · exact ⟨nofun, .of_eq rfl rfl⟩
    · exact .of_eq rfl rfl
  claimId es path s := by
    rcases claimId_cases x es path s with ⟨id, -, -, h⟩ | ⟨-, h⟩
    · exact .of_ok h (.of_eq rfl rfl)
    · exact .of_ok h (.of_eq rfl rfl)
  loadFile levels asDocument path s hs := by
    refine (loadFile_counts hstrict asDocument path s).weaken ?_ ?_
    · rintro _ t ⟨hr, hf, hm⟩
      refine ⟨.of_request hr hf (by omega), ?_⟩
      cases levels with
      | zero =>
        -- without a level that is left, this request is beyond the limit and does not succeed
        have hs : x.limits.maxFiles ≤ s.fileCount + 0 := hs
        omega
      | succ levels =>
        have hs : x.limits.maxFiles ≤ s.fileCount + (levels + 1) := hs
        show x.limits.maxFiles ≤ t.fileCount + levels
        omega
    · rintro e t ⟨he, hr, hf⟩
      exact ⟨he, .of_request hr hf (by omega)⟩
  merge s := .of_eq rfl rfl
  read text path e s _ _ h := ⟨fun he => hread text (some path) (he ▸ h), .of_eq rfl rfl⟩
  shown n e s h := by
    refine ⟨?_, .of_eq rfl rfl⟩
    rintro rfl
    unfold Node.shown at h
    split at h <;> cases h

include hstrict hread in
/-- With levels for all files that may still be asked for, an expansion keeps to the budget. -/
private lemma keeps_budget {levels : Nat} {s : ExpansionState}
    (h : x.limits.maxFiles - s.fileCount ≤ levels) (stage : Stage) (frame : Frame) (n : Node) :
    (x.expandWithin levels stage frame n).Ensures s (fun _ t => WithinFiles x 0 s t)
      (fun e t => e ≠ .exhausted ∧ WithinFiles x 1 s t) := by
  have hs : (Contract.budget hstrict hread).ready (levels + 1) s := by
    show x.limits.maxFiles ≤ s.fileCount + levels
    omega
  exact Ensures.weaken (Contract.expandWithin_meets _ levels stage frame n s hs)
    (fun _ _ ht => ht.1) fun _ _ ht => ht

end Budget

/-! ## The number of levels -/

/-- A computation follows itself. -/
lemma Expansion.Followed.refl {α : Type} {excused : Failure → Prop} (m : Expansion α)
    (s : ExpansionState) : Followed Eq excused Eq m m s s := by
  unfold Followed
  cases m s with
  | ok a t => exact ⟨a, t, rfl, rfl, rfl⟩
  | error e t => exact .inr ⟨t, rfl, rfl⟩

/-- An expansion in lockstep with itself; nothing is promised if it uses up its levels. -/
def Simulation.identity (x : Expander) : Simulation x x where
  state := Eq
  frame := Eq
  version := Eq
  excused e := e = .exhausted
  exhausted := rfl
  version_refl _ := rfl
  supportsMixin_eq := by rintro f _ rfl; rfl
  target?_eq := by rintro f _ rfl reference; rfl
  frame_version := by rintro f _ v _ rfl rfl; rfl
  frame_load := by rintro f _ path rfl; rfl
  read := .refl x
  merge := by rintro s _ rfl; rfl
  checkDepth := by
    rintro f _ rfl s _ rfl
    exact .refl _ s
  loadFile := by
    rintro asDocument path s _ rfl
    exact .refl _ s
  claimId := by
    rintro f _ rfl es es' h s _ rfl
    rw [show x.claimId es' f.path = x.claimId es f.path by
      unfold Expander.claimId neededId
      rw [h]]
    exact .refl _ s

/-- An expansion that does not use up its levels has the same outcome with more of them. -/
lemma expandWithin_mono {x : Expander} {levels levels' : Nat} (h : levels ≤ levels')
    (frame : Frame) (n : Node) (s : ExpansionState)
    (hne : ∀ t, x.expandWithin levels .whole frame n s ≠ .error .exhausted t) :
    x.expandWithin levels' .whole frame n s = x.expandWithin levels .whole frame n s := by
  have hframe : (Simulation.identity x).frame frame frame := rfl
  have hm := Simulation.expandWithin_matches (fun _ _ _ => False) (fun _ _ _ => False.elim)
    (fun _ _ _ _ _ _ _ => False.elim) h hframe (.refl n) s s rfl
  unfold Followed at hm
  cases hr : x.expandWithin levels .whole frame n s with
  | ok r t =>
    rw [hr] at hm
    obtain ⟨_, _, hr', rfl, rfl⟩ := hm
    exact hr'
  | error e t =>
    rw [hr] at hm
    rcases hm with rfl | ⟨_, hr', rfl⟩
    · exact absurd hr (hne t)
    · exact hr'

section Termination

variable {x : Expander} (hstrict : x.strict = true)
  (hread : ∀ text path, x.read text path ≠ .error .exhausted)

include hstrict hread

/-- With levels for all files that may still be asked for, an expansion does not use them up. -/
lemma expandWithin_ne_exhausted {levels : Nat} {s : ExpansionState}
    (h : x.limits.maxFiles - s.fileCount ≤ levels) (stage : Stage) (frame : Frame) (n : Node)
    (t : ExpansionState) : x.expandWithin levels stage frame n s ≠ .error .exhausted t := by
  intro hr
  have hk := keeps_budget hstrict hread h stage frame n
  unfold Ensures at hk
  rw [hr] at hk
  exact hk.1 rfl

/-- More levels than files that may still be asked for make no difference. -/
lemma expandWithin_eq_expand {levels : Nat} {s : ExpansionState}
    (h : x.limits.maxFiles - s.fileCount ≤ levels) (frame : Frame) (n : Node) :
    x.expandWithin levels .whole frame n s = x.expand frame n s := by
  unfold expand
  rcases Nat.le_total levels x.limits.maxFiles with hle | hle
  · exact (expandWithin_mono hle frame n s
      (expandWithin_ne_exhausted hstrict hread h .whole frame n)).symm
  · exact expandWithin_mono hle frame n s
      (expandWithin_ne_exhausted hstrict hread (Nat.sub_le _ _) .whole frame n)

end Termination

/-- **Expansions come to an end.** With strict limits, an expansion returns a document or fails for
a reason other than the number of its levels; its outcome is that of the recursion without a bound
on the levels, since it is the same for all numbers of levels that are not smaller than the number
of files that may still be asked for; and no more than one file beyond these is asked for.

**Proof sketch.** Every nested document, and every map into which a document was merged, comes after
a request of its own that succeeded. A request beyond the limit fails and ends the expansion. -/
theorem expand_terminates (x : Expander) (hstrict : x.strict = true)
    (hread : ∀ text path, x.read text path ≠ .error .exhausted) (frame : Frame) (document : Node)
    (s : ExpansionState) :
    (∀ t, x.expand frame document s ≠ .error .exhausted t) ∧
    (∀ levels, x.limits.maxFiles - s.fileCount ≤ levels →
      x.expandWithin levels .whole frame document s = x.expand frame document s) ∧
    (final (x.expand frame document) s).requests.length ≤
      s.requests.length + (x.limits.maxFiles - s.fileCount) + 1 := by
  refine ⟨expandWithin_ne_exhausted hstrict hread (Nat.sub_le _ _) .whole frame document,
    fun levels h => expandWithin_eq_expand hstrict hread h frame document, ?_⟩
  have hk := keeps_budget hstrict hread (Nat.sub_le _ s.fileCount) .whole frame document
  unfold Ensures at hk
  unfold final expand
  cases hr : x.expandWithin x.limits.maxFiles .whole frame document s with
  | ok r t =>
    rw [hr] at hk
    obtain ⟨hreq, hcount, hmax⟩ := hk
    show t.requests.length ≤ _
    omega
  | error e t =>
    rw [hr] at hk
    obtain ⟨-, hreq, hcount, hmax⟩ := hk
    show t.requests.length ≤ _
    omega

/-- A repository with one file, which holds a mixin of itself. The mixin is of no effect in the
file, whose version has none, but it takes effect in every map of the first version that the file is
merged into, and at the same depth each time. -/
def remixing : Expander where
  store := .ofFiles [⟨"/m.cwl", "{class: Workflow, cwlVersion: v1.2, a: {$mixin: m.cwl}}"⟩]
  limits := { maxFiles := 3 }
  newId n := toString n

/-- An entry of the first version that the file is merged into. -/
def remixed : Node :=
  .map [(.str "class", .str "Workflow"), (.str "cwlVersion", .str "v1.0"),
    (.str "$mixin", .str "m.cwl")]

/-- The mixin that brings itself along is followed four times at most. -/
theorem remixing_expand_terminates :
    remixing.strict = true ∧ (∀ text path, remixing.read text path ≠ .error .exhausted) ∧
      (∀ t, remixing.expand (.root "/main.cwl") remixed {} ≠ .error .exhausted t) ∧
      (final (remixing.expand (.root "/main.cwl") remixed) {}).requests.length ≤ 4 := by
  have h := expand_terminates remixing rfl load_ne_exhausted (.root "/main.cwl") remixed {}
  exact ⟨rfl, load_ne_exhausted, h.1, h.2.2⟩

end CwlDescriptor
