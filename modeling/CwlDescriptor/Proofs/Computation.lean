import CwlDescriptor.Expansion.Expand
import Mathlib.Tactic
set_option autoImplicit false

/-!
# Computations with a state that survives failure

How the outcome of a sequence of computations is composed of the outcomes of its parts, and what the
steps of an expansion that follow no reference do to the state. All later arguments about expansions
open computations by these lemmas only.

## Main definitions

* `Expansion.final`: the state at the end of a computation, whether it succeeds or fails.
* `Expansion.Ensures`: a promise about the outcome of a computation that begins in a state.
* `Expander.counted`, `Expander.charged`, `Expander.made`, `Expander.recorded`: what the steps of an
  expansion make of a state.
* `Expander.inner`: the expansion of documents in other files at a number of levels.
* `Expander.expandValue`: the expansion of the value of a key.

## Main results

* `Expansion.bind_eq_ok`, `Expansion.Ensures.bind`: the outcome of a sequence.
* `Expander.checkDepth_ensures`, `Expander.loadFile_ensures`, `Expander.claimId_cases`,
  `Expander.enter_eq_ok`: what the steps of an expansion do.
* `Expander.loadFile_strict`: the three outcomes of asking for a file if limits are strict.
-/

namespace CwlDescriptor

namespace Expansion

variable {α β : Type}

/-- The state at the end of a computation, whether it succeeds or fails. -/
def final (m : Expansion α) (s : ExpansionState) : ExpansionState :=
  match m s with
  | .ok _ t => t
  | .error _ t => t

/-! ## Sequences -/

/-- A sequence of two computations, run in a state. -/
lemma bind_apply (m : Expansion α) (f : α → Expansion β) (s : ExpansionState) :
    (m >>= f) s = match m s with
      | .ok a t => f a t
      | .error e t => .error e t := by
  show EStateM.bind m f s = _
  unfold EStateM.bind
  cases m s <;> rfl

/-- A computation that has its result already does not change the state. -/
@[simp] lemma pure_apply (a : α) (s : ExpansionState) : (pure a : Expansion α) s = .ok a s := rfl

/-- A failure does not change the state. -/
@[simp] lemma throw_apply (e : Failure) (s : ExpansionState) :
    (throw e : Expansion α) s = .error e s := rfl

/-- A computation with a result ends in the state that comes with it. -/
lemma final_of_ok {m : Expansion α} {s t : ExpansionState} {a : α} (h : m s = .ok a t) :
    m.final s = t := by
  rw [final, h]

/-- A computation that fails ends in the state that comes with the failure. -/
lemma final_of_error {m : Expansion α} {s t : ExpansionState} {e : Failure}
    (h : m s = .error e t) : m.final s = t := by
  rw [final, h]

/-- If the first part of a sequence has a result, the sequence ends where its second part does. -/
lemma final_bind_of_ok {m : Expansion α} {f : α → Expansion β} {s t : ExpansionState} {a : α}
    (h : m s = .ok a t) : (m >>= f).final s = (f a).final t := by
  rw [final, final, bind_apply, h]

/-- If the first part of a sequence fails, the sequence ends there. -/
lemma final_bind_of_error {m : Expansion α} {f : α → Expansion β} {s t : ExpansionState}
    {e : Failure} (h : m s = .error e t) : (m >>= f).final s = t := by
  rw [final, bind_apply, h]

/-- A sequence succeeds if both parts do, the second from the state in which the first ends. -/
lemma bind_eq_ok {m : Expansion α} {f : α → Expansion β} {s t : ExpansionState} {b : β} :
    (m >>= f) s = .ok b t ↔ ∃ a u, m s = .ok a u ∧ f a u = .ok b t := by
  rw [bind_apply]
  cases m s <;> simp

/-- A function of a result is there if the result is. -/
lemma map_eq_ok {m : Expansion α} {f : α → β} {s t : ExpansionState} {b : β} :
    (f <$> m) s = .ok b t ↔ ∃ a, m s = .ok a t ∧ f a = b := by
  rw [map_eq_pure_bind, bind_eq_ok]
  constructor
  · rintro ⟨a, u, hm, h⟩
    cases h
    exact ⟨a, hm, rfl⟩
  · rintro ⟨a, hm, rfl⟩
    exact ⟨a, t, hm, rfl⟩

/-- A computation that fails does so as well with a function of its result. -/
lemma map_of_error {m : Expansion α} {s t : ExpansionState} {e : Failure}
    (h : m s = .error e t) (f : α → β) : (f <$> m) s = .error e t := by
  rw [map_eq_pure_bind, bind_apply, h]

/-- A sequence whose first result is dropped has a result if both parts have. -/
lemma seqRight_eq_ok {m : Expansion α} {m' : Expansion β} {s t : ExpansionState} {b : β} :
    (m *> m') s = .ok b t ↔ ∃ a u, m s = .ok a u ∧ m' u = .ok b t := by
  rw [seqRight_eq_bind, bind_eq_ok]

/-! ## Promises about outcomes -/

/-- A computation that begins in the state `s` ends as promised: by `Q` if it succeeds, and by `E`
if it fails. -/
def Ensures (m : Expansion α) (s : ExpansionState) (Q : α → ExpansionState → Prop)
    (E : Failure → ExpansionState → Prop) : Prop :=
  match m s with
  | .ok a t => Q a t
  | .error e t => E e t

namespace Ensures

variable {m : Expansion α} {f : α → Expansion β} {s : ExpansionState}
  {Q Q' : α → ExpansionState → Prop} {R : β → ExpansionState → Prop}
  {E E' : Failure → ExpansionState → Prop}

/-- A sequence keeps a promise if its first part promises what its second part needs. -/
lemma bind (hm : m.Ensures s Q E) (hf : ∀ a t, Q a t → (f a).Ensures t R E) :
    (m >>= f).Ensures s R E := by
  unfold Ensures at hm ⊢
  rw [bind_apply]
  cases h : m s with
  | ok a t =>
    rw [h] at hm
    exact hf a t hm
  | error e t =>
    rw [h] at hm
    exact hm

/-- A promise implies a weaker one. -/
lemma weaken (hm : m.Ensures s Q E) (hQ : ∀ a t, Q a t → Q' a t) (hE : ∀ e t, E e t → E' e t) :
    m.Ensures s Q' E' := by
  unfold Ensures at hm ⊢
  cases h : m s with
  | ok a t =>
    rw [h] at hm
    exact hQ a t hm
  | error e t =>
    rw [h] at hm
    exact hE e t hm

/-- Two promises can be made together. -/
lemma and (hm : m.Ensures s Q E) (hm' : m.Ensures s Q' E') :
    m.Ensures s (fun a t => Q a t ∧ Q' a t) (fun e t => E e t ∧ E' e t) := by
  unfold Ensures at hm hm' ⊢
  cases h : m s with
  | ok a t =>
    rw [h] at hm hm'
    exact ⟨hm, hm'⟩
  | error e t =>
    rw [h] at hm hm'
    exact ⟨hm, hm'⟩

/-- A computation keeps a promise by its result. -/
lemma of_ok {a : α} {t : ExpansionState} (hm : m s = .ok a t) (h : Q a t) : m.Ensures s Q E := by
  unfold Ensures
  rw [hm]
  exact h

/-- A computation keeps a promise by its failure. -/
lemma of_error {e : Failure} {t : ExpansionState} (hm : m s = .error e t) (h : E e t) :
    m.Ensures s Q E := by
  unfold Ensures
  rw [hm]
  exact h

/-- A result that is there already keeps its promise. -/
lemma pure {a : α} (h : Q a s) : (Pure.pure a : Expansion α).Ensures s Q E := h

/-- What is promised about results holds of the result. -/
lemma ok {a : α} {t : ExpansionState} (hm : m.Ensures s Q E) (h : m s = .ok a t) : Q a t := by
  unfold Ensures at hm
  rw [h] at hm
  exact hm

/-- What is promised about failures holds of the failure. -/
lemma error {e : Failure} {t : ExpansionState} (hm : m.Ensures s Q E) (h : m s = .error e t) :
    E e t := by
  unfold Ensures at hm
  rw [h] at hm
  exact hm

end Ensures

end Expansion

/-! ## The steps of an expansion -/

namespace Expander

open Expansion

variable {x : Expander} {frame : Frame} {s t : ExpansionState}

/-- With strict limits, exceeding a limit is a failure. -/
lemma exceed_strict (hx : x.strict = true) (limit : Limit) (path : Option String) :
    x.exceed limit path =
      throw (.refuse (.limitExceeded limit (x.limits.bound limit)) path) := by
  simp [exceed, hx]

/-- A limit that is exceeded ends the expansion, or a warning is added. -/
private lemma exceed_ensures (limit : Limit) (path : Option String) :
    (x.exceed limit path).Ensures s (fun _ t => ∃ ws, t = { s with warnings := ws })
      (fun _ t => t = s) := by
  unfold exceed
  split
  · exact .of_error rfl rfl
  · exact .of_ok rfl ⟨_, rfl⟩

/-- A check of the depth adds warnings at most. -/
lemma checkDepth_ensures :
    (x.checkDepth frame).Ensures s (fun _ t => ∃ ws, t = { s with warnings := ws })
      (fun _ t => t = s) := by
  unfold checkDepth
  split
  · exact exceed_ensures _ _
  · exact .pure ⟨_, rfl⟩

/-- The check of the depth changes nothing but the warnings. -/
lemma checkDepth_eq_ok {u : Unit} (h : x.checkDepth frame s = .ok u t) :
    ∃ ws, t = { s with warnings := ws } :=
  checkDepth_ensures.ok h

/-- Within its limit, the depth passes the check. -/
lemma checkDepth_of_le (h : frame.depth ≤ x.limits.maxDepth) : x.checkDepth frame s = .ok () s := by
  unfold checkDepth
  rw [if_neg (not_lt.2 h), pure_apply]

/-- A strict check of the depth leaves the state as it is. -/
lemma checkDepth_strict (hx : x.strict = true) :
    x.checkDepth frame s =
      if x.limits.maxDepth < frame.depth then
        .error (.refuse (.limitExceeded .depth x.limits.maxDepth) (some frame.path)) s
      else .ok () s := by
  unfold checkDepth
  rw [exceed_strict hx]
  split <;> rfl

/-- A check of a counter changes nothing but the warnings. -/
lemma checkCount_ensures (limit : Limit) (count : ExpansionState → Nat) (path : Option String) :
    (x.checkCount limit count path).Ensures s (fun _ t => ∃ ws, t = { s with warnings := ws })
      (fun _ t => t = s) := by
  show Ensures (if x.limits.bound limit < count s then x.exceed limit path else pure ()) s _ _
  split
  · exact exceed_ensures _ _
  · exact .pure ⟨_, rfl⟩

/-- Within its limit, a counter passes the check. -/
lemma checkCount_of_le {limit : Limit} {count : ExpansionState → Nat} {path : Option String}
    (h : count s ≤ x.limits.bound limit) : x.checkCount limit count path s = .ok () s := by
  show (if x.limits.bound limit < count s then x.exceed limit path else pure ()) s = _
  rw [if_neg (Nat.not_lt.2 h), pure_apply]

/-- With strict limits, a counter beyond its limit fails the check. -/
lemma checkCount_of_lt {limit : Limit} {count : ExpansionState → Nat} {path : Option String}
    (hx : x.strict = true) (h : x.limits.bound limit < count s) :
    x.checkCount limit count path s =
      .error (.refuse (.limitExceeded limit (x.limits.bound limit)) path) s := by
  show (if x.limits.bound limit < count s then x.exceed limit path else pure ()) s = _
  rw [if_pos h, exceed_strict hx, throw_apply]

/-- The state after a file was asked for. -/
def counted (s : ExpansionState) (asDocument : Bool) (path : Option String) : ExpansionState :=
  { s with fileCount := s.fileCount + 1, requests := s.requests ++ [⟨path, asDocument⟩] }

/-- The state after the characters of a file were counted. -/
def charged (s : ExpansionState) (content : String) : ExpansionState :=
  { s with charCount := s.charCount + Text.length content }

/-- A file that is asked for is counted and recorded, whether it is found or not. Where this
succeeds, the characters of the file have been counted if it was found. -/
lemma loadFile_ensures (asDocument : Bool) (path : Option String) :
    (x.loadFile asDocument path).Ensures s
      (fun content? t => content? = path.bind x.store.get? ∧ ∃ ws, t = { s with
        fileCount := s.fileCount + 1
        requests := s.requests ++ [⟨path, asDocument⟩]
        charCount := s.charCount + (content?.map Text.length).getD 0
        warnings := ws })
      (fun _ t => ∃ chars ws, t = { s with
        fileCount := s.fileCount + 1
        requests := s.requests ++ [⟨path, asDocument⟩]
        charCount := chars
        warnings := ws }) := by
  unfold loadFile
  refine Ensures.bind (Q := fun _ t => t = counted s asDocument path) (.of_ok rfl rfl) ?_
  rintro _ _ rfl
  refine Ensures.bind ((checkCount_ensures _ _ _).weaken (fun _ _ => id) ?_) ?_
  · rintro _ _ rfl
    exact ⟨_, _, rfl⟩
  rintro _ _ ⟨ws, rfl⟩
  cases path.bind x.store.get? with
  | none => exact .pure ⟨rfl, ws, rfl⟩
  | some content =>
    refine Ensures.bind (Q := fun _ t => t = charged _ content) (.of_ok rfl rfl) ?_
    rintro _ _ rfl
    refine Ensures.bind ((checkCount_ensures _ _ _).weaken (fun _ _ => id) ?_) ?_
    · rintro _ _ rfl
      exact ⟨_, _, rfl⟩
    rintro _ _ ⟨ws', rfl⟩
    exact .pure ⟨rfl, ws', rfl⟩

/-- Where asking for a file succeeds, it has been counted and recorded, and its characters have been
counted if it was found. -/
lemma loadFile_eq_ok {asDocument : Bool} {path content? : Option String}
    (h : x.loadFile asDocument path s = .ok content? t) :
    content? = path.bind x.store.get? ∧
      ∃ ws, t = { s with
        fileCount := s.fileCount + 1
        requests := s.requests ++ [⟨path, asDocument⟩]
        charCount := s.charCount + (content?.map Text.length).getD 0
        warnings := ws } :=
  (loadFile_ensures asDocument path).ok h

/-- With strict limits, asking for a file fails if it is one file too many, succeeds without a text
if there is no such file, and otherwise depends on the number of characters. -/
lemma loadFile_strict (hx : x.strict = true) (asDocument : Bool) (path : Option String) :
    x.loadFile asDocument path s =
      if x.limits.maxFiles < s.fileCount + 1 then
        .error (.refuse (.limitExceeded .files x.limits.maxFiles) path) (counted s asDocument path)
      else match path.bind x.store.get? with
        | none => .ok none (counted s asDocument path)
        | some content =>
          if x.limits.maxCharacters < s.charCount + Text.length content then
            .error (.refuse (.limitExceeded .characters x.limits.maxCharacters) path)
              (charged (counted s asDocument path) content)
          else .ok (some content) (charged (counted s asDocument path) content) := by
  show (x.checkCount .files (·.fileCount) path >>= fun _ => _) (counted s asDocument path) = _
  rw [bind_apply]
  by_cases hf : x.limits.maxFiles < s.fileCount + 1
  · rw [if_pos hf, checkCount_of_lt hx hf]
    rfl
  · rw [if_neg hf, checkCount_of_le (Nat.not_lt.1 hf)]
    cases path.bind x.store.get? with
    | none => rfl
    | some content =>
      show (x.checkCount .characters (·.charCount) path >>= fun _ => _)
        (charged (counted s asDocument path) content) = _
      rw [bind_apply]
      by_cases hc : x.limits.maxCharacters < s.charCount + Text.length content
      · simp only [if_pos hc]
        rw [checkCount_of_lt hx hc]
        rfl
      · simp only [if_neg hc]
        rw [checkCount_of_le (Nat.not_lt.1 hc)]
        rfl

/-- A result that is taken over was one before, and the state stays as it was. -/
lemma lift_eq_ok {α : Type} {r : Except Failure α} {a : α} (h : lift r s = .ok a t) :
    r = .ok a ∧ t = s := by
  cases r with
  | ok b =>
    cases h
    exact ⟨rfl, rfl⟩
  | error e => cases h

/-! ### Ids -/

/-- The state after a new id was made. -/
def made (x : Expander) (s : ExpansionState) : ExpansionState :=
  { s with
    idCount := s.idCount + 1
    clashes := if Table.hasKey s.idPaths (x.newId s.idCount) then s.clashes + 1 else s.clashes }

/-- The state after an id was recorded with the path of a file. -/
def recorded (s : ExpansionState) (id path : String) : ExpansionState :=
  { s with idPaths := Table.insert s.idPaths id (Path.stripSlashes path) }

/-- An entry keeps its id if that is a text and no other entry has claimed it. -/
lemma claimId_of_free {es : Entries} {path id : String} (hid : (es.field "id").text? = some id)
    (hfree : Table.hasKey s.idPaths id = false) :
    x.claimId es path s = .ok none (recorded s id path) := by
  have hn : x.neededId es s = .ok none s := by
    unfold neededId
    rw [hid]
    show (if Table.hasKey s.idPaths id then some <$> x.makeId else pure none) s = _
    rw [hfree]
    rfl
  unfold claimId
  rw [bind_apply, hn, hid]
  rfl

/-- An entry gets a new id if it has none that it may keep. -/
lemma claimId_of_taken {es : Entries} {path : String}
    (h : ∀ id, (es.field "id").text? = some id → Table.hasKey s.idPaths id = true) :
    x.claimId es path s =
      .ok (some (x.newId s.idCount)) (recorded (x.made s) (x.newId s.idCount) path) := by
  have hn : x.neededId es s = .ok (some (x.newId s.idCount)) (x.made s) := by
    unfold neededId
    cases hid : (es.field "id").text? with
    | none => rfl
    | some id =>
      show (if Table.hasKey s.idPaths id then some <$> x.makeId else pure none) s = _
      rw [if_pos (h id hid)]
      rfl
  unfold claimId
  rw [bind_apply, hn]
  rfl

/-- Claiming an id never fails: the entry keeps a free id, or it gets a new one. -/
lemma claimId_cases (x : Expander) (es : Entries) (path : String) (s : ExpansionState) :
    (∃ id, (es.field "id").text? = some id ∧ Table.hasKey s.idPaths id = false ∧
      x.claimId es path s = .ok none (recorded s id path)) ∨
    ((∀ id, (es.field "id").text? = some id → Table.hasKey s.idPaths id = true) ∧
      x.claimId es path s =
        .ok (some (x.newId s.idCount)) (recorded (x.made s) (x.newId s.idCount) path)) := by
  cases hid : (es.field "id").text? with
  | none => exact .inr ⟨by simp, claimId_of_taken (by simp [hid])⟩
  | some id =>
    cases hk : Table.hasKey s.idPaths id with
    | false => exact .inl ⟨id, rfl, hk, claimId_of_free hid hk⟩
    | true =>
      have h : ∀ id', (es.field "id").text? = some id' → Table.hasKey s.idPaths id' = true := by
        intro id' h'
        rw [hid] at h'
        cases h'
        exact hk
      exact .inr ⟨fun id' h' => h id' (hid.trans h'), claimId_of_taken h⟩

/-! ### Versions -/

/-- The version of the language in a map that is an entry. -/
def version? (frame : Frame) (es : Entries) : Except Failure (Option String) :=
  if (es.field "cwlVersion").isNull then .ok frame.version
  else (es.field "cwlVersion").shown.map some

/-- The version at a place inside a map depends on the state in no way. -/
lemma versionIn_eq_lift (frame : Frame) (es : Entries) :
    versionIn frame es = lift (version? frame es) := by
  unfold versionIn version?
  by_cases h : (es.field "cwlVersion").isNull
  · simp only [if_pos h]
    rfl
  · simp only [if_neg h]
    cases (es.field "cwlVersion").shown <;> rfl

/-- Entering a map that is no entry changes nothing. -/
lemma enter_of_none {es : Entries} (h : es.entryClass? = none) :
    x.enter frame es s = .ok (none, frame) s := by
  unfold enter
  rw [h]
  rfl

/-- Entering an entry claims an id and then finds its version. -/
lemma enter_of_isSome {es : Entries} (h : es.entryClass?.isSome) :
    x.enter frame es = (do
      let new ← x.claimId es frame.path
      let version ← lift (version? frame es)
      return (new, { frame with version := version })) := by
  unfold enter
  rw [if_pos h]
  simp only [versionIn_eq_lift]

/-- What entering a map has done where it succeeds. -/
lemma enter_eq_ok {es : Entries} {new : Option String} {frame' : Frame}
    (h : x.enter frame es s = .ok (new, frame') t) :
    (es.entryClass? = none ∧ new = none ∧ frame' = frame ∧ t = s) ∨
    (es.entryClass?.isSome ∧ x.claimId es frame.path s = .ok new t ∧
      ∃ version, version? frame es = .ok version ∧ frame' = { frame with version := version }) := by
  cases hc : es.entryClass? with
  | none =>
    rw [enter_of_none hc] at h
    cases h
    exact .inl ⟨rfl, rfl, rfl, rfl⟩
  | some c =>
    have hs : es.entryClass?.isSome := by rw [hc]; rfl
    rw [enter_of_isSome hs] at h
    simp only [bind_eq_ok] at h
    obtain ⟨new', s₁, hclaim, version, s₂, hv, h⟩ := h
    obtain ⟨hversion, rfl⟩ := lift_eq_ok hv
    cases h
    exact .inr ⟨rfl, hclaim, version, hversion, rfl⟩

/-- Entering a map changes nothing but the version. -/
lemma frame_of_enter {es : Entries} {new : Option String} {frame' : Frame}
    (h : x.enter frame es s = .ok (new, frame') t) :
    frame' = { frame with version := frame'.version } := by
  rcases enter_eq_ok h with ⟨-, -, rfl, -⟩ | ⟨-, -, version, -, rfl⟩ <;> rfl

/-- Entering a map does not change the path. -/
lemma path_of_enter {es : Entries} {new : Option String} {frame' : Frame}
    (h : x.enter frame es s = .ok (new, frame') t) : frame'.path = frame.path := by
  rw [frame_of_enter h]

/-- Entering a map asks for no file. -/
lemma requests_of_enter {es : Entries} {new : Option String} {frame' : Frame}
    (h : x.enter frame es s = .ok (new, frame') t) :
    t.requests = s.requests ∧ t.fileCount = s.fileCount := by
  rcases enter_eq_ok h with ⟨-, -, -, rfl⟩ | ⟨-, hclaim, -⟩
  · exact ⟨rfl, rfl⟩
  · rcases claimId_cases x es frame.path s with ⟨id, -, -, hkept⟩ | ⟨-, hmade⟩
    · rw [hkept] at hclaim
      cases hclaim
      exact ⟨rfl, rfl⟩
    · rw [hmade] at hclaim
      cases hclaim
      exact ⟨rfl, rfl⟩

/-! ### Levels and values -/

/-- The expansion of documents in other files, where `levels` of them may be nested. -/
def inner (x : Expander) : Nat → Below
  | 0 => fun _ _ _ => throw .exhausted
  | levels + 1 => x.expandWithin levels

/-- The expansion within a number of levels is that of a document, where deeper ones have fewer
levels. -/
lemma expandWithin_eq (x : Expander) (levels : Nat) (stage : Stage) (frame : Frame)
    (n : Node) :
    x.expandWithin levels stage frame n = x.expandNode (x.inner levels) stage frame n := by
  cases levels <;> rfl

/-- The expansion of the value of a key, which may be replaced by a text before. -/
def expandValue (x : Expander) (below : Below) (frame : Frame)
    (replacements : Replacements) (key : Scalar) (value : Node) : Expansion Node :=
  match replacements.at? key with
  | some text => x.checkDepth frame *> pure (Node.str text)
  | none => x.expandNode below .whole frame value

/-- The values of a map are expanded one after another. -/
lemma expandEntries_cons (x : Expander) (below : Below) (frame : Frame)
    (replacements : Replacements) (key : Scalar) (value : Node) (es : Entries) :
    x.expandEntries below frame replacements ((key, value) :: es) = (do
      let value ← x.expandValue below frame replacements key value
      let es ← x.expandEntries below frame replacements es
      return (key, value) :: es) := by
  rw [expandEntries]
  unfold expandValue
  cases replacements.at? key <;> rfl

end Expander

/-- A repository with one file, which holds an empty list. -/
def shelf : Expander where
  store := .ofFiles [⟨"/f", "[]"⟩]
  limits := {}
  newId n := toString n

end CwlDescriptor
