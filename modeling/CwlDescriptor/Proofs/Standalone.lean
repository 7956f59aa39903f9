import CwlDescriptor.Proofs.Failures
import CwlDescriptor.Proofs.Mixins
import CwlDescriptor.Proofs.Transparency
set_option autoImplicit false

/-!
# Documents that refer to no files

A document in which no map has a directive or a text at the key `run` is expanded without asking for
a file. Only the ids of its entries may change: one entry after another, in the order in which they
are met from the outside to the inside and from the left to the right, keeps its id if that is a
text which no entry has claimed before, and gets a new one otherwise. What stands at the id of an
entry is not visited, since it is either a text or thrown away.

An entry must have a version that can be shown, since the version is shown when the entry is met.

## Main definitions

* `Node.Standalone`: no map of the document refers to a file.
* `Node.claimants`: the entries that claim ids, in their order.
* `givenIds`, `NewIdsFree`: the ids that entries get, and that the new ones among them are new.
* `Node.withIds`: the document with other ids.

## Main results

* `expand_standalone`: the expansion of a document that refers to no files.
* `heavyWorkflow_expand_fails`: a version that cannot be shown makes it fail.
-/

namespace CwlDescriptor

open Expansion Expander

/-! ## Documents and their entries -/

/-- A map refers to no file: neither one of its directives nor its key `run` has a text. -/
structure Entries.RefersNowhere (es : Entries) : Prop where
  importing : es.directive? .importing = none
  including : es.directive? .including = none
  mixing : es.directive? .mixing = none
  run : (es.field "run").text? = none

namespace Node

mutual

/-- No map of the document that is reached through values and items refers to a file. -/
def Standalone : Node → Prop
  | .list items => StandaloneList items
  | .map es => Entries.RefersNowhere es ∧ StandaloneValues es
  | _ => True

/-- No map of the items refers to a file. -/
def StandaloneList : List Node → Prop
  | [] => True
  | item :: items => Standalone item ∧ StandaloneList items

/-- No map of the values refers to a file. -/
def StandaloneValues : Entries → Prop
  | [] => True
  | (_, value) :: es => Standalone value ∧ StandaloneValues es

end

mutual

/-- The entries that claim ids, each of them before those inside it. Nothing is visited at the id of
an entry. -/
def claimants : Node → List Entries
  | .list items => claimantsList items
  | .map es =>
    if (Entries.entryClass? es).isSome then es :: claimantsValues true es
    else claimantsValues false es
  | _ => []

/-- The entries of the items that claim ids. -/
def claimantsList : List Node → List Entries
  | [] => []
  | item :: items => claimants item ++ claimantsList items

/-- The entries of the values that claim ids, those at the id of an entry left out. -/
def claimantsValues (entry : Bool) : Entries → List Entries
  | [] => []
  | (key, value) :: es =>
    (if entry ∧ key = .str "id" then [] else claimants value) ++ claimantsValues entry es

end

mutual

/-- The document in which the entries that claim ids have the given ones, and the ids that are left.
An id takes the place of the old one, or is the last value of its entry. -/
def withIds : Node → List String → Node × List String
  | .list items, ids =>
    let named := withIdsList items ids
    (.list named.1, named.2)
  | .map es, ids =>
    if (Entries.entryClass? es).isSome then
      let named := withIdsValues true es ids.tail
      (.map (Entries.set named.1 "id" (.str (ids.headD ""))), named.2)
    else
      let named := withIdsValues false es ids
      (.map named.1, named.2)
  | n, ids => (n, ids)

/-- The items in which the entries that claim ids have the given ones. -/
def withIdsList : List Node → List String → List Node × List String
  | [], ids => ([], ids)
  | item :: items, ids =>
    let named := withIds item ids
    let rest := withIdsList items named.2
    (named.1 :: rest.1, rest.2)

/-- The values in which the entries that claim ids have the given ones. -/
def withIdsValues (entry : Bool) : Entries → List String → Entries × List String
  | [], ids => ([], ids)
  | (key, value) :: es, ids =>
    let named := if entry ∧ key = .str "id" then (value, ids) else withIds value ids
    let rest := withIdsValues entry es named.2
    ((key, named.1) :: rest.1, rest.2)

end

end Node

/-- The text that an entry has as its id, if any. -/
def Entries.ownId? (es : Entries) : Option String := (es.field "id").text?

/-- The ids of entries with the own ids `owns`, where the ids `taken` are claimed and `made` ids
were made before: an entry keeps its own id if that is not claimed. -/
def givenIds (newId : Nat → String) : List String → Nat → List (Option String) → List String
  | _, _, [] => []
  | taken, made, own :: owns =>
    match own.filter (· ∉ taken) with
    | some id => id :: givenIds newId (taken ++ [id]) made owns
    | none => newId made :: givenIds newId (taken ++ [newId made]) (made + 1) owns

/-- Every id that is made for one of these entries is different from those that are claimed by
then. -/
def NewIdsFree (newId : Nat → String) : List String → Nat → List (Option String) → Prop
  | _, _, [] => True
  | taken, made, own :: owns =>
    match own.filter (· ∉ taken) with
    | some id => NewIdsFree newId (taken ++ [id]) made owns
    | none =>
      newId made ∉ taken ∧ NewIdsFree newId (taken ++ [newId made]) (made + 1) owns

/-! ## Ids that are set -/

namespace Node

/-- A document with other ids has the same text, if any. -/
private lemma text?_withIds (n : Node) (ids : List String) : (n.withIds ids).1.text? = n.text? := by
  cases n with
  | map es =>
    rw [withIds]
    split <;> rfl
  | scalar _ | list _ | set _ | pair _ _ => rfl

/-- The values of a map with other ids have the same texts. -/
private lemma text?_field_withIdsValues (es : Entries) (ids : List String) (name : String) :
    (((withIdsValues false es ids).1).field name).text? = (es.field name).text? := by
  induction es generalizing ids with
  | nil => rfl
  | cons e es ih =>
    obtain ⟨k, v⟩ := e
    unfold Entries.field at ih ⊢
    by_cases hk : k = .str name
    · simp [withIdsValues, Entries.get?, hk, text?_withIds]
    · simpa [withIdsValues, Entries.get?, hk] using ih _

/-- Nothing is skipped where there is no id. -/
private lemma claimantsValues_of_forall_ne {es : Entries} (h : ∀ e ∈ es, e.1 ≠ .str "id") :
    claimantsValues true es = claimantsValues false es := by
  induction es with
  | nil => rfl
  | cons e es ih =>
    obtain ⟨k, v⟩ := e
    obtain ⟨hk, hes⟩ := List.forall_mem_cons.1 h
    simp [claimantsValues, ih hes, show k ≠ .str "id" from hk]

/-- A map without an id is not changed at its id. -/
private lemma withIdsValues_of_forall_ne {es : Entries} (h : ∀ e ∈ es, e.1 ≠ .str "id")
    (ids : List String) : withIdsValues true es ids = withIdsValues false es ids := by
  induction es generalizing ids with
  | nil => rfl
  | cons e es ih =>
    obtain ⟨k, v⟩ := e
    obtain ⟨hk, hes⟩ := List.forall_mem_cons.1 h
    simp [withIdsValues, ih hes, show k ≠ .str "id" from hk]

/-- An id that is set before the entries inside are met may as well be set behind. -/
private lemma claimantsValues_set {es : Entries} (h : es.DistinctKeys) (id : String) :
    claimantsValues false (es.set "id" (.str id)) = claimantsValues true es := by
  induction es with
  | nil => rfl
  | cons e es ih =>
    obtain ⟨k, v⟩ := e
    by_cases hk : k = .str "id"
    · subst hk
      rw [Entries.set, Entries.insert, if_pos (Scalar.sameKey_str.2 rfl)]
      simp [claimantsValues, claimants, claimantsValues_of_forall_ne h.ne_of_mem]
    · have ih := ih h.tail
      rw [Entries.set] at ih
      rw [Entries.set, Entries.insert, if_neg fun hkey => hk (Scalar.sameKey_str.1 hkey)]
      simp [claimantsValues, hk, ih]

/-- The id of a map can be set before or after those inside it are given out. -/
private lemma withIdsValues_set {es : Entries} (h : es.DistinctKeys) (id : String)
    (ids : List String) :
    withIdsValues false (es.set "id" (.str id)) ids =
      ((withIdsValues true es ids).1.set "id" (.str id), (withIdsValues true es ids).2) := by
  induction es generalizing ids with
  | nil => rfl
  | cons e es ih =>
    obtain ⟨k, v⟩ := e
    by_cases hk : k = .str "id"
    · subst hk
      simp only [Entries.set, Entries.insert, Scalar.sameKey_str.2, if_true, withIdsValues,
        withIdsValues_of_forall_ne h.ne_of_mem]
      simp [withIds]
    · have ih := ih h.tail
      have hkey : ¬ k.sameKey (.str "id") = true := fun hkey => hk (Scalar.sameKey_str.1 hkey)
      rw [Entries.set] at ih
      simp [Entries.set, Entries.insert, withIdsValues, hk, hkey, ih]

end Node

/-! ## Claims one after another -/

namespace Expander

variable (x : Expander) (path : String)

/-- The id that an entry with the own id `own` claims in a state, and the state behind that. -/
def claimOne (s : ExpansionState) (own : Option String) : String × ExpansionState :=
  match own.filter (· ∉ Table.keys s.idPaths) with
  | some id => (id, recorded s id path)
  | none => (x.newId s.idCount, recorded (x.made s) (x.newId s.idCount) path)

/-- The ids that entries with the own ids `owns` claim, and the state behind that. -/
def claimAll : List (Option String) → ExpansionState → List String × ExpansionState
  | [], s => ([], s)
  | own :: owns, s =>
    let first := x.claimOne path s own
    let rest := claimAll owns first.2
    (first.1 :: rest.1, rest.2)

variable {x path}

/-- Claims are made one after another. -/
private lemma claimAll_append (owns owns' : List (Option String)) (s : ExpansionState) :
    x.claimAll path (owns ++ owns') s =
      ((x.claimAll path owns s).1 ++ (x.claimAll path owns' (x.claimAll path owns s).2).1,
        (x.claimAll path owns' (x.claimAll path owns s).2).2) := by
  induction owns generalizing s with
  | nil => rfl
  | cons own owns ih => simp [claimAll, ih]

/-- An entry with the id `id` keeps it, or gets it as a new one. -/
def Obtains (es : Entries) (newId : Option String) (id : String) : Prop :=
  newId = none ∧ es.get? "id" = some (.str id) ∨ newId = some id

/-- An entry claims its own id if it is free, and otherwise a new one. -/
private lemma claimId_eq (x : Expander) (es : Entries) (path : String) (s : ExpansionState) :
    ∃ newId, x.claimId es path s = .ok newId (x.claimOne path s es.ownId?).2 ∧
      Obtains es newId (x.claimOne path s es.ownId?).1 := by
  rcases claimId_cases x es path s with ⟨id, hown, hfree, hclaim⟩ | ⟨htaken, hclaim⟩
  · have hone : x.claimOne path s es.ownId? = (id, recorded s id path) := by
      have hnew : id ∉ Table.keys s.idPaths :=
        Table.get?_eq_none_iff.1 (Table.hasKey_eq_false_iff.1 hfree)
      simp [claimOne, Entries.ownId?, hown, Option.filter_some, hnew]
    rw [hone]
    refine ⟨none, hclaim, .inl ⟨rfl, ?_⟩⟩
    exact Entries.get?_of_text?_field hown
  · have hone : x.claimOne path s es.ownId? =
        (x.newId s.idCount, recorded (x.made s) (x.newId s.idCount) path) := by
      unfold claimOne Entries.ownId?
      cases hown : (es.field "id").text? with
      | none => rfl
      | some id => simp [Option.filter_some, Table.hasKey_iff.1 (htaken id hown)]
    rw [hone]
    exact ⟨_, hclaim, .inr rfl⟩

end Expander

/-! ## The expansion gives ids to entries -/

/-- A computation ends in the state `t` with the result `a` if versions can be shown, and fails
otherwise since one cannot. -/
structure Expansion.SucceedsIf {α : Type} (shows : Prop) (m : Expansion α) (s : ExpansionState)
    (a : α) (t : ExpansionState) : Prop where
  ok : shows → m s = .ok a t
  error : ¬ shows → ∃ u, m s = .error (.fault .tooManyDigits) u

namespace Expansion.SucceedsIf

variable {α β : Type} {shows shows' : Prop} {m : Expansion α} {f : α → Expansion β}
  {s t u : ExpansionState} {a : α} {b : β}

/-- What succeeds is as promised. -/
lemma of_ok (h : m s = .ok a t) (hshows : shows) : SucceedsIf shows m s a t :=
  ⟨fun _ => h, fun hnot => absurd hshows hnot⟩

/-- A sequence succeeds if both of its parts do. -/
lemma bind (hm : SucceedsIf shows m s a t) (hf : SucceedsIf shows' (f a) t b u) :
    SucceedsIf (shows ∧ shows') (m >>= f) s b u := by
  constructor
  · rintro ⟨h, h'⟩
    exact bind_eq_ok.2 ⟨a, t, hm.ok h, hf.ok h'⟩
  · intro hnot
    rw [bind_apply]
    by_cases h : shows
    · rw [hm.ok h]
      exact hf.error fun h' => hnot ⟨h, h'⟩
    · obtain ⟨v, hv⟩ := hm.error h
      rw [hv]
      exact ⟨v, rfl⟩

/-- The condition of success may be put in another way. -/
lemma congr (hm : SucceedsIf shows m s a t) (h : shows' ↔ shows) : SucceedsIf shows' m s a t :=
  propext h ▸ hm

/-- A result that is there already is no failure. -/
lemma pure (a : α) (s : ExpansionState) : SucceedsIf True (Pure.pure a) s a s :=
  of_ok rfl trivial

/-- Behind a part that succeeds, the sequence succeeds if its second part does. -/
private lemma bind_of_ok (hm : m s = .ok a t) (hf : SucceedsIf shows (f a) t b u) :
    SucceedsIf shows (m >>= f) s b u :=
  (bind (of_ok hm trivial) hf).congr (by rw [true_and])

/-- In front of a part that succeeds, the sequence succeeds if its first part does. -/
private lemma then_ok (hm : SucceedsIf shows m s a t) (hf : f a t = .ok b u) :
    SucceedsIf shows (m >>= f) s b u :=
  (hm.bind (of_ok hf trivial)).congr (by rw [and_true])

/-- A function of a result is there if the result is. -/
lemma map (g : α → β) (hm : SucceedsIf shows m s a t) : SucceedsIf shows (g <$> m) s (g a) t := by
  rw [map_eq_pure_bind]
  exact hm.then_ok rfl

end Expansion.SucceedsIf

/-- A document that can be shown on its own can be shown inside others. -/
private lemma Node.legible_of_shown {n : Node} {text : String} (h : n.shown = .ok text) :
    n.Legible := by
  rw [shown_eq_ok] at h
  cases n with
  | scalar value =>
    cases value with
    | str | date | time => rfl
    | _ => exact Option.isSome_of_eq_some h
  | list _ | map _ | set _ | pair _ _ => exact Option.isSome_of_eq_some h

/-- The versions of some entries can be shown. -/
def VersionsShow (entries : List Entries) : Prop :=
  ∀ es ∈ entries, (es.field "cwlVersion").Legible

instance (entries : List Entries) : Decidable (VersionsShow entries) :=
  inferInstanceAs (Decidable (∀ es ∈ entries, (_ : Bool) = true))

/-- The versions of two lists of entries can be shown if those of both can. -/
private lemma versionsShow_append {entries entries' : List Entries} :
    VersionsShow (entries ++ entries') ↔ VersionsShow entries ∧ VersionsShow entries' :=
  List.forall_mem_append

/-- Wherever a computation begins, it has the result in which the entries that claim ids have those
that they claim. It fails if the version of one of them cannot be shown. -/
def Expander.Names {α : Type} (x : Expander) (m : Frame → Expansion α) (entries : List Entries)
    (named : List String → α × List String) : Prop :=
  ∀ (frame : Frame) (s : ExpansionState) (rest : List String), frame.depth ≤ x.limits.maxDepth →
    ∃ a, named ((x.claimAll frame.path (entries.map Entries.ownId?) s).1 ++ rest) = (a, rest) ∧
      SucceedsIf (VersionsShow entries) (m frame) s a
        (x.claimAll frame.path (entries.map Entries.ownId?) s).2

namespace Expander.Names

variable {x : Expander} {α β γ : Type} {m : Frame → Expansion α} {m' : Frame → Expansion β}
  {entries entries' : List Entries} {named : List String → α × List String}
  {named' : List String → β × List String}

/-- A result that is there already gives no ids. -/
lemma pure (a : α) : x.Names (fun _ => Pure.pure a) [] fun ids => (a, ids) :=
  fun _ s _ _ => ⟨a, rfl, (SucceedsIf.pure a s).congr (by simp [VersionsShow])⟩

/-- Two computations one after the other give ids to the entries of both. -/
lemma seq (h : x.Names m entries named) (h' : x.Names m' entries' named') (g : α → β → γ) :
    x.Names (fun frame => do let a ← m frame; let b ← m' frame; return g a b) (entries ++ entries')
      fun ids => (g (named ids).1 (named' (named ids).2).1, (named' (named ids).2).2) := by
  intro frame s rest hdepth
  rw [List.map_append, claimAll_append]
  obtain ⟨a, hnamed, hm⟩ := h frame s
    ((x.claimAll frame.path (entries'.map Entries.ownId?)
      (x.claimAll frame.path (entries.map Entries.ownId?) s).2).1 ++ rest) hdepth
  obtain ⟨b, hnamed', hm'⟩ := h' frame (x.claimAll frame.path (entries.map Entries.ownId?) s).2 rest
    hdepth
  refine ⟨g a b, ?_, ?_⟩
  · simp only [List.append_assoc, hnamed, hnamed']
  · exact (hm.bind (hm'.map (g a))).congr versionsShow_append

end Expander.Names

section Steps

variable {x : Expander} {below : Below} {frame : Frame} {es : Entries} {s : ExpansionState}

/-- The version of an entry is found if it can be shown. -/
private lemma version?_cases (frame : Frame) (es : Entries) :
    (es.field "cwlVersion").Legible ∧ (∃ version, version? frame es = .ok version) ∨
      ¬ (es.field "cwlVersion").Legible ∧ version? frame es = .error (.fault .tooManyDigits) := by
  unfold version?
  by_cases hnull : (es.field "cwlVersion").isNull = true
  · rw [if_pos hnull]
    refine .inl ⟨?_, _, rfl⟩
    generalize es.field "cwlVersion" = n at hnull
    cases n with
    | scalar value =>
      cases value <;> cases hnull
      rfl
    | list _ | map _ | set _ | pair _ _ => cases hnull
  · rw [if_neg hnull]
    cases hshown : (es.field "cwlVersion").shown with
    | ok text => exact .inl ⟨Node.legible_of_shown hshown, _, rfl⟩
    | error e =>
      obtain rfl := Node.shown_eq_error hshown
      exact .inr ⟨fun h => h.shown_ne_error _ hshown, rfl⟩

/-- Entering an entry gives it an id, and fails only if its version cannot be shown. -/
private lemma enter_succeedsIf (h : es.entryClass?.isSome) (x : Expander) (frame : Frame)
    (s : ExpansionState) :
    ∃ newId frame', frame'.path = frame.path ∧ frame'.depth = frame.depth ∧
      Obtains es newId (x.claimOne frame.path s es.ownId?).1 ∧
      SucceedsIf (es.field "cwlVersion").Legible (x.enter frame es) s (newId, frame')
        (x.claimOne frame.path s es.ownId?).2 := by
  obtain ⟨newId, hclaim, hobtains⟩ := claimId_eq x es frame.path s
  rw [enter_of_isSome h]
  rcases version?_cases frame es with ⟨hlegible, version, hversion⟩ | ⟨hnot, hversion⟩
  · rw [hversion]
    exact ⟨newId, { frame with version := version }, rfl, rfl, hobtains,
      .bind_of_ok hclaim (.of_ok rfl hlegible)⟩
  · rw [hversion]
    exact ⟨newId, frame, rfl, rfl, hobtains,
      .bind_of_ok hclaim ⟨fun hlegible => absurd hlegible hnot, fun _ => ⟨_, rfl⟩⟩⟩

/-- Replacements at the keys of a map are all that matters for the expansion of its values. -/
private lemma expandEntries_congr {r r' : Replacements} (h : ∀ e ∈ es, r.at? e.1 = r'.at? e.1) :
    x.expandEntries below frame r es = x.expandEntries below frame r' es := by
  induction es with
  | nil => rfl
  | cons e es ih =>
    obtain ⟨k, v⟩ := e
    obtain ⟨hk, hes⟩ := List.forall_mem_cons.1 h
    rw [expandEntries_cons, expandEntries_cons, ih hes, expandValue, expandValue, hk]

/-- A text that takes the place of a value is expanded to itself, as is one that stood there. -/
private lemma expandValue_str {r : Replacements} {key : Scalar} {text : String} (value : Node)
    (h : r.at? key = some text) :
    x.expandValue below frame r key value = x.expandNode below .whole frame (.str text) := by
  rw [expandValue, h]
  rfl

/-- A new id takes the place of an old one, or becomes the last value. -/
private lemma expandEntries_newId (hkeys : es.DistinctKeys) (id : String) :
    x.expandEntries below frame ⟨some id, none⟩ (es ++ Replacements.missing ⟨some id, none⟩ es) =
      x.expandEntries below frame ⟨none, none⟩ (es.set "id" (.str id)) := by
  have hnone : ∀ k, Replacements.at? ⟨none, none⟩ k = none := fun k => by simp [Replacements.at?]
  have hid : Replacements.at? ⟨some id, none⟩ (.str "id") = some id := rfl
  induction es with
  | nil =>
    show x.expandEntries below frame ⟨some id, none⟩ [(.str "id", .str id)] =
      x.expandEntries below frame ⟨none, none⟩ [(.str "id", .str id)]
    rw [expandEntries_cons, expandEntries_cons, expandValue_str _ hid, expandValue, hnone]
    rfl
  | cons e es ih =>
    obtain ⟨k, v⟩ := e
    by_cases hk : k = .str "id"
    · subst hk
      have hmissing : Replacements.missing ⟨some id, none⟩ ((.str "id", v) :: es) = [] := by
        simp [Replacements.missing, Entries.get?]
      rw [hmissing, List.append_nil, Entries.set, Entries.insert,
        if_pos (Scalar.sameKey_str.2 rfl), expandEntries_cons, expandEntries_cons,
        expandValue_str _ hid, expandValue, hnone]
      have hsame : ∀ e ∈ es, Replacements.at? ⟨some id, none⟩ e.1 =
          Replacements.at? ⟨none, none⟩ e.1 := by
        intro e he
        simp [Replacements.at?, hkeys.ne_of_mem e he]
      rw [expandEntries_congr hsame]
    · have ih := ih hkeys.tail
      have hmissing : Replacements.missing ⟨some id, none⟩ ((k, v) :: es) =
          Replacements.missing ⟨some id, none⟩ es := by
        simp [Replacements.missing, Entries.get?, hk]
      have hkey : Replacements.at? ⟨some id, none⟩ k = none := by simp [Replacements.at?, hk]
      rw [Entries.set] at ih
      rw [hmissing, Entries.set, Entries.insert,
        if_neg fun hkey => hk (Scalar.sameKey_str.1 hkey), List.cons_append, expandEntries_cons,
        expandEntries_cons, ih, expandValue, expandValue, hkey, hnone]

/-- An entry that keeps its id or gets a new one is expanded as if it had this id already. -/
private lemma expandEntries_obtains (hkeys : es.DistinctKeys) {newId : Option String} {id : String}
    (h : Obtains es newId id) :
    x.expandEntries below frame ⟨newId, none⟩ (es ++ Replacements.missing ⟨newId, none⟩ es) =
      x.expandEntries below frame ⟨none, none⟩ (es.set "id" (.str id)) := by
  rcases h with ⟨rfl, hget⟩ | rfl
  · rw [Entries.set_of_get? hget, show Replacements.missing ⟨none, none⟩ es = [] from rfl,
      List.append_nil]
  · exact expandEntries_newId hkeys id

/-- Nothing is loaded for a map that refers to no file. -/
private lemma expandRun_of_none (hrun : (es.field "run").text? = none) :
    x.expandRun below frame es = pure es := by
  unfold expandRun
  rw [hrun]

/-- In a map that refers nowhere no directive is followed, also with a new id. -/
lemma Entries.RefersNowhere.inert (h : es.RefersNowhere) (newId : Option String) :
    Inert frame (withId es newId) where
  importing := (directive?_withId _ _ _).trans h.importing
  including := (directive?_withId _ _ _).trans h.including
  mixing := .inl ((directive?_withId _ _ _).trans h.mixing)

/-- A value of a map that refers to no files refers to none itself. -/
lemma Node.StandaloneValues.of_mem (h : Node.StandaloneValues es) {e : Scalar × Node}
    (he : e ∈ es) : e.2.Standalone := by
  induction es with
  | nil => cases he
  | cons e' es ih =>
    rcases List.mem_cons.1 he with rfl | he
    · exact h.1
    · exact ih h.2 he

/-- No import is the value of `run`. -/
lemma Node.StandaloneValues.importedRun? (h : Node.StandaloneValues es) :
    es.importedRun? = none := by
  unfold Entries.importedRun? Entries.field
  cases hget : es.get? "run" with
  | none => rfl
  | some value =>
    have hvalue : value.Standalone := h.of_mem (Entries.mem_of_get? hget)
    cases value with
    | map vs => exact hvalue.1.importing
    | scalar _ | list _ | set _ | pair _ _ => rfl

end Steps

section Documents

variable {x : Expander} {below : Below} {es : Entries}

/-- The expansion of a document gives ids to its entries. -/
def Expander.NamesNode (x : Expander) (below : Below) (n : Node) : Prop :=
  x.Names (fun frame => x.expandNode below .whole frame n) n.claimants n.withIds

/-- The expansion of a leaf gives no ids. -/
private lemma namesNode_of_isLeaf {n : Node} (h : n.IsLeaf) : x.NamesNode below n := by
  intro frame s rest hdepth
  cases n with
  | list | map => cases h
  | scalar _ | set _ | pair _ _ =>
    exact ⟨_, rfl, .of_ok (bind_eq_ok.2 ⟨(), s, checkDepth_of_le hdepth, rfl⟩)
      (by simp [VersionsShow, Node.claimants])⟩

/-- The expansion of a list gives ids to the entries of its items in turn. -/
private lemma names_items {items : List Node} (h : ∀ item ∈ items, x.NamesNode below item) :
    x.Names (fun frame => x.expandItems below frame items) (Node.claimantsList items)
      (Node.withIdsList items) := by
  induction items with
  | nil => exact .pure []
  | cons item items ih =>
    obtain ⟨hitem, hitems⟩ := List.forall_mem_cons.1 h
    exact hitem.seq (ih hitems) List.cons

/-- The expansion of the values of a map gives ids to the entries of its values in turn. -/
private lemma names_values (h : ∀ e ∈ es, x.NamesNode below e.2) :
    x.Names (fun frame => x.expandEntries below frame ⟨none, none⟩ es)
      (Node.claimantsValues false es) (Node.withIdsValues false es) := by
  induction es with
  | nil => exact .pure []
  | cons e es ih =>
    obtain ⟨k, v⟩ := e
    obtain ⟨hv, hes⟩ := List.forall_mem_cons.1 h
    have hseq := hv.seq (ih hes) fun v es => (k, v) :: es
    have hat : Replacements.at? ⟨none, none⟩ k = none := by simp [Replacements.at?]
    have hcons : (fun frame => x.expandEntries below frame ⟨none, none⟩ ((k, v) :: es)) =
        fun frame => do
          let v ← x.expandNode below .whole frame v
          let es ← x.expandEntries below frame ⟨none, none⟩ es
          return (k, v) :: es := by
      funext frame
      rw [expandEntries_cons, expandValue, hat]
    rw [hcons]
    simpa [Node.claimantsValues, Node.withIdsValues] using hseq

/-- A map that refers to no file has its values expanded. -/
private lemma names_map (hvalues : ∀ e ∈ es, x.NamesNode below e.2)
    (hrun : (es.field "run").text? = none) :
    x.Names (fun frame => do
        let values ← x.expandEntries below frame ⟨none, none⟩ es
        Node.map <$> x.expandRun below frame values)
      (Node.claimantsValues false es) fun ids =>
        (.map (Node.withIdsValues false es ids).1, (Node.withIdsValues false es ids).2) := by
  intro frame s rest hdepth
  obtain ⟨values, hnamed, hexpands⟩ := names_values hvalues frame s rest hdepth
  have hrun' : (values.field "run").text? = none := by
    have hvalues : values = (Node.withIdsValues false es _).1 := (congrArg Prod.fst hnamed).symm
    rw [hvalues, Node.text?_field_withIdsValues, hrun]
  refine ⟨.map values, by simp only [hnamed], ?_⟩
  refine hexpands.then_ok ?_
  rw [expandRun_of_none hrun']
  rfl

/-- **A map that refers to no file** gives itself an id if it is an entry, and then its values
theirs. -/
private lemma namesNode_map (hkeys : es.DistinctKeys) (hrefers : es.RefersNowhere)
    (hstandalone : Node.StandaloneValues es) (hvalues : ∀ e ∈ es, x.NamesNode below e.2) :
    x.NamesNode below (.map es) := by
  intro frame s rest hdepth
  have hdirected : ∀ (frame : Frame) (newId : Option String),
      (do
        let directed ← x.direct below frame (withId es newId)
        x.expandDirected below frame es newId directed) = (do
        let values ← x.expandEntries below frame ⟨newId, none⟩
          (es ++ Replacements.missing ⟨newId, none⟩ es)
        Node.map <$> x.expandRun below frame values) := by
    intro frame newId
    rw [(hrefers.inert newId).direct_eq, pure_bind, expandDirected, hstandalone.importedRun?]
  show ∃ n', _ = _ ∧ SucceedsIf _ (x.expandNode below .whole frame (.map es)) s n' _
  rw [expandNode_map_whole]
  have hcheck : x.checkDepth frame s = .ok () s := checkDepth_of_le hdepth
  by_cases hclass : es.entryClass?.isSome
  · obtain ⟨newId, frame', hpath, hdepth', hobtains, henter⟩ :=
      enter_succeedsIf hclass x frame s
    generalize hone : x.claimOne frame.path s es.ownId? = one at hobtains henter
    obtain ⟨id, s₁⟩ := one
    have hrun : ((es.set "id" (.str id)).field "run").text? = none := by
      rw [Entries.field_set_of_ne (by decide), hrefers.run]
    have hvalues' : ∀ e ∈ es.set "id" (.str id), x.NamesNode below e.2 := by
      intro e he
      rcases Entries.mem_set he with he | rfl
      · exact hvalues e he
      · exact namesNode_of_isLeaf trivial
    obtain ⟨n', hnamed, hexpands⟩ :=
      names_map hvalues' hrun frame' s₁ rest (hdepth'.trans_le hdepth)
    rw [hpath, Node.claimantsValues_set hkeys] at hnamed hexpands
    simp only [Node.withIdsValues_set hkeys] at hnamed
    have hclaimants : (Node.map es).claimants = es :: Node.claimantsValues true es := by
      rw [Node.claimants, if_pos hclass]
    have hwithIds : ∀ ids, (Node.map es).withIds (id :: ids) =
        (.map ((Node.withIdsValues true es ids).1.set "id" (.str id)),
          (Node.withIdsValues true es ids).2) := by
      intro ids
      rw [Node.withIds, if_pos hclass]
      rfl
    rw [hclaimants, List.map_cons, claimAll, hone]
    refine ⟨n', (hwithIds _).trans hnamed, .bind_of_ok hcheck ?_⟩
    refine (henter.bind ?_).congr List.forall_mem_cons
    rw [hdirected, expandEntries_obtains hkeys hobtains]
    exact hexpands
  · have hnone : es.entryClass? = none := Option.not_isSome_iff_eq_none.1 hclass
    obtain ⟨n', hnamed, hexpands⟩ := names_map hvalues hrefers.run frame s rest hdepth
    have hclaimants : (Node.map es).claimants = Node.claimantsValues false es := by
      rw [Node.claimants, if_neg hclass]
    have hwithIds : ∀ ids, (Node.map es).withIds ids =
        (.map (Node.withIdsValues false es ids).1, (Node.withIdsValues false es ids).2) := by
      intro ids
      rw [Node.withIds, if_neg hclass]
    rw [hclaimants]
    refine ⟨n', (hwithIds _).trans hnamed,
      .bind_of_ok hcheck (.bind_of_ok (enter_of_none hnone) ?_)⟩
    rw [hdirected, show Replacements.missing ⟨none, none⟩ es = [] from rfl, List.append_nil]
    exact hexpands

mutual

/-- **The expansion of a document that refers to no file gives ids to its entries.** -/
theorem namesNode : ∀ n : Node, n.DistinctKeys → n.Standalone → x.NamesNode below n
  | .map es, hkeys, hstandalone =>
    namesNode_map hkeys.1 hstandalone.1 hstandalone.2 (namesNode_values es hkeys.2 hstandalone.2)
  | .list items, hkeys, hstandalone => by
    intro frame s rest hdepth
    obtain ⟨items', hnamed, hexpands⟩ :=
      names_items (namesNode_items items hkeys hstandalone) frame s rest hdepth
    refine ⟨.list items', ?_, .bind_of_ok (checkDepth_of_le hdepth) (hexpands.map Node.list)⟩
    simp only [Node.claimants, Node.withIds, hnamed]
  | .scalar _, _, _ | .set _, _, _ | .pair _ _, _, _ => namesNode_of_isLeaf trivial

/-- The expansion of each item of a list that refers to no files gives ids to its entries. -/
theorem namesNode_items : ∀ items : List Node, Node.DistinctKeysList items →
    Node.StandaloneList items → ∀ item ∈ items, x.NamesNode below item
  | [], _, _ => nofun
  | item :: items, hkeys, hstandalone => List.forall_mem_cons.2
    ⟨namesNode item hkeys.1 hstandalone.1, namesNode_items items hkeys.2 hstandalone.2⟩

/-- The expansion of each value of a map that refers to no files gives ids to its entries. -/
theorem namesNode_values : ∀ es : Entries, Node.DistinctKeysEntries es →
    Node.StandaloneValues es → ∀ e ∈ es, x.NamesNode below e.2
  | [], _, _ => nofun
  | (_, v) :: es, hkeys, hstandalone => List.forall_mem_cons.2
    ⟨namesNode v hkeys.1 hstandalone.1, namesNode_values es hkeys.2 hstandalone.2⟩

end

end Documents

/-! ## Ids that are different from those before -/

section Fresh

variable {x : Expander} {s : ExpansionState} {own : Option String}

/-- An id that is kept adds a pair to the table. -/
private lemma claimOne_of_some {id : String} (h : own.filter (· ∉ Table.keys s.idPaths) = some id)
    (path : String) : x.claimOne path s own =
      (id, { s with idPaths := s.idPaths ++ [(id, Path.stripSlashes path)] }) := by
  have hid : id ∉ Table.keys s.idPaths := by simpa using (Option.filter_eq_some_iff.1 h).2
  have hpaths : Table.insert s.idPaths id (Path.stripSlashes path) = _ :=
    Table.insert_of_not_mem hid
  rw [claimOne, h, ← hpaths]
  rfl

/-- A new id that is different from those claimed before adds a pair to the table. -/
private lemma claimOne_of_none (h : own.filter (· ∉ Table.keys s.idPaths) = none)
    (hnew : x.newId s.idCount ∉ Table.keys s.idPaths) (path : String) : x.claimOne path s own =
      (x.newId s.idCount, { s with
        idPaths := s.idPaths ++ [(x.newId s.idCount, Path.stripSlashes path)]
        idCount := s.idCount + 1 }) := by
  have hfree : Table.hasKey s.idPaths (x.newId s.idCount) = false :=
    Table.hasKey_eq_false_iff.2 (Table.get?_eq_none_iff.2 hnew)
  have hpaths : Table.insert s.idPaths (x.newId s.idCount) (Path.stripSlashes path) = _ :=
    Table.insert_of_not_mem hnew
  rw [claimOne, h, ← hpaths]
  unfold recorded made
  rw [hfree]
  rfl

/-- If new ids are different from those claimed before, then every claim adds to the table. -/
private lemma claimAll_of_newIdsFree {owns : List (Option String)}
    (h : NewIdsFree x.newId (Table.keys s.idPaths) s.idCount owns) (path : String) :
    ∃ made, x.claimAll path owns s =
      (givenIds x.newId (Table.keys s.idPaths) s.idCount owns,
        { s with
          idPaths := s.idPaths ++ (givenIds x.newId (Table.keys s.idPaths) s.idCount owns).map
            fun id => (id, Path.stripSlashes path)
          idCount := made }) := by
  induction owns generalizing s with
  | nil => exact ⟨s.idCount, by simp [claimAll, givenIds]⟩
  | cons own owns ih =>
    have hkeys : ∀ id, Table.keys (s.idPaths ++ [(id, Path.stripSlashes path)]) =
        Table.keys s.idPaths ++ [id] := fun id => List.map_append
    rw [NewIdsFree] at h
    rw [claimAll, givenIds]
    cases hown : own.filter (· ∉ Table.keys s.idPaths) with
    | some id =>
      rw [hown] at h
      obtain ⟨made, hrest⟩ :=
        ih (s := { s with idPaths := s.idPaths ++ [(id, Path.stripSlashes path)] })
          (by rw [hkeys]; exact h)
      rw [claimOne_of_some hown]
      refine ⟨made, ?_⟩
      simp only [hrest, hkeys, List.map_cons, List.append_assoc, List.singleton_append]
    | none =>
      rw [hown] at h
      obtain ⟨made, hrest⟩ :=
        ih (s := { s with
          idPaths := s.idPaths ++ [(x.newId s.idCount, Path.stripSlashes path)]
          idCount := s.idCount + 1 }) (by rw [hkeys]; exact h.2)
      rw [claimOne_of_none hown h.1]
      refine ⟨made, ?_⟩
      simp only [hrest, hkeys, List.map_cons, List.append_assoc, List.singleton_append]

end Fresh

/-- **The expansion of a document that refers to no files** succeeds and asks for no file, if the
versions of its entries can be shown and the ids that are made are different from those claimed
before. The document keeps everything but the ids of its entries. One after another these keep a
text that no entry has claimed before, and get the next new id otherwise; and their ids are
recorded with the path in this order. The expansion fails if a version cannot be shown. The keys of
the document are distinct, as in all documents that are loaded (`load_distinctKeys`).

**Proof sketch.** Induction on the document: wherever the expansion of a part begins, it gives ids
to the entries of this part, and then goes on behind it. -/
theorem expand_standalone (x : Expander) {n : Node} (hkeys : n.DistinctKeys)
    (hstandalone : n.Standalone) (frame : Frame) (hdepth : frame.depth ≤ x.limits.maxDepth)
    (s : ExpansionState)
    (hfree : NewIdsFree x.newId (Table.keys s.idPaths) s.idCount
      (n.claimants.map Entries.ownId?)) :
    let ids := givenIds x.newId (Table.keys s.idPaths) s.idCount (n.claimants.map Entries.ownId?)
    (VersionsShow n.claimants → ∃ made, x.expand frame n s = .ok (n.withIds ids).1 { s with
      idPaths := s.idPaths ++ ids.map fun id => (id, Path.stripSlashes frame.path)
      idCount := made }) ∧
    (¬ VersionsShow n.claimants → ∃ t, x.expand frame n s = .error (.fault .tooManyDigits) t) := by
  intro ids
  have hnames : x.NamesNode (x.inner x.limits.maxFiles) n := namesNode n hkeys hstandalone
  obtain ⟨n', hnamed, hexpands⟩ := hnames frame s [] hdepth
  obtain ⟨made, hclaimed⟩ := claimAll_of_newIdsFree hfree frame.path
  rw [hclaimed, List.append_nil] at hnamed
  rw [hclaimed] at hexpands
  rw [expand, expandWithin_eq, hnamed]
  exact ⟨fun hshow => ⟨made, hexpands.ok hshow⟩, hexpands.error⟩

/-! ### A list of entries -/

/-- A list of four entries: one whose id is claimed before, one with an entry at its id and another
one inside it, one with the same id as the latter, and one without an id. -/
def fourEntries : Node :=
  .list [bareWorkflow "b",
    .map [(.str "class", .str "CommandLineTool"), (.str "id", bareWorkflow "c"),
      (.str "x", bareWorkflow "a")],
    .map [(.str "id", .str "a"), (.str "class", .str "ExpressionTool")],
    .map [(.str "class", .str "Workflow")]]

/-- The four entries with the ids that they get. -/
def fourNamedEntries : Node :=
  .list [bareWorkflow "0",
    .map [(.str "class", .str "CommandLineTool"), (.str "id", .str "1"),
      (.str "x", bareWorkflow "a")],
    .map [(.str "id", .str "2"), (.str "class", .str "ExpressionTool")],
    .map [(.str "class", .str "Workflow"), (.str "id", .str "3")]]

/-- Only the entry inside another one keeps its id, and the one at an id is not visited. -/
theorem fourEntries_expand :
    fourEntries.DistinctKeys ∧ fourEntries.Standalone ∧
      (Frame.root "/main").depth ≤ shelf.limits.maxDepth ∧
      NewIdsFree shelf.newId ["b"] 0 (fourEntries.claimants.map Entries.ownId?) ∧
      VersionsShow fourEntries.claimants ∧
      ∃ made, shelf.expand (.root "/main") fourEntries { idPaths := [("b", "lib")] } =
        .ok fourNamedEntries {
          idPaths := [("b", "lib"), ("0", "main"), ("1", "main"), ("a", "main"), ("2", "main"),
            ("3", "main")]
          idCount := made } := by
  have hkeys : fourEntries.DistinctKeys := by
    simp [fourEntries, bareWorkflow, Node.DistinctKeys, Node.DistinctKeysList,
      Node.DistinctKeysEntries, Entries.DistinctKeys, Scalar.key?]
  have hbare : ∀ id, (bareWorkflow id).Standalone := fun id =>
    ⟨⟨rfl, rfl, rfl, rfl⟩, trivial, trivial, trivial⟩
  have hstandalone : fourEntries.Standalone :=
    ⟨hbare "b", ⟨⟨rfl, rfl, rfl, rfl⟩, trivial, hbare "c", hbare "a", trivial⟩,
      ⟨⟨rfl, rfl, rfl, rfl⟩, trivial, trivial, trivial⟩,
      ⟨⟨rfl, rfl, rfl, rfl⟩, trivial, trivial⟩, trivial⟩
  have hfree : NewIdsFree shelf.newId ["b"] 0 (fourEntries.claimants.map Entries.ownId?) :=
    ⟨by decide, by decide, by decide, by decide, trivial⟩
  have hshow : VersionsShow fourEntries.claimants := by decide
  refine ⟨hkeys, hstandalone, by decide, hfree, hshow, ?_⟩
  exact (expand_standalone shelf hkeys hstandalone (.root "/main") (by decide)
    { idPaths := [("b", "lib")] } hfree).1 hshow

/-! ### A version that cannot be shown -/

/-- A workflow with a version and no id. -/
def versionedWorkflow (version : Node) : Entries :=
  [(.str "class", .str "Workflow"), (.str "cwlVersion", version)]

/-- The workflow is the only entry. -/
private lemma claimants_versionedWorkflow (value : Scalar) :
    (Node.map (versionedWorkflow (.scalar value))).claimants =
      [versionedWorkflow (.scalar value)] := rfl

/-- The version of the workflow is the given one. -/
private lemma field_versionedWorkflow (version : Node) :
    (versionedWorkflow version).field "cwlVersion" = version := rfl

/-- A workflow with a version that has too many digits. -/
def heavyWorkflow : Node := .map (versionedWorkflow (.scalar (.int unshowable)))

/-- **A version that cannot be shown makes the expansion fail** of a workflow that refers to no
files, although its new id is different from all others. -/
theorem heavyWorkflow_expand_fails :
    heavyWorkflow.DistinctKeys ∧ heavyWorkflow.Standalone ∧
      (Frame.root "/main").depth ≤ shelf.limits.maxDepth ∧
      NewIdsFree shelf.newId [] 0 (heavyWorkflow.claimants.map Entries.ownId?) ∧
      ∃ t, shelf.expand (.root "/main") heavyWorkflow {} = .error (.fault .tooManyDigits) t := by
  have hkeys : heavyWorkflow.DistinctKeys :=
    ⟨by decide, trivial, trivial, trivial⟩
  have hstandalone : heavyWorkflow.Standalone :=
    ⟨⟨rfl, rfl, rfl, rfl⟩, trivial, trivial, trivial⟩
  have hdepth : (Frame.root "/main").depth ≤ shelf.limits.maxDepth := by decide
  refine ⟨hkeys, hstandalone, hdepth, ⟨by decide, trivial⟩, ?_⟩
  have hnames : shelf.NamesNode (shelf.inner shelf.limits.maxFiles) heavyWorkflow :=
    namesNode heavyWorkflow hkeys hstandalone
  obtain ⟨n', -, hexpands⟩ := hnames (.root "/main") {} [] hdepth
  rw [expand, expandWithin_eq]
  refine hexpands.error fun hshow => ?_
  rw [heavyWorkflow, claimants_versionedWorkflow] at hshow
  have hlegible := hshow (versionedWorkflow (.scalar (.int unshowable))) (List.mem_singleton_self _)
  have hnone : (Node.scalar (.int unshowable)).quoted? = none := text?_unshowable
  rw [field_versionedWorkflow, Node.Legible, hnone] at hlegible
  cases hlegible

end CwlDescriptor
