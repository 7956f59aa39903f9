import CwlDescriptor.Proofs.Failures
import CwlDescriptor.Proofs.Tables
import CwlDescriptor.Proofs.Workflow.Outcome
import CwlDescriptor.Workflow.Step
import CwlDescriptor.Workflow.Requirement
set_option autoImplicit false

/-!
# List forms and map forms

Several fields of a workflow, of its steps and of what they run may be written as a list of maps or
as one map from a distinguished field to the rest. Two maps say the same if they differ in nothing
but these choices, at any depth. Then what is read of them is the same: the images, the sources of
the inputs and outputs, and whether they can be shown in a message.

## Main definitions

* `FieldRow`, `Node.rows?`: the items of a list or the entries of a map.
* `FieldRow.step`: the step of a row.
* `Entries.IsItemOf`: an item of a list form says the same as an entry of a map form.
* `Entries.Recodes`: two maps say the same.
* `Entries.FieldsRecode`: two maps say the same, except perhaps for their ids.

## Main results

* `steps_eq_mapM`: the steps of a workflow are read row by row.
* `Node.RecodesAt.sameFields`: the items in list form have the same fields.
* `Entries.Recodes.legible`: both or neither of two maps that say the same can be shown.
* `Entries.FieldsRecode.effectiveImage_eq`, `Entries.FieldsRecode.stepDependencies_eq`: what is read
  of two maps that say the same.
-/

namespace CwlDescriptor

/-! ## Rows -/

/-- An item of a list, which has no key, or an entry of a map. -/
abbrev FieldRow := Option Scalar × Node

namespace FieldRow

/-- A row in list form. -/
def item (key short : String) : FieldRow → Node
  | (none, item) => item
  | (some k, v) => Node.itemOfEntry key short (k, v)

/-- The key and the value of a row can be shown. -/
def Legible (row : FieldRow) : Prop :=
  (∀ k ∈ row.1, k.quoted?.isSome) ∧ row.2.Legible

/-- An item can be shown if it can be as a document. -/
private lemma legible_item {n : Node} : Legible (none, n) ↔ n.Legible := by
  simp [Legible]

/-- An entry whose key is a text can be shown if its value can. -/
private lemma legible_entry {key : String} {n : Node} :
    Legible (some (.str key), n) ↔ n.Legible := by
  simp [Legible, Scalar.quoted?]

end FieldRow

namespace Node

/-- The rows of a list or of a map. -/
def rows? : Node → Option (List FieldRow)
  | .list items => some (items.map (none, ·))
  | .map es => some (es.map fun e => (some e.1, e.2))
  | _ => none

variable {n : Node} {rows : List FieldRow}

/-- The list form of a document has an item for each of its rows. -/
private lemma listForm_of_rows (h : n.rows? = some rows) (key short : String) :
    n.listForm key short = rows.map (FieldRow.item key short) := by
  cases n with
  | list items | map es =>
    cases h
    simp [listForm, FieldRow.item, Function.comp_def]
  | scalar _ | set _ | pair _ _ => cases h

/-- A document with rows can be shown if all its rows can. -/
lemma legible_iff_rows (h : n.rows? = some rows) : n.Legible ↔ ∀ row ∈ rows, row.Legible := by
  cases n with
  | list items =>
    cases h
    simp [legible_list, FieldRow.Legible]
  | map es =>
    cases h
    rw [legible_map, List.forall_mem_map]
    simp [Entries.Legible, FieldRow.Legible]
  | scalar _ | set _ | pair _ _ => cases h

/-- Two nodes cannot be told apart by their fields. -/
def SameFields (n n' : Node) : Prop := ∀ name, n.field name = n'.field name

end Node

/-! ## Steps row by row -/

/-- The step of a row with its key. -/
def FieldRow.step (path : Option String) : FieldRow → Except Failure (String × Entries)
  | (none, step) =>
    if (step.field "id").isNull then
      step.shown >>= fun text => .error (.refuse (.stepWithoutId text) path)
    else (·, step.entries?.getD []) <$> stepId (step.field "id")
  | (some key, step) => (·, step.entries?.getD []) <$> (Node.scalar key).shown

/-- The steps of a list are added row by row. -/
private lemma addListedSteps_eq_mapM (path : Option String) (table : Table Entries)
    (items : List Node) :
    addListedSteps path table items =
      Table.insertAll table <$> (items.map (none, ·)).mapM (FieldRow.step path) := by
  induction items generalizing table with
  | nil => rfl
  | cons item items ih =>
    rw [List.map_cons, List.mapM_cons, FieldRow.step, addListedSteps]
    split_ifs
    · cases item.shown <;> rfl
    · simp only [ih, bind_map_left, map_bind, bind_pure_comp, Functor.map_map]
      rfl

/-- The steps of a map are added row by row. -/
private lemma addNamedSteps_eq_mapM (path : Option String) (table : Table Entries) (es : Entries) :
    addNamedSteps table es =
      Table.insertAll table <$> (es.map fun e => (some e.1, e.2)).mapM (FieldRow.step path) := by
  induction es generalizing table with
  | nil => rfl
  | cons e es ih =>
    rw [List.map_cons, List.mapM_cons, FieldRow.step, addNamedSteps]
    simp only [ih, bind_map_left, map_bind, bind_pure_comp, Functor.map_map]
    rfl

/-- The steps of a workflow are read row by row. -/
lemma steps_eq_mapM {workflow : Entries} {rows : List FieldRow}
    (h : (workflow.field "steps").rows? = some rows) (path : Option String) :
    steps workflow path = Table.insertAll [] <$> rows.mapM (FieldRow.step path) := by
  unfold steps
  cases hfield : workflow.field "steps" with
  | list items =>
    rw [hfield] at h
    cases h
    exact addListedSteps_eq_mapM path [] items
  | map es =>
    rw [hfield] at h
    cases h
    exact addNamedSteps_eq_mapM path [] es
  | scalar _ | set _ | pair _ _ =>
    rw [hfield] at h
    cases h

/-! ## Items and entries -/

namespace Entries

/-- A map can be shown if the rest of it can be and the value at the erased key. -/
private lemma legible_iff_erase (es : Entries) (key : String) :
    es.Legible ↔ Legible (es.erase (.str key)) ∧ (es.field key).Legible := by
  induction es with
  | nil => exact ⟨fun h => ⟨h, rfl⟩, fun h => h.1⟩
  | cons e es ih =>
    obtain ⟨k, v⟩ := e
    by_cases hk : k = .str key
    · subst hk
      have herase : erase ((.str key, v) :: es) (.str key) = es := by
        rw [erase, if_pos (Scalar.sameKey_str.2 rfl)]
      have hfield : field ((.str key, v) :: es) key = v := by simp [field, get?]
      have hkey : (Scalar.str key).quoted?.isSome := rfl
      rw [herase, hfield, Legible, List.forall_mem_cons]
      exact ⟨fun h => ⟨h.2, h.1.2⟩, fun h => ⟨⟨hkey, h.2⟩, h.1⟩⟩
    · have herase : erase ((k, v) :: es) (.str key) = (k, v) :: erase es (.str key) := by
        rw [erase, if_neg fun h => hk (Scalar.sameKey_str.1 h)]
      have hfield : field ((k, v) :: es) key = field es key := by simp [field, get?, hk]
      rw [herase, hfield, Legible, Legible, List.forall_mem_cons, List.forall_mem_cons]
      exact (and_congr_right fun _ => ih).trans and_assoc.symm

/-- A map can be shown if the rest of it can be, if the erased value is a text or there is none. -/
private lemma legible_iff_erase_text {es : Entries} {key text : String}
    (h : es.field key = .null ∨ es.field key = .str text) :
    es.Legible ↔ Legible (es.erase (.str key)) := by
  rw [legible_iff_erase es key]
  refine and_iff_left ?_
  rcases h with h | h <;> rw [h] <;> rfl

/-- The value at another key stays when an entry is erased. -/
private lemma field_erase_of_ne {key name : String} (h : key ≠ name) (es : Entries) :
    (es.erase (.str key)).field name = es.field name := by
  rw [field, get?_erase_of_ne h, field]

/-- An item of a list form says the same as an entry of a map form: it has the key of the entry at
the distinguished field, and beside it what the value has, or the value as another field. In the map
form the distinguished field may stand in the value once more. -/
inductive IsItemOf (key short : String) (item : Entries) (k : String) : Node → Prop
  | rest {rest : Entries} (hkey : item.field key = .str k)
    (hown : rest.field key = .null ∨ rest.field key = .str k)
    (hrest : item.erase (.str key) = rest.erase (.str key)) : IsItemOf key short item k (.map rest)
  | short {v : Node} (hkey : item.field key = .str k) (hv : v.entries? = none)
    (hrest : item.erase (.str key) = [(.str short, v)]) : IsItemOf key short item k v

namespace IsItemOf

variable {key short k : String} {item : Entries} {v : Node}

/-- An item of an entry has the fields of what the entry stands for. -/
lemma sameFields (h : IsItemOf key short item k v) (hne : key ≠ short) :
    Node.SameFields (.map item) (Node.itemOfEntry key short (.str k, v)) := by
  intro name
  cases h with
  | @rest rest hkey hown hrest =>
    show item.field name = (Entries.set rest key (.str k)).field name
    by_cases hname : key = name
    · subst hname
      rw [hkey, field_set_self]
    · rw [field_set_of_ne hname, ← field_erase_of_ne hname, hrest, field_erase_of_ne hname]
  | short hkey hv hrest =>
    have hform : Node.itemOfEntry key short (.str k, v) =
        .map (Entries.set [(.str key, .str k)] short v) := by
      cases v with
      | map _ => cases hv
      | scalar _ | list _ | set _ | pair _ _ => rfl
    rw [hform]
    show item.field name = (Entries.set [(.str key, .str k)] short v).field name
    by_cases hname : key = name
    · subst hname
      rw [hkey, field_set_of_ne hne.symm]
      simp [field, Entries.get?]
    · have herase : item.field name = field [(.str short, v)] name := by
        rw [← field_erase_of_ne hname, hrest]
      rw [herase]
      unfold field
      rw [get?_set]
      simp [Entries.get?, hname]

/-- An item of an entry can be shown if the value of the entry can. -/
lemma legible (h : IsItemOf key short item k v) : (Node.map item).Legible ↔ v.Legible := by
  rw [Node.legible_map]
  cases h with
  | rest hkey hown hrest =>
    rw [Node.legible_map, legible_iff_erase_text (.inr hkey), hrest, legible_iff_erase_text hown]
  | short hkey hv hrest =>
    have hshort : (Scalar.str short).quoted?.isSome := rfl
    rw [legible_iff_erase_text (.inr hkey), hrest, Legible, List.forall_mem_singleton]
    exact and_iff_right hshort

end IsItemOf

end Entries

/-- Two rows are the same, or one is an item of a list form that says the same as the other one. -/
inductive SameRow (key short : String) : FieldRow → FieldRow → Prop
  | same (row : FieldRow) : SameRow key short row row
  | named {item : Entries} {k : String} {v : Node} (h : item.IsItemOf key short k v) :
    SameRow key short (none, .map item) (some (.str k), v)
  | listed {item : Entries} {k : String} {v : Node} (h : item.IsItemOf key short k v) :
    SameRow key short (some (.str k), v) (none, .map item)

namespace SameRow

variable {key short : String} {row row' : FieldRow}

/-- The same row stands for items with the same fields. -/
lemma sameFields (h : SameRow key short row row') (hne : key ≠ short) :
    Node.SameFields (row.item key short) (row'.item key short) := by
  cases h with
  | same row => exact fun _ => rfl
  | named h => exact h.sameFields hne
  | listed h => exact fun name => (h.sameFields hne name).symm

/-- The same row can be shown in both forms, or in none. -/
lemma legible (h : SameRow key short row row') : row.Legible ↔ row'.Legible := by
  cases h with
  | same row => exact Iff.rfl
  | named h => rw [FieldRow.legible_item, FieldRow.legible_entry, h.legible]
  | listed h => rw [FieldRow.legible_item, FieldRow.legible_entry, h.legible]

end SameRow

/-! ## Maps that say the same -/

/-- The fields with a list form and a map form, with the distinguished field of the items, and the
field for a value that is no map. -/
def formFields : Table (String × String) :=
  [("requirements", "class", "value"), ("hints", "class", "value"), ("in", "id", "source"),
    ("outputs", "id", "type")]

mutual

/-- Two maps say the same: they have the same keys, and at each key values that say the same. -/
inductive Entries.Recodes : Entries → Entries → Prop
  | nil : Entries.Recodes [] []
  | cons {k : Scalar} {v v' : Node} {es es' : Entries} (hv : Node.RecodesAt k v v')
    (hes : Entries.Recodes es es') : Entries.Recodes ((k, v) :: es) ((k, v') :: es')

/-- Two values at a key say the same. -/
inductive Node.RecodesAt : Scalar → Node → Node → Prop
  | same (k : Scalar) (n : Node) : Node.RecodesAt k n n
  /-- Requirements, hints, inputs and outputs. -/
  | form {name key short : String} {n n' : Node} {rows rows' : List FieldRow}
    (hname : Table.get? formFields name = some (key, short)) (hn : n.rows? = some rows)
    (hn' : n'.rows? = some rows') (hrows : List.Forall₂ (SameRow key short) rows rows') :
    Node.RecodesAt (.str name) n n'
  | steps {n n' : Node} {rows rows' : List FieldRow} (hn : n.rows? = some rows)
    (hn' : n'.rows? = some rows') (hrows : StepsRecode rows rows') :
    Node.RecodesAt (.str "steps") n n'
  /-- What a step runs. -/
  | run {es es' : Entries} (h : Entries.Recodes es es') :
    Node.RecodesAt (.str "run") (.map es) (.map es')

/-- The steps in two lists or maps say the same, in their order. -/
inductive StepsRecode : List FieldRow → List FieldRow → Prop
  | nil : StepsRecode [] []
  | cons {row row' : FieldRow} {rows rows' : List FieldRow} (hrow : StepRecodes row row')
    (hrows : StepsRecode rows rows') : StepsRecode (row :: rows) (row' :: rows')

/-- Two steps say the same. One may be an item of a list with an id that begins with no number sign,
and the other one an entry of a map at this id, in which the id may stand once more. -/
inductive StepRecodes : FieldRow → FieldRow → Prop
  | same (row : FieldRow) : StepRecodes row row
  | inner (k : Option Scalar) {step step' : Entries} (h : Entries.Recodes step step') :
    StepRecodes (k, .map step) (k, .map step')
  | named {key : String} {step step' : Entries} (hid : step.field "id" = .str key)
    (hmark : key.toList.head? ≠ some '#')
    (hown : step'.field "id" = .null ∨ step'.field "id" = .str key)
    (h : Entries.Recodes (step.erase (.str "id")) (step'.erase (.str "id"))) :
    StepRecodes (none, .map step) (some (.str key), .map step')
  | listed {key : String} {step step' : Entries} (hid : step'.field "id" = .str key)
    (hmark : key.toList.head? ≠ some '#')
    (hown : step.field "id" = .null ∨ step.field "id" = .str key)
    (h : Entries.Recodes (step.erase (.str "id")) (step'.erase (.str "id"))) :
    StepRecodes (some (.str key), .map step) (none, .map step')

end

namespace Entries

variable {es es' : Entries}

/-- Maps say the same if they have the same keys with values that say the same there. -/
private lemma recodes_iff : Recodes es es' ↔ Related Node.RecodesAt es es' := by
  constructor
  · intro h
    induction es generalizing es' with
    | nil =>
      cases h
      exact .nil
    | cons e es ih =>
      cases h with
      | cons hv hes => exact .cons ⟨rfl, hv⟩ (ih hes)
  · intro h
    induction h with
    | nil => exact .nil
    | @cons e e' es es' he _ ih =>
      obtain ⟨k, v⟩ := e
      obtain ⟨k', v'⟩ := e'
      obtain ⟨rfl, hv⟩ := he
      exact .cons hv ih

/-- A map says the same as itself. -/
lemma Recodes.refl (es : Entries) : Recodes es es :=
  recodes_iff.2 (.refl Node.RecodesAt.same es)

/-- The values at a key of maps that say the same do so as well. -/
lemma Recodes.field (h : Recodes es es') (name : String) :
    Node.RecodesAt (.str name) (es.field name) (es'.field name) := by
  unfold Entries.field
  rcases (recodes_iff.1 h).get? name with ⟨hnone, hnone'⟩ | ⟨v, v', hv, hv', hrel⟩
  · rw [hnone, hnone']
    exact .same _ _
  · rw [hv, hv']
    exact hrel

end Entries

/-! ## Documents that can be shown -/

mutual

/-- Both or neither of two maps that say the same can be shown. -/
lemma Entries.Recodes.legible {es es' : Entries} : es.Recodes es' → (es.Legible ↔ es'.Legible)
  | .nil => Iff.rfl
  | .cons hv hes => by
    unfold Entries.Legible
    rw [List.forall_mem_cons, List.forall_mem_cons]
    exact and_congr (and_congr_right fun _ => hv.legible) hes.legible

/-- Values that say the same can both be shown, or neither can. -/
lemma Node.RecodesAt.legible {k : Scalar} {n n' : Node} :
    Node.RecodesAt k n n' → (n.Legible ↔ n'.Legible)
  | .same _ _ => Iff.rfl
  | .form _ hn hn' hrows => by
    rw [Node.legible_iff_rows hn, Node.legible_iff_rows hn']
    clear hn hn'
    induction hrows with
    | nil => exact Iff.rfl
    | cons hrow _ ih =>
      rw [List.forall_mem_cons, List.forall_mem_cons]
      exact and_congr hrow.legible ih
  | .steps hn hn' hrows => by
    rw [Node.legible_iff_rows hn, Node.legible_iff_rows hn']
    exact hrows.legible
  | .run h => by
    rw [Node.legible_map, Node.legible_map]
    exact h.legible

/-- Rows of steps that say the same can all be shown, or not. -/
lemma StepsRecode.legible {rows rows' : List FieldRow} :
    StepsRecode rows rows' → ((∀ row ∈ rows, row.Legible) ↔ ∀ row ∈ rows', row.Legible)
  | .nil => Iff.rfl
  | .cons hrow hrows => by
    rw [List.forall_mem_cons, List.forall_mem_cons]
    exact and_congr hrow.legible hrows.legible

/-- Two rows of a step that say the same can both be shown, or neither can. -/
lemma StepRecodes.legible {row row' : FieldRow} :
    StepRecodes row row' → (row.Legible ↔ row'.Legible)
  | .same _ => Iff.rfl
  | .inner k h => and_congr_right fun _ => by
    rw [Node.legible_map, Node.legible_map]
    exact h.legible
  | .named hid _ hown h => by
    rw [FieldRow.legible_item, FieldRow.legible_entry, Node.legible_map, Node.legible_map,
      Entries.legible_iff_erase_text (.inr hid), h.legible, Entries.legible_iff_erase_text hown]
  | .listed hid _ hown h => by
    rw [FieldRow.legible_item, FieldRow.legible_entry, Node.legible_map, Node.legible_map,
      Entries.legible_iff_erase_text hown, h.legible, Entries.legible_iff_erase_text (.inr hid)]

end

/-! ## What is read of maps that say the same -/

namespace Node

variable {name key short : String} {n n' : Node}

/-- Equal results for nodes that cannot be told apart by their fields. -/
private lemma map_eq_of_sameFields {α : Type} {f : Node → α}
    (hf : ∀ a b, SameFields a b → f a = f b) {items items' : List Node}
    (h : List.Forall₂ SameFields items items') : items.map f = items'.map f := by
  induction h with
  | nil => rfl
  | cons hitem _ ih => rw [List.map_cons, List.map_cons, hf _ _ hitem, ih]

/-- The items of two fields that say the same have the same fields. -/
lemma RecodesAt.sameFields (h : RecodesAt (.str name) n n')
    (hname : Table.get? formFields name = some (key, short)) (hne : key ≠ short) :
    List.Forall₂ SameFields (n.listForm key short) (n'.listForm key short) := by
  cases h with
  | same => exact List.forall₂_same.2 fun _ _ _ => rfl
  | form hname' hn hn' hrows =>
    cases hname.symm.trans hname'
    rw [listForm_of_rows hn, listForm_of_rows hn', List.forall₂_map_left_iff,
      List.forall₂_map_right_iff]
    exact hrows.imp fun _ _ hrow => hrow.sameFields hne
  | steps => cases hname
  | run => cases hname

/-- What two steps run says the same if it is the same or both run maps that say the same. -/
lemma RecodesAt.run_cases (h : RecodesAt (.str name) n n') (hname : name = "run") :
    n = n' ∨ ∃ es es', n = .map es ∧ n' = .map es' ∧ Entries.Recodes es es' := by
  cases h with
  | same => exact .inl rfl
  | run h => exact .inr ⟨_, _, rfl, rfl, h⟩
  | form hform _ _ _ =>
    subst hname
    cases hform
  | steps => exact absurd hname (by decide)

/-- The steps of two workflows say the same if they are the same or their rows say the same. -/
lemma RecodesAt.steps_cases (h : RecodesAt (.str name) n n') (hname : name = "steps") :
    n = n' ∨ ∃ rows rows', n.rows? = some rows ∧ n'.rows? = some rows' ∧
      StepsRecode rows rows' := by
  cases h with
  | same => exact .inl rfl
  | steps hn hn' hrows => exact .inr ⟨_, _, hn, hn', hrows⟩
  | form hform _ _ _ =>
    subst hname
    cases hform
  | run => exact absurd hname (by decide)

/-- At other fields, only equal values say the same. -/
private lemma RecodesAt.eq (h : RecodesAt (.str name) n n')
    (hname : Table.get? formFields name = none) (hsteps : name ≠ "steps") (hrun : name ≠ "run") :
    n = n' := by
  cases h with
  | same => rfl
  | form hname' _ _ _ => cases hname.symm.trans hname'
  | steps => exact absurd rfl hsteps
  | run => exact absurd rfl hrun

/-- Requirements that say the same name the same image. -/
lemma RecodesAt.dockerPull_eq (h : RecodesAt (.str name) n n')
    (hname : Table.get? formFields name = some ("class", "value")) :
    dockerPull n = dockerPull n' := by
  have himages : (n.listForm "class" "value").map Requirement.image? =
      (n'.listForm "class" "value").map Requirement.image? := by
    refine map_eq_of_sameFields (fun a b hab => ?_) (h.sameFields hname (by decide))
    rw [Requirement.image?, Requirement.image?, hab, hab]
  have hfirst : (n.listForm "class" "value").findSome? Requirement.image? =
      (n'.listForm "class" "value").findSome? Requirement.image? := by
    simpa [List.findSome?_map] using congrArg (List.findSome? id) himages
  unfold dockerPull
  rw [hfirst]

/-- The sources of the items are the same. -/
private lemma RecodesAt.sourceNodes_eq (h : RecodesAt (.str name) n n')
    (hname : Table.get? formFields name = some (key, short)) (hne : key ≠ short)
    (source : String) :
    ((n.listForm key short).flatMap fun item => sourceNodes (item.field source) nodePrefix) =
      (n'.listForm key short).flatMap fun item => sourceNodes (item.field source) nodePrefix := by
  rw [List.flatMap_def, List.flatMap_def]
  refine congrArg List.flatten (map_eq_of_sameFields (fun a b hab => ?_) (h.sameFields hname hne))
  rw [hab]

end Node

namespace Entries

variable {es es' : Entries}

/-- Two maps say the same at all fields except the id. -/
def FieldsRecode (es es' : Entries) : Prop :=
  ∀ name ≠ "id", Node.RecodesAt (.str name) (es.field name) (es'.field name)

/-- Maps that say the same do so in all their fields. -/
lemma Recodes.fieldsRecode (h : es.Recodes es') : es.FieldsRecode es' :=
  fun name _ => h.field name

/-- Maps that say the same but for their ids do so in all their fields that are read. -/
lemma Recodes.fieldsRecode_of_erase (h : Recodes (es.erase (.str "id")) (es'.erase (.str "id"))) :
    es.FieldsRecode es' := by
  intro name hname
  have hfield := h.field name
  rwa [field_erase_of_ne hname.symm, field_erase_of_ne hname.symm] at hfield

/-- Maps that say the same have the same id. -/
lemma Recodes.id_eq (h : es.Recodes es') : es.field "id" = es'.field "id" :=
  (h.field "id").eq rfl (by decide) (by decide)

/-- The outputs of maps that say the same have the same sources. -/
lemma Recodes.outputDependencies_eq (h : es.Recodes es') :
    outputDependencies es = outputDependencies es' :=
  (h.field "outputs").sourceNodes_eq rfl (by decide) "outputSource"

namespace FieldsRecode

/-- Maps whose fields say the same are entries of the same class. -/
lemma entryClass?_eq (h : es.FieldsRecode es') : es.entryClass? = es'.entryClass? := by
  have hclass := (h "class" (by decide)).eq rfl (by decide) (by decide)
  rw [Entries.entryClass?, Entries.entryClass?, hclass]

/-- Maps whose fields say the same have the same effective image. -/
lemma effectiveImage_eq (h : es.FieldsRecode es') (inherited : Option String) :
    effectiveImage es inherited = effectiveImage es' inherited := by
  unfold effectiveImage
  rw [(h "requirements" (by decide)).dockerPull_eq rfl, (h "hints" (by decide)).dockerPull_eq rfl]

/-- Steps whose fields say the same have the same dependencies. -/
lemma stepDependencies_eq (h : es.FieldsRecode es') :
    stepDependencies es = stepDependencies es' :=
  (h "in" (by decide)).sourceNodes_eq rfl (by decide) "source"

end FieldsRecode

end Entries

end CwlDescriptor
