import CwlDescriptor.Metadata
import CwlDescriptor.Proofs.Entries
import CwlDescriptor.Proofs.Expansion.Derivation
import CwlDescriptor.Proofs.Yaml.Construction
set_option autoImplicit false

/-!
# The keys of maps are distinct

A map that is loaded is made of its pairs one after another, so that no two of its keys stand for
the same. An expansion changes maps only in ways that keep this: it sets values, leaves entries out,
and adds those whose keys are missing. So wherever a statement asks for distinct keys, all documents
that are loaded and all that are expanded from them meet it.

## Main definitions

* `Expander.ReadsDistinct`: the documents that an expansion reads have distinct keys.

## Main results

* `load_distinctKeys`: in a document that is loaded, the keys of every map are distinct.
* `Expands.distinctKeys`: an expansion keeps the keys of all maps distinct.
* `Loads.distinctKeys`: what a reference stands for has distinct keys.
* `expandText_distinctKeys`: the keys are distinct in the expanded document of every text.
-/

namespace CwlDescriptor

namespace Node

/-- The keys are distinct in all maps of a list if they are so in all maps of each item. -/
private lemma distinctKeysList_iff {items : List Node} :
    DistinctKeysList items ↔ ∀ n ∈ items, n.DistinctKeys := by
  induction items with
  | nil => exact iff_of_true trivial nofun
  | cons n items ih => rw [DistinctKeysList, ih, List.forall_mem_cons]

/-- The keys are distinct in all maps of the values of a map if they are so in all maps of each
value. -/
private lemma distinctKeysEntries_iff {es : Entries} :
    DistinctKeysEntries es ↔ ∀ e ∈ es, e.2.DistinctKeys := by
  induction es with
  | nil => exact iff_of_true trivial nofun
  | cons e es ih => rw [DistinctKeysEntries, ih, List.forall_mem_cons]

end Node

/-! ## Documents that are loaded -/

namespace Yaml.Tree

section Fill

variable {n : Nat} (hfill : ∀ {t : Tree} {d : Node}, fill n t = .ok d → d.DistinctKeys)
include hfill

/-- A part of a collection has distinct keys, if the collections in it have. -/
private lemma distinctKeys_of_part {t : Tree} {d : Node} (h : part (fill n) t = .ok d) :
    d.DistinctKeys := by
  unfold part at h
  split_ifs at h with hcollection
  · exact hfill (Round.later_eq_ok.1 h)
  · obtain ⟨value, -, rfl⟩ := Except.map_eq_ok.1
      (show Node.scalar <$> Round.now t.toScalar = .ok d from h)
    trivial

/-- An element of an ordered map has distinct keys, if the collections in it have. -/
private lemma distinctKeys_of_single {t : Tree} {d : Node} (h : single (fill n) t = .ok d) :
    d.DistinctKeys := by
  unfold single at h
  split at h
  · next k v =>
    obtain ⟨p, hp, rfl⟩ := Except.map_eq_ok.1
      (show (fun p : Node × Node => Node.pair p.1 p.2) <$>
        ((part (fill n) k).both (part (fill n) v)) = .ok d from h)
    obtain ⟨hk, hv⟩ := Round.both_eq_ok.1 hp
    exact ⟨distinctKeys_of_part hfill hk, distinctKeys_of_part hfill hv⟩
  · cases h

/-- A map of pairs has distinct keys, if the collections in it have. -/
private lemma distinctKeys_of_entries {pairs : List (Tree × Tree)} {es : Entries}
    (h : entries (fill n) pairs = .ok es) : (Node.map es).DistinctKeys := by
  obtain ⟨flat, -, h⟩ := Except.bind_eq_ok.1 h
  obtain ⟨es', hall, h⟩ := Except.bind_eq_ok.1 h
  obtain rfl := Except.ok.inj h
  have hvalues : ∀ e ∈ es', True ∧ e.2.DistinctKeys := by
    intro e he
    obtain ⟨p, -, hp⟩ := List.mem_map.1 (Round.ok_mem_of_all hall he)
    exact ⟨trivial, distinctKeys_of_part hfill (Round.both_eq_ok.1 hp).2⟩
  have hmap := Entries.forall_ofList (P := fun _ => True) hvalues
  exact ⟨Entries.distinctKeys_ofList es', Node.distinctKeysEntries_iff.2 fun e he => (hmap e he).2⟩

end Fill

/-- A list has distinct keys, if its items have. -/
private lemma distinctKeys_of_all {read : Tree → Round Node}
    (hread : ∀ {t : Tree} {d : Node}, read t = .ok d → d.DistinctKeys) {items : List Tree}
    {d : Node} (h : (Round.all (items.map read)).map Node.list = .ok d) : d.DistinctKeys := by
  obtain ⟨nodes, hall, rfl⟩ := Except.map_eq_ok.1
    (show Node.list <$> Round.all (items.map read) = .ok d from h)
  refine Node.distinctKeysList_iff.2 fun node hnode => ?_
  obtain ⟨t, -, ht⟩ := List.mem_map.1 (Round.ok_mem_of_all hall hnode)
  exact hread ht

/-- In the document of a tree, the keys of every map are distinct. -/
private lemma distinctKeys_of_fill (n : Nat) {t : Tree} {d : Node} (h : fill n t = .ok d) :
    d.DistinctKeys := by
  -- By induction on the levels: the parts of a collection are loaded on the level below.
  induction n generalizing t d with
  | zero => cases h
  | succ n ih =>
    cases t with
    | scalar tag text => cases h
    | sequence tag items =>
      unfold fill at h
      split at h
      · exact distinctKeys_of_all (distinctKeys_of_part ih) h
      · exact distinctKeys_of_all (distinctKeys_of_single ih) h
      · exact distinctKeys_of_all (distinctKeys_of_single ih) h
      · cases h
    | mapping tag pairs =>
      unfold fill at h
      split at h
      · obtain ⟨es, hentries, rfl⟩ := Except.map_eq_ok.1
          (show Node.map <$> entries (fill n) pairs = .ok d from h)
        exact distinctKeys_of_entries ih hentries
      · obtain ⟨es, -, rfl⟩ := Except.map_eq_ok.1
          (show (fun es => Node.set (es.map (·.1))) <$> entries (fill n) pairs = .ok d from h)
        trivial
      · cases h

end Yaml.Tree

/-- **In a document that is loaded, the keys of every map are distinct.** -/
theorem load_distinctKeys {text : String} {path : Option String} {document : Node}
    (h : load text path = .ok document) : document.DistinctKeys := by
  have h := Except.mapError_eq_ok.1 h
  unfold Yaml.load at h
  split_ifs at h
  obtain ⟨result, -, h⟩ := Except.bind_eq_ok.1 h
  cases result with
  | none =>
    obtain rfl := Except.ok.inj h
    trivial
  | some root =>
    have hpart := Except.mapError_eq_ok.1 (show (Yaml.Tree.part (Yaml.Tree.fill Yaml.maxNesting)
      root).mapError (·.2) = .ok document from h)
    exact Yaml.Tree.distinctKeys_of_part (Yaml.Tree.distinctKeys_of_fill _) hpart

/-! ## Documents that are expanded -/

namespace Entries

/-- A map has distinct keys if another one with the same keys has. -/
private lemma DistinctKeys.of_keys_eq {es es' : Entries} (h : es.DistinctKeys)
    (hkeys : es'.map (·.1) = es.map (·.1)) : es'.DistinctKeys := by
  have hfilter (es : Entries) : es.filterMap (·.1.key?) = (es.map (·.1)).filterMap Scalar.key? := by
    rw [List.filterMap_map]
    rfl
  rw [DistinctKeys, hfilter] at h ⊢
  rwa [hkeys]

end Entries

namespace Node.DistinctKeys

variable {es : Entries} (h : (Node.map es).DistinctKeys)
include h

/-- A map keeps its distinct keys when a document that has them is set at a key. -/
lemma set (name : String) {v : Node} (hv : v.DistinctKeys) :
    (Node.map (es.set name v)).DistinctKeys := by
  refine ⟨Entries.DistinctKeys.insert h.1 _ v, distinctKeysEntries_iff.2 fun e he => ?_⟩
  rcases Entries.mem_set he with hmem | rfl
  · exact distinctKeysEntries_iff.1 h.2 e hmem
  · exact hv

/-- A map keeps its distinct keys when it gets a new id. -/
lemma withId (newId : Option String) : (Node.map (Expander.withId es newId)).DistinctKeys := by
  cases newId with
  | none => exact h
  | some id => exact h.set "id" trivial

/-- A map keeps its distinct keys when a directive is erased. -/
lemma eraseDirective (kind : DirectiveKind) :
    (Node.map (es.eraseDirective kind)).DistinctKeys := by
  have hsub := Entries.eraseDirective_sublist es kind
  refine ⟨h.1.sublist hsub, distinctKeysEntries_iff.2 fun e he => ?_⟩
  exact distinctKeysEntries_iff.1 h.2 e (hsub.subset he)

/-- A map keeps its distinct keys when those of another one are added that it lacks. -/
lemma addMissing {added : Entries} (hadded : (Node.map added).DistinctKeys) :
    (Node.map (es.addMissing added)).DistinctKeys := by
  refine ⟨h.1.addMissing added, distinctKeysEntries_iff.2 fun e he => ?_⟩
  rcases Entries.mem_addMissing he with hmem | hmem
  · exact distinctKeysEntries_iff.1 h.2 e hmem
  · exact distinctKeysEntries_iff.1 hadded.2 e (List.mem_filter.1 hmem).1

/-- A map keeps its distinct keys when a new id is added that takes the place of no value. -/
private lemma append_missing (r : Replacements) :
    (Node.map (es ++ r.missing es)).DistinctKeys := by
  unfold Replacements.missing
  split
  · next id _ hid =>
    rw [← Entries.insert_of_find?_eq_none ((Entries.find?_str es "id").trans hid)]
    exact h.set "id" trivial
  · rwa [List.append_nil]

end Node.DistinctKeys

/-- In the documents that are read, the keys of all maps are distinct. -/
def Expander.ReadsDistinct (x : Expander) : Prop :=
  ∀ text path document, x.read text path = .ok document → document.DistinctKeys

/-- The keys are distinct in what is read as descriptors are loaded. -/
lemma Expander.readsDistinct_of_load {x : Expander} (h : x.read = load) : x.ReadsDistinct := by
  intro text path document hread
  rw [h] at hread
  exact load_distinctKeys hread

section Expansion

open Expansion Expander

/-- The values of a map are expanded at their keys. -/
private lemma ExpandsEntries.keys_eq {x : Expander} {levels : Nat} {frame : Frame}
    {r : Replacements} {es es' : Entries} {s t : ExpansionState}
    (h : ExpandsEntries x levels frame r es s es' t) :
    es'.map (·.1) = es.map (·.1) := by
  induction es generalizing s es' with
  | nil =>
    cases h
    rfl
  | cons e es ih =>
    cases h with
    | text _ _ hentries | value _ _ hentries => rw [List.map_cons, List.map_cons, ih hentries]

variable {x : Expander}

mutual

/-- **An expansion keeps the keys of all maps distinct**, if the documents that are read have
distinct keys.

**Proof sketch.** Induction on the derivation. The values of a map are expanded at their keys, and
every other change of a map is one that keeps its keys distinct. -/
theorem Expands.distinctKeys (hread : x.ReadsDistinct) : ∀ {levels : Nat} {stage : Stage}
    {frame : Frame} {n r : Node} {s t : ExpansionState}, Expands x levels stage frame n s r t →
      n.DistinctKeys → r.DistinctKeys
  | _, _, _, _, _, _, _, .leaf _ _, h => h
  | _, _, _, _, _, _, _, .list _ hitems, h => hitems.distinctKeys hread h
  | _, _, _, _, _, _, _, .merged hentries hrun, h =>
    hrun.distinctKeys hread ⟨h.1.of_keys_eq hentries.keys_eq, hentries.distinctValues hread h.2⟩
  | _, _, _, _, _, _, _, @Expands.replaced _ _ _ _ _ newId _ _ _ _ _ _ _ hdirect, h =>
    hdirect.distinctKeys hread (h.withId newId)
  | _, _, _, _, _, _, _, @Expands.mixed _ _ _ _ _ _ newId _ _ _ _ _ _ _ _ hdirect hrest, h =>
    hrest.distinctKeys hread (hdirect.distinctKeys hread (h.withId newId))
  | _, _, _, _, _, _, _, .unchanged _ _ _ hentries hrun, h =>
    have hnew := h.append_missing _
    hrun.distinctKeys hread
      ⟨hnew.1.of_keys_eq hentries.keys_eq, hentries.distinctValues hread hnew.2⟩

/-- The expansion of a list keeps the keys distinct in its items. -/
theorem ExpandsItems.distinctKeys (hread : x.ReadsDistinct) : ∀ {levels : Nat} {frame : Frame}
    {items items' : List Node} {s t : ExpansionState},
    ExpandsItems x levels frame items s items' t →
      Node.DistinctKeysList items → Node.DistinctKeysList items'
  | _, _, _, _, _, _, .nil, h => h
  | _, _, _, _, _, _, .cons hitem hitems, h =>
    ⟨hitem.distinctKeys hread h.1, hitems.distinctKeys hread h.2⟩

/-- The expansion of the values of a map keeps the keys distinct in them. -/
theorem ExpandsEntries.distinctValues (hread : x.ReadsDistinct) : ∀ {levels : Nat}
    {frame : Frame} {r : Replacements} {es es' : Entries} {s t : ExpansionState},
    ExpandsEntries x levels frame r es s es' t →
      Node.DistinctKeysEntries es → Node.DistinctKeysEntries es'
  | _, _, _, _, _, _, _, .nil, h => h
  | _, _, _, _, _, _, _, .text _ _ hentries, h => ⟨trivial, hentries.distinctValues hread h.2⟩
  | _, _, _, _, _, _, _, .value _ hvalue hentries, h =>
    ⟨hvalue.distinctKeys hread h.1, hentries.distinctValues hread h.2⟩

/-- A map keeps its distinct keys when its run is replaced. -/
theorem ExpandsRun.distinctKeys (hread : x.ReadsDistinct) : ∀ {levels : Nat} {frame : Frame}
    {es es' : Entries} {s t : ExpansionState}, ExpandsRun x levels frame es s es' t →
      (Node.map es).DistinctKeys → (Node.map es').DistinctKeys
  | _, _, _, _, _, _, .none _, h => h
  | _, _, _, _, _, _, .absent _ _, h => h
  | _, _, _, _, _, _, .loaded _ hload, h => h.set "run" (hload.distinctKeys hread _ rfl)

/-- What following the directives of a map makes of it has distinct keys. -/
theorem Directs.distinctKeys (hread : x.ReadsDistinct) : ∀ {levels : Nat} {frame : Frame}
    {es : Entries} {s t : ExpansionState} {directed : Directed},
    Directs x levels frame es s directed t →
      (Node.map es).DistinctKeys → (directed.document es).DistinctKeys
  | _, _, _, _, _, _, @Directs.imported _ _ _ _ _ document _ _ _ hload, h => by
    have hloaded := hload.distinctKeys hread
    cases document with
    | none => exact ⟨List.nodup_nil, trivial⟩
    | some document => exact hloaded document rfl
  | _, _, _, _, _, _, .included _ _ _, h => trivial
  | _, _, _, _, _, _, .mixedAbsent _ _, h => h.eraseDirective .mixing
  | _, _, _, _, _, _, .mixedMap _ hload, h =>
    (h.eraseDirective .mixing).addMissing (hload.distinctKeys hread _ rfl)
  | _, _, _, _, _, _, .mixedOther _ _ _, h => h
  | _, _, _, _, _, _, .inert _, h => h

/-- What a reference stands for has distinct keys. -/
theorem Loads.distinctKeys (hread : x.ReadsDistinct) : ∀ {levels : Nat} {frame : Frame}
    {reference : String} {loaded : Option Node} {s t : ExpansionState},
    Loads x levels frame reference s loaded t →
      ∀ document, loaded = some document → document.DistinctKeys
  | _, _, _, _, _, _, .absent _, _, h => by cases h
  | _, _, _, _, _, _, @Loads.found _ _ _ _ _ _ _ r _ _ _ _ _ hread' hexpand, document, h => by
    have hr : r.DistinctKeys := hexpand.distinctKeys hread (hread _ _ _ hread')
    split_ifs at h
    exact Option.some.inj h ▸ hr

end

/-- **In the expanded document of a text, the keys of every map are distinct.** -/
theorem expandText_distinctKeys (hread : x.ReadsDistinct) {path text : String} {document : Node}
    {s t : ExpansionState} (h : expandText x path text s = .ok document t) :
    document.DistinctKeys := by
  obtain ⟨n, s₁, hload, hexpand⟩ := bind_eq_ok.1 h
  have hn : n.DistinctKeys := load_distinctKeys (lift_eq_ok hload).1
  exact (expands_iff.2 hexpand).distinctKeys hread hn

end Expansion

end CwlDescriptor
