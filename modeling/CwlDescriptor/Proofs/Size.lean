import CwlDescriptor.Proofs.Entries
import CwlDescriptor.Proofs.Expansion.History
set_option autoImplicit false

/-!
# Expansions do not amplify

Every value of an expanded document comes from the document that was expanded, from a document that
was read for one request, or is an id that was made. So an expanded document is not larger than all
of these together, though documents that were expanded already may be merged into maps and are then
expanded for a second time.

## Main definitions

* `Expander.supply`: the number of values that were brought into an expansion so far.

## Main results

* `Expands.size_le`: an expansion makes a document larger by no more than was brought in.
* `expandWithin_size_le`: the bound on the size of an expanded document.
-/

namespace CwlDescriptor

open Expansion Expander

/-! ## Sizes of maps -/

namespace Node

/-- Every document has at least one node. -/
private lemma size_pos (n : Node) : 0 < n.size := by
  cases n <;> simp [size]

/-- The sizes of two parts of a map add up. -/
private lemma sizeEntries_append (es es' : Entries) :
    sizeEntries (es ++ es') = sizeEntries es + sizeEntries es' := by
  induction es with
  | nil => simp [sizeEntries]
  | cons e es ih =>
    obtain ⟨k, v⟩ := e
    rw [List.cons_append, sizeEntries, sizeEntries, ih, Nat.add_assoc]

/-- A set value makes a map larger by its own size at most. -/
private lemma sizeEntries_insert (es : Entries) (k : Scalar) (v : Node) :
    sizeEntries (es.insert k v) ≤ sizeEntries es + v.size := by
  induction es with
  | nil => simp [Entries.insert, sizeEntries]
  | cons e es ih =>
    obtain ⟨k', w⟩ := e
    unfold Entries.insert
    split
    · simp only [sizeEntries]
      omega
    · simp only [sizeEntries]
      omega

/-- The value that is set takes the place of the one that was there. -/
private lemma sizeEntries_set {es : Entries} {name : String} {v : Node} (h : es.get? name = some v)
    (w : Node) : sizeEntries (es.set name w) + v.size = sizeEntries es + w.size := by
  unfold Entries.set
  induction es with
  | nil => cases h
  | cons e es ih =>
    obtain ⟨k, u⟩ := e
    unfold Entries.get? at h
    unfold Entries.insert
    by_cases hk : k = .str name
    · rw [if_pos hk] at h
      cases h
      rw [if_pos (Scalar.sameKey_str.2 hk)]
      simp only [sizeEntries]
      omega
    · rw [if_neg hk] at h
      rw [if_neg fun hs => hk (Scalar.sameKey_str.1 hs)]
      have := ih h
      simp only [sizeEntries]
      omega

/-- Erasing an entry makes no map larger. -/
private lemma sizeEntries_erase (es : Entries) (k : Scalar) :
    sizeEntries (es.erase k) ≤ sizeEntries es := by
  induction es with
  | nil => exact Nat.le_refl _
  | cons e es ih =>
    obtain ⟨k', v⟩ := e
    unfold Entries.erase
    split
    · simp only [sizeEntries]
      omega
    · simp only [sizeEntries]
      omega

/-- Erasing a directive makes no map larger. -/
private lemma sizeEntries_eraseDirective (es : Entries) (kind : DirectiveKind) :
    sizeEntries (es.eraseDirective kind) ≤ sizeEntries es := by
  unfold Entries.eraseDirective
  split
  · exact Nat.le_refl _
  · exact sizeEntries_erase es _

/-- Adding missing entries makes a map larger by their size at most. -/
private lemma sizeEntries_addMissing (es added : Entries) :
    sizeEntries (es.addMissing added) ≤ sizeEntries es + sizeEntries added := by
  induction added generalizing es with
  | nil => simp [Entries.addMissing, sizeEntries]
  | cons e added ih =>
    obtain ⟨k, v⟩ := e
    unfold Entries.addMissing
    split
    · have := ih es
      simp only [sizeEntries]
      omega
    · have := ih (es ++ [(k, v)])
      rw [sizeEntries_append] at this
      simp only [sizeEntries] at this ⊢
      omega

/-- A new id adds one value at most. -/
private lemma sizeEntries_withId (es : Entries) (newId : Option String) :
    sizeEntries (withId es newId) ≤ sizeEntries es + newId.toList.length := by
  cases newId with
  | none => exact Nat.le_refl _
  | some id => exact sizeEntries_insert es _ _

/-- A new id makes a map larger by one at most. -/
private lemma sizeEntries_missing (r : Replacements) (es : Entries) :
    sizeEntries (r.missing es) ≤ r.id.toList.length := by
  unfold Replacements.missing
  split
  · next hid _ =>
    rw [hid]
    exact Nat.le_refl _
  · exact Nat.zero_le _

end Node

/-! ## What is brought into an expansion -/

namespace Expander

/-- The size of all documents that are read for requests. -/
def readSize (x : Expander) (requests : List Request) : Nat :=
  ((requests.filterMap x.documentOf?).map Node.size).sum

/-- The number of values that were brought into an expansion so far: those of the documents that
were read, and the ids that were made. -/
def supply (x : Expander) (s : ExpansionState) : Nat :=
  x.readSize s.requests + s.idCount

variable {x : Expander} {frame : Frame} {s t : ExpansionState}

/-- The sizes that are read for two runs of requests add up. -/
private lemma readSize_append (x : Expander) (rs rs' : List Request) :
    x.readSize (rs ++ rs') = x.readSize rs + x.readSize rs' := by
  unfold readSize
  rw [List.filterMap_append, List.map_append, List.sum_append]

/-- The check of the depth brings nothing in. -/
private lemma supply_checkDepth {u : Unit} (h : x.checkDepth frame s = .ok u t) :
    x.supply t = x.supply s := by
  obtain ⟨ws, rfl⟩ := checkDepth_eq_ok h
  rfl

/-- A file of which no document is read brings nothing in. -/
private lemma supply_loadFile_le {asDocument : Bool} {path content : Option String}
    (h : x.loadFile asDocument path s = .ok content t) : x.supply s ≤ x.supply t := by
  obtain ⟨-, ws, rfl⟩ := loadFile_eq_ok h
  show x.readSize s.requests + s.idCount ≤
    x.readSize (s.requests ++ [⟨path, asDocument⟩]) + s.idCount
  rw [readSize_append]
  omega

/-- A file whose document is read brings this document in. -/
private lemma supply_loadFile {path text : String} {document : Node}
    (h : x.loadFile true (some path) s = .ok (some text) t)
    (hread : x.read text (some path) = .ok document) :
    x.supply t = x.supply s + document.size := by
  obtain ⟨-, hdocument⟩ := documentOf?_of_loadFile h hread
  obtain ⟨-, ws, rfl⟩ := loadFile_eq_ok h
  have hsize : x.readSize [⟨some path, true⟩] = document.size := by
    simp [readSize, hdocument]
  show x.readSize (s.requests ++ [⟨some path, true⟩]) + s.idCount = _
  rw [readSize_append, hsize]
  unfold supply
  omega

/-- A map that is entered brings in its new id. -/
private lemma supply_enter {es : Entries} {newId : Option String} {frame' : Frame}
    (h : x.enter frame es s = .ok (newId, frame') t) :
    x.supply t = x.supply s + newId.toList.length := by
  rcases enter_eq_ok h with ⟨-, rfl, -, rfl⟩ | ⟨-, hclaim, -⟩
  · rfl
  · rcases claimId_cases x es frame.path s with ⟨id, -, -, h'⟩ | ⟨-, h'⟩
    · rw [h'] at hclaim
      cases hclaim
      rfl
    · rw [h'] at hclaim
      cases hclaim
      show x.readSize s.requests + (s.idCount + 1) = _
      unfold supply
      rw [Option.toList_some, List.length_singleton]
      omega

end Expander

/-! ## Sizes of expanded documents -/

section Bound

variable {x : Expander}

mutual

/-- **An expansion makes a document larger by no more than was brought in.**

**Proof sketch.** Induction on the derivation. A document that is read is paid for by its request,
and takes the place of a reference, or gives its values to a map and loses its own root. -/
theorem Expands.size_le : ∀ {levels : Nat} {stage : Stage} {frame : Frame} {n r : Node}
    {s t : ExpansionState}, Expands x levels stage frame n s r t →
      r.size + x.supply s ≤ n.size + x.supply t
  | _, _, _, _, _, _, _, .leaf _ hcheck => by
    rw [supply_checkDepth hcheck]
  | _, _, _, _, _, _, _, .list hcheck hitems => by
    have hc := supply_checkDepth hcheck
    have hi := hitems.size_le
    simp only [Node.size]
    omega
  | _, _, _, _, _, _, _, .merged hentries hrun => by
    have he := hentries.size_le
    have hr := hrun.size_le
    simp only [Node.size]
    omega
  | _, _, _, _, _, _, _, @Expands.replaced _ _ _ _ es newId _ _ _ _ _ hcheck henter hdirect => by
    have hc := supply_checkDepth hcheck
    have he := supply_enter henter
    have hw := Node.sizeEntries_withId es newId
    have hd := hdirect.size_le
    simp only [Directed.document, Node.size] at hd ⊢
    omega
  | _, _, _, _, _, _, _, @Expands.mixed _ _ _ _ es _ newId _ _ _ _ _ _ hcheck henter hdirect
      hrest => by
    have hc := supply_checkDepth hcheck
    have he := supply_enter henter
    have hw := Node.sizeEntries_withId es newId
    have hd := hdirect.size_le
    have hr := hrest.size_le
    simp only [Directed.document, Node.size] at hd hr ⊢
    omega
  | _, _, _, _, _, _, _, @Expands.unchanged _ _ _ _ es _ _ newId _ _ _ _ _ _ hcheck henter hdirect
      hentries hrun => by
    have hc := supply_checkDepth hcheck
    have he := supply_enter henter
    have hm : _ ≤ newId.toList.length := Node.sizeEntries_missing ⟨newId, es.importedRun?⟩ es
    have hd := hdirect.size_le
    have hv := hentries.size_le
    have hr := hrun.size_le
    rw [Node.sizeEntries_append] at hv
    simp only [Directed.document, Node.size] at hd ⊢
    omega

/-- The expansion of a list makes it larger by no more than was brought in. -/
theorem ExpandsItems.size_le : ∀ {levels : Nat} {frame : Frame} {items items' : List Node}
    {s t : ExpansionState}, ExpandsItems x levels frame items s items' t →
      Node.sizeList items' + x.supply s ≤ Node.sizeList items + x.supply t
  | _, _, _, _, _, _, .nil => Nat.le_refl _
  | _, _, _, _, _, _, .cons hitem hitems => by
    have hi := hitem.size_le
    have hs := hitems.size_le
    simp only [Node.sizeList]
    omega

/-- The expansion of the values of a map makes them larger by no more than was brought in. -/
theorem ExpandsEntries.size_le : ∀ {levels : Nat} {frame : Frame} {r : Replacements}
    {es es' : Entries} {s t : ExpansionState}, ExpandsEntries x levels frame r es s es' t →
      Node.sizeEntries es' + x.supply s ≤ Node.sizeEntries es + x.supply t
  | _, _, _, _, _, _, _, .nil => Nat.le_refl _
  | _, _, _, _, _, _, _, @ExpandsEntries.text _ _ _ _ _ v _ _ _ _ _ _ _ hcheck hentries => by
    have hc := supply_checkDepth hcheck
    have hv := v.size_pos
    have he := hentries.size_le
    simp only [Node.sizeEntries, Node.size]
    omega
  | _, _, _, _, _, _, _, .value _ hvalue hentries => by
    have hv := hvalue.size_le
    have he := hentries.size_le
    simp only [Node.sizeEntries]
    omega

/-- Following the text at `run` makes a map larger by no more than was brought in. -/
theorem ExpandsRun.size_le : ∀ {levels : Nat} {frame : Frame} {es es' : Entries}
    {s t : ExpansionState}, ExpandsRun x levels frame es s es' t →
      Node.sizeEntries es' + x.supply s ≤ Node.sizeEntries es + x.supply t
  | _, _, _, _, _, _, .none _ => Nat.le_refl _
  | _, _, _, _, _, _, .absent _ hload => by
    have hl := hload.size_le
    simp only [Option.elim_none] at hl
    omega
  | _, _, es, _, _, _, @ExpandsRun.loaded _ _ _ _ _ document _ _ hrun hload => by
    have hl : document.size + _ ≤ _ := hload.size_le
    cases hget : es.get? "run" with
    | none =>
      rw [Entries.field, hget] at hrun
      cases hrun
    | some v =>
      have hs := Node.sizeEntries_set hget document
      have hv := v.size_pos
      omega

/-- Following the directives of a map makes it larger by no more than was brought in. -/
theorem Directs.size_le : ∀ {levels : Nat} {frame : Frame} {es : Entries} {s t : ExpansionState}
    {directed : Directed}, Directs x levels frame es s directed t →
      (directed.document es).size + x.supply s ≤ (Node.map es).size + x.supply t
  | _, _, _, _, _, _, @Directs.imported _ _ _ _ _ document _ _ _ hload => by
    have hl := hload.size_le
    cases document with
    | none =>
      simp only [Directed.document, Option.getD_none, Node.size, Node.sizeEntries]
      simp only [Option.elim_none] at hl
      omega
    | some document =>
      simp only [Directed.document, Option.getD_some, Node.size]
      simp only [Option.elim_some] at hl
      omega
  | _, _, _, _, _, _, .included _ _ hload => by
    have hl := supply_loadFile_le hload
    simp only [Directed.document, Node.size]
    omega
  | _, _, es, _, _, _, .mixedAbsent _ hload => by
    have hl := hload.size_le
    have he := Node.sizeEntries_eraseDirective es .mixing
    simp only [Option.elim_none] at hl
    simp only [Directed.document, Node.size]
    omega
  | _, _, es, _, _, _, @Directs.mixedMap _ _ _ _ added _ _ t _ hload => by
    have hl := hload.size_le
    have he := Node.sizeEntries_eraseDirective es .mixing
    have ha := Node.sizeEntries_addMissing (es.eraseDirective .mixing) added
    have ht : x.supply { t with merges := t.merges + 1 } = x.supply t := rfl
    simp only [Option.elim_some, Node.size] at hl
    simp only [Directed.document, Node.size]
    omega
  | _, _, _, _, _, _, .mixedOther _ _ hload => by
    have hl := hload.size_le
    simp only [Option.elim_some] at hl
    simp only [Directed.document]
    omega
  | _, _, _, _, _, _, .inert _ => Nat.le_refl _

/-- The document that was loaded is paid for by its request. -/
theorem Loads.size_le : ∀ {levels : Nat} {frame : Frame} {reference : String}
    {document : Option Node} {s t : ExpansionState},
    Loads x levels frame reference s document t →
      document.elim 0 Node.size + x.supply s ≤ x.supply t
  | _, _, _, _, _, _, .absent hload => by
    have hl := supply_loadFile_le hload
    simp only [Option.elim_none]
    omega
  | _, _, _, _, _, _, .found _ hload hread hexpand => by
    have hl := supply_loadFile hload hread
    have he := hexpand.size_le
    split
    · simp only [Option.elim_none]
      omega
    · simp only [Option.elim_some]
      omega

end

end Bound

/-! ## The bound -/

/-- **Expansions do not amplify.** An expanded document has no more values than the document that
was expanded, all documents that were read for the requests of the expansion, and the ids that were
made have together. This holds from every place and state, and with strict limits or without.

**Proof sketch.** By `Expands.size_le`, where the requests of the expansion are those that come
behind the requests made before. -/
theorem expandWithin_size_le (x : Expander) (levels : Nat) (frame : Frame) (document r : Node)
    (s t : ExpansionState) (h : x.expandWithin levels .whole frame document s = .ok r t) :
    ∃ requests, t.requests = s.requests ++ requests ∧ s.idCount ≤ t.idCount ∧
      r.size ≤ document.size + ((requests.filterMap x.documentOf?).map Node.size).sum +
        (t.idCount - s.idCount) := by
  have hlater := (expands_iff.2 h).later
  have hsize := (expands_iff.2 h).size_le
  obtain ⟨requests, hrequests⟩ := hlater.requests
  have hids := hlater.idCount
  refine ⟨requests, hrequests.symm, hids, ?_⟩
  unfold supply at hsize
  rw [← hrequests, readSize_append] at hsize
  show r.size ≤ document.size + x.readSize requests + _
  omega

/-- A workflow without an id whose value at `run` is a reference. -/
def runner : Node := .map [(.str "class", .str "Workflow"), (.str "run", .str "f")]

/-- The workflow becomes larger by its new id. -/
theorem runner_expandWithin_size_le :
    ∃ t, shelf.expandWithin 1 .whole (.root "/main") runner {} = .ok (.map
      [(.str "class", .str "Workflow"), (.str "run", .list []), (.str "id", .str "0")]) t ∧
    ∃ requests, t.requests = requests ∧
      4 ≤ 3 + ((requests.filterMap shelf.documentOf?).map Node.size).sum + t.idCount := by
  refine ⟨_, rfl, ?_⟩
  obtain ⟨requests, hrequests, -, hsize⟩ :=
    expandWithin_size_le shelf 1 (.root "/main") runner _ {} _ rfl
  exact ⟨requests, hrequests, hsize⟩

end CwlDescriptor
