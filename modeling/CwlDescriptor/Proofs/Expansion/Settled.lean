import CwlDescriptor.Proofs.Counters
import CwlDescriptor.Proofs.Provenance
set_option autoImplicit false

/-!
# Documents in which nothing is left to be replaced

A document is settled at a place if none of its directives is followed there and none of its texts
at the key `run` names a file. Such a document is expanded to itself, provided that its entries may
keep their ids. The expansion asks for one file for each text at `run`, in vain.

## Main definitions

* `Frame.inside`: the place inside a map.
* `Settled`, with `SettledItems` and `SettledValues`: nothing is left to be replaced.
* `Node.openRuns`: the number of texts at the key `run`.
* `Room`: a state in which there is room for the entries and the requests of a document.

## Main results

* `Settled.expands`: a settled document is expanded to itself.
* `Settled.eq_of_expands`: a settled document without entries is not changed by any expansion.
-/

namespace CwlDescriptor

open Expansion Expander

/-! ## Settled documents -/

/-- The place inside a map: an entry may set the version. -/
def Frame.inside (frame : Frame) (es : Entries) : Except Failure Frame :=
  if es.entryClass?.isSome then
    (version? frame es).map fun version => { frame with version := version }
  else .ok frame

/-- No file of the store has the path that a reference names. -/
def SourceStore.Lacks (store : SourceStore) (frame : Frame) (reference : String) : Prop :=
  (Reference.target? reference frame.path).bind store.get? = none

mutual

/-- Nothing is left to be replaced in a document: through values and items, no map has a directive
that is followed, and no text at the key `run` names a file. -/
inductive Settled (store : SourceStore) : Frame → Node → Prop
  | leaf {frame : Frame} {n : Node} (hleaf : n.IsLeaf) : Settled store frame n
  | list {frame : Frame} {items : List Node} (hitems : SettledItems store frame items) :
    Settled store frame (.list items)
  | map {frame frame' : Frame} {es : Entries} (hinside : frame.inside es = .ok frame')
    (hinert : Inert frame' es)
    (hrun : ∀ reference, (es.field "run").text? = some reference → store.Lacks frame reference)
    (hvalues : SettledValues store frame' es) : Settled store frame (.map es)

/-- Nothing is left to be replaced in the items of a list. -/
inductive SettledItems (store : SourceStore) : Frame → List Node → Prop
  | nil {frame : Frame} : SettledItems store frame []
  | cons {frame : Frame} {item : Node} {items : List Node} (hitem : Settled store frame item)
    (hitems : SettledItems store frame items) : SettledItems store frame (item :: items)

/-- Nothing is left to be replaced in the values of a map. -/
inductive SettledValues (store : SourceStore) : Frame → Entries → Prop
  | nil {frame : Frame} : SettledValues store frame []
  | cons {frame : Frame} {key : Scalar} {value : Node} {es : Entries}
    (hvalue : Settled store frame value) (hvalues : SettledValues store frame es) :
    SettledValues store frame ((key, value) :: es)

end

section

variable {store : SourceStore} {frame frame' : Frame} {es : Entries}

/-- The place inside a map has the same path and depth. -/
lemma Frame.path_of_inside (h : frame.inside es = .ok frame') :
    frame'.path = frame.path ∧ frame'.depth = frame.depth := by
  unfold Frame.inside at h
  split at h
  · cases hversion : version? frame es with
    | error e =>
      rw [hversion] at h
      cases h
    | ok version =>
      rw [hversion] at h
      cases h
      exact ⟨rfl, rfl⟩
  · cases h
    exact ⟨rfl, rfl⟩

/-- A value of a settled map is settled. -/
lemma SettledValues.of_get? (h : SettledValues store frame es) {name : String} {value : Node}
    (hget : es.get? name = some value) : Settled store frame value := by
  induction es with
  | nil => cases hget
  | cons e es ih =>
    obtain ⟨key, v⟩ := e
    cases h with
    | cons hvalue hvalues =>
      unfold Entries.get? at hget
      split at hget
      · cases hget
        exact hvalue
      · exact ih hvalues hget

/-- A settled document is no import. -/
lemma Settled.importing_eq_none {n : Node} (h : Settled store frame n) :
    n.entries?.bind (Entries.directive? .importing) = none := by
  cases n with
  | map es =>
    cases h with
    | leaf hleaf => cases hleaf
    | map hinside hinert hrun hvalues => exact hinert.importing
  | scalar _ | list _ | set _ | pair _ _ => rfl

/-- No import is left as the value of `run`. -/
lemma SettledValues.importedRun? (h : SettledValues store frame es) : es.importedRun? = none := by
  unfold Entries.importedRun? Entries.field
  cases hget : es.get? "run" with
  | none => rfl
  | some value => exact (h.of_get? hget).importing_eq_none

end

namespace Node

mutual

/-- The number of maps with a text at the key `run` that are reached through values and items. -/
def openRuns : Node → Nat
  | .list items => openRunsList items
  | .map es => openRunsValues es + (Entries.field es "run").text?.toList.length
  | _ => 0

/-- The number of these maps in the items of a list. -/
def openRunsList : List Node → Nat
  | [] => 0
  | item :: items => openRuns item + openRunsList items

/-- The number of these maps in the values of a map. -/
def openRunsValues : Entries → Nat
  | [] => 0
  | (_, value) :: es => openRuns value + openRunsValues es

end

/-- A leaf has no text at `run` to be followed. -/
lemma openRuns_of_isLeaf {n : Node} (h : n.IsLeaf) : n.openRuns = 0 := by
  cases n with
  | list | map => cases h
  | scalar _ | set _ | pair _ _ => rfl

/-- A leaf holds no entries. -/
private lemma entryMaps_of_isLeaf {n : Node} (h : n.IsLeaf) : n.entryMaps = [] := by
  cases n with
  | list | map => cases h
  | scalar _ | set _ | pair _ _ => rfl

end Node

/-! ## Room for a document -/

/-- There is room for requests and entries: so many requests are within the limit, and the entries
have the given texts as ids, all different and none of them claimed before. -/
structure Room (x : Expander) (requests : Nat) (entries : List Entries) (ids : List String)
    (s : ExpansionState) : Prop where
  files : s.fileCount + requests ≤ x.limits.maxFiles
  ids_eq : entries.map (·.field "id") = ids.map .str
  nodup : (Table.keys s.idPaths ++ ids).Nodup

/-- Between two states, requests found nothing, and ids were claimed. -/
structure Visited (requests : Nat) (ids : List String) (s t : ExpansionState) : Prop where
  files : t.fileCount = s.fileCount + requests
  characters : t.charCount = s.charCount
  keys : Table.keys t.idPaths = Table.keys s.idPaths ++ ids

/-- Without requests and entries, a visit changes nothing. -/
lemma Visited.refl (s : ExpansionState) : Visited 0 [] s s :=
  ⟨rfl, rfl, by simp⟩

/-- Two visits one after another make the requests and record the ids of both. -/
lemma Visited.trans {requests requests' : Nat} {ids ids' : List String} {s t u : ExpansionState}
    (h : Visited requests ids s t) (h' : Visited requests' ids' t u) :
    Visited (requests + requests') (ids ++ ids') s u where
  files := by rw [h'.files, h.files, Nat.add_assoc]
  characters := h'.characters.trans h.characters
  keys := by rw [h'.keys, h.keys, List.append_assoc]

/-- There is room for a document without entries only if no ids are to be recorded. -/
private lemma Room.eq_nil {x : Expander} {requests : Nat} {ids : List String} {s : ExpansionState}
    (h : Room x requests [] ids s) : ids = [] :=
  List.map_eq_nil_iff.1 h.ids_eq.symm

/-- An id for which there is room is free. -/
private lemma Room.hasKey_eq_false {x : Expander} {requests : Nat} {entries : List Entries}
    {id : String} {ids : List String} {s : ExpansionState}
    (h : Room x requests entries (id :: ids) s) :
    Table.hasKey s.idPaths id = false := by
  have hnodup := h.nodup
  rw [List.nodup_append] at hnodup
  rw [Table.hasKey_eq_false_iff, Table.get?_eq_none_iff]
  exact fun hmem => hnodup.2.2 id hmem id List.mem_cons_self rfl

/-- Room for two parts of a document is room for the first one, and for the second one behind it. -/
lemma Room.split {x : Expander} {requests requests' : Nat} {entries entries' : List Entries}
    {ids : List String} {s : ExpansionState}
    (h : Room x (requests + requests') (entries ++ entries') ids s) :
    ∃ ids₁ ids₂, ids = ids₁ ++ ids₂ ∧ Room x requests entries ids₁ s ∧
      ∀ t, Visited requests ids₁ s t → Room x requests' entries' ids₂ t := by
  have hids := h.ids_eq
  rw [List.map_append, eq_comm, List.map_eq_append_iff] at hids
  obtain ⟨ids₁, ids₂, rfl, h₁, h₂⟩ := hids
  have hnodup := h.nodup
  rw [← List.append_assoc] at hnodup
  refine ⟨ids₁, ids₂, rfl, ⟨?_, h₁.symm, hnodup.of_append_left⟩, fun t ht => ⟨?_, h₂.symm, ?_⟩⟩
  · have hfiles := h.files
    omega
  · have hfiles := h.files
    rw [ht.files]
    omega
  · rw [ht.keys]
    exact hnodup

/-! ## Settled documents are expanded to themselves -/

section Steps

variable {x : Expander} {frame frame' : Frame} {es : Entries} {s : ExpansionState}
  {ids : List String}

/-- An entry keeps its id if there is room for it. -/
private lemma enter_of_room (hinside : frame.inside es = .ok frame')
    (hroom : Room x 0 (if es.entryClass?.isSome then [es] else []) ids s) :
    ∃ t, x.enter frame es s = .ok (none, frame') t ∧ Visited 0 ids s t := by
  have hids := hroom.ids_eq
  unfold Frame.inside at hinside
  cases hclass : es.entryClass? with
  | none =>
    rw [hclass] at hinside hids
    cases hinside
    obtain rfl : ids = [] := List.map_eq_nil_iff.1 hids.symm
    exact ⟨s, enter_of_none hclass, .refl s⟩
  | some entryClass =>
    have hsome : es.entryClass?.isSome := by rw [hclass]; rfl
    rw [if_pos hsome] at hinside hids
    cases ids with
    | nil => cases hids
    | cons id ids =>
      rw [List.map_singleton, List.map_cons, List.cons.injEq] at hids
      obtain rfl : ids = [] := List.map_eq_nil_iff.1 hids.2.symm
      have hfree := hroom.hasKey_eq_false
      have hclaim : x.claimId es frame.path s = .ok none (recorded s id frame.path) :=
        claimId_of_free (by rw [hids.1]; rfl) hfree
      cases hversion : version? frame es with
      | error e =>
        rw [hversion] at hinside
        cases hinside
      | ok version =>
        rw [hversion] at hinside
        cases hinside
        refine ⟨recorded s id frame.path, ?_, rfl, rfl, ?_⟩
        · rw [enter_of_isSome hsome]
          exact bind_eq_ok.2 ⟨_, _, hclaim, bind_eq_ok.2 ⟨_, _, by rw [hversion]; rfl, rfl⟩⟩
        · show Table.keys (Table.insert s.idPaths id _) = _
          rw [Table.keys_insert, if_neg]
          exact Table.get?_eq_none_iff.1 (Table.hasKey_eq_false_iff.1 hfree)

/-- A text at the key `run` that names no file stays, and is asked for. -/
private lemma expandsRun_of_lacks (hstrict : x.strict = true) (levels : Nat)
    (hlacks : ∀ reference, (es.field "run").text? = some reference → x.store.Lacks frame reference)
    (hroom : Room x (es.field "run").text?.toList.length [] ids s) :
    ∃ t, ExpandsRun x levels frame es s es t ∧
      Visited (es.field "run").text?.toList.length ids s t := by
  obtain rfl := hroom.eq_nil
  cases hrun : (es.field "run").text? with
  | none => exact ⟨s, .none hrun, .refl s⟩
  | some reference =>
    have hfiles : s.fileCount + 1 ≤ x.limits.maxFiles := by
      have hfiles := hroom.files
      rwa [hrun] at hfiles
    refine ⟨counted s true (Reference.target? reference frame.path),
      .absent hrun (.absent ?_), rfl, rfl, by simp [counted]⟩
    rw [loadFile_strict hstrict, if_neg (Nat.not_lt.2 hfiles), hlacks reference hrun]

end Steps

section Expansion

variable {x : Expander}

mutual

/-- **A settled document is expanded to itself**, if limits are strict and there is room for its
entries and for a request for each of its texts at `run`.

**Proof sketch.** Induction on the document. An entry keeps its id, since that is a text which was
not claimed before; no directive is followed; and a request for a text at `run` finds no file. -/
theorem Settled.expands (hstrict : x.strict = true) (levels : Nat) {frame : Frame} {n : Node}
    (h : Settled x.store frame n) (hdepth : frame.depth ≤ x.limits.maxDepth) {ids : List String}
    {s : ExpansionState} (hroom : Room x n.openRuns n.entryMaps ids s) :
    ∃ t, Expands x levels .whole frame n s n t ∧ Visited n.openRuns ids s t := by
  cases h with
  | leaf hleaf =>
    rw [Node.openRuns_of_isLeaf hleaf, Node.entryMaps_of_isLeaf hleaf] at *
    obtain rfl := hroom.eq_nil
    exact ⟨s, .leaf hleaf (checkDepth_of_le hdepth), .refl s⟩
  | list hitems =>
    obtain ⟨t, hexpands, hvisited⟩ := hitems.expands hstrict levels hdepth hroom
    exact ⟨t, .list (checkDepth_of_le hdepth) hexpands, hvisited⟩
  | @map _ frame' es hinside hinert hrun hvalues =>
    obtain ⟨hpath, hdepth'⟩ := Frame.path_of_inside hinside
    have hroom : Room x (0 + (Node.openRunsValues es + (es.field "run").text?.toList.length))
        ((if es.entryClass?.isSome then [es] else []) ++ (Node.entryMapsValues es ++ [])) ids
        s := by
      rw [Nat.zero_add, List.append_nil]
      exact hroom
    obtain ⟨ids₁, _, rfl, hroom₁, hrest⟩ := hroom.split
    obtain ⟨s₁, henter, hvisited₁⟩ := enter_of_room hinside hroom₁
    obtain ⟨ids₂, ids₃, rfl, hroom₂, hrest⟩ := (hrest s₁ hvisited₁).split
    obtain ⟨s₂, hexpands, hvisited₂⟩ := hvalues.expands hstrict levels (hdepth' ▸ hdepth) hroom₂
    have hlacks : ∀ reference, (es.field "run").text? = some reference →
        x.store.Lacks frame' reference := by
      intro reference hreference
      unfold SourceStore.Lacks
      rw [hpath]
      exact hrun reference hreference
    obtain ⟨t, hexpandsRun, hvisited₃⟩ :=
      expandsRun_of_lacks hstrict levels hlacks (hrest s₂ hvisited₂)
    refine ⟨t, .unchanged (checkDepth_of_le hdepth) henter (.inert hinert) ?_ hexpandsRun,
      ?_⟩
    · rw [hvalues.importedRun?, show Replacements.missing ⟨none, none⟩ es = [] from rfl,
        List.append_nil]
      exact hexpands
    · have hvisited := hvisited₁.trans (hvisited₂.trans hvisited₃)
      rwa [Nat.zero_add] at hvisited

/-- A settled list is expanded to itself, with one request for each text at `run` and the ids of its
entries. -/
theorem SettledItems.expands (hstrict : x.strict = true) (levels : Nat) {frame : Frame}
    {items : List Node} (h : SettledItems x.store frame items)
    (hdepth : frame.depth ≤ x.limits.maxDepth) {ids : List String} {s : ExpansionState}
    (hroom : Room x (Node.openRunsList items) (Node.entryMapsList items) ids s) :
    ∃ t, ExpandsItems x levels frame items s items t ∧
      Visited (Node.openRunsList items) ids s t := by
  cases h with
  | nil =>
    obtain rfl := hroom.eq_nil
    exact ⟨s, .nil, .refl s⟩
  | cons hitem hitems =>
    obtain ⟨ids₁, ids₂, rfl, hroom₁, hrest⟩ := hroom.split
    obtain ⟨s₁, hexpands₁, hvisited₁⟩ := hitem.expands hstrict levels hdepth hroom₁
    obtain ⟨t, hexpands₂, hvisited₂⟩ := hitems.expands hstrict levels hdepth (hrest s₁ hvisited₁)
    exact ⟨t, .cons hexpands₁ hexpands₂, hvisited₁.trans hvisited₂⟩

/-- The values of a settled map are expanded to themselves, with one request for each text at `run`
and the ids of their entries. -/
theorem SettledValues.expands (hstrict : x.strict = true) (levels : Nat) {frame : Frame}
    {es : Entries} (h : SettledValues x.store frame es)
    (hdepth : frame.depth ≤ x.limits.maxDepth) {ids : List String} {s : ExpansionState}
    (hroom : Room x (Node.openRunsValues es) (Node.entryMapsValues es) ids s) :
    ∃ t, ExpandsEntries x levels frame ⟨none, none⟩ es s es t ∧
      Visited (Node.openRunsValues es) ids s t := by
  cases h with
  | nil =>
    obtain rfl := hroom.eq_nil
    exact ⟨s, .nil, .refl s⟩
  | @cons _ key value es hvalue hvalues =>
    obtain ⟨ids₁, ids₂, rfl, hroom₁, hrest⟩ := hroom.split
    obtain ⟨s₁, hexpands₁, hvisited₁⟩ := hvalue.expands hstrict levels hdepth hroom₁
    obtain ⟨t, hexpands₂, hvisited₂⟩ := hvalues.expands hstrict levels hdepth (hrest s₁ hvisited₁)
    have hat : Replacements.at? ⟨none, none⟩ key = none := by simp [Replacements.at?]
    exact ⟨t, .value hat hexpands₁ hexpands₂, hvisited₁.trans hvisited₂⟩

end

/-! ## Settled documents without entries -/

/-- No document is loaded for a reference that names no file. -/
lemma Loads.eq_none_of_lacks {levels : Nat} {frame : Frame} {reference : String}
    {document : Option Node} {s t : ExpansionState}
    (h : Loads x levels frame reference s document t) (hlacks : x.store.Lacks frame reference) :
    document = none := by
  cases h with
  | absent => rfl
  | found htarget hload =>
    have hcontent := (loadFile_eq_ok hload).1
    rw [← htarget, hlacks] at hcontent
    cases hcontent

/-- A map in which the text at `run` names no file is not changed by following it. -/
private lemma ExpandsRun.eq_of_lacks {levels : Nat} {frame : Frame} {es es' : Entries}
    {s t : ExpansionState} (h : ExpandsRun x levels frame es s es' t)
    (hlacks : ∀ reference, (es.field "run").text? = some reference →
      x.store.Lacks frame reference) : es' = es := by
  cases h with
  | none | absent => rfl
  | loaded hrun hload => cases hload.eq_none_of_lacks (hlacks _ hrun)

/-- A map in which no directive is followed is not changed by its directives. -/
private lemma Directs.eq_unchanged_of_inert {levels : Nat} {frame : Frame} {es : Entries}
    {directed : Directed} {s t : ExpansionState} (h : Directs x levels frame es s directed t)
    (hinert : Inert frame es) : directed = .unchanged := by
  have hok := h.ok
  rw [hinert.direct_eq] at hok
  cases hok
  rfl

mutual

/-- **A settled document without entries is not changed by any expansion that succeeds.** -/
theorem Settled.eq_of_expands {levels : Nat} {frame : Frame} {n r : Node} {s t : ExpansionState}
    (h : Settled x.store frame n) (hentries : n.entryMaps = [])
    (hexpands : Expands x levels .whole frame n s r t) : r = n := by
  cases h with
  | leaf hleaf =>
    cases hexpands with
    | leaf => rfl
    | list | replaced | mixed | unchanged => cases hleaf
  | list hitems =>
    cases hexpands with
    | leaf hleaf => cases hleaf
    | list _ hexpands => rw [hitems.eq_of_expands hentries hexpands]
  | @map _ frame' es hinside hinert hrun hvalues =>
    obtain ⟨hown, hrest⟩ := List.append_eq_nil_iff.1 hentries
    have hclass : es.entryClass? = none := by
      cases hclass : es.entryClass? with
      | none => rfl
      | some entryClass =>
        rw [hclass] at hown
        cases hown
    obtain rfl : frame = frame' := by
      unfold Frame.inside at hinside
      rw [hclass] at hinside
      cases hinside
      rfl
    have henters : ∀ {newId : Option String} {g : Frame} {s t : ExpansionState},
        x.enter frame es s = .ok (newId, g) t → newId = none ∧ g = frame := by
      intro newId g s t henter
      rw [enter_of_none hclass] at henter
      cases henter
      exact ⟨rfl, rfl⟩
    cases hexpands with
    | leaf hleaf => cases hleaf
    | replaced _ henter hdirect | mixed _ henter hdirect =>
      obtain ⟨rfl, rfl⟩ := henters henter
      cases hdirect.eq_unchanged_of_inert hinert
    | unchanged _ henter _ hexpands hexpandsRun =>
      obtain ⟨rfl, rfl⟩ := henters henter
      rw [hvalues.importedRun?, show Replacements.missing ⟨none, none⟩ es = [] from rfl,
        List.append_nil] at hexpands
      obtain rfl := hvalues.eq_of_expands hrest hexpands
      rw [hexpandsRun.eq_of_lacks hrun]

/-- A settled list without entries is expanded to itself only. -/
theorem SettledItems.eq_of_expands {levels : Nat} {frame : Frame} {items items' : List Node}
    {s t : ExpansionState} (h : SettledItems x.store frame items)
    (hentries : Node.entryMapsList items = [])
    (hexpands : ExpandsItems x levels frame items s items' t) : items' = items := by
  cases h with
  | nil =>
    cases hexpands
    rfl
  | cons hitem hitems =>
    obtain ⟨hfirst, hrest⟩ := List.append_eq_nil_iff.1 hentries
    cases hexpands with
    | cons hexpands hexpands' =>
      rw [hitem.eq_of_expands hfirst hexpands, hitems.eq_of_expands hrest hexpands']

/-- The values of a settled map without entries are expanded to themselves only. -/
theorem SettledValues.eq_of_expands {levels : Nat} {frame : Frame} {es es' : Entries}
    {s t : ExpansionState} (h : SettledValues x.store frame es)
    (hentries : Node.entryMapsValues es = [])
    (hexpands : ExpandsEntries x levels frame ⟨none, none⟩ es s es' t) : es' = es := by
  cases h with
  | nil =>
    cases hexpands
    rfl
  | cons hvalue hvalues =>
    obtain ⟨hfirst, hrest⟩ := List.append_eq_nil_iff.1 hentries
    cases hexpands with
    | text htext => simp [Replacements.at?] at htext
    | value _ hexpands hexpands' =>
      rw [hvalue.eq_of_expands hfirst hexpands, hvalues.eq_of_expands hrest hexpands']

end

end Expansion

end CwlDescriptor
