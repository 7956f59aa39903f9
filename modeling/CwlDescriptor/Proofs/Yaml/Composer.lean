import CwlDescriptor.Load
import CwlDescriptor.Proofs.Exceptions
import Mathlib.Data.List.Induction
import Mathlib.Tactic
set_option autoImplicit false

/-!
# Trees are composed without aliases and without deep nesting

The events of a document describe its nodes one after another, and each of them is composed to one
node of the tree: none is left out, none is there twice, and none stands for another one. An alias,
or a node below too many others, ends the composition at once, with an error that says where it is.

The composition goes through the events with a stack of the collections that are not complete. The
number of these is that of the beginnings of collections less that of their ends, so that the level
of a node can be told from the events before it.

## Main definitions

* `IsDocument`: the events of a document, by the grammar of nodes.
* `openings`: how many collections are open behind events.
* `Event.problem?`: the error of an event that is not allowed where it stands.
* `Tree.outline`, `Event.mark?`: the nodes of a tree, and what an event adds to them.
* `Progress.Steps`, `Progress.Run`: the successful steps of a composition, and their sequences.
* `Progress.Tracks`: what is known of a composition behind the events that were read.
* `Progress.Awaits`: the events that may follow.
* `Tree.IsTreeOf`: the tree of the events of a document.

## Main results

* `Progress.Tracks.step`: what one event adds to a composition.
* `Progress.Awaits.step`, `Progress.Awaits.exists_step`: a composition of a document goes on, and
  stays one.
* `Tree.ofEvents_document`: what is composed of a document, and which errors there are.
-/

namespace CwlDescriptor.Yaml

/-! ## The events of a document -/

mutual

/-- The events of a node: an alias, a scalar, a sequence of nodes, or pairs of nodes. -/
inductive IsNode : List Event → Prop
  | reference (name : String) (start : Position) : IsNode [.alias name start]
  | scalar (props : Properties) (byContent : Bool) (text : String) :
    IsNode [.scalar props byContent text]
  | sequence (props : Properties) {items : List Event} (hitems : IsNodes items) :
    IsNode (.sequenceStart props :: (items ++ [.sequenceEnd]))
  | mapping (props : Properties) {pairs : List Event} (hpairs : IsPairs pairs) :
    IsNode (.mappingStart props :: (pairs ++ [.mappingEnd]))

/-- The events of several nodes. -/
inductive IsNodes : List Event → Prop
  | nil : IsNodes []
  | cons {node nodes : List Event} (hnode : IsNode node) (hnodes : IsNodes nodes) :
    IsNodes (node ++ nodes)

/-- The events of several pairs of nodes. -/
inductive IsPairs : List Event → Prop
  | nil : IsPairs []
  | cons {key value pairs : List Event} (hkey : IsNode key) (hvalue : IsNode value)
    (hpairs : IsPairs pairs) : IsPairs (key ++ (value ++ pairs))

end

/-- The events of a text that holds one document. -/
inductive IsDocument : List Event → Prop
  | intro {root : List Event} (hroot : IsNode root) :
    IsDocument (.documentStart :: (root ++ [.documentEnd, .streamEnd]))

namespace Event

/-- The properties of the node that begins, unless it is an alias. -/
def properties? : Event → Option Properties
  | .scalar props _ _ => some props
  | .sequenceStart props => some props
  | .mappingStart props => some props
  | _ => none

/-- The anchor of the node that begins. -/
def anchor? (e : Event) : Option String :=
  e.properties?.bind Properties.anchor

/-- How many collections are open behind an event, if `opened` are in front of it. -/
def opens (opened : Nat) : Event → Nat
  | .sequenceStart _ => opened + 1
  | .mappingStart _ => opened + 1
  | .sequenceEnd => opened - 1
  | .mappingEnd => opened - 1
  | _ => opened

/-- The error of an event that is not allowed inside `opened` collections: an alias, or the
beginning of a node for which there is no level left. -/
def problem? (opened : Nat) (e : Event) : Option LoadError :=
  match e with
  | .alias name start => some (.alias name start)
  | _ => e.properties?.bind fun props =>
    if 256 < opened + 1 then some (.nesting props.start) else none

/-- The refusal says what is wrong with an event of a text, and where the event is. -/
def ReportedBy (e : Event) (text : List Char) (refusal : Refusal) : Prop :=
  (∃ name start, e = .alias name start ∧ refusal.message =
    "Unable to parse CWL workflow, found alias *" ++ name ++ ", aliases are not allowed\n" ++
      (start.place text).text) ∨
  ∃ props, e.properties? = some props ∧ refusal.message =
    "Unable to parse CWL workflow, nesting exceeds 256 levels\n" ++ (props.start.place text).text

end Event

/-- How many collections are open behind events. A node that begins there is one level below. -/
def openings (events : List Event) : Nat :=
  events.foldl Event.opens 0

/-- One more event opens a node or closes one behind all others. -/
private lemma openings_concat (events : List Event) (e : Event) :
    openings (events ++ [e]) = e.opens (openings events) :=
  List.foldl_concat ..

/-- No event is one that is not allowed where it stands. -/
def Clean (events : List Event) : Prop :=
  ∀ before e after, events = before ++ e :: after → e.problem? (openings before) = none

/-- Without events there is no problem. -/
private lemma clean_nil : Clean [] :=
  fun before e after h => by simp at h

/-- There is no problem with one more event if there is none before and none with this one. -/
private lemma clean_concat {events : List Event} {e : Event} :
    Clean (events ++ [e]) ↔ Clean events ∧ e.problem? (openings events) = none := by
  constructor
  · intro h
    refine ⟨fun before e' after heq => h before e' (after ++ [e]) ?_, h events e [] rfl⟩
    rw [heq]
    simp
  · rintro ⟨hevents, he⟩ before e' after heq
    obtain rfl | ⟨inner, last, rfl⟩ := List.eq_nil_or_concat' after
    · obtain ⟨rfl, hlast⟩ := List.append_inj' heq rfl
      obtain rfl := List.singleton_inj.1 hlast
      exact he
    · rw [← List.cons_append, ← List.append_assoc] at heq
      obtain ⟨hinner, -⟩ := List.append_inj' heq rfl
      exact hevents before e' inner hinner

/-- An event is no problem if it is no alias and is not on a level too deep. -/
private lemma problem?_eq_none {opened : Nat} {e : Event} : e.problem? opened = none ↔
    (∀ name start, e ≠ .alias name start) ∧ (e.properties?.isSome → opened + 1 ≤ 256) := by
  cases e <;> simp [Event.problem?, Event.properties?]

/-- The message on an alias. -/
private lemma message_alias (name : String) (place : Place) :
    (Cause.unreadable (.alias name place)).message =
      "Unable to parse CWL workflow, found alias *" ++ name ++ ", aliases are not allowed\n" ++
        place.text := by
  have hwords : "Unable to parse CWL workflow, " ++ "found alias *" =
      "Unable to parse CWL workflow, found alias *" := by decide
  calc
    _ = "Unable to parse CWL workflow, " ++
        ("found alias *" ++ name ++ ", aliases are not allowed\n" ++ place.text) := rfl
    _ = "Unable to parse CWL workflow, " ++ "found alias *" ++ name ++
        ", aliases are not allowed\n" ++ place.text := by simp only [← String.append_assoc]
    _ = _ := by rw [hwords]

/-- The message on a level that is too deep. -/
private lemma message_nesting (place : Place) :
    (Cause.unreadable (.nesting maxNesting place)).message =
      "Unable to parse CWL workflow, nesting exceeds 256 levels\n" ++ place.text := by
  have hwords : "Unable to parse CWL workflow, " ++
      ("nesting exceeds " ++ toString maxNesting ++ " levels\n") =
      "Unable to parse CWL workflow, nesting exceeds 256 levels\n" := by decide
  rw [← hwords, String.append_assoc]
  rfl

/-- An event that is not allowed is reported, with the path of the text. -/
private lemma exists_reportedBy {opened : Nat} {e : Event} {error : LoadError}
    (h : e.problem? opened = some error) (text : List Char) (path : Option String) :
    ∃ refusal, error.toFailure text path = .refused refusal ∧ refusal.path = path ∧
      e.ReportedBy text refusal := by
  unfold Event.problem? at h
  split at h
  · next name start =>
    cases h
    exact ⟨_, rfl, rfl, .inl ⟨name, start, rfl, message_alias name (start.place text)⟩⟩
  · obtain ⟨props, hprops, h⟩ := Option.bind_eq_some_iff.1 h
    split_ifs at h
    cases h
    exact ⟨_, rfl, rfl, .inr ⟨props, hprops, message_nesting (props.start.place text)⟩⟩

/-! ## The nodes of a tree in the order of their beginnings -/

/-- A scalar, or the beginning or the end of a collection. -/
inductive Mark where
  | scalar (tag : Tag) (text : String)
  | sequenceStart (tag : Tag)
  | sequenceEnd
  | mappingStart (tag : Tag)
  | mappingEnd

/-- The mark is the beginning of a node. -/
def Mark.begins : Mark → Bool
  | .scalar .. => true
  | .sequenceStart _ => true
  | .mappingStart _ => true
  | _ => false

/-- What an event adds to the nodes of a tree. -/
def Event.mark? : Event → Option Mark
  | .scalar props byContent text =>
    some (.scalar (Tree.Progress.scalarTag props byContent text) text)
  | .sequenceStart props => some (.sequenceStart (Tree.Progress.collectionTag props .seq))
  | .sequenceEnd => some .sequenceEnd
  | .mappingStart props => some (.mappingStart (Tree.Progress.collectionTag props .map))
  | .mappingEnd => some .mappingEnd
  | _ => none

namespace Tree

mutual

/-- The nodes of a tree in their order. -/
def outline : Tree → List Mark
  | .scalar tag text => [.scalar tag text]
  | .sequence tag items => .sequenceStart tag :: (outlineList items ++ [.sequenceEnd])
  | .mapping tag pairs => .mappingStart tag :: (outlinePairs pairs ++ [.mappingEnd])

/-- The nodes of the items of a sequence. -/
def outlineList : List Tree → List Mark
  | [] => []
  | t :: ts => outline t ++ outlineList ts

/-- The nodes of the pairs of a mapping. -/
def outlinePairs : List (Tree × Tree) → List Mark
  | [] => []
  | (k, v) :: ps => outline k ++ (outline v ++ outlinePairs ps)

end

/-- The nodes of two lists stand one after the other. -/
private lemma outlineList_append (ts us : List Tree) :
    outlineList (ts ++ us) = outlineList ts ++ outlineList us := by
  induction ts with
  | nil => rfl
  | cons t ts ih => simp [outlineList, ih]

/-- The nodes of two lists of pairs stand one after the other. -/
private lemma outlinePairs_append (ps qs : List (Tree × Tree)) :
    outlinePairs (ps ++ qs) = outlinePairs ps ++ outlinePairs qs := by
  induction ps with
  | nil => rfl
  | cons p ps ih => simp [outlinePairs, ih]

mutual

/-- Each node begins once. -/
theorem countP_outline : ∀ t : Tree, t.outline.countP Mark.begins = t.count
  | .scalar .. => rfl
  | .sequence _ items => by
    have ih := countP_outlineList items
    simp [outline, count, List.countP_cons, Mark.begins, ih, Nat.add_comm]
  | .mapping _ pairs => by
    have ih := countP_outlinePairs pairs
    simp [outline, count, List.countP_cons, Mark.begins, ih, Nat.add_comm]

/-- The number of nodes that begin in a list is that of the nodes in it. -/
theorem countP_outlineList : ∀ ts : List Tree, (outlineList ts).countP Mark.begins = countList ts
  | [] => rfl
  | t :: ts => by
    rw [outlineList, countList, List.countP_append, countP_outline t, countP_outlineList ts]

/-- The number of nodes that begin in pairs is that of the nodes in them. -/
theorem countP_outlinePairs :
    ∀ ps : List (Tree × Tree), (outlinePairs ps).countP Mark.begins = countPairs ps
  | [] => rfl
  | (k, v) :: ps => by
    rw [outlinePairs, countPairs, List.countP_append, List.countP_append, countP_outline k,
      countP_outline v, countP_outlinePairs ps, Nat.add_assoc]

end

/-- The levels of a list are bounded by those of its items. -/
private lemma levelsList_le {ts : List Tree} {n : Nat} :
    levelsList ts ≤ n ↔ ∀ t ∈ ts, t.levels ≤ n := by
  induction ts with
  | nil => simp [levelsList]
  | cons t ts ih => simp [levelsList, ih]

/-- The levels of pairs are bounded by those of their keys and values. -/
private lemma levelsPairs_le {ps : List (Tree × Tree)} {n : Nat} :
    levelsPairs ps ≤ n ↔ ∀ p ∈ ps, p.1.levels ≤ n ∧ p.2.levels ≤ n := by
  induction ps with
  | nil => simp [levelsPairs]
  | cons p ps ih => simp [levelsPairs, ih, and_assoc]

/-- Events that make the outline of a tree begin as many nodes as it has. -/
private lemma count_eq_of_outline {t : Tree} {events : List Event}
    (h : t.outline = events.filterMap Event.mark?) :
    t.count = events.countP fun e => e.properties?.isSome := by
  rw [← countP_outline, h, List.countP_filterMap]
  refine List.countP_congr fun e _ => ?_
  cases e <;> simp [Event.mark?, Event.properties?, Mark.begins]

/-! ## Steps of a composition -/

/-- The nodes of a collection that are complete. -/
def Open.nodes : Open → List Tree
  | .sequence _ items => items
  | .mapping _ pairs key => key.toList ++ pairs.flatMap fun p => [p.1, p.2]

/-- The outline of a collection that is not complete. -/
def Open.outline : Open → List Mark
  | .sequence tag items => .sequenceStart tag :: outlineList items.reverse
  | .mapping tag pairs key =>
    .mappingStart tag :: (outlinePairs pairs.reverse ++ (key.map Tree.outline).getD [])

/-- A node that is added to an open collection is one of its nodes. -/
private lemma Open.mem_nodes_add {t u : Tree} {o : Open} :
    u ∈ (o.add t).nodes ↔ u = t ∨ u ∈ o.nodes := by
  cases o with
  | sequence tag items => exact List.mem_cons
  | mapping tag pairs key =>
    cases key with
    | none => simp [Open.add, Open.nodes]
    | some k =>
      simp only [Open.add, Open.nodes, Option.toList, List.flatMap_cons, List.mem_append,
        List.mem_cons, List.not_mem_nil, or_false, false_or]
      tauto

/-- A node that is added to an open collection stands behind the others. -/
private lemma Open.outline_add (t : Tree) (o : Open) :
    (o.add t).outline = o.outline ++ t.outline := by
  cases o with
  | sequence tag items => simp [Open.add, Open.outline, outlineList_append, outlineList]
  | mapping tag pairs key =>
    cases key with
    | none => simp [Open.add, Open.outline]
    | some k => simp [Open.add, Open.outline, outlinePairs_append, outlinePairs]

namespace Progress

/-- A node is entered if there is room for it and its anchor is new; its anchor is kept then. -/
lemma enter_eq_ok {stack : List Open} {anchors anchors' : List String} {props : Properties} :
    enter stack anchors props = .ok anchors' ↔
      stack.length < maxNesting ∧ (∀ name, props.anchor = some name → name ∉ anchors) ∧
        anchors' = props.anchor.toList ++ anchors := by
  unfold enter
  by_cases hfull : maxNesting ≤ stack.length
  · simp [hfull]
  · have hroom : stack.length < maxNesting := Nat.lt_of_not_le hfull
    cases hanchor : props.anchor with
    | none => simp [hfull, hroom, eq_comm]
    | some name => by_cases hmem : name ∈ anchors <;> simp [hfull, hroom, hmem, eq_comm]

/-- The successful steps of a composition. -/
inductive Steps : Progress → Event → Progress → Prop
  | documentStart : Steps .initial .documentStart (.inside [] [])
  | noDocument : Steps .initial .streamEnd (.closed none)
  | scalar {stack : List Open} {anchors anchors' : List String} {props : Properties}
    {byContent : Bool} {text : String} (henter : enter stack anchors props = .ok anchors') :
    Steps (.inside stack anchors) (.scalar props byContent text)
      (attach (.scalar (scalarTag props byContent text) text) stack anchors')
  | sequenceStart {stack : List Open} {anchors anchors' : List String} {props : Properties}
    (henter : enter stack anchors props = .ok anchors') :
    Steps (.inside stack anchors) (.sequenceStart props)
      (.inside (.sequence (collectionTag props .seq) [] :: stack) anchors')
  | mappingStart {stack : List Open} {anchors anchors' : List String} {props : Properties}
    (henter : enter stack anchors props = .ok anchors') :
    Steps (.inside stack anchors) (.mappingStart props)
      (.inside (.mapping (collectionTag props .map) [] none :: stack) anchors')
  | sequenceEnd {stack : List Open} {anchors : List String} {tag : Tag} {items : List Tree} :
    Steps (.inside (.sequence tag items :: stack) anchors) .sequenceEnd
      (attach (.sequence tag items.reverse) stack anchors)
  | mappingEnd {stack : List Open} {anchors : List String} {tag : Tag}
    {pairs : List (Tree × Tree)} :
    Steps (.inside (.mapping tag pairs none :: stack) anchors) .mappingEnd
      (attach (.mapping tag pairs.reverse) stack anchors)
  | documentEnd {root : Tree} : Steps (.complete root) .documentEnd (.closed (some root))

/-- The steps are those of the function. -/
private lemma steps_iff {p q : Progress} {e : Event} : p.step e = .ok q ↔ Steps p e q := by
  constructor
  · intro h
    unfold step at h
    split at h
    · cases h
      exact .documentStart
    · cases h
      exact .noDocument
    · cases h
    · obtain ⟨anchors', henter, h⟩ := Except.bind_eq_ok.1 h
      cases h
      exact .scalar henter
    · obtain ⟨anchors', henter, h⟩ := Except.bind_eq_ok.1 h
      cases h
      exact .sequenceStart henter
    · obtain ⟨anchors', henter, h⟩ := Except.bind_eq_ok.1 h
      cases h
      exact .mappingStart henter
    · cases h
      exact .sequenceEnd
    · cases h
      exact .mappingEnd
    · cases h
      exact .documentEnd
    · cases h
  · intro h
    cases h with
    | documentStart | noDocument | sequenceEnd | mappingEnd | documentEnd => rfl
    | scalar henter | sequenceStart henter | mappingStart henter =>
      simp only [step, henter]
      rfl

/-- A composition that goes through events one after another. -/
inductive Run (p : Progress) : List Event → Progress → Prop
  | nil : Run p [] p
  | concat {events : List Event} {e : Event} {q r : Progress} (h : Run p events q)
    (hstep : Steps q e r) : Run p (events ++ [e]) r

/-- A step in front of a run makes a longer run. -/
lemma Run.cons {p q r : Progress} {e : Event} {events : List Event} (hstep : Steps p e q)
    (h : Run q events r) : Run p (e :: events) r := by
  induction h with
  | nil => exact .concat .nil hstep
  | concat _ hlast ih => exact .concat ih hlast

/-! ## What is known behind the events that were read -/

/-- The number of collections that are not complete. -/
def opened : Progress → Nat
  | .inside stack _ => stack.length
  | _ => 0

/-- The anchors so far. -/
def anchors : Progress → List String
  | .inside _ anchors => anchors
  | _ => []

/-- The nodes that have begun. -/
def outline : Progress → List Mark
  | .initial => []
  | .inside stack _ => stack.reverse.flatMap Open.outline
  | .complete root => root.outline
  | .closed root => (root.map Tree.outline).getD []

/-- There is room for the collections that are not complete, and for their nodes. -/
def FitsStack : List Open → Prop
  | [] => True
  | o :: stack => stack.length < maxNesting ∧
    (∀ t ∈ o.nodes, stack.length + 1 + t.levels ≤ maxNesting) ∧ FitsStack stack

/-- There is room for all nodes so far. -/
def Fits : Progress → Prop
  | .initial => True
  | .inside stack _ => FitsStack stack
  | .complete root => root.levels ≤ maxNesting
  | .closed root => ∀ t ∈ root, t.levels ≤ maxNesting

section Attach

variable (t : Tree) (stack : List Open) (names : List String)

/-- A complete node leaves the collections open that were around it. -/
private lemma opened_attach : (attach t stack names).opened = stack.length := by
  cases stack <;> rfl

/-- A complete node brings no anchors. -/
private lemma mem_of_mem_anchors_attach {name : String}
    (h : name ∈ (attach t stack names).anchors) :
    name ∈ names := by
  cases stack with
  | nil => cases h
  | cons o stack => exact h

/-- A complete node stands behind those before it. -/
private lemma outline_attach :
    (attach t stack names).outline = (inside stack names).outline ++ t.outline := by
  cases stack with
  | nil => rfl
  | cons o stack => simp [attach, outline, Open.outline_add]

variable {t stack}

/-- There is room for a complete node if there was room for it in the open collections. -/
private lemma fits_attach (hstack : FitsStack stack) (ht : stack.length + t.levels ≤ maxNesting) :
    (attach t stack names).Fits := by
  cases stack with
  | nil => simpa [attach, Fits] using ht
  | cons o stack =>
    obtain ⟨hroom, hnodes, hstack⟩ := hstack
    refine ⟨hroom, fun u hu => ?_, hstack⟩
    rcases Open.mem_nodes_add.1 hu with rfl | hu
    · rwa [List.length_cons] at ht
    · exact hnodes u hu

/-- A sequence that is complete fits where its items do. -/
private lemma fits_sequence {tag : Tag} {items : List Tree}
    (h : FitsStack (.sequence tag items :: stack)) :
    stack.length + (sequence tag items.reverse).levels ≤ maxNesting := by
  obtain ⟨hroom, hnodes, -⟩ := h
  have hitems : levelsList items.reverse ≤ maxNesting - (stack.length + 1) := by
    rw [levelsList_le]
    intro t ht
    have := hnodes t (List.mem_reverse.1 ht)
    omega
  rw [levels]
  omega

/-- A mapping that is complete fits where its keys and values do. -/
private lemma fits_mapping {tag : Tag} {pairs : List (Tree × Tree)}
    (h : FitsStack (.mapping tag pairs none :: stack)) :
    stack.length + (mapping tag pairs.reverse).levels ≤ maxNesting := by
  obtain ⟨hroom, hnodes, -⟩ := h
  have hpairs : levelsPairs pairs.reverse ≤ maxNesting - (stack.length + 1) := by
    rw [levelsPairs_le]
    intro p hp
    have hmem : ∀ t ∈ [p.1, p.2], t ∈ (Open.mapping tag pairs none).nodes := fun t ht =>
      List.mem_flatMap.2 ⟨p, List.mem_reverse.1 hp, ht⟩
    have hkey := hnodes p.1 (hmem p.1 (by simp))
    have hvalue := hnodes p.2 (hmem p.2 (by simp))
    omega
  rw [levels]
  omega

end Attach

namespace Steps

variable {p q : Progress} {e : Event}

/-- The number of open collections changes as the event says. -/
private lemma opened (h : Steps p e q) : q.opened = e.opens p.opened := by
  cases h with
  | scalar | sequenceEnd | mappingEnd => exact opened_attach _ _ _
  | documentStart | noDocument | sequenceStart | mappingStart | documentEnd => rfl

/-- The nodes after an event are those before it, and the one that it begins or ends. -/
lemma outline (h : Steps p e q) : q.outline = p.outline ++ e.mark?.toList := by
  cases h with
  | scalar => exact outline_attach _ _ _
  | sequenceEnd | mappingEnd =>
    rw [outline_attach]
    simp [Progress.outline, Open.outline, Tree.outline, Event.mark?]
  | sequenceStart | mappingStart =>
    simp [Progress.outline, Open.outline, Event.mark?, outlineList, outlinePairs]
  | documentStart | noDocument => rfl
  | documentEnd => simp [Progress.outline, Event.mark?]

/-- An anchor after an event was there before it, or is that of the event. -/
lemma anchors (h : Steps p e q) {name : String} (hname : name ∈ q.anchors) :
    name ∈ p.anchors ∨ e.anchor? = some name := by
  cases h with
  | documentStart | noDocument | documentEnd => cases hname
  | sequenceEnd | mappingEnd => exact .inl (mem_of_mem_anchors_attach _ _ _ hname)
  | scalar henter =>
    obtain ⟨-, -, rfl⟩ := enter_eq_ok.1 henter
    have hmem := List.mem_append.1 (mem_of_mem_anchors_attach _ _ _ hname)
    exact hmem.symm.imp_right Option.mem_toList.1
  | sequenceStart henter | mappingStart henter =>
    obtain ⟨-, -, rfl⟩ := enter_eq_ok.1 henter
    exact (List.mem_append.1 hname).symm.imp_right Option.mem_toList.1

/-- After an event there is still room for all nodes. -/
private lemma fits (h : Steps p e q) (hp : p.Fits) : q.Fits := by
  cases h with
  | documentStart => trivial
  | noDocument => exact nofun
  | scalar henter =>
    obtain ⟨hroom, -, -⟩ := enter_eq_ok.1 henter
    exact fits_attach _ hp hroom
  | sequenceStart henter | mappingStart henter =>
    obtain ⟨hroom, -, -⟩ := enter_eq_ok.1 henter
    exact ⟨hroom, nofun, hp⟩
  | sequenceEnd => exact fits_attach _ hp.2.2 (fits_sequence hp)
  | mappingEnd => exact fits_attach _ hp.2.2 (fits_mapping hp)
  | documentEnd =>
    intro t ht
    cases ht
    exact hp

/-- An event that is read is no problem. -/
lemma problem? (h : Steps p e q) : e.problem? p.opened = none := by
  rw [problem?_eq_none]
  cases h with
  | documentStart | noDocument | sequenceEnd | mappingEnd | documentEnd =>
    exact ⟨nofun, nofun⟩
  | scalar henter | sequenceStart henter | mappingStart henter =>
    exact ⟨nofun, fun _ => (enter_eq_ok.1 henter).1⟩

end Steps

/-- What is known of a composition behind the events `read`. -/
structure Tracks (read : List Event) (p : Progress) : Prop where
  opened : p.opened = openings read
  outline : p.outline = read.filterMap Event.mark?
  anchors : ∀ name ∈ p.anchors, name ∈ read.filterMap Event.anchor?
  fits : p.Fits
  clean : Clean read

/-- Before all events nothing is known. -/
private lemma tracks_initial : Tracks [] .initial :=
  ⟨rfl, rfl, nofun, trivial, clean_nil⟩

/-- **One event adds its node to the composition**, or completes one, and was allowed there. -/
theorem Tracks.step {read : List Event} {p q : Progress} {e : Event} (h : Tracks read p)
    (hstep : Steps p e q) : Tracks (read ++ [e]) q where
  opened := by rw [hstep.opened, h.opened, openings_concat]
  outline := by
    rw [hstep.outline, h.outline, List.filterMap_append]
    cases hmark : e.mark? <;> simp [hmark]
  anchors := by
    intro name hname
    rw [List.filterMap_append, List.mem_append]
    exact (hstep.anchors hname).imp (h.anchors name) fun hanchor => by simp [hanchor]
  fits := hstep.fits h.fits
  clean := clean_concat.2 ⟨h.clean, h.opened ▸ hstep.problem?⟩

/-- After a run, what is known is what the events say. -/
lemma Run.tracks {read : List Event} {p : Progress} (h : Run .initial read p) : Tracks read p := by
  induction h with
  | nil => exact tracks_initial
  | concat _ hstep ih => exact ih.step hstep

/-! ## The events that may follow -/

/-- The events that may follow, up to the end of the text. Inside a collection these are its other
nodes and its end, and then those that may follow when it is complete. -/
inductive Awaits : Progress → List Event → Prop
  | initial {events : List Event} (h : IsDocument events) : Awaits .initial events
  | root {root : List Event} {anchors : List String} (hroot : IsNode root) :
    Awaits (.inside [] anchors) (root ++ [.documentEnd, .streamEnd])
  | items {tag : Tag} {before : List Tree} {stack : List Open} {anchors : List String}
    {items rest : List Event} (hitems : IsNodes items)
    (hrest : ∀ t anchors, Awaits (attach t stack anchors) rest) :
    Awaits (.inside (.sequence tag before :: stack) anchors) (items ++ .sequenceEnd :: rest)
  | key {tag : Tag} {before : List (Tree × Tree)} {stack : List Open} {anchors : List String}
    {pairs rest : List Event} (hpairs : IsPairs pairs)
    (hrest : ∀ t anchors, Awaits (attach t stack anchors) rest) :
    Awaits (.inside (.mapping tag before none :: stack) anchors) (pairs ++ .mappingEnd :: rest)
  | value {tag : Tag} {before : List (Tree × Tree)} {k : Tree} {stack : List Open}
    {anchors : List String} {value pairs rest : List Event} (hvalue : IsNode value)
    (hpairs : IsPairs pairs) (hrest : ∀ t anchors, Awaits (attach t stack anchors) rest) :
    Awaits (.inside (.mapping tag before (some k) :: stack) anchors)
      (value ++ (pairs ++ .mappingEnd :: rest))
  | complete {t : Tree} : Awaits (.complete t) [.documentEnd, .streamEnd]
  | closed {t : Tree} : Awaits (.closed (some t)) [.streamEnd]

/-- A node may follow inside collections, with the events `rest` behind it. -/
structure AwaitsNode (stack : List Open) (node rest : List Event) : Prop where
  node : IsNode node
  rest : ∀ t anchors, Awaits (attach t stack anchors) rest

/-- What comes next: the beginning of a node inside collections, or something that is no node and
takes one step. -/
private lemma Awaits.cases_next {p : Progress} {e : Event} {events : List Event}
    (h : Awaits p (e :: events)) :
    (∃ stack anchors node rest, p = .inside stack anchors ∧ AwaitsNode stack node rest ∧
      e :: events = node ++ rest) ∨
    (e.properties? = none ∧ (∀ name start, e ≠ .alias name start) ∧
      ((e = .streamEnd ∧ events = [] ∧ ∃ t, p = .closed (some t)) ∨
        ∃ q, Steps p e q ∧ Awaits q events)) := by
  generalize hall : e :: events = all at h
  cases h with
  | initial h =>
    obtain ⟨hroot⟩ := h
    cases hall
    exact .inr ⟨rfl, nofun, .inr ⟨_, .documentStart, .root hroot⟩⟩
  | root hroot => exact .inl ⟨_, _, _, _, rfl, ⟨hroot, fun _ _ => .complete⟩, rfl⟩
  | items hitems hrest =>
    cases hitems with
    | nil =>
      cases hall
      exact .inr ⟨rfl, nofun, .inr ⟨_, .sequenceEnd, hrest _ _⟩⟩
    | cons hnode hnodes =>
      rw [List.append_assoc]
      exact .inl ⟨_, _, _, _, rfl, ⟨hnode, fun _ _ => .items hnodes hrest⟩, rfl⟩
  | key hpairs hrest =>
    cases hpairs with
    | nil =>
      cases hall
      exact .inr ⟨rfl, nofun, .inr ⟨_, .mappingEnd, hrest _ _⟩⟩
    | cons hkey hvalue hpairs =>
      rw [List.append_assoc, List.append_assoc]
      exact .inl ⟨_, _, _, _, rfl, ⟨hkey, fun _ _ => .value hvalue hpairs hrest⟩, rfl⟩
  | value hvalue hpairs hrest =>
    exact .inl ⟨_, _, _, _, rfl, ⟨hvalue, fun _ _ => .key hpairs hrest⟩, rfl⟩
  | complete =>
    cases hall
    exact .inr ⟨rfl, nofun, .inr ⟨_, .documentEnd, .closed⟩⟩
  | closed =>
    cases hall
    exact .inr ⟨rfl, nofun, .inl ⟨rfl, rfl, _, rfl⟩⟩

section Next

variable {p q : Progress} {e : Event} {events : List Event}

/-- An event leads to one progress only. -/
private lemma Steps.unique {r : Progress} (h : Steps p e q) (h' : Steps p e r) : q = r :=
  Except.ok.inj ((steps_iff.2 h).symm.trans (steps_iff.2 h'))

/-- **A composition of a document stays one** with every step. -/
theorem Awaits.step (h : Awaits p (e :: events)) (hstep : Steps p e q) : Awaits q events := by
  rcases h.cases_next with ⟨stack, names, node, rest, rfl, ⟨hnode, hrest⟩, hall⟩ | ⟨-, -, hother⟩
  · cases hnode with
    | reference =>
      cases hall
      cases hstep
    | scalar =>
      cases hall
      cases hstep
      exact hrest _ _
    | sequence props hitems =>
      rw [List.cons_append, List.append_assoc] at hall
      cases hall
      cases hstep
      exact .items hitems hrest
    | mapping props hpairs =>
      rw [List.cons_append, List.append_assoc] at hall
      cases hall
      cases hstep
      exact .key hpairs hrest
  · rcases hother with ⟨rfl, -, t, rfl⟩ | ⟨r, hstep', hr⟩
    · cases hstep
    · rwa [hstep.unique hstep']

/-- After a part of the events that may follow, the others may follow. -/
lemma Awaits.run {read rest : List Event} (h : Awaits p (read ++ rest)) (hrun : Run p read q) :
    Awaits q rest := by
  induction hrun generalizing rest with
  | nil => exact h
  | concat _ hstep ih =>
    rw [List.append_assoc] at h
    exact Awaits.step (ih h) hstep

/-- **A composition of a document goes on** as long as the next event is allowed and brings no
anchor that was there before. -/
theorem Awaits.exists_step (h : Awaits p (e :: events)) (hallowed : e.problem? p.opened = none)
    (hnew : ∀ name, e.anchor? = some name → name ∉ p.anchors) (hend : events ≠ []) :
    ∃ q, Steps p e q := by
  rcases h.cases_next with ⟨stack, names, node, rest, rfl, ⟨hnode, -⟩, hall⟩ | ⟨-, -, hother⟩
  · obtain ⟨halias, hroom⟩ := problem?_eq_none.1 hallowed
    have henter (props : Properties) (hprops : e.properties? = some props) :
        enter stack names props = .ok (props.anchor.toList ++ names) := by
      refine enter_eq_ok.2 ⟨hroom (by rw [hprops]; rfl), fun name hname => hnew name ?_, rfl⟩
      rw [Event.anchor?, hprops]
      exact hname
    cases hnode with
    | reference name start =>
      cases hall
      exact absurd rfl (halias name start)
    | scalar props byContent text =>
      cases hall
      exact ⟨_, .scalar (henter props rfl)⟩
    | sequence props =>
      cases hall
      exact ⟨_, .sequenceStart (henter props rfl)⟩
    | mapping props =>
      cases hall
      exact ⟨_, .mappingStart (henter props rfl)⟩
  · rcases hother with ⟨-, hlast, -⟩ | ⟨q, hstep, -⟩
    · exact absurd hlast hend
    · exact ⟨q, hstep⟩

/-- An event that is not allowed ends the composition with its error. -/
private lemma Awaits.step_eq_error (h : Awaits p (e :: events)) {error : LoadError}
    (hproblem : e.problem? p.opened = some error) :
    p.step e = .error error ∧ ∃ stack anchors, p = .inside stack anchors := by
  rcases h.cases_next with ⟨stack, names, node, rest, rfl, ⟨hnode, -⟩, hall⟩ | ⟨hprops, halias, -⟩
  · refine ⟨?_, stack, names, rfl⟩
    have henter (props : Properties)
        (hfull : (if 256 < stack.length + 1 then some (LoadError.nesting props.start)
          else none) = some error) : enter stack names props = .error error := by
      split_ifs at hfull with hmax
      cases hfull
      exact if_pos (Nat.le_of_lt_succ hmax)
    cases hnode with
    | reference name start =>
      cases hall
      cases hproblem
      rfl
    | scalar props | sequence props | mapping props =>
      cases hall
      simp only [Progress.step, henter props hproblem]
      rfl
  · have hnone : e.problem? p.opened = none :=
      problem?_eq_none.2 ⟨halias, fun hsome => by simp [hprops] at hsome⟩
    rw [hnone] at hproblem
    cases hproblem

/-- A composition of a document has read all events that are allowed, and no two of which bring the
same anchor. -/
private lemma exists_run {read rest : List Event} (hdocument : IsDocument (read ++ rest))
    (hclean : Clean read) (hanchors : (read.filterMap Event.anchor?).Nodup)
    (hend : rest ≠ []) : ∃ p, Run .initial read p ∧ Awaits p rest := by
  -- From the end: the last event that was read needs what is known behind the others.
  induction read using List.reverseRecOn generalizing rest with
  | nil => exact ⟨_, .nil, .initial hdocument⟩
  | append_singleton read e ih =>
    obtain ⟨hclean, hallowed⟩ := clean_concat.1 hclean
    rw [List.filterMap_append, List.nodup_append] at hanchors
    rw [List.append_assoc] at hdocument
    obtain ⟨p, hrun, hp⟩ := ih hdocument hclean hanchors.1 (List.cons_ne_nil _ _)
    have htracks := hrun.tracks
    have hnew (name : String) (hname : e.anchor? = some name) : name ∉ p.anchors := by
      intro hmem
      refine hanchors.2.2 name (htracks.anchors name hmem) name ?_ rfl
      simp [hname]
    obtain ⟨q, hstep⟩ := Awaits.exists_step hp (htracks.opened ▸ hallowed) hnew hend
    exact ⟨q, .concat hrun hstep, Awaits.step hp hstep⟩

end Next

end Progress

/-! ## Compositions -/

/-- A step may be taken before the others are composed. -/
private lemma compose_of_steps (error : Option LoadError) {p q : Progress} {e : Event}
    {events : List Event} (h : Progress.Steps p e q) :
    compose error p (e :: events) = compose error q events := by
  have hstep := Progress.steps_iff.2 h
  cases h with
  | documentStart | noDocument | sequenceEnd | mappingEnd | documentEnd => rfl
  | scalar | sequenceStart | mappingStart => simp only [compose, hstep]

/-- A run may be taken before the others are composed. -/
private lemma compose_of_run (error : Option LoadError) {p q : Progress} {read : List Event}
    (h : Progress.Run p read q) (events : List Event) :
    compose error p (read ++ events) = compose error q events := by
  induction h generalizing events with
  | nil => rfl
  | concat _ hstep ih =>
    rw [List.append_assoc, ih, List.singleton_append]
    exact compose_of_steps error hstep

/-- A composition that succeeds has gone through the events up to the end of the text. -/
lemma exists_run_of_compose {error : Option LoadError} {p : Progress} {events : List Event}
    {result : Option Tree} (h : compose error p events = .ok result) :
    ∃ read rest, events = read ++ rest ∧ Progress.Run p read (.closed result) ∧
      (result.isSome → ∃ others, rest = .streamEnd :: others) := by
  fun_induction compose error p events with
  -- A composition stops before the end of the text, so that this event is left.
  | case1 root others =>
    cases h
    exact ⟨[], _, rfl, .nil, fun _ => ⟨others, rfl⟩⟩
  | case2 events =>
    cases h
    exact ⟨[], events, rfl, .nil, nofun⟩
  | case3 => cases h
  | case4 => cases h
  | case5 p e events _ _ q hstep ih =>
    obtain ⟨read, rest, rfl, hrun, hrest⟩ := ih h
    exact ⟨e :: read, rest, rfl, hrun.cons (Progress.steps_iff.1 hstep), hrest⟩

/-- The tree is that of the events of a document, each event that begins a node being one node. -/
structure IsTreeOf (root : Tree) (events : List Event) : Prop where
  /-- There is no alias, and no node is below the last level that is allowed. -/
  allowed : ∀ before e after, events = before ++ e :: after →
    (∀ name start, e ≠ .alias name start) ∧ (e.properties?.isSome → openings before + 1 ≤ 256)
  levels : root.levels ≤ 256
  /-- The nodes are those of the events, in the order of the events. -/
  outline : root.outline = events.filterMap Event.mark?
  count : root.count = events.countP fun e => e.properties?.isSome

/-- A composition of the beginning of a document that succeeds has read the whole of it. -/
private lemma isTreeOf_of_ofEvents {feed : Feed Event} {stream : List Event}
    (hstream : IsDocument stream) (hfeed : feed.items <+: stream) {result : Option Tree}
    (h : ofEvents feed = .ok result) :
    feed.items = stream ∧ ∃ root, result = some root ∧ root.IsTreeOf stream := by
  obtain ⟨more, rfl⟩ := hfeed
  obtain ⟨read, rest, hitems, hrun, hrest⟩ := exists_run_of_compose h
  rw [hitems, List.append_assoc] at hstream
  have hawaits := Progress.Awaits.run (.initial hstream) hrun
  generalize hall : rest ++ more = all at hawaits
  cases hawaits with
  | @closed root =>
    obtain ⟨others, rfl⟩ := hrest rfl
    obtain ⟨rfl, rfl⟩ : others = [] ∧ more = [] := by simpa using hall
    have htracks := hrun.tracks
    rw [List.append_nil, hitems]
    have houtline : root.outline = (read ++ [Event.streamEnd]).filterMap Event.mark? := by
      rw [List.filterMap_append, ← htracks.outline]
      exact (List.append_nil _).symm
    refine ⟨rfl, root, rfl, ?_, htracks.fits root rfl, houtline, count_eq_of_outline houtline⟩
    have hclean : Clean (read ++ [Event.streamEnd]) := clean_concat.2 ⟨htracks.clean, rfl⟩
    exact fun before e after heq => problem?_eq_none.1 (hclean before e after heq)

/-- **What is composed of a document, and which errors there are.** The events that were read are
the beginning of those of a document. A composition that succeeds has read them all, and gives
their tree: there is no alias among them, no node is below level 256, and each event that begins a
node is one node of the tree. With an event that is not allowed the composition fails; and if the
events before it are allowed and no two of them bring the same anchor, the error is that of the
event, and the message says what is wrong with it and where it is.

**Proof sketch.** A composition that succeeds has made a step for each event but the last one, and
what is known behind the events that were read is kept by each step. The events in front of one that
is not allowed can all be read if no anchor is there twice; then only a node may follow, and the
event begins it. -/
theorem ofEvents_document {feed : Feed Event} {stream : List Event} (hstream : IsDocument stream)
    (hfeed : feed.items <+: stream) :
    (∀ result, ofEvents feed = .ok result →
      feed.items = stream ∧ ∃ root, result = some root ∧ root.IsTreeOf stream) ∧
    ∀ before e after error, feed.items = before ++ e :: after →
      e.problem? (openings before) = some error →
      (∃ other, ofEvents feed = .error other) ∧
      (Clean before → (before.filterMap Event.anchor?).Nodup →
        ofEvents feed = .error error ∧
        ∀ text path, ∃ refusal, error.toFailure text path = .refused refusal ∧
          refusal.path = path ∧ e.ReportedBy text refusal) := by
  refine ⟨fun result => isTreeOf_of_ofEvents hstream hfeed, ?_⟩
  intro before e after error hitems hproblem
  constructor
  · cases hcomposed : ofEvents feed with
    | error other => exact ⟨other, rfl⟩
    | ok result =>
      obtain ⟨heq, root, -, htree⟩ := isTreeOf_of_ofEvents hstream hfeed hcomposed
      have hnone := problem?_eq_none.2 (htree.allowed before e after (heq ▸ hitems))
      rw [hnone] at hproblem
      cases hproblem
  · intro hclean hanchors
    refine ⟨?_, exists_reportedBy hproblem⟩
    obtain ⟨more, rfl⟩ := hfeed
    rw [hitems, List.append_assoc] at hstream
    obtain ⟨p, hrun, hawaits⟩ := Progress.exists_run hstream hclean hanchors (List.cons_ne_nil _ _)
    obtain ⟨hstep, stack, anchors, rfl⟩ := hawaits.step_eq_error (hrun.tracks.opened ▸ hproblem)
    rw [ofEvents, hitems, compose_of_run _ hrun]
    simp only [compose, hstep]

/-- The text `k: [a]` has a tree, and `k: [*a]` is refused for its alias. -/
theorem pair_ofEvents_document :
    (∃ root, ofEvents (events (tokens "k: [a]".toList)) = .ok (some root) ∧
      root.IsTreeOf (events (tokens "k: [a]".toList)).items) ∧
    ofEvents (events (tokens "k: [*a]".toList)) = .error (.alias "a" ⟨4, 0, 4⟩) := by
  let props (n : Nat) : Properties := ⟨none, none, ⟨n, 0, n⟩⟩
  let front : List Event := [] ++ [.documentStart] ++ [.mappingStart (props 0)] ++
    [.scalar (props 0) true "k"] ++ [.sequenceStart (props 3)]
  let back : List Event := [.sequenceEnd, .mappingEnd, .documentEnd, .streamEnd]
  have hdocument (e : Event) (he : IsNode [e]) : IsDocument (front ++ e :: back) :=
    .intro (.mapping (props 0) (.cons (.scalar (props 0) true "k")
      (.sequence (props 3) (.cons he .nil)) .nil))
  constructor
  · have hitems : (events (tokens "k: [a]".toList)).items =
        front ++ .scalar (props 4) true "a" :: back := by decide +kernel
    have hstream := hitems ▸ hdocument _ (.scalar (props 4) true "a")
    have hcomposed : ∃ result, ofEvents (events (tokens "k: [a]".toList)) = .ok result := by
      rw [ofEvents, hitems]
      exact ⟨_, rfl⟩
    obtain ⟨result, hresult⟩ := hcomposed
    obtain ⟨-, root, rfl, hroot⟩ :=
      (ofEvents_document hstream (List.prefix_refl _)).1 result hresult
    exact ⟨root, hresult, hroot⟩
  · have hitems : (events (tokens "k: [*a]".toList)).items =
        front ++ .alias "a" ⟨4, 0, 4⟩ :: back := by decide +kernel
    have hstream := hitems ▸ hdocument _ (.reference "a" ⟨4, 0, 4⟩)
    have hclean : Clean front := by
      simp only [front, clean_concat]
      exact ⟨⟨⟨⟨clean_nil, rfl⟩, rfl⟩, rfl⟩, rfl⟩
    obtain ⟨-, hfirst⟩ :=
      (ofEvents_document hstream (List.prefix_refl _)).2 front _ back _ hitems rfl
    exact (hfirst hclean List.nodup_nil).1

end Tree

end CwlDescriptor.Yaml
