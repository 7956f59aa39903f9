import CwlDescriptor.Proofs.Exceptions
import CwlDescriptor.Proofs.Yaml.Construction
import CwlDescriptor.Proofs.Yaml.Conversions
import CwlDescriptor.Proofs.Yaml.Lexing
import CwlDescriptor.Proofs.Yaml.Parsing
set_option autoImplicit false

/-!
# How the loading of a text ends

Loading goes through the text in four steps: tokens, events, the tree of the nodes, the document. An
error of one step is an error of all that follow, and those that are met in the text are reported
with its path. Only a fault is not: it is raised where the text is cut into tokens, or where the
content of a scalar is converted.

## Main definitions

* `ConversionFault`: the values among the events of a text that are not converted.

## Main results

* `error_events`: events end with a fault only if the tokens do.
* `load_outcome`: there is a document, a refusal with the path of the text, or a fault, and then
  what stands in the text.
-/

namespace CwlDescriptor.Yaml

/-! ## Events -/

/-- If events end with a fault, the tokens do. -/
lemma error_events {lexemes : Feed Lexeme} {f : Fault}
    (h : (events lexemes).error = some (.fault f)) : lexemes.error = some (.fault f) := by
  have hends : LoadError.EndsTokens (lexemes.error.getD .invalid) (.fault f) :=
    Machine.run_error (Machine.Behind.refl _) _ h
  rcases hends with h | h
  · cases h
  · cases herror : lexemes.error with
    | none => simp [herror] at h
    | some e => simp [herror, h]

/-! ## Trees -/

namespace Tree

open Progress (enter)

/-- A composition has no faults. -/
private lemma step_ne_fault {p : Progress} {e : Event} {f : Fault} :
    p.step e ≠ .error (.fault f) := by
  have henter {stack : List Open} {names : List String} {props : Properties} :
      enter stack names props ≠ .error (.fault f) := by
    unfold enter
    split
    · exact nofun
    · split
      · exact nofun
      · split <;> exact nofun
  intro h
  unfold Progress.step at h
  split at h
  · cases h
  · cases h
  · cases h
  · rcases Except.bind_eq_error.1 h with h | ⟨_, -, h⟩
    · exact henter h
    · cases h
  · rcases Except.bind_eq_error.1 h with h | ⟨_, -, h⟩
    · exact henter h
    · cases h
  · rcases Except.bind_eq_error.1 h with h | ⟨_, -, h⟩
    · exact henter h
    · cases h
  · cases h
  · cases h
  · cases h
  · cases h

/-- If the composition ends with a fault, the events do. -/
private lemma error_of_compose {error : Option LoadError} {p : Progress} {events : List Event}
    {f : Fault} (h : compose error p events = .error (.fault f)) : error = some (.fault f) := by
  fun_induction compose error p events with
  | case1 => cases h
  | case2 => cases h
  | case3 p hne =>
    have heq : error.getD .invalid = .fault f := Except.error.inj h
    cases error with
    | none => cases heq
    | some e => exact congrArg some heq
  | case4 p e events _ _ e' hstep =>
    cases h
    exact absurd hstep step_ne_fault
  | case5 p e events _ _ q hstep ih => exact ih h

end Tree

/-! ## Documents -/

/-- What stands among the events of a text that has a fault: a value that is not converted. -/
inductive ConversionFault (events : List Event) : Fault → Prop
  /-- A scalar with a tag that its content is no value of. -/
  | tagged {props : Properties} {byContent : Bool} {name text : String} {f : Fault}
    (hmem : .scalar props byContent text ∈ events) (htag : props.tag = some name)
    (hread : readScalar (.ofName name) text = .error (.fault f)) : ConversionFault events f
  /-- A scalar that decides on its tag, and is not convertible. -/
  | untagged {props : Properties} {text : String} {f : Fault}
    (hmem : .scalar props true text ∈ events) (htag : props.tag = none)
    (hword : Inconvertible text.toList f) : ConversionFault events f
  /-- A scalar that decides on its tag by all but the line feed at its end, and is not converted
  because of the line feed. -/
  | lineFeed {props : Properties} {text : String} {f : Fault}
    (hmem : .scalar props true text ∈ events) (htag : props.tag = none)
    (hend : text.toList.getLast? = some '\n')
    (hread : readScalar (.ofContent text.toList) text = .error (.fault f)) :
    ConversionFault events f
  /-- A map with the tag of a scalar, and a text in the place of its content. -/
  | mapping {props props' : Properties} {byContent : Bool} {name text : String} {f : Fault}
    (hmem : .mappingStart props ∈ events) (htag : props.tag = some name)
    (htext : .scalar props' byContent text ∈ events)
    (hread : readScalar (.ofName name) text = .error (.fault f)) : ConversionFault events f
  /-- A map with the tag of a date. -/
  | dateIsAMap {props : Properties} {name : String} (hmem : .mappingStart props ∈ events)
    (htag : props.tag = some name) (hname : Tag.ofName name = .timestamp) :
    ConversionFault events .dateIsAMap

/-- A scalar that decides on its tag is converted, unless it is one of those that are not
convertible, or ends with a line feed. -/
private lemma inconvertible_of_ofContent {text : String} {f : Fault}
    (h : readScalar (.ofContent text.toList) text = .error (.fault f)) :
    Inconvertible text.toList f ∨ text.toList.getLast? = some '\n' := by
  by_cases hend : text.toList.getLast? = some '\n'
  · exact .inr hend
  · left
    refine inconvertible_of_readScalar ?_
    rw [String.ofList_toList]
    unfold Tag.ofContent at h
    simp only [hend, if_false] at h
    split_ifs at h with hempty
    · cases h
    · exact h

/-- The fault of a node is that of the event it begins with. -/
private lemma conversionFault_of_nodeFault {events : List Event} {f : Fault}
    (h : NodeFault (events.filterMap Event.mark?) f) : ConversionFault events f := by
  have hscalar {tag : Tag} {text : String}
      (hmem : .scalar tag text ∈ events.filterMap Event.mark?) :
      ∃ props byContent, .scalar props byContent text ∈ events ∧
        tag = Tree.Progress.scalarTag props byContent text := by
    obtain ⟨e, he, hmark⟩ := List.mem_filterMap.1 hmem
    cases e <;> cases hmark
    exact ⟨_, _, he, rfl⟩
  have hmapping {tag : Tag} (hmem : .mappingStart tag ∈ events.filterMap Event.mark?) :
      ∃ props, .mappingStart props ∈ events ∧ tag = Tree.Progress.collectionTag props .map := by
    obtain ⟨e, he, hmark⟩ := List.mem_filterMap.1 hmem
    cases e <;> cases hmark
    exact ⟨_, he, rfl⟩
  cases h with
  | scalar hmem hread =>
    obtain ⟨props, byContent, he, rfl⟩ := hscalar hmem
    unfold Tree.Progress.scalarTag at hread
    split at hread
    · next name htag => exact .tagged he htag hread
    · next htag =>
      split_ifs at hread with hcontent
      · subst hcontent
        rcases inconvertible_of_ofContent hread with hword | hend
        · exact .untagged he htag hword
        · exact .lineFeed he htag hend hread
      · cases hread
  | mapping hmem htext hread =>
    obtain ⟨props, he, rfl⟩ := hmapping hmem
    obtain ⟨props', byContent, he', -⟩ := hscalar htext
    unfold Tree.Progress.collectionTag at hread
    split at hread
    · next name htag => exact .mapping he htag he' hread
    · cases hread
  | dateIsAMap hmem =>
    obtain ⟨props, he, htag⟩ := hmapping hmem
    unfold Tree.Progress.collectionTag at htag
    split at htag
    · next name hname => exact .dateIsAMap he hname htag.symm
    · cases htag

/-- A text has a fault only if it stands in the text, or a value among its events is not
converted. -/
private lemma fault_of_load {text : List Char} {f : Fault} (h : load text = .error (.fault f)) :
    LexicalFault text f ∨ ConversionFault (events (tokens text)).items f := by
  unfold load at h
  by_cases hallowed : text.all isAllowed
  · rw [if_pos hallowed] at h
    rcases Except.bind_eq_error.1 h with hcompose | ⟨root, hcompose, hread⟩
    · exact .inl (lexicalFault_of_tokens (error_events (Tree.error_of_compose hcompose)))
    · cases root with
      | none => cases hread
      | some root =>
        obtain ⟨read, rest, hitems, hrun, -⟩ := Tree.exists_run_of_compose hcompose
        have houtline : root.outline = read.filterMap Event.mark? := hrun.tracks.outline
        refine .inr (conversionFault_of_nodeFault ?_)
        refine (Tree.nodeFault_of_construct hread).mono fun m hm => ?_
        rw [hitems, List.filterMap_append, ← houtline]
        exact List.mem_append_left _ hm
  · rw [if_neg hallowed] at h
    cases h

end Yaml

/-- **How the loading of a text ends.** There is a document, or the text is refused with the given
path; or there is neither, and then something stands in the text that no answer is made for: an
escape with the number of no character, a version with too many digits, a scalar with a tag that its
content is no value of, a map with the tag of a scalar, a content with a line feed at its end, or
one of the three kinds of contents without a tag that look like a number and are none that is read.

**Proof sketch.** All errors of the reading, of the events, of the composition and of the
construction are errors of the text with a path, but for the two faults of tokens and the
conversions of scalars. The nodes that are constructed are those of the events. A content that
decides on its tag has the form that its conversion takes, apart from the three kinds. -/
theorem load_outcome (text : String) (path : Option String) :
    (∃ d, load text path = .ok d) ∨
      (∃ reason, load text path = .error (.refuse (.unreadable reason) path)) ∨
        ∃ f, load text path = .error (.fault f) ∧
          (Yaml.LexicalFault text.toList f ∨
            Yaml.ConversionFault (Yaml.events (Yaml.tokens text.toList)).items f) := by
  unfold load
  cases hload : Yaml.load text.toList with
  | ok d => exact .inl ⟨d, rfl⟩
  | error e =>
    match e, hload with
    | .invalid, _ => exact .inr (.inl ⟨.notYaml, rfl⟩)
    | .alias _ _, _ => exact .inr (.inl ⟨_, rfl⟩)
    | .nesting _, _ => exact .inr (.inl ⟨_, rfl⟩)
    | .fault f, hfault => exact .inr (.inr ⟨f, rfl, Yaml.fault_of_load hfault⟩)

/-- Texts for which there is neither a document nor a refusal: a hexadecimal integer without digits,
an escape with the number of no character, and words that are no value of their tags. -/
theorem odd_scalars_load :
    load "0x_" (some "/a.cwl") = .error (.fault .notANumber) ∧
      load "\"\\U00110000\"" (some "/a.cwl") = .error (.fault .noSuchCharacter) ∧
      load "!!int ''" (some "/a.cwl") = .error (.fault .emptyNumber) ∧
      load "!!bool maybe" (some "/a.cwl") = .error (.fault .notABoolean) ∧
      load "!!timestamp x" (some "/a.cwl") = .error (.fault .notADate) := by
  decide +kernel

end CwlDescriptor
