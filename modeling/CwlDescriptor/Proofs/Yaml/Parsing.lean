import CwlDescriptor.Proofs.Exceptions
import CwlDescriptor.Proofs.Yaml.Composer
set_option autoImplicit false

/-!
# From tokens to events

Each step from tokens to events passes over some tokens and has one event, or it fails. The error
behind the tokens stays, and the tag of a node is made of one of the tokens. So a step fails because
the text is not well formed or because its tokens end, and without tags among the tokens there is
none in the events.

## Main definitions

* `Machine.Behind`: a machine with some of the tokens of another one left.
* `Event.TaggedIn`: the tag of an event comes from a token.
* `Parses`: one step from tokens to events.

## Main results

* `Machine.parses_step`: each step has an event or ends the tokens.
* `Machine.run_error`, `Machine.taggedIn_of_mem_run`: what this means for all events of a text.
* `Machine.eq_nil_of_run`: nothing is behind the end of the stream.
-/

namespace CwlDescriptor.Yaml

/-- The text is not well formed, or what is behind its last token is met. -/
def LoadError.EndsTokens (error e : LoadError) : Prop :=
  e = .invalid ∨ e = error

/-- There is a tag among the tokens. -/
def HasTag (lexemes : List Lexeme) : Prop :=
  ∃ l ∈ lexemes, l.token matches .tag _ _

instance (lexemes : List Lexeme) : Decidable (HasTag lexemes) :=
  inferInstanceAs (Decidable (∃ l ∈ lexemes, _))

/-- The node that begins has a tag only if there is one among the tokens. -/
def Event.TaggedIn (lexemes : List Lexeme) (e : Event) : Prop :=
  ∀ props, e.properties? = some props → props.tag.isSome → HasTag lexemes

/-- Some of the tokens of a machine are left, with the same error behind them. -/
structure Machine.Behind (m₀ m : Machine) : Prop where
  error : m.error = m₀.error
  lexemes : m.lexemes <:+ m₀.lexemes

/-- There is an event, and some of the tokens are left; or the tokens end. -/
def Parses (m₀ : Machine) (r : Except LoadError (Event × Machine)) : Prop :=
  Except.Ensures (fun p => p.1.TaggedIn m₀.lexemes ∧ m₀.Behind p.2) m₀.error.EndsTokens r

/-- An event that begins no node has no tag. -/
private lemma Event.taggedIn_of_properties {lexemes : List Lexeme} {e : Event}
    (h : e.properties? = none) : e.TaggedIn lexemes := by
  intro props hprops
  rw [h] at hprops
  cases hprops

/-- An event with a tag is one of tokens with a tag. -/
private lemma Event.taggedIn_of_tag {lexemes : List Lexeme} {e : Event} {props : Properties}
    (he : e.properties? = some props) (h : props.tag.isSome → HasTag lexemes) :
    e.TaggedIn lexemes := by
  intro props' hprops
  obtain rfl := Option.some.inj (he.symm.trans hprops)
  exact h

/-- An empty scalar has no tag. -/
private lemma Event.taggedIn_empty (lexemes : List Lexeme) (start : Position) :
    (Event.empty start).TaggedIn lexemes := by
  rintro props ⟨⟩ htag
  cases htag

namespace Machine

variable {m₀ m : Machine}

/-- A machine is behind itself. -/
lemma Behind.refl (m : Machine) : m.Behind m := ⟨rfl, List.suffix_refl _⟩

/-- A machine stays behind when a token is dropped. -/
lemma Behind.drop (h : m₀.Behind m) : m₀.Behind m.drop :=
  ⟨h.error, (List.tail_suffix _).trans h.lexemes⟩

/-- A machine stays behind when it goes back to what was expected later. -/
lemma Behind.pop (h : m₀.Behind m) : m₀.Behind m.pop := by
  unfold Machine.pop
  split
  · exact ⟨h.error, h.lexemes⟩
  · exact ⟨h.error, h.lexemes⟩

/-- A machine stays behind when it expects something else. -/
lemma Behind.expect (h : m₀.Behind m) (next : Expected) : m₀.Behind (m.expect next) :=
  ⟨h.error, h.lexemes⟩

/-- A machine stays behind when something is expected later. -/
lemma Behind.push (h : m₀.Behind m) (later : Expected) : m₀.Behind (m.push later) :=
  ⟨h.error, h.lexemes⟩

/-- A text that is not valid has no events. -/
private lemma parses_invalid : Parses m₀ (.error .invalid) :=
  .inl rfl

/-- An event that begins no node, or a node that is left out, with some of the tokens left. -/
private lemma parses_ok {e : Event} (he : e.TaggedIn m₀.lexemes) (hm : m₀.Behind m) :
    Parses m₀ (.ok (e, m)) :=
  ⟨he, hm⟩

/-- The token in front is one of those of the machine. -/
private lemma ensures_peek (hm : m₀.Behind m) :
    Except.Ensures (fun l => l ∈ m₀.lexemes) m₀.error.EndsTokens m.peek := by
  have hsub := hm.lexemes.subset
  unfold peek
  split
  · exact .inr hm.error
  · next hcons => exact hsub (hcons ▸ List.mem_cons_self)

/-! ## Documents -/

/-- The tokens behind the ends of documents are the last ones. -/
private lemma dropEnds_suffix (lexemes : List Lexeme) : dropEnds lexemes <:+ lexemes := by
  fun_induction dropEnds lexemes with
  | case1 _ _ rest ih => exact ih.trans (List.suffix_cons _ _)
  | case2 => exact List.suffix_refl _

/-- The tokens behind directives are the last ones. -/
private lemma ensures_directives (version : Bool) (handles : List (String × String))
    (lexemes : List Lexeme) :
    Except.Ensures (fun p => p.2 <:+ lexemes) m₀.error.EndsTokens
      (directives version handles lexemes) := by
  fun_induction directives version handles lexemes with
  | case1 | case3 => exact .inl rfl
  | case2 _ _ _ _ _ _ _ _ ih => exact ih.imp fun _ h => h.trans (List.suffix_cons _ _)
  | case4 _ _ _ _ _ _ _ _ ih => exact ih.imp fun _ h => h.trans (List.suffix_cons _ _)
  | case5 _ _ _ _ _ ih => exact ih.imp fun _ h => h.trans (List.suffix_cons _ _)
  | case6 => exact List.suffix_refl _

/-- The beginning of a document is parsed. -/
private lemma parses_document (hm : m₀.Behind m) : Parses m₀ m.document := by
  have hends : m₀.Behind { m with lexemes := dropEnds m.lexemes } :=
    ⟨hm.error, (dropEnds_suffix _).trans hm.lexemes⟩
  refine (ensures_peek hends).bind fun first _ => ?_
  split
  · exact parses_ok (Event.taggedIn_of_properties rfl) (hends.drop.expect _)
  · refine (ensures_directives _ _ _).bind fun ⟨handles, rest⟩ hrest => ?_
    have hbehind : m₀.Behind { m with lexemes := rest, handles := handles } :=
      ⟨hm.error, hrest.trans hends.lexemes⟩
    refine (ensures_peek hbehind).bind fun first _ => ?_
    split
    · exact parses_ok (Event.taggedIn_of_properties rfl) ((hbehind.drop.push _).expect _)
    · exact parses_invalid

/-- The beginning of the first document is parsed. -/
private lemma parses_firstDocument (hm : m₀.Behind m) : Parses m₀ m.firstDocument := by
  refine (ensures_peek hm).bind fun first _ => ?_
  split
  · exact parses_document hm
  · exact parses_document hm
  · exact parses_document hm
  · exact parses_ok (Event.taggedIn_of_properties rfl) ⟨hm.error, hm.lexemes⟩

/-- The end of a document is parsed. -/
private lemma parses_endDocument (hm : m₀.Behind m) : Parses m₀ m.endDocument := by
  refine (ensures_peek hm).bind fun first _ => ?_
  split
  · exact parses_ok (Event.taggedIn_of_properties rfl) (hm.drop.expect _)
  · exact parses_ok (Event.taggedIn_of_properties rfl) (hm.expect _)

/-! ## Nodes -/

/-- A tag with a handle is resolved, or the tokens end. -/
private lemma ensures_resolveTag (m : Machine) (handle : Option String) (suffix : String) :
    Except.Ensures (fun _ => True) m₀.error.EndsTokens (m.resolveTag handle suffix) := by
  unfold resolveTag
  split
  · trivial
  · split
    · trivial
    · exact .inl rfl

/-- There is a tag in front of a node only if there is one among the tokens. -/
private lemma ensures_properties (hm : m₀.Behind m) :
    Except.Ensures (fun p => (p.1.tag.isSome → HasTag m₀.lexemes) ∧ m₀.Behind p.2)
      m₀.error.EndsTokens m.properties := by
  refine (ensures_peek hm).bind fun first hfirst => ?_
  split
  · refine (ensures_peek hm.drop).bind fun second hsecond => ?_
    split
    · next htag =>
      have hlexeme : HasTag m₀.lexemes := ⟨_, hsecond, by rw [htag]⟩
      exact (ensures_resolveTag ..).bind fun _ _ => ⟨fun _ => hlexeme, hm.drop.drop⟩
    · exact ⟨nofun, hm.drop⟩
  · next htag =>
    have hlexeme : HasTag m₀.lexemes := ⟨_, hfirst, by rw [htag]⟩
    refine (ensures_peek hm.drop).bind fun second _ => ?_
    split
    · exact (ensures_resolveTag ..).bind fun _ _ => ⟨fun _ => hlexeme, hm.drop.drop⟩
    · exact (ensures_resolveTag ..).bind fun _ _ => ⟨fun _ => hlexeme, hm.drop⟩
  · exact ⟨nofun, hm⟩

/-- A node that is absent is parsed. -/
private lemma parses_absent {given : Given} {props : Properties}
    (hprops : props.tag.isSome → HasTag m₀.lexemes) (hm : m₀.Behind m) :
    Parses m₀ (node.absent given props m) :=
  .ite (fun _ => parses_ok (Event.taggedIn_of_tag rfl hprops) hm.pop) fun _ => parses_invalid

/-- A node is parsed. -/
private lemma parses_node (block compact : Bool) (hm : m₀.Behind m) :
    Parses m₀ (m.node block compact) := by
  refine (ensures_peek hm).bind fun first _ => ?_
  split
  · exact parses_ok (Event.taggedIn_of_properties rfl) hm.drop.pop
  · refine (ensures_properties hm).bind fun ⟨given, m⟩ ⟨hgiven, hm⟩ => ?_
    refine (ensures_peek hm).bind fun lexeme _ => ?_
    simp only
    have htag : (if given.tag = some "!" then none else given.tag).isSome →
        HasTag m₀.lexemes := by
      split_ifs
      · exact nofun
      · exact hgiven
    split
    · exact parses_ok (Event.taggedIn_of_tag rfl htag) hm.drop.pop
    · exact parses_ok (Event.taggedIn_of_tag rfl htag) (hm.drop.expect _)
    · exact parses_ok (Event.taggedIn_of_tag rfl htag) (hm.drop.expect _)
    · exact .ite (fun _ => parses_ok (Event.taggedIn_of_tag rfl htag) (hm.expect _))
        fun _ => parses_absent htag hm
    · exact .ite (fun _ => parses_ok (Event.taggedIn_of_tag rfl htag) (hm.drop.expect _))
        fun _ => parses_absent htag hm
    · exact .ite (fun _ => parses_ok (Event.taggedIn_of_tag rfl htag) (hm.drop.expect _))
        fun _ => parses_absent htag hm
    · exact parses_absent htag hm

/-- The content of a document is parsed. -/
private lemma parses_content (hm : m₀.Behind m) : Parses m₀ m.content := by
  refine (ensures_peek hm).bind fun lexeme _ => ?_
  split
  · exact parses_ok (Event.taggedIn_empty _ _) hm.pop
  · exact parses_ok (Event.taggedIn_empty _ _) hm.pop
  · exact parses_ok (Event.taggedIn_empty _ _) hm.pop
  · exact parses_ok (Event.taggedIn_empty _ _) hm.pop
  · exact parses_node _ _ hm

/-! ## The parts of collections -/

/-- The part behind a token is parsed. -/
private lemma parses_partAfter (lexeme : Lexeme) (absent : Token → Bool) (kind later : Expected)
    (hm : m₀.Behind m) : Parses m₀ (m.partAfter lexeme absent kind later) := by
  refine (ensures_peek hm.drop).bind fun next _ =>
    .ite (fun _ => parses_ok (Event.taggedIn_empty _ _) (hm.drop.expect _)) fun _ => ?_
  split
  · exact parses_node _ _ (hm.drop.push _)
  · exact parses_invalid

/-- An item of a block sequence is parsed. -/
private lemma parses_blockItem (hm : m₀.Behind m) : Parses m₀ m.blockItem := by
  refine (ensures_peek hm).bind fun lexeme _ => ?_
  split
  · exact parses_partAfter _ _ _ _ hm
  · exact parses_ok (Event.taggedIn_of_properties rfl) hm.drop.pop
  · exact parses_invalid

/-- An item of a sequence without indentation is parsed. -/
private lemma parses_compactItem (hm : m₀.Behind m) : Parses m₀ m.compactItem := by
  refine (ensures_peek hm).bind fun lexeme _ => ?_
  split
  · exact parses_partAfter _ _ _ _ hm
  · exact parses_ok (Event.taggedIn_of_properties rfl) hm.pop

/-- A key of a block mapping is parsed. -/
private lemma parses_blockKey (hm : m₀.Behind m) : Parses m₀ m.blockKey := by
  refine (ensures_peek hm).bind fun lexeme _ => ?_
  split
  · exact parses_partAfter _ _ _ _ hm
  · exact parses_ok (Event.taggedIn_of_properties rfl) hm.drop.pop
  · exact parses_invalid

/-- A value behind its mark, or one that is left out. -/
private lemma parses_value {lexeme : Lexeme} {absent : Token → Bool} {kind later : Expected}
    (hm : m₀.Behind m) : Parses m₀ (match lexeme.token with
      | .value => m.partAfter lexeme absent kind later
      | _ => return (.empty lexeme.start, m.expect later)) := by
  split
  · exact parses_partAfter _ _ _ _ hm
  · exact parses_ok (Event.taggedIn_empty _ _) (hm.expect _)

/-- A value of a block mapping is parsed. -/
private lemma parses_blockValue (hm : m₀.Behind m) : Parses m₀ m.blockValue :=
  (ensures_peek hm).bind fun _ _ => parses_value hm

/-- What stands behind a comma is one of the tokens. -/
private lemma ensures_afterComma (first : Bool) (hm : m₀.Behind m) :
    Except.Ensures m₀.Behind m₀.error.EndsTokens (m.afterComma first) := by
  refine .ite (fun _ => hm) fun _ => (ensures_peek hm).bind fun lexeme _ => ?_
  split
  · exact hm.drop
  · exact .inl rfl

/-- An item of a flow sequence is parsed. -/
private lemma parses_flowItem (first : Bool) (hm : m₀.Behind m) : Parses m₀ (m.flowItem first) := by
  refine (ensures_peek hm).bind fun lexeme _ => ?_
  split
  · exact parses_ok (Event.taggedIn_of_properties rfl) hm.drop.pop
  · refine (ensures_afterComma first hm).bind fun m hm => (ensures_peek hm).bind fun lexeme _ => ?_
    split
    · exact parses_ok (Event.taggedIn_of_tag rfl nofun) (hm.expect _)
    · exact parses_ok (Event.taggedIn_of_properties rfl) hm.drop.pop
    · exact parses_node _ _ (hm.push _)

/-- The key of a single pair is parsed. -/
private lemma parses_pairKey (hm : m₀.Behind m) : Parses m₀ m.pairKey :=
  (ensures_peek hm).bind fun _ _ => parses_partAfter _ _ _ _ hm

/-- The value of a single pair is parsed. -/
private lemma parses_pairValue (hm : m₀.Behind m) : Parses m₀ m.pairValue :=
  (ensures_peek hm).bind fun _ _ => parses_value hm

/-- A key of a flow mapping is parsed. -/
private lemma parses_flowKey (first : Bool) (hm : m₀.Behind m) : Parses m₀ (m.flowKey first) := by
  refine (ensures_peek hm).bind fun lexeme _ => ?_
  split
  · exact parses_ok (Event.taggedIn_of_properties rfl) hm.drop.pop
  · refine (ensures_afterComma first hm).bind fun m hm => (ensures_peek hm).bind fun lexeme _ => ?_
    split
    · exact parses_partAfter _ _ _ _ hm
    · exact parses_ok (Event.taggedIn_of_properties rfl) hm.drop.pop
    · exact parses_node _ _ (hm.push _)

/-- A value of a flow mapping is parsed. -/
private lemma parses_flowValue (hm : m₀.Behind m) : Parses m₀ m.flowValue :=
  (ensures_peek hm).bind fun _ _ => parses_value hm

/-- **Each step has an event or ends the tokens.** The error behind the tokens stays, and the event
has a tag only if there is one among the tokens. -/
theorem parses_step (hm : m₀.Behind m) : Parses m₀ m.step := by
  unfold step
  split
  · exact parses_firstDocument hm
  · exact parses_document hm
  · exact parses_content hm
  · exact parses_endDocument hm
  · exact parses_node _ _ hm
  · exact parses_blockItem hm
  · exact parses_compactItem hm
  · exact parses_blockKey hm
  · exact parses_blockValue hm
  · exact parses_flowItem _ hm
  · exact parses_pairKey hm
  · exact parses_pairValue hm
  · exact (ensures_peek hm).bind fun _ _ =>
      parses_ok (Event.taggedIn_of_properties rfl) (hm.expect _)
  · exact parses_flowKey _ hm
  · exact parses_flowValue hm
  · exact (ensures_peek hm).bind fun _ _ => parses_ok (Event.taggedIn_empty _ _) (hm.expect _)
  · exact parses_invalid

/-! ## All events -/

/-- The events end where the tokens do. -/
lemma run_error {n : Nat} {passed : List Event} (hm : m₀.Behind m) :
    ∀ e ∈ (run n m passed).error, m₀.error.EndsTokens e := by
  -- By induction on the bound: each step keeps the error behind the tokens.
  induction n generalizing m passed with
  | zero =>
    rintro e ⟨⟩
    exact .inl rfl
  | succ n ih =>
    have hstep := parses_step hm
    unfold run
    split
    · next e heq =>
      rintro e' ⟨⟩
      exact hstep.of_eq_error heq
    · exact nofun
    · next heq =>
      rw [heq] at hstep
      exact ih hstep.2

/-- The events have tags only if there are some among the tokens. -/
lemma taggedIn_of_mem_run {n : Nat} {passed : List Event} (hm : m₀.Behind m) {e : Event}
    (h : e ∈ (run n m passed).items) : e ∈ passed ∨ e.TaggedIn m₀.lexemes := by
  induction n generalizing m passed with
  | zero => exact .inl (List.mem_reverse.1 h)
  | succ n ih =>
    have hstep := parses_step hm
    unfold run at h
    split at h
    · exact .inl (List.mem_reverse.1 h)
    · rcases List.mem_cons.1 (List.mem_reverse.1 h) with rfl | hmem
      · exact .inr (Event.taggedIn_of_properties rfl)
      · exact .inl hmem
    · next heq =>
      rw [heq] at hstep
      rcases ih hstep.2 h with hmem | htagged
      · rcases List.mem_cons.1 hmem with rfl | hmem
        · exact .inr hstep.1
        · exact .inl hmem
      · exact .inr htagged

/-- Nothing is behind the end of the stream. -/
lemma eq_nil_of_run {n : Nat} {passed before after : List Event} (hpassed : .streamEnd ∉ passed)
    (h : (run n m passed).items = before ++ .streamEnd :: after) : after = [] := by
  have hnone {events : List Event} (hmem : .streamEnd ∉ events) (after : List Event) :
      events.reverse ≠ before ++ .streamEnd :: after := fun h =>
    hmem (List.mem_reverse.1 (h ▸ List.mem_append_right _ List.mem_cons_self))
  induction n generalizing m passed with
  | zero => exact absurd h (hnone hpassed after)
  | succ n ih =>
    unfold run at h
    split at h
    · exact absurd h (hnone hpassed after)
    · rw [List.reverse_cons] at h
      obtain rfl | ⟨inner, last, rfl⟩ := List.eq_nil_or_concat' after
      · rfl
      · rw [← List.cons_append, ← List.append_assoc] at h
        exact absurd (List.append_inj' h rfl).1 (hnone hpassed inner)
    · next e m' hne heq =>
      refine ih (fun hmem => ?_) h
      rcases List.mem_cons.1 hmem with rfl | hmem
      · exact hne rfl
      · exact hpassed hmem

end Machine

end CwlDescriptor.Yaml
