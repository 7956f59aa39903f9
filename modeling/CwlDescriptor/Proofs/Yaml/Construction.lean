import CwlDescriptor.Proofs.Exceptions
import CwlDescriptor.Proofs.Yaml.Composer
set_option autoImplicit false

/-!
# Where a tree is no document

The document of a tree is put together from the values of its scalars. So the only faults of a
construction are those of their conversions; everything else that is wrong with a tree has an error
of its own. A map may be in the place of a scalar, if it has the tag of one: then the text of one of
the scalars in it is converted.

A key that stands for a whole map is a text where maps are merged, so that the nodes that are
converted are those of the tree but for some that are texts, and these need no conversion.

## Main definitions

* `NodeFault`: the fault of a conversion in a tree, given by the nodes of the tree.
* `Tree.From`: the nodes of a tree are among given ones, apart from texts.
* `Tree.Passes`: a property that passes from a tree to its parts.

## Main results

* `Round.both_eq_ok`, `Round.all_eq_ok`: when several results in rounds are there.
* `Tree.ensures_flatten`: the pairs that are merged into a map are pairs in it.
* `Tree.ensures_fill`: the construction of a tree has no fault but those of its nodes.
-/

namespace CwlDescriptor.Yaml

/-- The fault with which one of the nodes is not converted. -/
inductive NodeFault (marks : List Mark) : Fault → Prop
  | scalar {tag : Tag} {text : String} {f : Fault} (hmem : .scalar tag text ∈ marks)
    (hread : readScalar tag text = .error (.fault f)) : NodeFault marks f
  /-- A map in the place of a scalar, with the text that is converted. -/
  | mapping {tag own : Tag} {text : String} {f : Fault} (hmem : .mappingStart tag ∈ marks)
    (htext : .scalar own text ∈ marks) (hread : readScalar tag text = .error (.fault f)) :
    NodeFault marks f
  | dateIsAMap (hmem : .mappingStart .timestamp ∈ marks) : NodeFault marks .dateIsAMap

/-- A fault of some nodes is one of more nodes. -/
lemma NodeFault.mono {marks marks' : List Mark} {f : Fault} (h : NodeFault marks f)
    (hsub : ∀ m ∈ marks, m ∈ marks') : NodeFault marks' f := by
  cases h with
  | scalar hmem hread => exact .scalar (hsub _ hmem) hread
  | mapping hmem htext hread => exact .mapping (hsub _ hmem) (hsub _ htext) hread
  | dateIsAMap hmem => exact .dateIsAMap (hsub _ hmem)

/-- If the error is a fault, it is that of one of the nodes. -/
def LoadError.IsNodeFault (marks : List Mark) (e : LoadError) : Prop :=
  ∀ f, e = .fault f → NodeFault marks f

/-! ## Rounds that succeed -/

namespace Round

variable {α β : Type}

/-- A result of the present round is the result. -/
lemma now_eq_ok {r : Except LoadError α} {a : α} : now r = .ok a ↔ r = .ok a :=
  Except.mapError_eq_ok

/-- A result of the next round is the result. -/
lemma later_eq_ok {r : Round α} {a : α} : r.later = .ok a ↔ r = .ok a :=
  Except.mapError_eq_ok

/-- Two results are there if each is. -/
lemma both_eq_ok {a : Round α} {b : Round β} {p : α × β} :
    a.both b = .ok p ↔ a = .ok p.1 ∧ b = .ok p.2 := by
  obtain ⟨x, y⟩ := p
  cases a with
  | ok a => cases b <;> simp [both]
  | error e =>
    cases b with
    | ok b => simp [both]
    | error e' =>
      simp only [both, reduceCtorEq, false_and, iff_false]
      split_ifs <;> simp

/-- A list of results is there if each is. -/
lemma all_eq_ok {rs : List (Round α)} {as : List α} : all rs = .ok as ↔ rs = as.map .ok := by
  induction rs generalizing as with
  | nil => cases as <;> simp [all]
  | cons r rs ih =>
    have hcons : all (r :: rs) = .ok as ↔
        ∃ p : α × List α, (r = .ok p.1 ∧ rs = p.2.map .ok) ∧ p.1 :: p.2 = as := by
      show ((fun p => p.1 :: p.2) <$> both r (all rs)) = .ok as ↔ _
      rw [Except.map_eq_ok]
      simp only [both_eq_ok, ih]
    rw [hcons]
    constructor
    · rintro ⟨⟨a, as'⟩, ⟨rfl, rfl⟩, rfl⟩
      rfl
    · intro h
      obtain ⟨a, as', rfl, hr, hrs⟩ := List.map_eq_cons_iff.1 h.symm
      exact ⟨(a, as'), ⟨hr.symm, hrs.symm⟩, rfl⟩

/-- What is in a list of results is one of them. -/
lemma ok_mem_of_all {rs : List (Round α)} {as : List α} (h : all rs = .ok as) {a : α}
    (ha : a ∈ as) : .ok a ∈ rs := by
  rw [all_eq_ok.1 h]
  exact List.mem_map_of_mem ha

end Round

namespace Tree

variable {marks : List Mark}

/-- The nodes of a tree are among the given ones, apart from their tags where they are texts. -/
structure From (marks : List Mark) (t : Tree) : Prop where
  texts : ∀ tag text, .scalar tag text ∈ t.outline → ∃ own, .scalar own text ∈ marks
  scalars : ∀ tag text, .scalar tag text ∈ t.outline → tag = .str ∨ .scalar tag text ∈ marks
  mappings : ∀ tag, .mappingStart tag ∈ t.outline → tag = .str ∨ .mappingStart tag ∈ marks

/-- A tree has its own nodes. -/
private lemma from_outline (t : Tree) : From t.outline t where
  texts tag _ h := ⟨tag, h⟩
  scalars _ _ h := .inr h
  mappings _ h := .inr h

/-- A tree with fewer nodes has them among the same ones. -/
private lemma From.of_subset {t u : Tree} (h : From marks t)
    (hsub : ∀ m ∈ u.outline, m ∈ t.outline) :
    From marks u where
  texts tag text hmem := h.texts tag text (hsub _ hmem)
  scalars tag text hmem := h.scalars tag text (hsub _ hmem)
  mappings tag hmem := h.mappings tag (hsub _ hmem)

/-- The nodes of an item are among those of the list. -/
lemma mem_outlineList {t : Tree} {ts : List Tree} (h : t ∈ ts) {m : Mark} (hm : m ∈ t.outline) :
    m ∈ outlineList ts := by
  induction ts with
  | nil => cases h
  | cons u ts ih =>
    rw [outlineList, List.mem_append]
    rcases List.mem_cons.1 h with rfl | h
    · exact .inl hm
    · exact .inr (ih h)

/-- The nodes of a key and of a value are among those of the pairs. -/
lemma mem_outlinePairs {p : Tree × Tree} {ps : List (Tree × Tree)} (h : p ∈ ps) {m : Mark}
    (hm : m ∈ p.1.outline ∨ m ∈ p.2.outline) : m ∈ outlinePairs ps := by
  induction ps with
  | nil => cases h
  | cons q ps ih =>
    rw [outlinePairs, List.mem_append, List.mem_append]
    rcases List.mem_cons.1 h with rfl | h
    · exact hm.imp_right .inl
    · exact .inr (.inr (ih h))

/-- An item of a sequence has its nodes among those of the sequence. -/
lemma From.item {tag : Tag} {items : List Tree} (h : From marks (.sequence tag items)) {t : Tree}
    (ht : t ∈ items) : From marks t := by
  refine h.of_subset fun m hm => ?_
  rw [outline]
  exact List.mem_cons_of_mem _ (List.mem_append_left _ (mem_outlineList ht hm))

/-- The keys and values have a property. -/
def EachPair (P : Tree → Prop) (pairs : List (Tree × Tree)) : Prop :=
  ∀ p ∈ pairs, P p.1 ∧ P p.2

/-- The pairs of a mapping have their nodes among those of the mapping. -/
lemma From.pairs {tag : Tag} {pairs : List (Tree × Tree)} (h : From marks (.mapping tag pairs)) :
    EachPair (From marks) pairs := by
  intro p hp
  have hmem {m : Mark} (hm : m ∈ p.1.outline ∨ m ∈ p.2.outline) :
      m ∈ (Tree.mapping tag pairs).outline := by
    rw [outline]
    exact List.mem_cons_of_mem _ (List.mem_append_left _ (mem_outlinePairs hp hm))
  exact ⟨h.of_subset fun m hm => hmem (.inl hm), h.of_subset fun m hm => hmem (.inr hm)⟩

/-- A node as a key has its nodes among the same ones. -/
lemma From.asKey {t : Tree} (h : From marks t) : From marks t.asKey := by
  unfold Tree.asKey
  split
  · next text =>
    have honly {m : Mark} (hm : m ∈ (Tree.scalar .str text).outline) : m = .scalar .str text := by
      simpa [outline] using hm
    refine ⟨fun tag s hs => ?_, fun tag s hs => ?_, fun tag hs => ?_⟩
    · cases honly hs
      exact h.texts .value text (by simp [outline])
    · cases honly hs
      exact .inl rfl
    · cases honly hs
  · next pairs =>
    have hmem {m : Mark} (hm : m ∈ (Tree.mapping .str pairs).outline) :
        m = .mappingStart .str ∨ m ∈ (Tree.mapping .value pairs).outline := by
      simp only [outline, List.mem_cons] at hm ⊢
      exact hm.imp_right .inr
    refine ⟨fun tag s hs => ?_, fun tag s hs => ?_, fun tag hs => ?_⟩
    · exact h.texts tag s ((hmem hs).resolve_left nofun)
    · exact h.scalars tag s ((hmem hs).resolve_left nofun)
    · rcases hmem hs with heq | hs
      · cases heq
        exact .inl rfl
      · exact h.mappings tag hs
  · exact h

/-! ## Scalars -/

mutual

/-- The content of a node is the text of a scalar in it. -/
theorem ensures_content : ∀ t : Tree, Except.Ensures
    (fun text => ∃ tag, .scalar tag text ∈ t.outline) (· = LoadError.invalid) t.content
  | .scalar tag text => ⟨tag, List.mem_singleton_self _⟩
  | .sequence .. => rfl
  | .mapping _ pairs => by
    have h := ensures_contentOfPairs pairs
    rw [content, outline]
    refine h.imp fun text ⟨tag, hmem⟩ => ⟨tag, ?_⟩
    exact List.mem_cons_of_mem _ (List.mem_append_left _ hmem)

/-- The text of pairs that stand for a scalar is that of one of their nodes. -/
theorem ensures_contentOfPairs : ∀ pairs : List (Tree × Tree), Except.Ensures
    (fun text => ∃ tag, .scalar tag text ∈ outlinePairs pairs) (· = LoadError.invalid)
      (contentOfPairs pairs)
  | [] => rfl
  | (k, v) :: pairs => by
    have hv := ensures_content v
    have hpairs := ensures_contentOfPairs pairs
    rw [contentOfPairs, outlinePairs]
    refine .ite (fun _ => ?_) fun _ => ?_
    · refine hv.imp fun text ⟨tag, hmem⟩ => ⟨tag, ?_⟩
      exact List.mem_append_right _ (List.mem_append_left _ hmem)
    · refine hpairs.imp fun text ⟨tag, hmem⟩ => ⟨tag, ?_⟩
      exact List.mem_append_right _ (List.mem_append_right _ hmem)

end

/-- **The value of a node has no fault but those of the nodes.** -/
theorem ensures_toScalar {t : Tree} (h : From marks t) :
    Except.Ensures (fun _ => True) (LoadError.IsNodeFault marks) t.toScalar := by
  have hcontent := ensures_content t
  cases hread : t.content with
  | error e =>
    rw [toScalar, hread]
    cases hcontent.of_eq_error hread
    exact nofun
  | ok text =>
    rw [hread] at hcontent
    obtain ⟨own, hown⟩ := hcontent
    have hvalue (hmem : ∀ f, readScalar t.tag text = .error (.fault f) → NodeFault marks f) :
        Except.Ensures (fun _ => True) (LoadError.IsNodeFault marks) (readScalar t.tag text) := by
      cases hscalar : readScalar t.tag text with
      | ok x => trivial
      | error e =>
        rintro f rfl
        exact hmem f hscalar
    rw [toScalar, hread]
    cases t with
    | scalar tag s =>
      refine hvalue fun f hf => ?_
      obtain rfl : s = text := Except.ok.inj hread
      rcases h.scalars tag s (List.mem_singleton_self _) with rfl | hmem
      · cases hf
      · exact .scalar hmem hf
    | sequence => cases hread
    | mapping tag pairs =>
      have htag := h.mappings tag (by simp [outline])
      obtain ⟨own, htext⟩ := h.texts own text hown
      have hread : ∀ f, readScalar tag text = .error (.fault f) → NodeFault marks f := by
        intro f hf
        rcases htag with rfl | hmem
        · cases hf
        · exact .mapping hmem htext hf
      by_cases hdate : tag = .timestamp
      · subst hdate
        rintro f ⟨⟩
        exact .dateIsAMap (htag.resolve_left nofun)
      · cases tag with
        | timestamp => exact absurd rfl hdate
        | _ => exact hvalue hread

/-! ## Merged maps -/

/-- The parts of a tree with a property have it too, as keys as well. -/
structure Passes (P : Tree → Prop) : Prop where
  item : ∀ {tag : Tag} {items : List Tree}, P (.sequence tag items) → ∀ t ∈ items, P t
  pairs : ∀ {tag : Tag} {pairs : List (Tree × Tree)}, P (.mapping tag pairs) → EachPair P pairs
  asKey : ∀ {t : Tree}, P t → P t.asKey

/-- The parts of a tree have their nodes among those of the tree. -/
private lemma passes_from (marks : List Mark) : Passes (From marks) :=
  ⟨fun h _ ht => h.item ht, From.pairs, From.asKey⟩

section Merged

variable {P : Tree → Prop}

/-- Two lists of pairs with a property make one with it. -/
lemma EachPair.append {ps qs : List (Tree × Tree)} (hp : EachPair P ps) (hq : EachPair P qs) :
    EachPair P (ps ++ qs) :=
  List.forall_mem_append.2 ⟨hp, hq⟩

variable (hP : Passes P)
include hP

mutual

/-- The pairs of a map and of those that are merged into it are pairs in the map. -/
theorem ensures_flattenPairs : ∀ pairs : List (Tree × Tree), EachPair P pairs →
    Except.Ensures (fun r => EachPair P r.1 ∧ EachPair P r.2) (· = LoadError.invalid)
      (flattenPairs pairs)
  | [], _ => ⟨nofun, nofun⟩
  | (k, v) :: pairs, h => by
    obtain ⟨⟨hk, hv⟩, hpairs⟩ := List.forall_mem_cons.1 h
    have hmerged := ensures_merged v hv
    have hothers := ensures_flattenPairs pairs hpairs
    rw [flattenPairs]
    refine .ite (fun _ => ?_) fun _ => ?_
    · refine hmerged.bind fun here hhere => hothers.bind fun ⟨others, own⟩ ⟨ho, how⟩ => ?_
      exact ⟨hhere.append ho, how⟩
    · refine hothers.bind fun ⟨others, own⟩ ⟨ho, how⟩ => ⟨ho, ?_⟩
      exact List.forall_mem_cons.2 ⟨⟨hP.asKey hk, hv⟩, how⟩

/-- The pairs that a map adds to another one have a property if the map has it. -/
theorem ensures_merged : ∀ t : Tree, P t →
    Except.Ensures (EachPair P) (· = LoadError.invalid) (merged t)
  | .scalar .., _ => rfl
  | .mapping _ pairs, h => by
    have hpairs := ensures_flattenPairs pairs (hP.pairs h)
    rw [merged]
    exact hpairs.bind fun ⟨others, own⟩ ⟨ho, how⟩ => ho.append how
  | .sequence _ items, h => by
    have hitems := ensures_mergedItems items (hP.item h)
    rwa [merged]

/-- The pairs that a list of maps adds to a map have a property if the maps have it. -/
theorem ensures_mergedItems : ∀ items : List Tree, (∀ t ∈ items, P t) →
    Except.Ensures (EachPair P) (· = LoadError.invalid) (mergedItems items)
  | [], _ => nofun
  | .scalar .. :: _, _ => rfl
  | .sequence .. :: _, _ => rfl
  | .mapping _ pairs :: items, h => by
    obtain ⟨hmap, hitems⟩ := List.forall_mem_cons.1 h
    have hpairs := ensures_flattenPairs pairs (hP.pairs hmap)
    have hrest := ensures_mergedItems items hitems
    rw [mergedItems]
    refine hpairs.bind fun ⟨others, own⟩ ⟨ho, how⟩ => hrest.bind fun rest hr => ?_
    exact EachPair.append hr (ho.append how)

end

/-- The pairs of a map after those of the maps that are merged into it. -/
theorem ensures_flatten {pairs : List (Tree × Tree)} (h : EachPair P pairs) :
    Except.Ensures (EachPair P) (· = LoadError.invalid) (flatten pairs) :=
  (ensures_flattenPairs hP pairs h).map fun _ ⟨ho, how⟩ => ho.append how

end Merged

/-! ## Collections -/

/-- The error of whatever round has no fault but those of the nodes. -/
def Fills {α : Type} (marks : List Mark) (r : Round α) : Prop :=
  Except.Ensures (fun _ => True) (fun p => p.2.IsNodeFault marks) r

section Rounds

variable {α β : Type}

/-- A document that is not valid has no fault. -/
private lemma fills_invalid (n : Nat) : Fills marks (.error (n, .invalid) : Round α) := nofun

/-- The faults of the present round are those of its result. -/
private lemma fills_now {r : Except LoadError α}
    (h : Except.Ensures (fun _ => True) (LoadError.IsNodeFault marks) r) :
    Fills marks (Round.now r) := by
  cases r with
  | ok a => trivial
  | error e => exact h

/-- The faults of the next round are those of its result. -/
lemma Fills.later {r : Round α} (h : Fills marks r) : Fills marks r.later := by
  cases r with
  | ok a => trivial
  | error e => exact h

/-- The faults of two results are those of each. -/
lemma Fills.both {a : Round α} {b : Round β} (ha : Fills marks a) (hb : Fills marks b) :
    Fills marks (a.both b) := by
  cases a with
  | ok a =>
    cases b with
    | ok b => trivial
    | error e => exact hb
  | error e =>
    cases b with
    | ok b => exact ha
    | error e' =>
      simp only [Round.both]
      split_ifs
      exacts [hb, ha]

/-- The faults of a list of results are those of each. -/
private lemma fills_all {rs : List (Round α)} (h : ∀ r ∈ rs, Fills marks r) :
    Fills marks (Round.all rs) := by
  induction rs with
  | nil => trivial
  | cons r rs ih =>
    obtain ⟨hr, hrs⟩ := List.forall_mem_cons.1 h
    exact (hr.both (ih hrs)).map fun _ _ => trivial

end Rounds

section Fill

variable {fill : Tree → Round Node} (hfill : ∀ t, From marks t → Fills marks (fill t))
include hfill

/-- The faults of a part of a collection are those of its nodes. -/
private lemma fills_part {t : Tree} (h : From marks t) : Fills marks (part fill t) :=
  .ite (fun _ => (hfill t h).later) fun _ => (fills_now (ensures_toScalar h)).map fun _ _ => trivial

/-- The faults of an element of an ordered map are those of its nodes. -/
private lemma fills_single {t : Tree} (h : From marks t) : Fills marks (single fill t) := by
  unfold single
  split
  · obtain ⟨hk, hv⟩ := h.pairs _ (List.mem_singleton_self _)
    exact ((fills_part hfill hk).both (fills_part hfill hv)).map fun _ _ => trivial
  · exact fills_invalid 0

/-- The faults of the entries of a map are those of its nodes. -/
private lemma fills_entries {pairs : List (Tree × Tree)} (h : EachPair (From marks) pairs) :
    Fills marks (entries fill pairs) := by
  have hflat : Except.Ensures (EachPair (From marks)) (fun p => p.2.IsNodeFault marks)
      (Round.now (flatten pairs)) := by
    have hpairs := ensures_flatten (passes_from marks) h
    cases hread : flatten pairs with
    | ok flat =>
      rw [hread] at hpairs
      exact hpairs
    | error e =>
      cases hpairs.of_eq_error hread
      exact nofun
  have hkey {k : Tree} (hk : From marks k) : Fills marks (Round.now (toKey k)) :=
    fills_now (.ite (fun _ => nofun) fun _ => ensures_toScalar hk)
  refine hflat.bind fun flat hflat => Except.Ensures.bind (fills_all ?_) fun _ _ => trivial
  rintro r hr
  obtain ⟨⟨k, v⟩, hp, rfl⟩ := List.mem_map.1 hr
  obtain ⟨hk, hv⟩ := hflat _ hp
  exact (hkey hk).both (fills_part hfill hv)

end Fill

/-- **The construction of a tree has no fault but those of its nodes.** -/
theorem ensures_fill (n : Nat) {t : Tree} (h : From marks t) : Fills marks (fill n t) := by
  -- By induction on the levels: the parts of a collection are filled on the level below.
  induction n generalizing t with
  | zero => exact fills_invalid 0
  | succ n ih =>
    cases t with
    | scalar => exact fills_invalid 0
    | sequence tag items =>
      have hparts : Fills marks (Round.all (items.map (part (fill n)))) := by
        refine fills_all fun r hr => ?_
        obtain ⟨t, ht, rfl⟩ := List.mem_map.1 hr
        exact fills_part (fun t => ih) (h.item ht)
      have hsingles : Fills marks (Round.all (items.map (single (fill n)))) := by
        refine fills_all fun r hr => ?_
        obtain ⟨t, ht, rfl⟩ := List.mem_map.1 hr
        exact fills_single (fun t => ih) (h.item ht)
      unfold fill
      split
      · exact hparts.map fun _ _ => trivial
      · exact hsingles.map fun _ _ => trivial
      · exact hsingles.map fun _ _ => trivial
      · exact fills_invalid 0
    | mapping tag pairs =>
      have hentries := fills_entries (fun t => ih) h.pairs
      unfold fill
      split
      · exact hentries.map fun _ _ => trivial
      · exact hentries.map fun _ _ => trivial
      · exact fills_invalid 0

/-- The fault of a construction is that of a node of the tree. -/
theorem nodeFault_of_construct {levels : Nat} {t : Tree} {f : Fault}
    (h : t.construct levels = .error (.fault f)) : NodeFault t.outline f := by
  have hpart := fills_part (fun t => ensures_fill levels) (from_outline t)
  unfold construct at h
  cases hread : part (fill levels) t with
  | ok node =>
    rw [hread] at h
    cases h
  | error p =>
    rw [hread] at h
    exact hpart.of_eq_error hread f (Except.error.inj h)

end Tree

end CwlDescriptor.Yaml
