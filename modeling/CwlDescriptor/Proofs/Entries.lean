import CwlDescriptor.Expansion.Expand
import Mathlib.Tactic
set_option autoImplicit false

/-!
# Changes of maps, and maps with the same keys

What is found in a map behind a change, and which directives it has then. Two maps that have the
same keys in the same order, and related values at them, stay so under all changes that an expansion
makes to a map. What is looked up in them by the keys alone is the same.

## Main definitions

* `Entries.lacking`: the entries whose keys a map lacks.
* `Entries.Related`: the same keys with related values.

## Main results

* `Entries.get?_set`, `Entries.directive?_set`: look-ups behind a change.
* `Entries.mem_set`, `Entries.mem_addMissing`: where the entries behind a change come from.
* `Entries.forall_ofList`: what holds of all keys and values of a map.
* `Entries.mem_set_of_ne`, `Entries.mem_eraseDirective`, `Entries.prefix_addMissing`: the entries
  that stay behind a change.
* `Entries.DistinctKeys.get?_of_mem`: an entry whose key is a text is found at it.
* `Entries.Related.get?`: related maps have related values at a key.
* `Entries.Related.eraseDirective`, `Entries.Related.set`, `Entries.Related.addMissing`: related
  maps stay related.
-/

namespace CwlDescriptor

/-- A key stands for the same as a text only if it is this text. -/
lemma Scalar.sameKey_str {k : Scalar} {name : String} :
    k.sameKey (.str name) = true ↔ k = .str name := by
  constructor
  · intro h
    unfold Scalar.sameKey at h
    cases k with
    | str s => simpa [Scalar.key?, eq_comm] using h
    | float x =>
      simp only [Scalar.key?] at h
      split at h <;> simp at h
    | time d t =>
      simp only [Scalar.key?] at h
      split at h <;> simp at h
    | _ => simp [Scalar.key?] at h
  · rintro rfl
    simp [Scalar.sameKey, Scalar.key?]

/-- What has a text is this text. -/
lemma Node.eq_str_of_text? {n : Node} {text : String} (h : n.text? = some text) :
    n = .str text := by
  cases n with
  | scalar value =>
    cases value <;> cases h
    rfl
  | list _ | map _ | set _ | pair _ _ => cases h

namespace Entries

/-! ## Look-ups behind changes -/

/-- Behind a set value, this value is found at its key, and at other keys what was there before. -/
lemma get?_set (es : Entries) (key : String) (v : Node) (name : String) :
    (es.set key v).get? name = if key = name then some v else es.get? name := by
  unfold set
  induction es with
  | nil => simp [insert, get?]
  | cons e es ih =>
    obtain ⟨k, w⟩ := e
    unfold insert
    by_cases hk : k = .str key
    · rw [if_pos (Scalar.sameKey_str.2 hk)]
      subst hk
      by_cases hn : key = name <;> simp [get?, hn]
    · rw [if_neg fun h => hk (Scalar.sameKey_str.1 h)]
      by_cases hkn : k = .str name
      · subst hkn
        have hn : key ≠ name := fun h => hk (by rw [h])
        simp [get?, hn]
      · simp only [get?, if_neg hkn, ih]

/-- The value at a key is the one that was set there. -/
@[simp] lemma field_set_self (es : Entries) (key : String) (v : Node) :
    (es.set key v).field key = v := by
  unfold field
  rw [get?_set, if_pos rfl, Option.getD_some]

/-- The values at other keys are what they were. -/
lemma field_set_of_ne {key name : String} (h : key ≠ name) (es : Entries) (v : Node) :
    (es.set key v).field name = es.field name := by
  unfold field
  rw [get?_set, if_neg h]

/-- A text is found at its key. -/
lemma get?_of_text?_field {es : Entries} {name text : String}
    (h : (es.field name).text? = some text) : es.get? name = some (.str text) := by
  unfold field at h
  cases hget : es.get? name with
  | none =>
    rw [hget] at h
    cases h
  | some v =>
    rw [hget, Option.getD_some] at h
    rw [Node.eq_str_of_text? h]

/-- Setting what is there changes nothing. -/
lemma set_of_get? {es : Entries} {name : String} {v : Node} (h : es.get? name = some v) :
    es.set name v = es := by
  induction es with
  | nil => cases h
  | cons e es ih =>
    obtain ⟨k, w⟩ := e
    unfold set at ih ⊢
    by_cases hk : k = .str name
    · rw [get?, if_pos hk, Option.some.injEq] at h
      rw [insert, if_pos (Scalar.sameKey_str.2 hk), h]
    · rw [get?, if_neg hk] at h
      rw [insert, if_neg fun hkey => hk (Scalar.sameKey_str.1 hkey), ih h]

/-- A value in a map with more entries behind it is one of its own, or else one of those behind it.
-/
lemma get?_append (es es' : Entries) (name : String) :
    get? (es ++ es') name = (es.get? name).or (es'.get? name) := by
  induction es with
  | nil => rfl
  | cons e es ih =>
    obtain ⟨k, v⟩ := e
    by_cases hk : k = .str name
    · simp [get?, hk]
    · simpa [get?, hk] using ih

/-- When an entry is erased, the values at other keys are what they were. -/
lemma get?_erase_of_ne {key name : String} (h : key ≠ name) (es : Entries) :
    (es.erase (.str key)).get? name = es.get? name := by
  induction es with
  | nil => rfl
  | cons e es ih =>
    obtain ⟨k, w⟩ := e
    unfold erase
    by_cases hk : k = .str key
    · rw [if_pos (Scalar.sameKey_str.2 hk), get?, if_neg]
      rw [hk]
      simpa using h
    · rw [if_neg fun h => hk (Scalar.sameKey_str.1 h)]
      simp only [get?, ih]

/-- The key that is found among some names is one of them, but for the case of its letters. -/
lemma lowerText_of_keyAmong? {names : List String} {es : Entries} {key : String}
    (h : es.keyAmong? names = some key) : lowerText key ∈ names := by
  induction es with
  | nil => cases h
  | cons e es ih =>
    obtain ⟨k, v⟩ := e
    cases k with
    | str s =>
      simp only [keyAmong?] at h
      split at h
      · next hs =>
        cases h
        simpa using hs
      · exact ih h
    | _ => exact ih h

/-- Erasing a directive erases no other key. -/
lemma get?_eraseDirective {kind : DirectiveKind} {name : String}
    (h : lowerText name ∉ kind.names) (es : Entries) :
    (es.eraseDirective kind).get? name = es.get? name := by
  unfold eraseDirective
  split
  · rfl
  · next key hkey =>
    refine get?_erase_of_ne ?_ es
    rintro rfl
    exact h (lowerText_of_keyAmong? hkey)

/-- When a directive is erased, the values at keys that are none are what they were. -/
lemma field_eraseDirective {kind : DirectiveKind} {name : String}
    (h : lowerText name ∉ kind.names) (es : Entries) :
    (es.eraseDirective kind).field name = es.field name := by
  unfold field
  rw [get?_eraseDirective h]

/-- An entry in a map with more entries behind it is one of its own, or else one of those behind it.
-/
lemma find?_append (es es' : Entries) (key : Scalar) :
    find? (es ++ es') key = (es.find? key).or (find? es' key) := by
  induction es with
  | nil => rfl
  | cons e es ih =>
    obtain ⟨k, v⟩ := e
    by_cases hk : k.sameKey key = true
    · simp [find?, hk]
    · simpa [find?, hk] using ih

/-- The value at a key that is a text. -/
lemma find?_str (es : Entries) (name : String) : es.find? (.str name) = es.get? name := by
  induction es with
  | nil => rfl
  | cons e es ih =>
    obtain ⟨k, v⟩ := e
    by_cases hk : k = .str name
    · rw [find?, get?, if_pos (Scalar.sameKey_str.2 hk), if_pos hk]
    · rw [find?, get?, if_neg fun hkey => hk (Scalar.sameKey_str.1 hkey), if_neg hk, ih]

/-- Behind the addition of missing entries, a value is that of the map, or else one that was
added. -/
lemma get?_addMissing (es added : Entries) (name : String) :
    (es.addMissing added).get? name = (es.get? name).or (added.get? name) := by
  induction added generalizing es with
  | nil => simp [addMissing, get?]
  | cons e added ih =>
    obtain ⟨k, v⟩ := e
    unfold addMissing
    cases hfind : es.find? k with
    | some w =>
      dsimp only
      rw [ih, get?]
      split
      · next hk =>
        rw [hk, find?_str] at hfind
        rw [hfind]
        rfl
      · rfl
    | none =>
      dsimp only
      rw [ih, get?_append, Option.or_assoc]
      congr 1
      by_cases hk : k = .str name <;> simp [get?, hk]

/-- A key that is not among some names does not matter for the first one that is. -/
private lemma keyAmong?_set {names : List String} {name : String} (h : lowerText name ∉ names)
    (es : Entries) (v : Node) : (es.set name v).keyAmong? names = es.keyAmong? names := by
  unfold set
  induction es with
  | nil => simp [insert, keyAmong?, h]
  | cons e es ih =>
    obtain ⟨k, w⟩ := e
    unfold insert
    split
    · next hk =>
      rw [Scalar.sameKey_str.1 hk]
      simp [keyAmong?, h]
    · cases k <;> simp only [keyAmong?, ih]

/-- The value of a key that is no directive does not matter for directives. -/
lemma directive?_set {kind : DirectiveKind} {name : String} (h : lowerText name ∉ kind.names)
    (es : Entries) (v : Node) : (es.set name v).directive? kind = es.directive? kind := by
  unfold directive? directiveKey?
  rw [keyAmong?_set h]
  cases hkey : es.keyAmong? kind.names with
  | none => rfl
  | some key =>
    have hne : name ≠ key := by
      rintro rfl
      exact h (lowerText_of_keyAmong? hkey)
    show ((es.set name v).get? key).bind Node.text? = (es.get? key).bind Node.text?
    rw [get?_set, if_neg hne]

/-- An entry at the key null stays the first one. -/
lemma head?_insert {es : Entries} {v : Node} (h : es.head? = some (.null, v)) {k : Scalar}
    (hk : Scalar.null.sameKey k = false) (w : Node) :
    (es.insert k w).head? = some (.null, v) := by
  cases es with
  | nil => cases h
  | cons e es =>
    cases h
    simp [insert, hk]

/-- An entry at the key null stays the first one when a directive is erased. -/
lemma head?_eraseDirective {es : Entries} {v : Node} (h : es.head? = some (.null, v))
    (kind : DirectiveKind) : (es.eraseDirective kind).head? = some (.null, v) := by
  cases es with
  | nil => cases h
  | cons e es =>
    cases h
    unfold eraseDirective
    split <;> rfl

/-! ## Where entries come from -/

/-- What is found at a key is an entry of the map. -/
lemma mem_of_get? {es : Entries} {name : String} {v : Node} (h : es.get? name = some v) :
    (.str name, v) ∈ es := by
  induction es with
  | nil => cases h
  | cons e es ih =>
    obtain ⟨k, w⟩ := e
    unfold get? at h
    split at h
    · next hk =>
      cases h
      rw [hk]
      exact List.mem_cons_self
    · exact List.mem_cons_of_mem _ (ih h)

/-- An entry behind a set value was there before, or is the one that was set. -/
lemma mem_set {es : Entries} {name : String} {w : Node} {e : Scalar × Node}
    (h : e ∈ es.set name w) : e ∈ es ∨ e = (.str name, w) := by
  unfold set at h
  induction es with
  | nil => exact .inr (List.mem_singleton.1 h)
  | cons e' es ih =>
    obtain ⟨k, v⟩ := e'
    unfold insert at h
    split at h
    · next hk =>
      rw [Scalar.sameKey_str.1 hk] at h
      exact (List.mem_cons.1 h).elim .inr fun hbehind => .inl (List.mem_cons_of_mem _ hbehind)
    · rcases List.mem_cons.1 h with rfl | hbehind
      · exact .inl List.mem_cons_self
      · exact (ih hbehind).imp_left (List.mem_cons_of_mem _)

/-- What is left when an entry is erased is in the order it had. -/
private lemma erase_sublist (es : Entries) (key : Scalar) : (es.erase key).Sublist es := by
  induction es with
  | nil => exact List.Sublist.refl _
  | cons e es ih =>
    obtain ⟨k, v⟩ := e
    unfold erase
    split
    · exact List.sublist_cons_self _ _
    · exact ih.cons_cons _

/-- What is left when a directive is erased is in the order it had. -/
lemma eraseDirective_sublist (es : Entries) (kind : DirectiveKind) :
    (es.eraseDirective kind).Sublist es := by
  unfold eraseDirective
  split
  · exact List.Sublist.refl _
  · exact erase_sublist _ _

/-- The entries whose keys a map lacks, in their order. -/
def lacking (es added : Entries) : Entries :=
  added.filter fun e => (es.find? e.1).isNone

/-- An entry of a map to which the missing ones were added is its own, or its key was missing. -/
lemma mem_addMissing {es added : Entries} {e : Scalar × Node} (h : e ∈ es.addMissing added) :
    e ∈ es ∨ e ∈ es.lacking added := by
  induction added generalizing es with
  | nil => exact .inl h
  | cons e' added ih =>
    have hsub : es.lacking added ⊆ es.lacking (e' :: added) :=
      ((List.sublist_cons_self _ _).filter _).subset
    unfold addMissing at h
    split at h
    · exact (ih h).imp_right (hsub ·)
    · next hnone =>
      rcases ih h with hes | hadded
      · rcases List.mem_append.1 hes with hes | he
        · exact .inl hes
        · rw [List.mem_singleton.1 he]
          exact .inr (List.mem_filter.2 ⟨List.mem_cons_self, by rw [hnone]; rfl⟩)
      · obtain ⟨hmem, hlacks⟩ := List.mem_filter.1 hadded
        rw [find?_append, Option.isNone_or, Bool.and_eq_true] at hlacks
        exact .inr (hsub (List.mem_filter.2 ⟨hmem, hlacks.1⟩))

section Forall

variable {P : Scalar → Prop} {Q : Node → Prop} {es : Entries}

/-- What holds of the keys and values in front of a change, and of those that are set, holds behind
it. -/
private lemma forall_insert (h : ∀ e ∈ es, P e.1 ∧ Q e.2) {k : Scalar} (hk : P k) {v : Node}
    (hv : Q v) :
    ∀ e ∈ es.insert k v, P e.1 ∧ Q e.2 := by
  induction es with
  | nil => exact List.forall_mem_singleton.2 ⟨hk, hv⟩
  | cons e es ih =>
    obtain ⟨he, hes⟩ := List.forall_mem_cons.1 h
    unfold insert
    split
    · exact List.forall_mem_cons.2 ⟨⟨he.1, hv⟩, hes⟩
    · exact List.forall_mem_cons.2 ⟨he, ih hes⟩

/-- What holds of all keys and values of some pairs holds of those of the map that they make. -/
lemma forall_ofList {pairs : List (Scalar × Node)} (h : ∀ e ∈ pairs, P e.1 ∧ Q e.2) :
    ∀ e ∈ ofList pairs, P e.1 ∧ Q e.2 := by
  have hfold {es : Entries} (hes : ∀ e ∈ es, P e.1 ∧ Q e.2) :
      ∀ e ∈ pairs.foldl (fun es e => es.insert e.1 e.2) es, P e.1 ∧ Q e.2 := by
    induction pairs generalizing es with
    | nil => exact hes
    | cons e pairs ih =>
      obtain ⟨he, hpairs⟩ := List.forall_mem_cons.1 h
      exact ih hpairs (forall_insert hes he.1 he.2)
  exact hfold nofun

end Forall

/-! ## Entries that stay -/

/-- An entry at another key is still there behind a set value. -/
lemma mem_set_of_ne {es : Entries} {k : Scalar} {v : Node} (hmem : (k, v) ∈ es) {name : String}
    (h : k ≠ .str name) (w : Node) : (k, v) ∈ es.set name w := by
  unfold set
  induction es with
  | nil => cases hmem
  | cons e es ih =>
    obtain ⟨k', v'⟩ := e
    unfold insert
    rcases List.mem_cons.1 hmem with heq | hbehind
    · cases heq
      rw [if_neg fun hk => h (Scalar.sameKey_str.1 hk)]
      exact List.mem_cons_self
    · split
      · exact List.mem_cons_of_mem _ hbehind
      · exact List.mem_cons_of_mem _ (ih hbehind)

/-- Only the entry that is found at a key is erased. -/
private lemma mem_erase_of_ne {es : Entries} {k : Scalar} {v w : Node} (hmem : (k, v) ∈ es)
    {name : String} (hget : es.get? name = some w) (h : v ≠ w) :
    (k, v) ∈ es.erase (.str name) := by
  induction es with
  | nil => cases hmem
  | cons e es ih =>
    obtain ⟨k', v'⟩ := e
    unfold erase
    unfold get? at hget
    by_cases hk : k' = .str name
    · rw [if_pos hk] at hget
      rw [if_pos (Scalar.sameKey_str.2 hk)]
      rcases List.mem_cons.1 hmem with heq | hbehind
      · cases heq
        cases hget
        exact absurd rfl h
      · exact hbehind
    · rw [if_neg hk] at hget
      rw [if_neg fun hkey => hk (Scalar.sameKey_str.1 hkey)]
      rcases List.mem_cons.1 hmem with heq | hbehind
      · rw [heq]
        exact List.mem_cons_self
      · exact List.mem_cons_of_mem _ (ih hbehind hget)

/-- A directive that is followed is a text, and nothing else is erased with it. -/
lemma mem_eraseDirective {es : Entries} {k : Scalar} {v : Node} (hmem : (k, v) ∈ es)
    {kind : DirectiveKind} {reference : String} (hkind : es.directive? kind = some reference)
    (h : v.text? = none) : (k, v) ∈ es.eraseDirective kind := by
  unfold directive? at hkind
  unfold eraseDirective
  cases hkey : es.directiveKey? kind with
  | none => exact hmem
  | some key =>
    rw [hkey] at hkind
    have hvalue : (es.get? key).bind Node.text? = some reference := hkind
    obtain ⟨w, hget, htext⟩ := Option.bind_eq_some_iff.1 hvalue
    refine mem_erase_of_ne hmem hget ?_
    rintro rfl
    rw [h] at htext
    cases htext

/-- Missing entries are added behind those of the map. -/
lemma prefix_addMissing (es added : Entries) : es <+: es.addMissing added := by
  induction added generalizing es with
  | nil => exact List.prefix_rfl
  | cons e added ih =>
    unfold addMissing
    split
    · exact ih es
    · exact (List.prefix_append es _).trans (ih _)

/-- The value at a key stays where entries are added behind. -/
lemma get?_of_prefix {es es' : Entries} (h : es <+: es') {name : String} {v : Node}
    (hv : es.get? name = some v) : es'.get? name = some v := by
  obtain ⟨more, rfl⟩ := h
  rw [get?_append, hv]
  rfl

/-! ## Maps whose keys are distinct -/

/-- The keys of a map are distinct if the first one stands for the same as no key behind it, and
those behind it are distinct. -/
private lemma distinctKeys_cons {e : Scalar × Node} {es : Entries} :
    DistinctKeys (e :: es) ↔ (∀ e' ∈ es, e.1.sameKey e'.1 = false) ∧ DistinctKeys es := by
  have hsame : (∀ e' ∈ es, e.1.sameKey e'.1 = false) ↔
      ∀ key, e.1.key? = some key → key ∉ es.filterMap (·.1.key?) := by
    simp only [Scalar.sameKey, List.mem_filterMap, not_exists, not_and]
    cases e.1.key? <;> simp
  rw [hsame, DistinctKeys, List.filterMap_cons]
  cases e.1.key? <;> simp [DistinctKeys]

/-- The keys behind the first one are distinct, too. -/
lemma DistinctKeys.tail {e : Scalar × Node} {es : Entries} (h : DistinctKeys (e :: es)) :
    DistinctKeys es :=
  (distinctKeys_cons.1 h).2

/-- A key stands for the same as no key behind it. -/
lemma DistinctKeys.sameKey_eq_false {e e' : Scalar × Node} {es : Entries}
    (h : DistinctKeys (e :: es)) (he' : e' ∈ es) : e.1.sameKey e'.1 = false :=
  (distinctKeys_cons.1 h).1 e' he'

/-- A text is no other key behind it. -/
lemma DistinctKeys.ne_of_mem {es : Entries} {name : String} {v : Node}
    (h : DistinctKeys ((.str name, v) :: es)) : ∀ e ∈ es, e.1 ≠ .str name := by
  intro e he hkey
  have hfalse := h.sameKey_eq_false he
  rw [hkey, Scalar.sameKey_str.2 rfl] at hfalse
  cases hfalse

/-- The entry at a text is the only one. -/
lemma DistinctKeys.get?_of_mem {es : Entries} (h : es.DistinctKeys) {name : String} {v : Node}
    (hmem : (.str name, v) ∈ es) : es.get? name = some v := by
  induction es with
  | nil => cases hmem
  | cons e es ih =>
    obtain ⟨k, w⟩ := e
    rcases List.mem_cons.1 hmem with heq | hbehind
    · cases heq
      rw [get?, if_pos rfl]
    · have hne : k ≠ .str name := by
        rintro rfl
        have hfalse := DistinctKeys.sameKey_eq_false h hbehind
        rw [Scalar.sameKey_str.2 rfl] at hfalse
        cases hfalse
      rw [get?, if_neg hne, ih h.tail hbehind]

/-- Distinct keys stay distinct when some of the entries are left out. -/
lemma DistinctKeys.sublist {es es' : Entries} (h : es.DistinctKeys) (hsub : es'.Sublist es) :
    es'.DistinctKeys :=
  List.Nodup.sublist (hsub.filterMap _) h

/-- Distinct keys stay distinct when a value is set. -/
lemma DistinctKeys.insert {es : Entries} (h : es.DistinctKeys) (k : Scalar) (v : Node) :
    (es.insert k v).DistinctKeys := by
  induction es with
  | nil => exact distinctKeys_cons.2 ⟨nofun, h⟩
  | cons e es ih =>
    obtain ⟨hne, hes⟩ := distinctKeys_cons.1 h
    unfold Entries.insert
    split
    · exact distinctKeys_cons.2 ⟨hne, hes⟩
    · next hk =>
      have hkeys := forall_insert (P := fun key => e.1.sameKey key = false) (Q := fun _ => True)
        (fun e' he' => ⟨hne e' he', trivial⟩) (by simpa using hk) (v := v) trivial
      exact distinctKeys_cons.2 ⟨fun e' he' => (hkeys e' he').1, ih hes⟩

/-- A value at a missing key is set behind all entries. -/
lemma insert_of_find?_eq_none {es : Entries} {k : Scalar} (h : es.find? k = none) (v : Node) :
    es.insert k v = es ++ [(k, v)] := by
  induction es with
  | nil => rfl
  | cons e es ih =>
    unfold find? at h
    split at h
    · cases h
    · next hk => rw [insert, if_neg hk, ih h, List.cons_append]

/-- Distinct keys stay distinct when missing entries are added. -/
lemma DistinctKeys.addMissing {es : Entries} (h : es.DistinctKeys) (added : Entries) :
    (es.addMissing added).DistinctKeys := by
  induction added generalizing es with
  | nil => exact h
  | cons e added ih =>
    unfold Entries.addMissing
    split
    · exact ih h
    · next hnone => exact ih (insert_of_find?_eq_none hnone e.2 ▸ h.insert e.1 e.2)

/-- The keys of a map with given entries are distinct. -/
lemma distinctKeys_ofList (pairs : List (Scalar × Node)) : (ofList pairs).DistinctKeys := by
  have hfold {es : Entries} (hes : es.DistinctKeys) :
      DistinctKeys (pairs.foldl (fun es e => es.insert e.1 e.2) es) := by
    induction pairs generalizing es with
    | nil => exact hes
    | cons e pairs ih => exact ih (hes.insert e.1 e.2)
  exact hfold List.nodup_nil

/-! ## Maps with the same keys -/

/-- The same keys in the same order, with related values. -/
def Related (R : Scalar → Node → Node → Prop) : Entries → Entries → Prop :=
  List.Forall₂ fun e e' => e.1 = e'.1 ∧ R e.1 e.2 e'.2

namespace Related

variable {R : Scalar → Node → Node → Prop} {es es' : Entries}

/-- A map is related to itself if every value is. -/
lemma refl (hR : ∀ k v, R k v v) : ∀ es, Related R es es
  | [] => .nil
  | (k, v) :: es => .cons ⟨rfl, hR k v⟩ (refl hR es)

/-- Maps are related if they consist of related parts. -/
lemma append {fs fs' : Entries} (h : Related R es es') (h' : Related R fs fs') :
    Related R (es ++ fs) (es' ++ fs') :=
  List.rel_append h h'

/-- What is related to two parts of a map has two parts as well. -/
lemma split {es₁ es₂ : Entries} (h : Related R (es₁ ++ es₂) es') :
    ∃ es₁' es₂', es' = es₁' ++ es₂' ∧ Related R es₁ es₁' ∧ Related R es₂ es₂' := by
  induction es₁ generalizing es' with
  | nil => exact ⟨[], es', rfl, .nil, h⟩
  | cons e es₁ ih =>
    cases h with
    | cons he h =>
      obtain ⟨es₁', es₂', rfl, h₁, h₂⟩ := ih h
      exact ⟨_ :: es₁', es₂', rfl, .cons he h₁, h₂⟩

/-- Values of a map that are related in one way are so in another one that follows from it. -/
lemma imp_of_mem {S : Scalar → Node → Node → Prop} (h : Related R es es')
    (hRS : ∀ k v v', (k, v) ∈ es → R k v v' → S k v v') : Related S es es' := by
  induction h with
  | nil => exact .nil
  | @cons e e' es es' he _ ih =>
    refine .cons ⟨he.1, hRS _ _ _ List.mem_cons_self he.2⟩ (ih fun k v v' hmem => ?_)
    exact hRS k v v' (List.mem_cons_of_mem _ hmem)

/-- Maps that differ in one value. -/
lemma of_value (hR : ∀ k v, R k v v) (key : Scalar) {v v' : Node} (h : R key v v')
    (before after : Entries) :
    Related R (before ++ (key, v) :: after) (before ++ (key, v') :: after) :=
  (refl hR before).append (.cons ⟨rfl, h⟩ (refl hR after))

/-- Related maps have related values at a key, or both have none. -/
lemma get? (h : Related R es es') (name : String) :
    (es.get? name = none ∧ es'.get? name = none) ∨
      ∃ v v', es.get? name = some v ∧ es'.get? name = some v' ∧ R (.str name) v v' := by
  induction h with
  | nil => exact .inl ⟨rfl, rfl⟩
  | @cons e e' es es' he _ ih =>
    obtain ⟨k, v⟩ := e
    obtain ⟨k', v'⟩ := e'
    obtain ⟨rfl, hv⟩ := he
    by_cases hk : k = .str name
    · subst hk
      exact .inr ⟨v, v', by simp [Entries.get?], by simp [Entries.get?], hv⟩
    · simpa [Entries.get?, hk] using ih

/-- Related maps have values at the same keys. -/
private lemma find?_isSome (h : Related R es es') (key : Scalar) :
    (es.find? key).isSome = (es'.find? key).isSome := by
  induction h with
  | nil => rfl
  | @cons e e' es es' he _ ih =>
    obtain ⟨k, v⟩ := e
    obtain ⟨k', v'⟩ := e'
    obtain ⟨rfl, hv⟩ := he
    by_cases hk : k.sameKey key
    · simp [Entries.find?, hk]
    · simpa [Entries.find?, hk] using ih

/-- Related maps stay related when related values are set. -/
lemma insert {v v' : Node} (h : Related R es es') (hv : ∀ k, R k v v') (key : Scalar) :
    Related R (es.insert key v) (es'.insert key v') := by
  induction h with
  | nil => exact .cons ⟨rfl, hv key⟩ .nil
  | @cons e e' es es' he hes ih =>
    obtain ⟨k, w⟩ := e
    obtain ⟨k', w'⟩ := e'
    obtain ⟨rfl, hw⟩ := he
    by_cases hk : k.sameKey key
    · simp only [Entries.insert, hk, if_true]
      exact .cons ⟨rfl, hv k⟩ hes
    · simp only [Entries.insert, hk]
      exact .cons ⟨rfl, hw⟩ ih

/-- Related maps stay related when one value is set in both. -/
lemma set (hR : ∀ k v, R k v v) (h : Related R es es') (name : String) (v : Node) :
    Related R (es.set name v) (es'.set name v) :=
  h.insert (fun k => hR k v) _

/-- Related maps stay related when an entry is erased from both. -/
lemma erase (h : Related R es es') (key : Scalar) : Related R (es.erase key) (es'.erase key) := by
  induction h with
  | nil => exact .nil
  | @cons e e' es es' he hes ih =>
    obtain ⟨k, w⟩ := e
    obtain ⟨k', w'⟩ := e'
    obtain ⟨rfl, hw⟩ := he
    by_cases hk : k.sameKey key
    · simp only [Entries.erase, hk, if_true]
      exact hes
    · simp only [Entries.erase, hk]
      exact .cons ⟨rfl, hw⟩ ih

/-- The first key among some names is the same in related maps. -/
lemma keyAmong?_eq (h : Related R es es') (names : List String) :
    es.keyAmong? names = es'.keyAmong? names := by
  induction h with
  | nil => rfl
  | @cons e e' es es' he _ ih =>
    obtain ⟨k, v⟩ := e
    obtain ⟨k', v'⟩ := e'
    obtain ⟨rfl, hv⟩ := he
    cases k <;> simp only [Entries.keyAmong?, ih]

/-- Related maps stay related when a directive is erased from both. -/
lemma eraseDirective (h : Related R es es') (kind : DirectiveKind) :
    Related R (es.eraseDirective kind) (es'.eraseDirective kind) := by
  unfold Entries.eraseDirective Entries.directiveKey?
  rw [h.keyAmong?_eq]
  split
  · exact h
  · exact h.erase _

/-- Related maps stay related when the same missing entries are added to both. -/
lemma addMissing (hR : ∀ k v, R k v v) (added : Entries) (h : Related R es es') :
    Related R (es.addMissing added) (es'.addMissing added) := by
  induction added generalizing es es' with
  | nil => exact h
  | cons e added ih =>
    obtain ⟨k, v⟩ := e
    have hk := h.find?_isSome k
    unfold Entries.addMissing
    cases hf : es.find? k with
    | some w =>
      cases hf' : es'.find? k with
      | some w' => exact ih h
      | none => simp [hf, hf'] at hk
    | none =>
      cases hf' : es'.find? k with
      | some w' => simp [hf, hf'] at hk
      | none => exact ih (h.append (refl hR _))

/-! ## Look-ups that see texts only -/

/-- Values that are related hold the same text, if any. -/
lemma text?_field (hR : ∀ k v v', R k v v' → v.text? = v'.text?) (h : Related R es es')
    (name : String) : (es.field name).text? = (es'.field name).text? := by
  unfold Entries.field
  rcases h.get? name with ⟨he, he'⟩ | ⟨v, v', he, he', hv⟩
  · rw [he, he']
  · rw [he, he']
    exact hR _ v v' hv

/-- Related maps are entries of the same class. -/
lemma entryClass?_eq (hR : ∀ k v v', R k v v' → v.text? = v'.text?) (h : Related R es es') :
    es.entryClass? = es'.entryClass? := by
  unfold Entries.entryClass?
  rw [h.text?_field hR]

/-- Related maps have the same directives, if related values hold the same texts. -/
lemma directive?_eq (hR : ∀ k v v', R k v v' → v.text? = v'.text?) (h : Related R es es')
    (kind : DirectiveKind) : es.directive? kind = es'.directive? kind := by
  unfold Entries.directive? Entries.directiveKey?
  rw [h.keyAmong?_eq]
  cases es'.keyAmong? kind.names with
  | none => rfl
  | some key =>
    show (es.get? key).bind Node.text? = (es'.get? key).bind Node.text?
    rcases h.get? key with ⟨he, he'⟩ | ⟨v, v', he, he', hv⟩
    · rw [he, he']
    · rw [he, he']
      exact hR _ v v' hv

end Related

end Entries

end CwlDescriptor
