import CwlDescriptor.Table
import Mathlib.Tactic
set_option autoImplicit false

/-!
# Looking up what was set

What a table holds at a key after the value of a key was set, and which keys it has then.

## Main definitions

* `Table.insertAll`: sets the values of several keys.
* `Table.Related`: tables with the same keys and related values.

## Main results

* `Table.get?_insert`: the value that was set is found at its key, and the others stay.
* `Table.keys_insert`: a new key is the last one.
* `Table.insertAll_of_nodup`: several values at new keys stand in the order in which they were set.
* `Table.get?_ofList`, `Table.keys_ofList`: the last value of a key counts, and its first place.
-/

namespace CwlDescriptor

/-! ## Lists without repetitions -/

/-- An item is added to a list without repetitions if it is new. -/
lemma eraseDups_concat {α : Type} [DecidableEq α] (l : List α) (a : α) :
    (l ++ [a]).eraseDups = if a ∈ l then l.eraseDups else l.eraseDups ++ [a] := by
  rw [List.eraseDups_append]
  by_cases h : a ∈ l <;> simp [List.removeAll, List.eraseDups_cons, h]

/-- A list has no repetitions when they are left out. -/
lemma nodup_eraseDups {α : Type} [DecidableEq α] (l : List α) : l.eraseDups.Nodup := by
  induction l using List.reverseRecOn with
  | nil => exact List.nodup_nil
  | append_singleton l a ih =>
    rw [eraseDups_concat]
    split_ifs with h
    · exact ih
    · refine List.nodup_append.2 ⟨ih, List.nodup_singleton a, ?_⟩
      rintro b hb _ hc rfl
      rw [List.mem_singleton] at hc
      exact h (List.mem_eraseDups.1 (hc ▸ hb))

namespace Table

/-! ## Setting one value -/

variable {α : Type} {t : Table α} {key : String}

/-- Behind a set value, this value is found at its key, and at other keys what was there before. -/
lemma get?_insert (t : Table α) (key : String) (value : α) (key' : String) :
    get? (insert t key value) key' = if key = key' then some value else get? t key' := by
  induction t with
  | nil => simp [insert, get?]
  | cons e t ih =>
    obtain ⟨k, v⟩ := e
    by_cases hk : k = key
    · subst hk
      by_cases hk' : k = key' <;> simp [insert, get?, hk']
    · by_cases hk' : k = key'
      · subst hk'
        simp [insert, get?, hk, Ne.symm hk]
      · simp [insert, get?, hk, hk', ih]

/-- A table in which a value was set is not empty. -/
lemma insert_ne_nil (t : Table α) (key : String) (value : α) : insert t key value ≠ [] := by
  cases t with
  | nil => nofun
  | cons e t =>
    unfold insert
    split <;> nofun

/-- Nothing is found at what is no key. -/
lemma get?_eq_none_iff : get? t key = none ↔ key ∉ keys t := by
  induction t with
  | nil => simp [get?, keys]
  | cons e t ih =>
    obtain ⟨k, v⟩ := e
    unfold keys at ih
    by_cases hk : k = key
    · simp [get?, keys, hk]
    · simp [get?, keys, hk, Ne.symm hk, ih]

/-- What is found at a key is in the table. -/
lemma mem_of_get? {value : α} (h : get? t key = some value) : (key, value) ∈ t := by
  induction t with
  | nil => cases h
  | cons e t ih =>
    obtain ⟨k, v⟩ := e
    by_cases hk : k = key
    · simp_all [get?]
    · exact List.mem_cons_of_mem _ (ih (by simpa [get?, hk] using h))

/-- A table lacks a key if nothing is found there. -/
lemma hasKey_eq_false_iff : hasKey t key = false ↔ get? t key = none := by
  simp [hasKey]

/-- A table has its keys. -/
lemma hasKey_iff : hasKey t key = true ↔ key ∈ keys t := by
  rw [hasKey, Option.isSome_iff_ne_none, ne_eq, get?_eq_none_iff, not_not]

/-- Setting a value keeps the keys, or adds a new one behind them. -/
lemma keys_insert (t : Table α) (key : String) (value : α) :
    keys (insert t key value) = if key ∈ keys t then keys t else keys t ++ [key] := by
  induction t with
  | nil => simp [insert, keys]
  | cons e t ih =>
    obtain ⟨k, v⟩ := e
    unfold keys at ih ⊢
    by_cases hk : k = key
    · simp [insert, hk]
    · simp only [insert, if_neg hk, List.map_cons, List.mem_cons, Ne.symm hk, false_or, ih]
      split_ifs <;> rfl

/-- The keys behind a set value are those before, and the one at which it was set. -/
lemma mem_keys_insert {value : α} {key' : String} :
    key' ∈ keys (insert t key value) ↔ key' = key ∨ key' ∈ keys t := by
  rw [keys_insert]
  split_ifs with hk
  · exact ⟨.inr, fun h => h.elim (fun heq => heq ▸ hk) id⟩
  · rw [List.mem_append, List.mem_singleton, or_comm]

/-- No key stands twice after a value was set. -/
lemma nodup_keys_insert {value : α} (h : (keys t).Nodup) : (keys (insert t key value)).Nodup := by
  rw [keys_insert]
  split_ifs with hk
  · exact h
  · exact List.nodup_append.2 ⟨h, List.nodup_singleton _, by
      intro a ha b hb
      rw [List.mem_singleton.1 hb]
      rintro rfl
      exact hk ha⟩

/-- What is in a table behind a set value was there before, or is that value at its key. -/
lemma mem_insert {value : α} {e : String × α} (h : e ∈ insert t key value) :
    e = (key, value) ∨ e ∈ t := by
  induction t with
  | nil => exact .inl (List.mem_singleton.1 h)
  | cons e' t ih =>
    obtain ⟨k, v⟩ := e'
    by_cases hk : k = key
    · rw [insert, if_pos hk] at h
      rcases List.mem_cons.1 h with rfl | h
      · exact .inl (by rw [hk])
      · exact .inr (List.mem_cons_of_mem _ h)
    · rw [insert, if_neg hk] at h
      rcases List.mem_cons.1 h with rfl | h
      · exact .inr List.mem_cons_self
      · exact (ih h).imp_right (List.mem_cons_of_mem _)

/-- A new key goes to the end. -/
lemma insert_of_not_mem {value : α} (h : key ∉ keys t) :
    insert t key value = t ++ [(key, value)] := by
  induction t with
  | nil => rfl
  | cons e t ih =>
    obtain ⟨k, v⟩ := e
    obtain ⟨hk, ht⟩ := not_or.1 (mt List.mem_cons.2 h)
    rw [insert, if_neg (Ne.symm hk), ih ht]
    rfl

/-- Where no key stands twice, what stands in a table is what is found there. -/
lemma get?_eq_some_iff {value : α} (h : (keys t).Nodup) :
    get? t key = some value ↔ (key, value) ∈ t := by
  refine ⟨mem_of_get?, fun hmem => ?_⟩
  induction t with
  | nil => cases hmem
  | cons e t ih =>
    obtain ⟨k, v⟩ := e
    obtain ⟨hk, ht⟩ := List.nodup_cons.1 h
    rcases List.mem_cons.1 hmem with heq | hmem
    · cases heq
      simp [get?]
    · have hne : k ≠ key := by
        rintro rfl
        exact hk (List.mem_map.2 ⟨(k, value), hmem, rfl⟩)
      rw [get?, if_neg hne, ih ht hmem]

/-! ## Setting several values -/

/-- Sets the values of several keys, one after the other. -/
def insertAll (t : Table α) (pairs : List (String × α)) : Table α :=
  pairs.foldl (fun t e => insert t e.1 e.2) t

/-- Without values to be set, a table stays as it is. -/
@[simp] lemma insertAll_nil (t : Table α) : insertAll t [] = t := rfl

/-- The first of several values is set before the others. -/
@[simp] lemma insertAll_cons (t : Table α) (e : String × α) (pairs : List (String × α)) :
    insertAll t (e :: pairs) = insertAll (insert t e.1 e.2) pairs := rfl

/-- Two lists of values are set one after the other. -/
@[simp] lemma insertAll_append (t : Table α) (pairs pairs' : List (String × α)) :
    insertAll t (pairs ++ pairs') = insertAll (insertAll t pairs) pairs' :=
  List.foldl_append

/-- What is not set stays. -/
lemma get?_insertAll_of_not_mem {pairs : List (String × α)} (h : key ∉ pairs.map (·.1)) :
    get? (insertAll t pairs) key = get? t key := by
  induction pairs generalizing t with
  | nil => rfl
  | cons e pairs ih =>
    obtain ⟨hk, hpairs⟩ := not_or.1 (mt List.mem_cons.2 h)
    rw [insertAll_cons, ih hpairs, get?_insert, if_neg (Ne.symm hk)]

/-- What is in a table behind several set values was there before, or is one of them. -/
lemma mem_insertAll {pairs : List (String × α)} {e : String × α} (h : e ∈ insertAll t pairs) :
    e ∈ t ∨ e ∈ pairs := by
  induction pairs generalizing t with
  | nil => exact .inl h
  | cons e' pairs ih =>
    rcases ih h with h | h
    · rcases mem_insert h with rfl | h
      · exact .inr List.mem_cons_self
      · exact .inl h
    · exact .inr (List.mem_cons_of_mem _ h)

/-- No key stands twice after values were set. -/
lemma nodup_keys_insertAll {pairs : List (String × α)} (h : (keys t).Nodup) :
    (keys (insertAll t pairs)).Nodup := by
  induction pairs generalizing t with
  | nil => exact h
  | cons e pairs ih => exact ih (nodup_keys_insert h)

/-- Setting the values of keys that are all new puts them behind those that are there. -/
lemma insertAll_of_nodup {pairs : List (String × α)} (h : (keys (t ++ pairs)).Nodup) :
    insertAll t pairs = t ++ pairs := by
  induction pairs generalizing t with
  | nil => rw [insertAll_nil, List.append_nil]
  | cons e pairs ih =>
    have hk : e.1 ∉ keys t := by
      intro hmem
      rw [keys, List.map_append, List.map_cons] at h
      exact List.disjoint_of_nodup_append h hmem List.mem_cons_self
    have happend : t ++ e :: pairs = t ++ [e] ++ pairs := by simp
    rw [insertAll_cons, insert_of_not_mem hk, happend]
    rw [happend] at h
    exact ih h

/-! ## Tables with related values -/

section Related

variable {β : Type} {R : α → β → Prop}

/-- Tables with the same keys in the same order, and with related values. -/
def Related (R : α → β → Prop) : Table α → Table β → Prop :=
  List.Forall₂ fun e e' => e.1 = e'.1 ∧ R e.2 e'.2

variable {t' : Table β} {pairs : Table α} {pairs' : Table β}

/-- Related tables stay related when related values are set. -/
lemma Related.insert {value : α} {value' : β} (h : Related R t t') (key : String)
    (hvalue : R value value') : Related R (insert t key value) (insert t' key value') := by
  induction h with
  | nil => exact .cons ⟨rfl, hvalue⟩ .nil
  | @cons e e' t t' he ht ih =>
    obtain ⟨k, v⟩ := e
    obtain ⟨k', v'⟩ := e'
    obtain ⟨rfl, hv⟩ := he
    unfold Table.insert
    split_ifs
    · exact .cons ⟨rfl, hvalue⟩ ht
    · exact .cons ⟨rfl, hv⟩ ih

/-- Related tables stay related when several related values are set. -/
lemma Related.insertAll (hpairs : Related R pairs pairs') (h : Related R t t') :
    Related R (insertAll t pairs) (insertAll t' pairs') := by
  induction hpairs generalizing t t' with
  | nil => exact h
  | @cons e e' pairs pairs' he _ ih =>
    rw [insertAll_cons, insertAll_cons, ← he.1]
    exact ih (h.insert e.1 he.2)

end Related

/-! ## Tables of lists -/

/-- The table of a list with one more pair is that of the list, with this pair set. -/
private lemma ofList_concat (pairs : List (String × α)) (e : String × α) :
    ofList (pairs ++ [e]) = insert (ofList pairs) e.1 e.2 := by
  simp [ofList, List.foldl_append]

/-- The table of a list has its pairs set one after another. -/
private lemma ofList_eq_insertAll (pairs : List (String × α)) :
    ofList pairs = insertAll [] pairs := rfl

/-- The last value that is given for a key is found there. -/
lemma get?_ofList (pairs : List (String × α)) (key : String) :
    get? (ofList pairs) key = ((pairs.filter (·.1 = key)).getLast?).map (·.2) := by
  induction pairs using List.reverseRecOn with
  | nil => rfl
  | append_singleton pairs e ih =>
    rw [ofList_concat, get?_insert, ih, List.filter_append]
    by_cases he : e.1 = key <;> simp [he]

/-- The keys stand in the order in which they are given first. -/
lemma keys_ofList (pairs : List (String × α)) :
    keys (ofList pairs) = (pairs.map (·.1)).eraseDups := by
  induction pairs using List.reverseRecOn with
  | nil => rfl
  | append_singleton pairs e ih =>
    rw [ofList_concat, keys_insert, ih, List.map_append, List.map_singleton, eraseDups_concat]
    simp only [List.mem_eraseDups]

/-- Pairs with different keys are a table already. -/
lemma ofList_of_nodup {pairs : List (String × α)} (h : (keys pairs).Nodup) :
    ofList pairs = pairs := by
  rw [ofList_eq_insertAll, insertAll_of_nodup (by simpa using h), List.nil_append]

end Table

end CwlDescriptor
