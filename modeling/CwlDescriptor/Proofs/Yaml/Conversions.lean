import CwlDescriptor.Proofs.Cuts
import CwlDescriptor.Proofs.Exceptions
import CwlDescriptor.Proofs.Numerals
import CwlDescriptor.Proofs.Paths
import CwlDescriptor.Yaml.Value
set_option autoImplicit false

/-!
# Contents that decide on their tag are converted

A scalar without a tag and without quotes has the tag that the form of its content calls for. So
the conversion that the tag demands nearly always has a result. It has none in three cases only: a
binary or hexadecimal integer that consists of underscores behind its mark, a decimal integer with
too many digits, and a floating point number of so many places of sixty that the value of the first
one is too large.

## Main definitions

* `IntForm`, `FloatForm`: the forms of the contents that are integers and floating point numbers.
* `Inconvertible`: the contents that decide on a tag whose conversion fails.

## Main results

* `inconvertible_of_readScalar`: only such a content is not converted.
-/

namespace CwlDescriptor

namespace Text

variable {sep : Char}

/-- Characters are left out of each piece. -/
private lemma splitOn_filter {p : Char → Bool} (hsep : p sep) (s : List Char) :
    splitOn sep (s.filter p) = (splitOn sep s).map (List.filter p) := by
  induction s with
  | nil => rfl
  | cons c s ih =>
    by_cases hc : c = sep
    · subst hc
      rw [List.filter_cons_of_pos hsep, splitOn, if_pos rfl, ih, splitOn, if_pos rfl]
      rfl
    · rw [splitOn, if_neg hc]
      obtain ⟨piece, pieces, hs⟩ := List.exists_cons_of_ne_nil (splitOn_ne_nil sep s)
      rw [hs] at ih ⊢
      by_cases hpc : p c
      · rw [List.filter_cons_of_pos hpc, splitOn, if_neg hc, ih]
        simp [hpc]
      · rw [List.filter_cons_of_neg hpc, ih]
        simp [hpc]

/-- Characters are replaced in each piece. -/
private lemma splitOn_map {f : Char → Char} (hsep : ∀ c, f c = sep ↔ c = sep) (s : List Char) :
    splitOn sep (s.map f) = (splitOn sep s).map (List.map f) := by
  induction s with
  | nil => rfl
  | cons c s ih =>
    rw [List.map_cons, splitOn, splitOn, ih]
    by_cases hc : c = sep
    · rw [if_pos hc, if_pos ((hsep c).2 hc)]
      rfl
    · rw [if_neg hc, if_neg fun h => hc ((hsep c).1 h)]
      obtain ⟨piece, pieces, hs⟩ := List.exists_cons_of_ne_nil (splitOn_ne_nil sep s)
      rw [hs]
      rfl

/-- What is added behind the last separator belongs to the last piece. -/
private lemma exists_splitOn_append {t : List Char} (ht : sep ∉ t) (s : List Char) :
    ∃ front last, splitOn sep s = front ++ [last] ∧
      splitOn sep (s ++ t) = front ++ [last ++ t] := by
  induction s with
  | nil => exact ⟨[], [], rfl, splitOn_of_not_mem ht⟩
  | cons c s ih =>
    obtain ⟨front, last, hs, hst⟩ := ih
    rw [List.cons_append, splitOn, splitOn, hs, hst]
    by_cases hc : c = sep
    · rw [if_pos hc, if_pos hc]
      exact ⟨[] :: front, last, rfl, rfl⟩
    · rw [if_neg hc, if_neg hc]
      cases front with
      | nil => exact ⟨[], c :: last, rfl, rfl⟩
      | cons piece front => exact ⟨(c :: piece) :: front, last, rfl, rfl⟩

/-- What is added in front of the first separator belongs to the first piece. -/
lemma exists_splitOn_prepend {t : List Char} (ht : sep ∉ t) (s : List Char) :
    ∃ first others, splitOn sep (t ++ s) = (t ++ first) :: others := by
  induction t with
  | nil =>
    obtain ⟨first, others, hs⟩ := List.exists_cons_of_ne_nil (splitOn_ne_nil sep s)
    exact ⟨first, others, hs⟩
  | cons c t ih =>
    rw [List.mem_cons, not_or] at ht
    obtain ⟨first, others, hs⟩ := ih ht.2
    refine ⟨first, others, ?_⟩
    rw [List.cons_append, splitOn, if_neg (Ne.symm ht.1), hs]
    rfl

end Text

namespace Yaml

open Text (splitOn lower)
open Binary64 (cutSign Numeral)

/-! ## Underscores and signs -/

/-- Digits and underscores, and at least one digit. -/
structure HasDigits (s : List Char) : Prop where
  all : ∀ c ∈ s, Tag.isDigitOrUnderscore c
  digit : ∃ c ∈ s, c.isDigit

/-- Dropping the underscores leaves all other characters. -/
private lemma mem_dropUnderscores {c : Char} {s : List Char} :
    c ∈ dropUnderscores s ↔ c ∈ s ∧ c ≠ '_' := by
  simp [dropUnderscores]

/-- What is left of digits and underscores are digits. -/
private lemma isDigit_of_mem_dropUnderscores {s : List Char}
    (h : ∀ c ∈ s, Tag.isDigitOrUnderscore c) :
    ∀ c ∈ dropUnderscores s, c.isDigit := by
  intro c hc
  obtain ⟨hmem, hne⟩ := mem_dropUnderscores.1 hc
  simpa [Tag.isDigitOrUnderscore, hne] using h c hmem

/-- A digit is no underscore. -/
private lemma ne_underscore_of_isDigit {c : Char} (h : c.isDigit) : c ≠ '_' := by
  rintro rfl
  exact absurd h (by decide)

/-- With a digit, something is left without the underscores. -/
private lemma HasDigits.dropUnderscores_ne_nil {s : List Char} (h : HasDigits s) :
    dropUnderscores s ≠ [] := by
  obtain ⟨c, hc, hdigit⟩ := h.digit
  exact List.ne_nil_of_mem (mem_dropUnderscores.2 ⟨hc, ne_underscore_of_isDigit hdigit⟩)

/-- The underscores of two texts are dropped in both. -/
private lemma dropUnderscores_append (s t : List Char) :
    dropUnderscores (s ++ t) = dropUnderscores s ++ dropUnderscores t :=
  List.filter_append ..

/-- A character that is no underscore stays. -/
private lemma dropUnderscores_cons {c : Char} (hc : c ≠ '_') (s : List Char) :
    dropUnderscores (c :: s) = c :: dropUnderscores s :=
  List.filter_cons_of_pos (by simpa using hc)

/-- A text without underscores stays as it is. -/
private lemma dropUnderscores_eq_self {s : List Char} (h : '_' ∉ s) : dropUnderscores s = s :=
  List.filter_eq_self.2 fun c hc => by simpa using ne_of_mem_of_not_mem hc h

/-- The text behind the sign begins neither with another sign nor with an underscore. -/
def Starts (s : List Char) : Prop :=
  ∃ c rest, (cutSign s).2 = c :: rest ∧ c ≠ '_' ∧ c ≠ '-' ∧ c ≠ '+'

section Starts

variable {s : List Char}

/-- A text that does not begin with a sign has none. -/
lemma cutSign_of_ne {c : Char} {rest : List Char} (hminus : c ≠ '-') (hplus : c ≠ '+') :
    cutSign (c :: rest) = (false, c :: rest) := by
  unfold cutSign
  split
  · next heq => exact absurd (List.cons.inj heq).1 hminus
  · next heq => exact absurd (List.cons.inj heq).1 hplus
  · rfl

/-- The sign stays in front when underscores are left out. -/
private lemma Starts.cutSign_dropUnderscores (h : Starts s) :
    cutSign (dropUnderscores s) = ((cutSign s).1, dropUnderscores (cutSign s).2) := by
  obtain ⟨c, rest, heq, hunderscore, hminus, hplus⟩ := h
  unfold cutSign at heq ⊢
  split at heq
  · rfl
  · rfl
  · subst heq
    rw [dropUnderscores_cons hunderscore]
    exact cutSign_of_ne hminus hplus

end Starts

/-! ## Contents that are not converted -/

/-- A content that decides on its tag, and is not converted. -/
inductive Inconvertible (s : List Char) : Fault → Prop
  /-- A binary or hexadecimal integer that consists of underscores behind its mark. -/
  | noDigits {letter : Char} {blanks : List Char} (htag : Tag.ofWord s = .int)
    (hletter : letter = 'b' ∨ letter = 'x') (hform : (cutSign s).2 = '0' :: letter :: blanks)
    (hblanks : ∀ c ∈ blanks, c = '_') : Inconvertible s .notANumber
  /-- An integer, or one of its places of sixty, with too many decimal digits. -/
  | manyDigits {place : List Char} (htag : Tag.ofWord s = .int)
    (hplace : place ∈ splitOn ':' (cutSign s).2)
    (hmany : Integer.maxDigits < (dropUnderscores place).length) : Inconvertible s .notANumber
  /-- A floating point number with so many places of sixty that the value of the first one is too
  large. -/
  | manyPlaces (htag : Tag.ofWord s = .float)
    (hmany : 174 < (splitOn ':' (cutSign s).2).length) : Inconvertible s .tooLarge

/-! ## Integers -/

/-- A number is missing exactly if nothing is read. -/
private lemma number_eq_error {α : Type} {o : Option α} {e : LoadError} :
    number o = .error e ↔ o = none ∧ e = .fault .notANumber := by
  cases o <;> simp [number, fail, eq_comm]

/-- A number is there if it is read. -/
private lemma number_eq_ok {α : Type} {o : Option α} {a : α} : number o = .ok a ↔ o = some a := by
  cases o <;> simp [number, fail]

/-- As many values are read as there are parts. -/
private lemma length_of_mapM {α β : Type} {f : α → Option β} {as : List α} {bs : List β}
    (h : as.mapM f = some bs) : bs.length = as.length := by
  induction as generalizing bs with
  | nil =>
    cases h
    rfl
  | cons a as ih =>
    rw [List.mapM_cons] at h
    obtain ⟨b, -, h⟩ := Option.bind_eq_some_iff.1 h
    obtain ⟨bs, hbs, h⟩ := Option.bind_eq_some_iff.1 h
    cases h
    rw [List.length_cons, ih hbs, List.length_cons]

/-- If not all values are read, one of them is not. -/
private lemma exists_eq_none_of_mapM {α β : Type} {f : α → Option β} {as : List α}
    (h : as.mapM f = none) : ∃ a ∈ as, f a = none := by
  induction as with
  | nil => cases h
  | cons a as ih =>
    rw [List.mapM_cons] at h
    cases ha : f a with
    | none => exact ⟨a, List.mem_cons_self, ha⟩
    | some b =>
      cases has : as.mapM f with
      | none =>
        obtain ⟨a', ha', hnone⟩ := ih has
        exact ⟨a', List.mem_cons_of_mem a ha', hnone⟩
      | some bs => simp [ha, has] at h

/-- The form of an integer without its sign. -/
inductive IntForm : List Char → Prop
  | binary {digits : List Char} (hne : digits ≠ [])
    (hdigits : ∀ c ∈ digits, c ≠ '_' → Text.IsDigit 2 c) : IntForm ('0' :: 'b' :: digits)
  | hexadecimal {digits : List Char} (hne : digits ≠ [])
    (hdigits : ∀ c ∈ digits, c ≠ '_' → Text.IsDigit 16 c) : IntForm ('0' :: 'x' :: digits)
  | octal {digits : List Char} (hdigits : ∀ c ∈ digits, c ≠ '_' → Text.IsDigit 8 c) :
    IntForm ('0' :: digits)
  /-- One place, or several ones of sixty. -/
  | places {first : Char} {rest : List Char} (hfirst : first.isDigit) (hzero : first ≠ '0')
    (hplaces : ∀ place ∈ splitOn ':' (first :: rest), HasDigits place) :
    IntForm (first :: rest)

/-- Digits have a digit. -/
private lemma hasDigits_of_isDigits {s : List Char} (h : Tag.isDigits s) : HasDigits s := by
  cases s with
  | nil => cases h
  | cons c s =>
    obtain ⟨hc, hs⟩ := Bool.and_eq_true_iff.1 h
    refine ⟨List.forall_mem_cons.2 ⟨by simp [Tag.isDigitOrUnderscore, hc], ?_⟩, c, by simp, hc⟩
    exact List.all_eq_true.1 hs

/-- A sexagesimal digit has a digit. -/
private lemma hasDigits_of_isSexagesimalDigit {s : List Char} (h : Tag.isSexagesimalDigit s) :
    HasDigits s := by
  unfold Tag.isSexagesimalDigit at h
  split at h
  · next d => exact ⟨by simp [Tag.isDigitOrUnderscore, h], d, by simp, h⟩
  · next t d =>
    simp only [Bool.and_eq_true, decide_eq_true_eq] at h
    have ht : t.isDigit := by
      simp only [Char.isDigit, Bool.and_eq_true, decide_eq_true_eq]
      exact ⟨h.1.1, Char.le_trans h.1.2 (by decide)⟩
    exact ⟨by simp [Tag.isDigitOrUnderscore, h.2, ht], d, by simp, h.2⟩
  · cases h

/-- A number of several places consists of places, and begins with a digit. -/
lemma places_of_isSexagesimal {s : List Char} (h : Tag.isSexagesimal s) :
    (∃ first rest, s = first :: rest ∧ first.isDigit) ∧ ':' ∈ s ∧
      ∀ place ∈ splitOn ':' s, HasDigits place := by
  unfold Tag.isSexagesimal at h
  split at h
  · next first second rest hsplit =>
    obtain ⟨hfirst, hrest⟩ := Bool.and_eq_true_iff.1 h
    refine ⟨?_, ?_, ?_⟩
    · cases s with
      | nil => cases hsplit
      | cons c s =>
        refine ⟨c, s, rfl, ?_⟩
        obtain ⟨piece, pieces, hs⟩ := List.exists_cons_of_ne_nil (Text.splitOn_ne_nil ':' s)
        rw [splitOn] at hsplit
        split_ifs at hsplit with hc
        · obtain ⟨rfl, -⟩ := List.cons.inj hsplit
          cases hfirst
        · rw [hs] at hsplit
          cases hsplit
          exact (Bool.and_eq_true_iff.1 hfirst).1
    · by_contra hmem
      rw [Text.splitOn_of_not_mem hmem] at hsplit
      cases hsplit
    · rw [hsplit, List.forall_mem_cons]
      exact ⟨hasDigits_of_isDigits hfirst, fun place hplace =>
        hasDigits_of_isSexagesimalDigit (List.all_eq_true.1 hrest place hplace)⟩
  · cases h

/-- There is no colon among digits. -/
private lemma colon_not_mem_of_isDigits {s : List Char} (h : HasDigits s) : ':' ∉ s := by
  intro hmem
  exact absurd (h.all _ hmem) (by decide)

/-- A binary digit is one of base two. -/
private lemma isDigit_two {c : Char} (h : c = '0' || c = '1' || c = '_') (hne : c ≠ '_') :
    Text.IsDigit 2 c := by
  simp only [Bool.or_eq_true, decide_eq_true_eq, hne, or_false] at h
  rcases h with rfl | rfl <;> exact ⟨by decide, by decide⟩

/-- An octal digit is one of base eight. -/
private lemma isDigit_eight {c : Char} (h : ('0' ≤ c && c ≤ '7') || c = '_') (hne : c ≠ '_') :
    Text.IsDigit 8 c := by
  simp only [hne, decide_false, Bool.or_false, Bool.and_eq_true, decide_eq_true_eq] at h
  have hle : c.toNat ≤ 55 := h.2
  refine ⟨by omega, ?_⟩
  exact Text.forall_ascii (p := fun c => '0' ≤ c → c ≤ '7' → (Text.digit? 8 c).isSome)
    (by decide +kernel) (by omega) h.1 h.2

/-- A hexadecimal digit is one of base sixteen. -/
private lemma isDigit_sixteen {c : Char}
    (h : Tag.isDigitOrUnderscore c || ('a' ≤ c && c ≤ 'f') || ('A' ≤ c && c ≤ 'F'))
    (hne : c ≠ '_') : Text.IsDigit 16 c := by
  have hascii : c.toNat < 128 := by
    simp only [Tag.isDigitOrUnderscore, hne, decide_false, Bool.or_false, Bool.or_eq_true,
      Bool.and_eq_true, decide_eq_true_eq] at h
    rcases h with (hdigit | ⟨-, hle⟩) | ⟨-, hle⟩
    · exact Text.toNat_lt_of_isDigit hdigit
    · have hle : c.toNat ≤ 102 := hle
      omega
    · have hle : c.toNat ≤ 70 := hle
      omega
  refine ⟨hascii, ?_⟩
  exact Text.forall_ascii (p := fun c =>
      (Tag.isDigitOrUnderscore c || ('a' ≤ c && c ≤ 'f') || ('A' ≤ c && c ≤ 'F')) → c ≠ '_' →
        (Text.digit? 16 c).isSome) (by decide +kernel) hascii h hne

/-- What is taken for an integer without its sign has the form of one. -/
lemma intForm_of_isIntMagnitude {s : List Char} (h : Tag.isIntMagnitude s) : IntForm s := by
  rcases Bool.or_eq_true_iff.1 h with hmarked | hplain
  · split at hmarked
    · next digits =>
      simp only [Bool.and_eq_true, Bool.not_eq_true', List.isEmpty_eq_false_iff,
        List.all_eq_true] at hmarked
      exact .binary hmarked.1 fun c hc => isDigit_two (hmarked.2 c hc)
    · next digits =>
      simp only [Bool.and_eq_true, Bool.not_eq_true', List.isEmpty_eq_false_iff,
        List.all_eq_true] at hmarked
      exact .hexadecimal hmarked.1 fun c hc => isDigit_sixteen (hmarked.2 c hc)
    · cases hmarked
  · split at hplain
    · next digits => exact .octal fun c hc => isDigit_eight (List.all_eq_true.1 hplain c hc)
    · next hzero =>
      rcases Bool.or_eq_true_iff.1 hplain with hdigits | hsexagesimal
      · cases s with
        | nil => cases hdigits
        | cons c s =>
          have hform := hasDigits_of_isDigits hdigits
          refine .places (Bool.and_eq_true_iff.1 hdigits).1 ?_ ?_
          · rintro rfl
            exact hzero s rfl
          · rw [Text.splitOn_of_not_mem (colon_not_mem_of_isDigits hform)]
            simpa using hform
      · obtain ⟨⟨c, rest, rfl, hc⟩, -, hplaces⟩ := places_of_isSexagesimal hsexagesimal
        refine .places hc ?_ hplaces
        rintro rfl
        exact hzero rest rfl

/-- What has the form of an integer does not begin with another sign or an underscore. -/
lemma IntForm.starts {s : List Char} (h : IntForm (cutSign s).2) : Starts s := by
  generalize hm : (cutSign s).2 = m at h
  cases h with
  | binary | hexadecimal | octal => exact ⟨_, _, hm, by decide, by decide, by decide⟩
  | places hfirst =>
    refine ⟨_, _, hm, ne_underscore_of_isDigit hfirst, ?_, ?_⟩ <;> (rintro rfl; simp at hfirst)

/-- An integer is read as its sign and the number behind it. -/
private lemma readInteger_eq {s : List Char} (h : Starts s) :
    readInteger (String.ofList s) =
      (fun i => if (cutSign s).1 then -i else i) <$>
        readIntegerMagnitude (dropUnderscores (cutSign s).2) := by
  have hne : dropUnderscores s ≠ [] := by
    intro hnil
    have hcut := h.cutSign_dropUnderscores
    obtain ⟨c, rest, heq, hc, -⟩ := h
    rw [hnil, heq, dropUnderscores_cons hc] at hcut
    cases congrArg Prod.snd hcut
  rw [readInteger, String.toList_ofList]
  simp only [List.isEmpty_iff, hne, if_false, h.cutSign_dropUnderscores]
  rfl

/-- A form of an integer is one unless it has no digits or too many of them. -/
lemma IntForm.of_error {m : List Char} (h : IntForm m) {e : LoadError}
    (he : readIntegerMagnitude (dropUnderscores m) = .error e) :
    e = .fault .notANumber ∧
      ((∃ letter blanks, (letter = 'b' ∨ letter = 'x') ∧ m = '0' :: letter :: blanks ∧
          ∀ c ∈ blanks, c = '_') ∨
        ∃ place ∈ splitOn ':' m, Integer.maxDigits < (dropUnderscores place).length) := by
  -- The digits behind a mark name an integer, if there are any.
  have hmarked {base : Nat} (hbase : base ∈ [2, 8, 16]) {digits : List Char}
      (hdigits : ∀ c ∈ digits, c ≠ '_' → Text.IsDigit base c)
      (hnone : Integer.read? base (dropUnderscores digits) = none) : ∀ c ∈ digits, c = '_' := by
    have hbase' : base ∈ [2, 8, 10, 16] := by
      revert hbase
      simp
      omega
    by_contra hsome
    push Not at hsome
    obtain ⟨c, hc, hne⟩ := hsome
    obtain ⟨rfl, -⟩ := Integer.maxDigits_lt_of_read?_eq_none hbase'
      (fun c hc => hdigits c (mem_dropUnderscores.1 hc).1 (mem_dropUnderscores.1 hc).2)
      (List.ne_nil_of_mem (mem_dropUnderscores.2 ⟨hc, hne⟩)) hnone
    revert hbase
    decide
  -- A place names an integer unless it has too many digits.
  have hplain {place : List Char} (hplace : HasDigits place)
      (hnone : Integer.read? 10 (dropUnderscores place) = none) :
      Integer.maxDigits < (dropUnderscores place).length :=
    (Integer.maxDigits_lt_of_read?_eq_none (by simp)
      (fun c hc => Text.isDigit_ten (isDigit_of_mem_dropUnderscores hplace.all c hc))
      hplace.dropUnderscores_ne_nil hnone).2
  cases h with
  | @binary digits hne hdigits =>
    obtain ⟨hnone, rfl⟩ := number_eq_error.1 he
    exact ⟨rfl, .inl ⟨'b', digits, .inl rfl, rfl, hmarked (by simp) hdigits hnone⟩⟩
  | @hexadecimal digits hne hdigits =>
    obtain ⟨hnone, rfl⟩ := number_eq_error.1 he
    exact ⟨rfl, .inl ⟨'x', digits, .inr rfl, rfl, hmarked (by simp) hdigits hnone⟩⟩
  | @octal digits hdigits =>
    rw [dropUnderscores_cons (by decide)] at he
    have hoctal : ∀ c ∈ '0' :: dropUnderscores digits, Text.IsDigit 8 c := by
      refine List.forall_mem_cons.2 ⟨⟨by decide, by decide⟩, fun c hc => ?_⟩
      exact hdigits c (mem_dropUnderscores.1 hc).1 (mem_dropUnderscores.1 hc).2
    unfold readIntegerMagnitude at he
    split at he
    · cases he
    · next heq =>
      rw [heq] at hoctal
      exact absurd (hoctal 'b' (by simp)).2 (by decide)
    · next heq =>
      rw [heq] at hoctal
      exact absurd (hoctal 'x' (by simp)).2 (by decide)
    · obtain ⟨hnone, -⟩ := number_eq_error.1 he
      obtain ⟨hten, -⟩ :=
        Integer.maxDigits_lt_of_read?_eq_none (by decide) hoctal (List.cons_ne_nil _ _) hnone
      cases hten
    · next heq => cases heq
    · next hzero _ => exact absurd rfl (hzero _)
  | @places first rest hfirst hzero hplaces =>
    have hsplit : splitOn ':' (dropUnderscores (first :: rest)) =
        (splitOn ':' (first :: rest)).map dropUnderscores :=
      Text.splitOn_filter rfl _
    have hmem : (':' ∈ dropUnderscores (first :: rest)) ↔ ':' ∈ first :: rest := by
      simp [mem_dropUnderscores]
    rw [dropUnderscores_cons (ne_underscore_of_isDigit hfirst)] at he hsplit hmem
    unfold readIntegerMagnitude at he
    split at he
    · cases he
    · next heq => exact absurd (List.cons.inj heq).1 hzero
    · next heq => exact absurd (List.cons.inj heq).1 hzero
    · next heq => exact absurd (List.cons.inj heq).1 hzero
    · next heq => cases heq
    · split at he
      · rcases Except.bind_eq_error.1 he with he | ⟨_, -, he⟩
        · obtain ⟨hnone, rfl⟩ := number_eq_error.1 he
          obtain ⟨place, hplace, hnone⟩ := exists_eq_none_of_mapM hnone
          rw [hsplit] at hplace
          obtain ⟨place, hmem, rfl⟩ := List.mem_map.1 hplace
          exact ⟨rfl, .inr ⟨place, hmem, hplain (hplaces place hmem) hnone⟩⟩
        · cases he
      · next hcolon =>
        have hone : splitOn ':' (first :: rest) = [first :: rest] :=
          Text.splitOn_of_not_mem fun h => hcolon (List.contains_iff_mem.2 (hmem.2 h))
        obtain ⟨hnone, rfl⟩ := number_eq_error.1 he
        have hform : HasDigits (first :: rest) := hplaces _ (by simp [hone])
        refine ⟨rfl, .inr ⟨first :: rest, by simp [hone], hplain hform ?_⟩⟩
        rwa [dropUnderscores_cons (ne_underscore_of_isDigit hfirst)]

/-! ## Floating point numbers -/

/-- The form of a floating point number without its sign. -/
inductive FloatForm : List Char → Prop
  | decimal {whole fraction exponent : List Char}
    (hwhole : ∀ c ∈ whole, Tag.isDigitOrUnderscore c)
    (hfraction : ∀ c ∈ fraction, Tag.isDigitOrUnderscore c)
    (hdigit : ∃ c ∈ whole ++ fraction, c.isDigit) (hhead : ∀ c ∈ whole.head?, c.isDigit)
    (hexponent : Binary64.Exponent exponent) :
    FloatForm (whole ++ '.' :: (fraction ++ exponent))
  /-- Several places of sixty, and a fraction. -/
  | places {whole fraction : List Char} (hwhole : Tag.isSexagesimal whole)
    (hfraction : ∀ c ∈ fraction, Tag.isDigitOrUnderscore c) : FloatForm (whole ++ '.' :: fraction)
  | word (word : String) (hword : word ∈ [".inf", ".Inf", ".INF", ".nan", ".NaN", ".NAN"]) :
    FloatForm word.toList

/-- What is taken for an exponent is one. -/
private lemma exponent_of_isExponent {s : List Char} (h : Tag.isExponent s) :
    Binary64.Exponent s := by
  unfold Tag.isExponent at h
  split at h
  · exact .absent
  · simp only [Bool.and_eq_true, Bool.or_eq_true, decide_eq_true_eq, Bool.not_eq_true',
      List.isEmpty_eq_false_iff, List.all_eq_true] at h
    exact .present h.1.1.1 h.1.1.2.symm h.2 h.1.2
  · cases h

/-- A fraction and an exponent are told apart. -/
private lemma exists_fraction {s : List Char}
    (h : Tag.isExponent (s.dropWhile Tag.isDigitOrUnderscore)) :
    ∃ exponent, s = s.takeWhile Tag.isDigitOrUnderscore ++ exponent ∧
      (∀ c ∈ s.takeWhile Tag.isDigitOrUnderscore, Tag.isDigitOrUnderscore c) ∧
      Binary64.Exponent exponent :=
  ⟨_, List.takeWhile_append_dropWhile.symm, List.all_eq_true.1 List.all_takeWhile,
    exponent_of_isExponent h⟩

/-- What is taken for a floating point number without its sign has the form of one. -/
private lemma floatForm_of_isFloatMagnitude {s : List Char} (h : Tag.isFloatMagnitude s) :
    FloatForm s := by
  unfold Tag.isFloatMagnitude at h
  split at h
  · cases h
  · next whole rest hcut =>
    obtain ⟨-, rfl⟩ := Text.cutFirst_eq_some_iff.1 hcut
    simp only [Bool.or_eq_true, Bool.and_eq_true, List.isEmpty_iff] at h
    rcases h with (⟨hwhole, hexponent⟩ | ⟨hwhole, hrest⟩) | ⟨rfl, hword⟩
    · obtain ⟨exponent, hrest, hfraction, hexponent⟩ := exists_fraction hexponent
      have hform := hasDigits_of_isDigits hwhole
      obtain ⟨c, hc, hdigit⟩ := hform.digit
      rw [hrest]
      refine .decimal hform.all hfraction ⟨c, List.mem_append_left _ hc, hdigit⟩ ?_ hexponent
      cases whole with
      | nil => exact nofun
      | cons d whole =>
        rintro c ⟨⟩
        exact (Bool.and_eq_true_iff.1 hwhole).1
    · exact .places hwhole (List.all_eq_true.1 hrest)
    · have hmem : String.ofList rest ∈ ["inf", "Inf", "INF"] := List.contains_iff_mem.1 hword
      have hwords : ∀ word ∈ ["inf", "Inf", "INF"], FloatForm ('.' :: word.toList) := by
        simp only [List.forall_mem_cons]
        exact ⟨.word ".inf" (by simp), .word ".Inf" (by simp), .word ".INF" (by simp), nofun⟩
      simpa using hwords _ hmem

/-- What is taken for a floating point number has the form of one behind its sign. -/
lemma floatForm_of_isFloat {s : List Char} (h : Tag.isFloat s) : FloatForm (cutSign s).2 := by
  rcases Bool.or_eq_true_iff.1 h with hmagnitude | hpoint
  · exact floatForm_of_isFloatMagnitude hmagnitude
  · split at hpoint
    · next rest =>
      change FloatForm ('.' :: rest)
      rcases Bool.or_eq_true_iff.1 hpoint with hword | hdigits
      · have hmem : String.ofList rest ∈ ["nan", "NaN", "NAN"] := List.contains_iff_mem.1 hword
        have hwords : ∀ word ∈ ["nan", "NaN", "NAN"], FloatForm ('.' :: word.toList) := by
          simp only [List.forall_mem_cons]
          exact ⟨.word ".nan" (by simp), .word ".NaN" (by simp), .word ".NAN" (by simp), nofun⟩
        simpa using hwords _ hmem
      · obtain ⟨hhead, hexponent⟩ := Bool.and_eq_true_iff.1 hdigits
        obtain ⟨exponent, hrest, hfraction, hexponent⟩ := exists_fraction hexponent
        rw [hrest]
        have hwhole : ∀ c ∈ ([] : List Char), Tag.isDigitOrUnderscore c := nofun
        refine .decimal hwhole hfraction ?_ nofun hexponent
        cases rest with
        | nil => cases hhead
        | cons c rest =>
          have hc : c.isDigit := hhead
          refine ⟨c, ?_, hc⟩
          rw [List.nil_append, List.takeWhile_cons_of_pos (by simp [Tag.isDigitOrUnderscore, hc])]
          exact List.mem_cons_self
    · cases hpoint

/-- What has the form of a floating point number does not begin with another sign or an underscore.
-/
lemma FloatForm.starts {s : List Char} (h : FloatForm (cutSign s).2) : Starts s := by
  have hdigit {c : Char} {rest : List Char} (hs : (cutSign s).2 = c :: rest) (hc : c.isDigit) :
      Starts s := by
    refine ⟨c, rest, hs, ne_underscore_of_isDigit hc, ?_, ?_⟩ <;> (rintro rfl; simp at hc)
  generalize hm : (cutSign s).2 = m at h
  cases h with
  | @decimal whole _ _ _ _ _ hhead =>
    cases whole with
    | nil => exact ⟨_, _, hm, by decide, by decide, by decide⟩
    | cons c whole => exact hdigit hm (hhead c rfl)
  | places hwhole =>
    obtain ⟨⟨c, rest, rfl, hc⟩, -⟩ := places_of_isSexagesimal hwhole
    exact hdigit hm hc
  | word _ hword =>
    have hwords : ∀ word ∈ [".inf", ".Inf", ".INF", ".nan", ".NaN", ".NAN"],
        word.toList = '.' :: word.toList.tail := by decide
    rw [hwords _ hword] at hm
    exact ⟨_, _, hm, by decide, by decide, by decide⟩

/-- A sign or a colon has no other case. -/
private lemma toLower_eq_iff {c d : Char} (hd : d ∈ ['-', '+', ':']) : c.toLower = d ↔ c = d := by
  by_cases hc : c.toNat < 128
  · have hall : ∀ d ∈ ['-', '+', ':'], ∀ n < 128,
        (Char.ofNat n).toLower = d ↔ Char.ofNat n = d := by
      simp only [List.forall_mem_cons]
      exact ⟨by decide +kernel, by decide +kernel, by decide +kernel, nofun⟩
    exact Text.forall_ascii (p := fun c => c.toLower = d ↔ c = d) (hall d hd) hc
  · have hlower : c.toLower = c := by
      unfold Char.toLower
      refine dif_neg fun h => ?_
      have hle : c.toNat ≤ 90 := h.2
      omega
    rw [hlower]

/-- The sign is cut before or after the letters are made small. -/
private lemma cutSign_lower (s : List Char) :
    cutSign (lower s) = ((cutSign s).1, lower (cutSign s).2) := by
  cases s with
  | nil => rfl
  | cons c s =>
    by_cases hminus : c = '-'
    · subst hminus
      rfl
    by_cases hplus : c = '+'
    · subst hplus
      rfl
    rw [cutSign_of_ne hminus hplus]
    exact cutSign_of_ne (mt (toLower_eq_iff (by simp)).1 hminus)
      (mt (toLower_eq_iff (by simp)).1 hplus)

section Read

variable {s : List Char}

/-- Why a text is not read as a floating point number: it is one place that names no number, or one
of several places names none, or their sum cannot be formed. -/
private lemma readFloat_eq_error (hs : Starts s) {e : LoadError}
    (he : readFloat (String.ofList s) = .error e) {m : List Char}
    (hm : lower (dropUnderscores (cutSign s).2) = m) :
    m ≠ ".nan".toList ∧ m ≠ ".inf".toList ∧
      ((':' ∉ m ∧ Binary64.read? m = none) ∨
        (':' ∈ m ∧ ((∃ place ∈ splitOn ':' m, Binary64.read? place = none) ∨
          ∃ digits, digits.length = (splitOn ':' m).length ∧
            sumSexagesimal (.zero false) 1 digits = .error e))) := by
  have hcut : cutSign (lower (dropUnderscores s)) = ((cutSign s).1, m) := by
    rw [cutSign_lower, hs.cutSign_dropUnderscores, hm]
  have hne : lower (dropUnderscores s) ≠ [] := by
    intro hnil
    obtain ⟨c, rest, heq, hc, -⟩ := hs
    rw [hnil, ← hm, heq, dropUnderscores_cons hc] at hcut
    cases congrArg Prod.snd hcut
  rw [readFloat, String.toList_ofList] at he
  simp only [List.isEmpty_iff, hne, if_false, hcut] at he
  by_cases hnan : m = ".nan".toList
  · rw [if_pos hnan] at he
    cases he
  by_cases hinf : m = ".inf".toList
  · rw [if_neg hnan, if_pos hinf] at he
    cases he
  rw [if_neg hnan, if_neg hinf] at he
  refine ⟨hnan, hinf, ?_⟩
  by_cases hcolon : m.contains ':'
  · rw [if_pos hcolon] at he
    refine .inr ⟨List.contains_iff_mem.1 hcolon, ?_⟩
    rcases Except.bind_eq_error.1 he with he | ⟨digits, hdigits, he⟩
    · exact .inl (exists_eq_none_of_mapM (number_eq_error.1 he).1)
    · rcases Except.bind_eq_error.1 he with he | ⟨x, -, he⟩
      · have hlength := length_of_mapM (number_eq_ok.1 hdigits)
        exact .inr ⟨digits.reverse, by rw [List.length_reverse, hlength], he⟩
      · cases he
  · rw [if_neg hcolon] at he
    refine .inl ⟨fun h => hcolon (List.contains_iff_mem.2 h), ?_⟩
    rcases Except.bind_eq_error.1 he with he | ⟨x, -, he⟩
    · exact (number_eq_error.1 he).1
    · cases he

/-- The value of a place of sixty is that of a floating point number up to the one with 173 places
behind it. -/
private lemma exists_ofInt? {n : Nat} (hn : n < 174) : ∃ x, Binary64.ofInt? (60 ^ n) = some x := by
  have hall : ∀ n < 174, (Binary64.ofInt? (60 ^ n)).isSome := by decide +kernel
  exact Option.isSome_iff_exists.1 (hall n hn)

/-- A sum that cannot be formed has a place whose value is too large. -/
private lemma sumSexagesimal_eq_error {digits : List Binary64} {sum : Binary64} {base : Int}
    {e : LoadError} (h : sumSexagesimal sum base digits = .error e) :
    e = .fault .tooLarge ∧ ∃ n < digits.length, Binary64.ofInt? (base * 60 ^ n) = none := by
  induction digits generalizing sum base with
  | nil => cases h
  | cons digit digits ih =>
    rw [sumSexagesimal] at h
    split at h
    · next hnone =>
      cases h
      exact ⟨rfl, 0, by simp, by simpa using hnone⟩
    · obtain ⟨rfl, n, hn, hnone⟩ := ih h
      refine ⟨rfl, n + 1, by simpa using hn, ?_⟩
      rwa [pow_succ', ← mul_assoc]

/-- There is no underscore in an exponent. -/
private lemma underscore_not_mem_of_exponent {exponent : List Char}
    (h : Binary64.Exponent exponent) :
    '_' ∉ exponent := by
  intro hmem
  exact absurd (h.isNumeralChar _ hmem) (by decide)

/-- A place of a sexagesimal number is a numeral without its underscores. -/
private lemma numeral_place {place : List Char} (h : HasDigits place) :
    Numeral (dropUnderscores place) :=
  .integer (isDigit_of_mem_dropUnderscores h.all) h.dropUnderscores_ne_nil

/-- A decimal number is a numeral without its underscores. -/
private lemma numeral_decimal {whole fraction exponent : List Char}
    (hwhole : ∀ c ∈ whole, Tag.isDigitOrUnderscore c)
    (hfraction : ∀ c ∈ fraction, Tag.isDigitOrUnderscore c)
    (hdigit : ∃ c ∈ whole ++ fraction, c.isDigit) (hexponent : Binary64.Exponent exponent) :
    Numeral (dropUnderscores (whole ++ '.' :: (fraction ++ exponent))) := by
  rw [dropUnderscores_append, dropUnderscores_cons (by decide), dropUnderscores_append,
    dropUnderscores_eq_self (underscore_not_mem_of_exponent hexponent)]
  refine .decimal (isDigit_of_mem_dropUnderscores hwhole)
    (isDigit_of_mem_dropUnderscores hfraction) ?_ hexponent
  obtain ⟨c, hc, hdigit⟩ := hdigit
  have hne := ne_underscore_of_isDigit hdigit
  exact (List.mem_append.1 hc).imp
    (fun h => List.ne_nil_of_mem (mem_dropUnderscores.2 ⟨h, hne⟩))
    (fun h => List.ne_nil_of_mem (mem_dropUnderscores.2 ⟨h, hne⟩))

/-- The places of a number in base sixty are numerals, also the last one with its fraction. -/
private lemma numeral_of_mem_splitOn {whole fraction place : List Char}
    (hwhole : Tag.isSexagesimal whole) (hfraction : ∀ c ∈ fraction, Tag.isDigitOrUnderscore c)
    (hplace : place ∈ splitOn ':' (whole ++ '.' :: fraction)) :
    Numeral (dropUnderscores place) := by
  obtain ⟨-, -, hplaces⟩ := places_of_isSexagesimal hwhole
  have hcolon : ':' ∉ '.' :: fraction := by
    intro hmem
    exact absurd (hfraction ':' (by simpa using hmem)) (by decide)
  obtain ⟨front, last, hsplit, hall⟩ := Text.exists_splitOn_append hcolon whole
  rw [hsplit] at hplaces
  rw [hall, List.mem_append, List.mem_singleton] at hplace
  rcases hplace with hfront | rfl
  · exact numeral_place (hplaces place (List.mem_append_left _ hfront))
  · have hlast : HasDigits last := hplaces last (by simp)
    obtain ⟨c, hc, hdigit⟩ := hlast.digit
    have hnumeral := numeral_decimal hlast.all hfraction
      ⟨c, List.mem_append_left _ hc, hdigit⟩ .absent
    rwa [List.append_nil] at hnumeral

/-- The places of a text, when it is in lower case and without underscores. -/
private lemma splitOn_lower_dropUnderscores (s : List Char) :
    splitOn ':' (lower (dropUnderscores s)) =
      (splitOn ':' s).map fun place => lower (dropUnderscores place) := by
  rw [lower, Text.splitOn_map fun c => toLower_eq_iff (by simp), dropUnderscores,
    Text.splitOn_filter rfl, List.map_map]
  rfl

/-- A form of a floating point number is one unless it has too many places. -/
lemma FloatForm.of_error (h : FloatForm (cutSign s).2) {e : LoadError}
    (he : readFloat (String.ofList s) = .error e) :
    e = .fault .tooLarge ∧ 174 < (splitOn ':' (cutSign s).2).length := by
  have hreadable {m : List Char} (hm : Numeral m) : Binary64.read? (lower m) ≠ none := by
    obtain ⟨x, hx⟩ := (Binary64.numeral_lower hm).exists_read?
    simp [hx]
  obtain ⟨hnan, hinf, hread⟩ := readFloat_eq_error h.starts he rfl
  rw [splitOn_lower_dropUnderscores] at hread
  generalize (cutSign s).2 = m at h hnan hinf hread ⊢
  cases h with
  | decimal hwhole hfraction hdigit _ hexponent =>
    have hnumeral := numeral_decimal hwhole hfraction hdigit hexponent
    rcases hread with ⟨-, hnone⟩ | ⟨hcolon, -⟩
    · exact absurd hnone (hreadable hnumeral)
    · have hchar := (Binary64.numeral_lower hnumeral).isNumeralChar _ hcolon
      exact absurd hchar (by decide)
  | @places whole fraction hwhole hfraction =>
    rcases hread with ⟨hcolon, -⟩ | ⟨-, ⟨place, hplace, hnone⟩ | ⟨digits, hlength, hsum⟩⟩
    · refine absurd (List.mem_map.2 ⟨':', mem_dropUnderscores.2 ⟨?_, by decide⟩, rfl⟩) hcolon
      exact List.mem_append_left _ (places_of_isSexagesimal hwhole).2.1
    · obtain ⟨place, hmem, rfl⟩ := List.mem_map.1 hplace
      exact absurd hnone (hreadable (numeral_of_mem_splitOn hwhole hfraction hmem))
    · obtain ⟨rfl, n, hn, hnone⟩ := sumSexagesimal_eq_error hsum
      rw [List.length_map] at hlength
      refine ⟨rfl, ?_⟩
      by_contra hfew
      obtain ⟨x, hx⟩ := exists_ofInt? (n := n) (by omega)
      rw [one_mul, hx] at hnone
      cases hnone
  | word word hword =>
    have hwords : ∀ word ∈ [".inf", ".Inf", ".INF", ".nan", ".NaN", ".NAN"],
        lower (dropUnderscores word.toList) = ".nan".toList ∨
          lower (dropUnderscores word.toList) = ".inf".toList := by decide
    exact absurd (hwords word hword) (not_or.2 ⟨hnan, hinf⟩)

end Read

/-! ## All contents -/

/-- The words for truth values are read as such. -/
private lemma exists_readBool {word : String} (h : word ∈ Tag.boolWords) :
    ∃ b, readBool word = .ok b := by
  have hall : ∀ word ∈ Tag.boolWords, (readBool word).isOk := by decide +kernel
  have hok := hall word h
  cases hread : readBool word with
  | ok b => exact ⟨b, rfl⟩
  | error e => simp [hread, Except.isOk, Except.toBool] at hok

/-- A word is a truth value, a number, or has a tag that needs no conversion. -/
lemma ofWord_cases (s : List Char) :
    (Tag.ofWord s = .bool ∧ String.ofList s ∈ Tag.boolWords) ∨
      (Tag.ofWord s = .float ∧ Tag.isFloat s) ∨ (Tag.ofWord s = .int ∧ Tag.isInt s) ∨
        Tag.ofWord s ∈ [.merge, .null, .value, .other, .str] := by
  simp only [Tag.ofWord, List.contains_iff_mem]
  split_ifs <;> simp_all

/-- **A content that decides on its tag is converted** as the tag demands, or refused, unless it is
one of those that are not convertible. -/
theorem inconvertible_of_readScalar {s : List Char} {f : Fault}
    (h : readScalar (Tag.ofWord s) (String.ofList s) = .error (.fault f)) : Inconvertible s f := by
  rcases ofWord_cases s with ⟨htag, hword⟩ | ⟨htag, hform⟩ | ⟨htag, hform⟩ | hother
  · obtain ⟨b, hb⟩ := exists_readBool hword
    rw [htag, readScalar, hb] at h
    cases h
  · rw [htag, readScalar] at h
    obtain ⟨heq, hmany⟩ := (floatForm_of_isFloat hform).of_error h
    cases heq
    exact .manyPlaces htag hmany
  · have hint := intForm_of_isIntMagnitude hform
    rw [htag, readScalar, readInteger_eq hint.starts] at h
    cases hread : readIntegerMagnitude (dropUnderscores (cutSign s).2) with
    | ok i =>
      rw [hread] at h
      cases h
    | error e =>
      rw [hread] at h
      cases h
      obtain ⟨heq, ⟨letter, blanks, hletter, hmarked, hblanks⟩ | ⟨place, hplace, hmany⟩⟩ :=
        hint.of_error hread
      · cases heq
        exact .noDigits htag hletter hmarked hblanks
      · cases heq
        exact .manyDigits htag hplace hmany
  · have hnone : ∀ tag ∈ [Tag.merge, .null, .value, .other, .str],
        readScalar tag (String.ofList s) ≠ .error (.fault f) := by
      simp [readScalar]
    exact absurd h (hnone _ hother)

end Yaml

end CwlDescriptor
