import CwlDescriptor.Number.IntegerText
import Mathlib.Tactic
set_option autoImplicit false

/-!
# Texts that are numbers

A text of digits of a base names an integer, unless the base is ten and there are too many digits.
A numeral, which consists of decimal digits with an optional point and an optional exponent, names a
floating point number.

## Main definitions

* `Text.IsDigit`: the digits of a base among the characters of ASCII.
* `Binary64.Numeral`: numerals.

## Main results

* `Integer.maxDigits_lt_of_read?_eq_none`: only too many decimal digits name no integer.
* `Binary64.Numeral.exists_read?`: a numeral names a floating point number.
-/

namespace CwlDescriptor

namespace Text

/-! ## Characters -/

/-- What holds of the 128 characters of ASCII holds of each of them. -/
lemma forall_ascii {p : Char → Prop} (h : ∀ n < 128, p (Char.ofNat n)) {c : Char}
    (hc : c.toNat < 128) : p c := by
  have := h c.toNat hc
  rwa [Char.ofNat_toNat] at this

/-- A digit is a character of ASCII. -/
lemma toNat_lt_of_isDigit {c : Char} (h : c.isDigit) : c.toNat < 128 := by
  simp only [Char.isDigit, Bool.and_eq_true, decide_eq_true_eq] at h
  have hle : c.toNat ≤ 57 := h.2
  omega

/-- A digit of the base among the characters of ASCII. -/
def IsDigit (base : Nat) (c : Char) : Prop :=
  c.toNat < 128 ∧ (digit? base c).isSome

/-- A decimal digit is a digit of base ten. -/
lemma isDigit_ten {c : Char} (h : c.isDigit) : IsDigit 10 c := by
  have hascii := toNat_lt_of_isDigit h
  refine ⟨hascii, ?_⟩
  revert h
  exact forall_ascii (p := fun c => c.isDigit → (digit? 10 c).isSome) (by decide +kernel) hascii

/-- A text without the characters that are trimmed stays as it is. -/
private lemma trim_eq_self {p : Char → Bool} {s : List Char} (h : ∀ c ∈ s, p c = false) :
    trim p s = s := by
  have hdrop : ∀ t : List Char, (∀ c ∈ t, p c = false) → t.dropWhile p = t := by
    rintro (_ | ⟨c, t⟩) ht
    · rfl
    · exact List.dropWhile_cons_of_neg (by simp [ht c List.mem_cons_self])
  rw [trim, hdrop s h, hdrop s.reverse fun c hc => h c (List.mem_reverse.1 hc),
    List.reverse_reverse]

end Text

/-! ## Integers -/

namespace Integer

open Text

section Digits

variable {base : Nat} {c : Char}

/-- A digit is no blank, sign or underscore, and no mark of its base. -/
structure IsPlain (base : Nat) (c : Char) : Prop where
  blank : isNumberBlank c = false
  minus : c ≠ '-'
  plus : c ≠ '+'
  underscore : c ≠ '_'
  marker : marker? base ≠ some c.toLower

/-- A digit of one of the four bases is plain. -/
private lemma isPlain_of_isDigit (hbase : base ∈ [2, 8, 10, 16]) (hc : IsDigit base c) :
    IsPlain base c := by
  have hall : ∀ base ∈ [2, 8, 10, 16], ∀ n < 128, (digit? base (Char.ofNat n)).isSome →
      isNumberBlank (Char.ofNat n) = false ∧ Char.ofNat n ≠ '-' ∧ Char.ofNat n ≠ '+' ∧
        Char.ofNat n ≠ '_' ∧ marker? base ≠ some (Char.ofNat n).toLower := by
    decide +kernel
  obtain ⟨hblank, hminus, hplus, hunderscore, hmarker⟩ :=
    forall_ascii (p := fun c => (digit? base c).isSome → isNumberBlank c = false ∧ c ≠ '-' ∧
      c ≠ '+' ∧ c ≠ '_' ∧ marker? base ≠ some c.toLower) (hall base hbase) hc.1 hc.2
  exact ⟨hblank, hminus, hplus, hunderscore, hmarker⟩

end Digits

variable {base : Nat} {s : List Char}

/-- Digits are read one for one. -/
private lemma exists_readDigits? (hbase : base ∈ [2, 8, 10, 16]) (hs : ∀ c ∈ s, IsDigit base c)
    (afterDigit : Bool) (hne : s ≠ [] ∨ afterDigit = true) :
    ∃ ds, readDigits? base afterDigit s = some ds ∧ ds.length = s.length := by
  induction s generalizing afterDigit with
  | nil =>
    obtain rfl : afterDigit = true := hne.resolve_left fun h => h rfl
    exact ⟨[], rfl, rfl⟩
  | cons c s ih =>
    rw [List.forall_mem_cons] at hs
    obtain ⟨d, hd⟩ := Option.isSome_iff_exists.1 hs.1.2
    obtain ⟨ds, hds, hlength⟩ := ih hs.2 true (.inr rfl)
    refine ⟨d :: ds, ?_, by simp [hlength]⟩
    rw [readDigits?, hd, hds]
    · rfl
    · exact (isPlain_of_isDigit hbase hs.1).underscore

/-- Digits have no mark of their base in front. -/
private lemma dropMarker_eq_self (hbase : base ∈ [2, 8, 10, 16]) (hs : ∀ c ∈ s, IsDigit base c) :
    dropMarker base s = s := by
  match s with
  | [] | [_] => rfl
  | zero :: c :: rest =>
    have hc := isPlain_of_isDigit hbase (hs c (by simp))
    exact if_neg (by simp [hc.marker])

/-- Only a text of too many decimal digits names no integer. -/
theorem maxDigits_lt_of_read?_eq_none (hbase : base ∈ [2, 8, 10, 16])
    (hs : ∀ c ∈ s, IsDigit base c) (hne : s ≠ []) (h : read? base s = none) :
    base = 10 ∧ maxDigits < s.length := by
  have htrim : trim isNumberBlank s = s :=
    trim_eq_self fun c hc => (isPlain_of_isDigit hbase (hs c hc)).blank
  have hsign : Binary64.cutSign s = (false, s) := by
    obtain ⟨c, rest, rfl⟩ := List.exists_cons_of_ne_nil hne
    have hc := isPlain_of_isDigit hbase (hs c List.mem_cons_self)
    unfold Binary64.cutSign
    split <;> simp_all [hc.minus, hc.plus]
  obtain ⟨ds, hds, hlength⟩ := exists_readDigits? hbase hs false (.inl hne)
  rw [← hlength]
  by_contra hfew
  simp [read?, htrim, hsign, dropMarker_eq_self hbase hs, hds, hfew] at h

end Integer

/-! ## Floating point numbers -/

namespace Binary64

open Text

/-- The characters of numerals. -/
def isNumeralChar (c : Char) : Bool :=
  c.isDigit || ".eE+-".toList.contains c

/-- The end of a numeral: nothing, or a letter, a sign and digits. -/
inductive Exponent : List Char → Prop
  | absent : Exponent []
  | present {letter sign : Char} {digits : List Char} (hletter : letter = 'e' ∨ letter = 'E')
    (hsign : sign = '+' ∨ sign = '-') (hdigits : ∀ c ∈ digits, c.isDigit) (hne : digits ≠ []) :
    Exponent (letter :: sign :: digits)

/-- Decimal digits with an optional point and an optional exponent behind it. -/
inductive Numeral : List Char → Prop
  | integer {digits : List Char} (hdigits : ∀ c ∈ digits, c.isDigit) (hne : digits ≠ []) :
    Numeral digits
  | decimal {whole fraction exponent : List Char} (hwhole : ∀ c ∈ whole, c.isDigit)
    (hfraction : ∀ c ∈ fraction, c.isDigit) (hne : whole ≠ [] ∨ fraction ≠ [])
    (hexponent : Exponent exponent) : Numeral (whole ++ '.' :: (fraction ++ exponent))

/-- What is needed of the characters of numerals to read them. -/
structure IsPlain (c : Char) : Prop where
  blank : isNumberBlank c = false
  lower : isNumeralChar c.toLower
  colon : c ≠ ':'
  letterI : c ≠ 'i'
  letterN : c ≠ 'n'

/-- A character of a numeral is plain. -/
private lemma isPlain_of_isNumeralChar {c : Char} (hc : isNumeralChar c) : IsPlain c := by
  have hascii : c.toNat < 128 := by
    rcases Bool.or_eq_true_iff.1 hc with hdigit | hother
    · exact toNat_lt_of_isDigit hdigit
    · have hchars : ∀ c ∈ ".eE+-".toList, c.toNat < 128 := by simp
      exact hchars c (List.contains_iff_mem.1 hother)
  obtain ⟨hblank, hlower, hcolon, hi, hn⟩ :=
    forall_ascii (p := fun c => isNumeralChar c → isNumberBlank c = false ∧
      isNumeralChar c.toLower ∧ c ≠ ':' ∧ c ≠ 'i' ∧ c ≠ 'n') (by decide +kernel) hascii hc
  exact ⟨hblank, hlower, hcolon, hi, hn⟩

/-- A digit is a character of numerals. -/
private lemma isNumeralChar_of_isDigit {c : Char} (h : c.isDigit) : isNumeralChar c := by
  simp [isNumeralChar, h]

variable {s : List Char}

/-- An exponent consists of characters of numerals. -/
lemma Exponent.isNumeralChar (h : Exponent s) : ∀ c ∈ s, isNumeralChar c := by
  cases h with
  | absent => simp
  | present hletter hsign hdigits =>
    simp only [List.forall_mem_cons]
    refine ⟨?_, ?_, fun c hc => isNumeralChar_of_isDigit (hdigits c hc)⟩
    · rcases hletter with rfl | rfl <;> decide
    · rcases hsign with rfl | rfl <;> decide

/-- A numeral consists of characters of numerals. -/
lemma Numeral.isNumeralChar (h : Numeral s) : ∀ c ∈ s, isNumeralChar c := by
  cases h with
  | integer hdigits => exact fun c hc => isNumeralChar_of_isDigit (hdigits c hc)
  | decimal hwhole hfraction hne hexponent =>
    simp only [List.forall_mem_append, List.forall_mem_cons]
    exact ⟨fun c hc => isNumeralChar_of_isDigit (hwhole c hc), by decide,
      fun c hc => isNumeralChar_of_isDigit (hfraction c hc), hexponent.isNumeralChar⟩

/-- A digit is its own small letter. -/
private lemma toLower_of_isDigit {c : Char} (h : c.isDigit) : c.toLower = c :=
  forall_ascii (p := fun c => c.isDigit → c.toLower = c) (by decide +kernel)
    (toNat_lt_of_isDigit h) h

/-- Digits stay as they are in small letters. -/
private lemma lower_eq_self {digits : List Char} (h : ∀ c ∈ digits, c.isDigit) :
    lower digits = digits :=
  (List.map_congr_left fun c hc => toLower_of_isDigit (h c hc)).trans (List.map_id digits)

/-- An exponent is one in small letters, too. -/
private lemma exponent_lower (h : Exponent s) : Exponent (lower s) := by
  cases h with
  | absent => exact .absent
  | @present letter sign digits hletter hsign hdigits hne =>
    have heq : lower (letter :: sign :: digits) = 'e' :: sign :: digits := by
      change letter.toLower :: sign.toLower :: lower digits = _
      rw [lower_eq_self hdigits]
      rcases hletter with rfl | rfl <;> rcases hsign with rfl | rfl <;> rfl
    rw [heq]
    exact .present (.inl rfl) hsign hdigits hne

/-- A numeral is one in small letters, too. -/
lemma numeral_lower (h : Numeral s) : Numeral (lower s) := by
  cases h with
  | integer hdigits hne =>
    rw [lower_eq_self hdigits]
    exact .integer hdigits hne
  | @decimal whole fraction exponent hwhole hfraction hne hexponent =>
    have heq : lower (whole ++ '.' :: (fraction ++ exponent)) =
        whole ++ '.' :: (fraction ++ lower exponent) := by
      calc
        _ = lower whole ++ '.' :: (lower fraction ++ lower exponent) := by
          simp [lower]
        _ = _ := by rw [lower_eq_self hwhole, lower_eq_self hfraction]
    rw [heq]
    exact .decimal hwhole hfraction hne (exponent_lower hexponent)

/-- The value of a decimal digit is the distance of its code from that of zero. -/
private lemma decimalDigit?_of_isDigit {c : Char} (h : c.isDigit) :
    decimalDigit? c = some (c.toNat - 48) := by
  rw [decimalDigit?, if_pos (toNat_lt_of_isDigit h), if_pos h]

/-- The digits in front of something that does not begin with a digit are cut off. -/
private lemma exists_cutDigits_append {digits : List Char} (hdigits : ∀ c ∈ digits, c.isDigit)
    (rest : List Char) (hrest : ∀ c ∈ rest.head?, decimalDigit? c = none) :
    ∃ ds, cutDigits (digits ++ rest) = (ds, rest) ∧ ds.length = digits.length := by
  induction digits with
  | nil =>
    cases rest with
    | nil => exact ⟨[], rfl, rfl⟩
    | cons c rest => exact ⟨[], by simp [cutDigits, hrest c rfl], rfl⟩
  | cons c digits ih =>
    rw [List.forall_mem_cons] at hdigits
    obtain ⟨ds, hds, hlength⟩ := ih hdigits.2
    refine ⟨(c.toNat - 48) :: ds, ?_, by rw [List.length_cons, hlength, List.length_cons]⟩
    rw [List.cons_append, cutDigits, decimalDigit?_of_isDigit hdigits.1]
    simp only [hds]

/-- An exponent does not begin with a digit. -/
lemma Exponent.head (h : Exponent s) : ∀ c ∈ s.head?, decimalDigit? c = none := by
  cases h with
  | absent => simp
  | present hletter =>
    rintro c ⟨⟩
    rcases hletter with rfl | rfl <;> decide

/-- An exponent is read as an integer. -/
private lemma Exponent.exists_readExponent? (h : Exponent s) : ∃ i, readExponent? s = some i := by
  cases h with
  | absent => exact ⟨0, rfl⟩
  | @present letter sign digits hletter hsign hdigits hne =>
    obtain ⟨ds, hds, hlength⟩ := exists_cutDigits_append hdigits [] (by simp)
    have hcut : Binary64.cutSign (sign :: digits) = (decide (sign = '-'), digits) := by
      rcases hsign with rfl | rfl <;> rfl
    have hds' : ds ≠ [] := by
      rintro rfl
      exact hne (List.length_eq_zero_iff.1 hlength.symm)
    rw [List.append_nil] at hds
    obtain ⟨d, ds, rfl⟩ := List.exists_cons_of_ne_nil hds'
    rw [readExponent?, if_pos (by simpa using hletter)]
    simp [hcut, hds]

/-- A numeral has no sign of its own. -/
lemma Numeral.cutSign (h : Numeral s) : cutSign s = (false, s) := by
  have hhead : ∀ {c : Char} {rest : List Char}, c.isDigit →
      Binary64.cutSign (c :: rest) = (false, c :: rest) := by
    intro c rest hc
    unfold Binary64.cutSign
    split
    · next heq => cases heq; simp at hc
    · next heq => cases heq; simp at hc
    · rfl
  cases h with
  | integer hdigits hne =>
    obtain ⟨c, rest, rfl⟩ := List.exists_cons_of_ne_nil hne
    exact hhead (hdigits c List.mem_cons_self)
  | @decimal whole fraction exponent hwhole =>
    cases whole with
    | nil => rfl
    | cons c whole => exact hhead (hwhole c List.mem_cons_self)

/-- A numeral is read as a number, whatever its sign. -/
private lemma Numeral.exists_readMagnitude? (h : Numeral s) (negative : Bool) :
    ∃ x, readMagnitude? negative s = some x := by
  have hnoWord : ∀ word ∈ ["inf", "infinity", "nan"], lower s ≠ word.toList := by
    intro word hword heq
    have hwords : ∀ word ∈ ["inf", "infinity", "nan"], 'n' ∈ word.toList := by decide
    have hin : 'n' ∈ lower s := heq ▸ hwords word hword
    obtain ⟨c, hc, hn⟩ := List.mem_map.1 hin
    have hchar := (isPlain_of_isNumeralChar (h.isNumeralChar c hc)).lower
    rw [hn] at hchar
    revert hchar
    decide
  have hinf : ¬ (lower s = "inf".toList || lower s = "infinity".toList) = true := by
    rw [Bool.or_eq_true_iff, decide_eq_true_iff, decide_eq_true_iff, not_or]
    exact ⟨hnoWord _ (.head _), hnoWord _ (.tail _ (.head _))⟩
  have hnan : lower s ≠ "nan".toList := hnoWord _ (.tail _ (.tail _ (.head _)))
  rw [readMagnitude?, if_neg hinf, if_neg hnan]
  cases h with
  | integer hdigits hne =>
    obtain ⟨ds, hds, hlength⟩ := exists_cutDigits_append hdigits [] (by simp)
    have hds' : ds ≠ [] := by
      rintro rfl
      exact hne (List.length_eq_zero_iff.1 hlength.symm)
    rw [List.append_nil] at hds
    simp [hds, hds', readExponent?]
  | @decimal whole fraction exponent hwhole hfraction hne hexponent =>
    obtain ⟨ws, hws, hwlength⟩ := exists_cutDigits_append hwhole
      ('.' :: (fraction ++ exponent)) (by rintro c ⟨⟩; decide)
    obtain ⟨fs, hfs, hflength⟩ := exists_cutDigits_append hfraction exponent hexponent.head
    obtain ⟨i, hi⟩ := hexponent.exists_readExponent?
    have hsome : ¬ (ws = [] ∧ fs = []) := by
      rintro ⟨rfl, rfl⟩
      simp only [List.length_nil, eq_comm (a := 0), List.length_eq_zero_iff] at hwlength hflength
      exact hne.elim (· hwlength) (· hflength)
    simp [hws, hfs, hi, hsome]

/-- **A numeral names a floating point number.** -/
theorem Numeral.exists_read? (h : Numeral s) : ∃ x, read? s = some x := by
  have htrim : trim isNumberBlank s = s :=
    trim_eq_self fun c hc => (isPlain_of_isNumeralChar (h.isNumeralChar c hc)).blank
  obtain ⟨x, hx⟩ := h.exists_readMagnitude? false
  exact ⟨x, by rw [read?, htrim, h.cutSign]; exact hx⟩

end Binary64

end CwlDescriptor
