set_option autoImplicit false

/-!
# Halves of characters

An escape may name a code point that is half of a character: two of them make up one character in
units of sixteen bits. A text holds such a half as a mark and a character for private use. The mark
is U+FFFF, which is set aside for such ends; where it occurs in a text of its own, it is held as two
marks. So a text holds every code point in just one way, and no half is joined to its neighbour. A
mark beside which there is nothing that it may stand with holds a number beyond the code points, so
that different texts never hold the same.

## Main definitions

* `Text.ofCode`, `Text.codes`: how a code point is held, and the code points that a text holds.
* `Text.length`: the number of code points, by which texts are measured.
* `Text.hold`, `Text.release?`: a text from outside as it is held, and back.

## Main results

* `Text.codes_inj`: different texts hold different code points.
-/

namespace CwlDescriptor.Text

/-- The code point belongs to half of a character. -/
def isHalf (code : Nat) : Bool :=
  0xd800 ≤ code && code < 0xe000

/-- The character in front of one that stands for half of a character. -/
def mark : Char := '\uffff'

/-- The distance between a half and the character that stands for it. -/
def halfOffset : Nat := 0x800

/-- The characters that hold a code point. -/
def ofCode (code : Nat) : List Char :=
  if isHalf code then [mark, Char.ofNat (code + halfOffset)]
  else if code = mark.toNat then [mark, mark]
  else [Char.ofNat code]

/-- The least number that is no code point. -/
def codeLimit : Nat := 0x110000

/-- The code point that a mark and a character behind it hold. -/
def ofMarked (c : Char) : Nat :=
  if c = mark then mark.toNat
  else if isHalf (c.toNat - halfOffset) then c.toNat - halfOffset
  else codeLimit + c.toNat

/-- The code points that characters hold. -/
def codesOf : List Char → List Nat
  | [] => []
  | [c] => [if c = mark then 2 * codeLimit else c.toNat]
  | c :: d :: rest =>
    if c = mark then ofMarked d :: codesOf rest else c.toNat :: codesOf (d :: rest)

/-- The code points that a text holds. -/
def codes (s : String) : List Nat :=
  codesOf s.toList

/-- The number of code points that a text holds. -/
def length (s : String) : Nat :=
  (codes s).length

/-- A text from outside as it is held. -/
def hold (s : String) : String :=
  String.ofList (s.toList.flatMap fun c => ofCode c.toNat)

/-- The text for the outside, if it holds nothing but characters. -/
def release? (s : String) : Option String :=
  if (codes s).all fun code => code < codeLimit && !isHalf code then
    some (String.ofList ((codes s).map Char.ofNat))
  else none

/-! ## What is held is read back -/

/-- The number of a character is a code point that belongs to no half. -/
theorem toNat_lt_codeLimit (c : Char) : c.toNat < codeLimit ∧ isHalf c.toNat = false := by
  have h : c.toNat.isValidChar := c.valid
  simp only [isHalf, Bool.and_eq_false_iff, decide_eq_false_iff_not]
  unfold codeLimit; unfold Nat.isValidChar at h; omega

/-- The characters that hold a code point, or a number beyond the code points. -/
def ofNumber (n : Nat) : List Char :=
  if n = 2 * codeLimit then [mark]
  else if codeLimit ≤ n then [mark, Char.ofNat (n - codeLimit)]
  else ofCode n

/-- A character other than the mark holds itself. -/
theorem ofNumber_toNat {c : Char} (h : c ≠ mark) : ofNumber c.toNat = [c] := by
  obtain ⟨hl, hh⟩ := toNat_lt_codeLimit c
  have hm : c.toNat ≠ mark.toNat := fun e => h (Char.toNat_inj.1 e)
  have h₁ : ¬c.toNat = 2 * codeLimit := by unfold codeLimit at hl ⊢; omega
  rw [ofNumber, if_neg h₁, if_neg (by omega), ofCode, hh, if_neg (by simp), if_neg hm,
    Char.ofNat_toNat]

/-- A mark and a character behind it hold each other. -/
theorem ofNumber_ofMarked (c : Char) : ofNumber (ofMarked c) = [mark, c] := by
  obtain ⟨hl, -⟩ := toNat_lt_codeLimit c
  unfold ofMarked
  split
  next h => subst h; rfl
  next h =>
    split
    next hh =>
      have hh' := hh
      simp only [isHalf, Bool.and_eq_true, decide_eq_true_eq] at hh'
      have h₁ : ¬c.toNat - halfOffset = 2 * codeLimit := by unfold codeLimit; omega
      have h₂ : ¬codeLimit ≤ c.toNat - halfOffset := by unfold codeLimit; omega
      have h₃ : c.toNat - halfOffset + halfOffset = c.toNat := by omega
      rw [ofNumber, if_neg h₁, if_neg h₂, ofCode, if_pos hh, h₃, Char.ofNat_toNat]
    next hh =>
      have h₁ : ¬codeLimit + c.toNat = 2 * codeLimit := by omega
      rw [ofNumber, if_neg h₁, if_pos (by omega), Nat.add_sub_cancel_left, Char.ofNat_toNat]

/-- What characters hold gives them back. -/
theorem flatMap_codesOf (s : List Char) : (codesOf s).flatMap ofNumber = s := by
  fun_induction codesOf s with
  | case1 => rfl
  | case2 c =>
    split
    next h => subst h; rfl
    next h => simp [ofNumber_toNat h]
  | case3 d rest ih => rw [List.flatMap_cons, ofNumber_ofMarked, ih]; rfl
  | case4 c d rest h ih => rw [List.flatMap_cons, ofNumber_toNat h, ih]; rfl

/-- Different texts hold different code points. -/
theorem codes_inj {s t : String} : codes s = codes t ↔ s = t := by
  refine ⟨fun h => ?_, fun h => h ▸ rfl⟩
  have h := congrArg (List.flatMap ofNumber) h
  rw [codes, codes, flatMap_codesOf, flatMap_codesOf] at h
  exact String.toList_injective h

end CwlDescriptor.Text
