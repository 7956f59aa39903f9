import CwlDescriptor.Proofs.Exceptions
import CwlDescriptor.Proofs.Numerals
import CwlDescriptor.Yaml.Token.Lexer
set_option autoImplicit false

/-!
# Where a text cannot be cut into tokens

Whatever is read of a text, the cursor behind it is at an end of the text. So what a reader finds at
its cursor stands in the text. There are two things in a text for which a reader has no answer, and
not even an error of its own: an escape with the number of no character, and a version with too many
digits.

## Main definitions

* `LexicalFault`: the two things, with the faults that they are met with.
* `Reads`: a reader ends inside the text, and meets no other fault.

## Main results

* `Lexer.run_error`: the tokens of a text end with such a fault only if it is there.
-/

namespace CwlDescriptor.Yaml

/-- What stands in a text that has a fault. -/
inductive LexicalFault (text : List Char) : Fault → Prop
  /-- An escape with the number of no character. -/
  | escape {before digits after : List Char} {letter : Char} {code : Nat}
    (htext : text = before ++ '\\' :: letter :: (digits ++ after))
    (hwidth : escapeWidth? letter = some digits.length) (hcode : hexNumber? digits = some code)
    (hlarge : 0x10ffff < code) :
    LexicalFault text (if 0x7fffffff < code then .tooLarge else .noSuchCharacter)
  /-- A directive for the version, one number of which has too many digits. -/
  | version {before between digits after : List Char}
    (htext : text = before ++ ("%YAML".toList ++ (between ++ (digits ++ after))))
    (hbetween : ∀ c ∈ between, c = ' ' ∨ c = '.' ∨ c.isDigit) (hdigits : ∀ c ∈ digits, c.isDigit)
    (hmany : Integer.maxDigits < digits.length) : LexicalFault text .notANumber

/-- If the error is a fault, it is one of the text. -/
def LoadError.IsLexical (text : List Char) (e : LoadError) : Prop :=
  ∀ f, e = .fault f → LexicalFault text f

/-- A text that is not valid has no fault of its tokens. -/
private lemma isLexical_invalid (text : List Char) : LoadError.invalid.IsLexical text :=
  nofun

/-! ## Steps of a cursor -/

namespace Cursor

variable (c : Cursor)

/-- The cursor is at an end of the text. -/
def Within (text : List Char) : Prop :=
  c.rest <:+ text

variable {c}

/-- A cursor further on is inside the text. -/
private lemma Within.of_suffix {text : List Char} {c' : Cursor} (h : c.Within text)
    (hsuffix : c'.rest <:+ c.rest) : c'.Within text :=
  hsuffix.trans h

variable (c)

/-- The next character leaves the rest behind it. -/
private lemma rest_next : c.next.rest = c.rest.tail := by
  obtain ⟨rest, p⟩ := c
  cases rest <;> rfl

/-- What is skipped leaves the rest behind it. -/
private lemma rest_skip (n : Nat) : (c.skip n).rest = c.rest.drop n := by
  induction n generalizing c with
  | zero => rfl
  | succ n ih => rw [skip, ih, rest_next, ← List.drop_one, List.drop_drop, Nat.add_comm]

variable {c} in

/-- The character at the cursor is the first one of the rest. -/
private lemma rest_of_peek {x : Char} (h : c.peek = some x) : c.rest = x :: c.next.rest := by
  rw [rest_next]
  exact (List.cons_head?_tail h).symm

/-- The rest behind the next character is behind the cursor. -/
private lemma next_suffix : c.next.rest <:+ c.rest := by
  rw [rest_next]
  exact List.tail_suffix _

/-- The rest behind what is skipped is behind the cursor. -/
private lemma skip_suffix (n : Nat) : (c.skip n).rest <:+ c.rest := by
  rw [rest_skip]
  exact List.drop_suffix _ _

/-- A span is a run of characters in front of the rest, all of the given kind. -/
private lemma exists_spanOnto (p : Char → Bool) (passed rest : List Char) (position : Position) :
    ∃ run, rest = run ++ (spanOnto p passed rest position).2.rest ∧ (∀ x ∈ run, p x) ∧
      (spanOnto p passed rest position).1 = run.reverse ++ passed := by
  fun_induction spanOnto p passed rest position with
  | case1 => exact ⟨[], rfl, nofun, rfl⟩
  | case2 passed x rest position hx ih =>
    obtain ⟨run, hrest, hrun, hpassed⟩ := ih
    exact ⟨x :: run, congrArg (x :: ·) hrest, List.forall_mem_cons.2 ⟨hx, hrun⟩,
      by rw [hpassed, List.reverse_cons, List.append_assoc, List.singleton_append]⟩
  | case3 => exact ⟨[], rfl, nofun, rfl⟩

/-- A run of characters is cut off. -/
private lemma spanWhile_append (p : Char → Bool) :
    c.rest = (c.spanWhile p).1 ++ (c.spanWhile p).2.rest ∧ ∀ x ∈ (c.spanWhile p).1, p x := by
  obtain ⟨run, hrest, hrun, hpassed⟩ := exists_spanOnto p [] c.rest c.position
  have hfst : (c.spanWhile p).1 = run := by
    change (spanOnto p [] c.rest c.position).1.reverse = run
    rw [hpassed, List.append_nil, List.reverse_reverse]
  exact ⟨hfst ▸ hrest, hfst ▸ hrun⟩

/-- The rest behind a span is behind the cursor. -/
private lemma spanWhile_suffix (p : Char → Bool) : (c.spanWhile p).2.rest <:+ c.rest :=
  ⟨_, (c.spanWhile_append p).1.symm⟩

/-- The rest behind what is dropped is behind the cursor. -/
private lemma dropWhile_suffix (p : Char → Bool) : (c.dropWhile p).rest <:+ c.rest :=
  c.spanWhile_suffix p

variable {c}

/-- The rest behind a line break is behind the cursor. -/
private lemma lineBreak_suffix {b : Char} {c' : Cursor} (h : c.lineBreak = some (b, c')) :
    c'.rest <:+ c.rest := by
  unfold lineBreak at h
  split at h
  · cases h
    exact skip_suffix c 2
  · split at h
    · cases h
      exact next_suffix c
    · cases h
  · cases h

end Cursor

/-! ## Readers -/

/-- A reader ends inside the text, and its faults are those of the text. -/
def Reads {α : Type} (text : List Char) (r : Except LoadError (α × Cursor)) : Prop :=
  Except.Ensures (fun p => p.2.Within text) (LoadError.IsLexical text) r

section Readers

variable {text : List Char} {α : Type}

/-- A text that is not valid is read as nothing. -/
private lemma reads_invalid : Reads text (.error .invalid : Except LoadError (α × Cursor)) :=
  isLexical_invalid text

variable {c : Cursor}

/-! ### Names, tags and directives -/

/-- A name is read inside the text. -/
private lemma reads_name (hc : c.Within text) : Reads text (readName c) := by
  have hstop := hc.of_suffix ((c.next.spanWhile_suffix isWordChar).trans c.next_suffix)
  exact .ite (fun _ => reads_invalid) fun _ => .ite (fun _ => hstop) fun _ => reads_invalid

/-- The characters of an address are read inside the text. -/
private lemma reads_uriOnto (n : Nat) (passed : List Char) (hc : c.Within text) :
    Reads text (uriOnto n c passed) := by
  fun_induction uriOnto n c passed with
  | case1 | case2 | case3 => exact reads_invalid
  | case4 n c passed hpeek bytes count hbytes chars hchars ih =>
    exact ih (hc.of_suffix (c.skip_suffix _))
  | case5 n c passed x hpeek hother hx ih => exact ih (hc.of_suffix c.next_suffix)
  | case6 | case7 => exact hc

/-- An address is read inside the text. -/
private lemma reads_uri (hc : c.Within text) : Reads text (readUri c) :=
  (reads_uriOnto _ [] hc).bind fun ⟨_, _⟩ hstop => .ite (fun _ => reads_invalid) fun _ => hstop

/-- A handle is read inside the text. -/
private lemma reads_handle (hc : c.Within text) : Reads text (readHandle c) := by
  refine .ite (fun _ => reads_invalid) fun _ => .ite (fun _ => hc.of_suffix c.next_suffix)
    fun _ => .ite (fun _ => ?_) fun _ => reads_invalid
  exact hc.of_suffix ((Cursor.next_suffix _).trans
    ((Cursor.spanWhile_suffix _ _).trans c.next_suffix))

/-- A tag is read inside the text. -/
private lemma reads_tag (hc : c.Within text) : Reads text (readTag c) := by
  have hend (token : Token) {stop : Cursor} (hstop : stop.Within text) :
      Reads text (if isSpaceOrEnd stop.peek then pure (token, stop) else .error .invalid) :=
    .ite (fun _ => hstop) fun _ => reads_invalid
  have hsuffix (handle : String) {start : Cursor} (hstart : start.Within text) :
      Reads text (readUri start >>= fun found =>
        if isSpaceOrEnd found.2.peek then pure (Token.tag (some handle) found.1, found.2)
        else .error .invalid) :=
    (reads_uri hstart).bind fun found hstop => hend (.tag (some handle) found.1) hstop
  have hnext := hc.of_suffix c.next_suffix
  refine .ite (fun _ => ?_) fun _ => .ite (fun _ => hend (.tag none "!") hnext) fun _ => ?_
  · refine (reads_uri (hc.of_suffix (c.skip_suffix 2))).bind fun found hstop => ?_
    exact .ite (fun _ => hend (.tag none found.1) (hstop.of_suffix found.2.next_suffix))
      fun _ => reads_invalid
  · exact .ite (fun _ => (reads_handle hc).bind fun found hhandle => hsuffix found.1 hhandle)
      fun _ => hsuffix "!" hnext

/-- A line that is ignored is skipped inside the text. -/
private lemma reads_ignoredLine (hc : c.Within text) :
    Except.Ensures (fun c => c.Within text) (LoadError.IsLexical text) (skipIgnoredLine c) := by
  refine .ite (fun _ => ?_) fun _ => isLexical_invalid text
  have hblanks := hc.of_suffix (c.dropWhile_suffix (· = ' '))
  generalize c.dropWhile (· = ' ') = c₁ at hblanks
  have hcomment : (if c₁.peek = some '#' then c₁.dropWhile (!isBreak ·) else c₁).Within text := by
    split_ifs
    · exact hblanks.of_suffix (c₁.dropWhile_suffix _)
    · exact hblanks
  generalize (if c₁.peek = some '#' then c₁.dropWhile (!isBreak ·) else c₁) = c₂ at hcomment
  cases hbreak : c₂.lineBreak with
  | none => simpa [Except.Ensures, hbreak] using hcomment
  | some p =>
    simpa [Except.Ensures, hbreak] using hcomment.of_suffix (Cursor.lineBreak_suffix hbreak)

/-- The cursor is behind the name of a version, with blanks, digits and points between them. -/
def BehindVersion (text : List Char) (c : Cursor) : Prop :=
  ∃ before between, text = before ++ ("%YAML".toList ++ (between ++ c.rest)) ∧
    ∀ x ∈ between, x = ' ' ∨ x = '.' ∨ x.isDigit

/-- Behind blanks, points and digits, the cursor is still behind the name of a version. -/
lemma BehindVersion.append (h : BehindVersion text c) {run : List Char} {stop : Cursor}
    (hrest : c.rest = run ++ stop.rest) (hrun : ∀ x ∈ run, x = ' ' ∨ x = '.' ∨ x.isDigit) :
    BehindVersion text stop := by
  obtain ⟨before, between, htext, hbetween⟩ := h
  refine ⟨before, between ++ run, by rw [htext, hrest, List.append_assoc], ?_⟩
  exact List.forall_mem_append.2 ⟨hbetween, hrun⟩

/-- Behind the name of a version, the cursor is inside the text. -/
lemma BehindVersion.within (h : BehindVersion text c) : c.Within text := by
  obtain ⟨before, between, htext, -⟩ := h
  exact ⟨before ++ ("%YAML".toList ++ between), by simp [htext]⟩

/-- A number of a version is read inside the text. -/
private lemma reads_number (h : BehindVersion text c) :
    Except.Ensures (fun p => BehindVersion text p.2) (LoadError.IsLexical text) (readNumber c) := by
  obtain ⟨hrest, hdigits⟩ := c.spanWhile_append Char.isDigit
  unfold readNumber
  generalize c.spanWhile Char.isDigit = span at hrest hdigits
  obtain ⟨digits, stop⟩ := span
  refine .ite (fun _ => isLexical_invalid text) fun hne => ?_
  cases hread : Integer.read? 10 digits with
  | some i => exact h.append hrest fun x hx => .inr (.inr (hdigits x hx))
  | none =>
    rintro f ⟨⟩
    obtain ⟨-, hmany⟩ := Integer.maxDigits_lt_of_read?_eq_none (by decide)
      (fun x hx => Text.isDigit_ten (hdigits x hx)) (by simpa using hne) hread
    obtain ⟨before, between, htext, hbetween⟩ := h
    exact .version (hrest ▸ htext) hbetween hdigits hmany

/-- A directive stands behind a percent sign. -/
private lemma reads_directive (hc : c.Within text) (hpeek : c.peek = some '%') :
    Reads text (readDirective c) := by
  have hend (directive : Directive) {stop : Cursor} (hstop : stop.Within text) :
      Reads text (skipIgnoredLine stop >>= fun stop => pure (directive, stop)) :=
    (reads_ignoredLine hstop).bind fun _ h => h
  obtain ⟨hrest, -⟩ := c.next.spanWhile_append isWordChar
  have hname := hc.of_suffix ((c.next.spanWhile_suffix isWordChar).trans c.next_suffix)
  unfold readDirective
  generalize c.next.spanWhile isWordChar = span at hrest hname
  obtain ⟨name, c₁⟩ := span
  refine .ite (fun _ => reads_invalid) fun _ => .ite (fun hyaml => ?_) fun _ =>
    .ite (fun _ => ?_) fun _ => ?_
  · obtain ⟨before, htext⟩ := hc
    have hbehind : BehindVersion text c₁ := by
      refine ⟨before, [], ?_, nofun⟩
      rw [← htext, Cursor.rest_of_peek hpeek, hrest, hyaml]
      rfl
    obtain ⟨hblanks, hall⟩ := c₁.spanWhile_append (· = ' ')
    have hstart : BehindVersion text (c₁.dropWhile (· = ' ')) :=
      hbehind.append hblanks fun x hx => .inl (by simpa using hall x hx)
    refine (reads_number hstart).bind fun ⟨major, c₂⟩ h₂ => .ite (fun _ => reads_invalid)
      fun hpoint => ?_
    have hrun : c₂.rest = ['.'] ++ c₂.next.rest := Cursor.rest_of_peek (not_not.1 hpoint)
    have hminor : BehindVersion text c₂.next := h₂.append hrun (by simp)
    exact (reads_number hminor).bind fun ⟨minor, c₃⟩ h₃ =>
      .ite (fun _ => hend (.version major minor) h₃.within) fun _ => reads_invalid
  · refine (reads_handle (hname.of_suffix (c₁.dropWhile_suffix _))).bind fun ⟨handle, c₂⟩ h₂ => ?_
    refine .ite (fun _ => reads_invalid) fun _ => ?_
    refine (reads_uri (h₂.of_suffix (c₂.dropWhile_suffix _))).bind fun ⟨start, c₃⟩ h₃ => ?_
    exact .ite (fun _ => hend (.tag handle start) h₃) fun _ => reads_invalid
  · exact hend .reserved (hname.of_suffix (c₁.dropWhile_suffix _))

/-! ### Block scalars -/

/-- The indentation that a header gives is read, or the text is not valid. -/
private lemma ensures_increment (c : Cursor) :
    Except.Ensures (fun _ => True) (LoadError.IsLexical text) (increment? c) := by
  unfold increment?
  split
  · exact .ite (fun _ => isLexical_invalid text) fun _ => .ite (fun _ => trivial) fun _ => trivial
  · trivial

/-- The header of a block scalar is read inside the text. -/
private lemma reads_header (hc : c.Within text) : Reads text (readHeader c) := by
  have hend (header : BlockHeader) {stop : Cursor} (hstop : stop.Within text) :
      Reads text (if isSpaceOrEnd stop.peek then
        skipIgnoredLine stop >>= fun stop => pure (header, stop) else .error .invalid) :=
    .ite (fun _ => (reads_ignoredLine hstop).bind fun _ h => h) fun _ => reads_invalid
  have hnext := hc.of_suffix c.next_suffix
  have hbehind := hnext.of_suffix c.next.next_suffix
  unfold readHeader
  cases chomping? c with
  | some chomping =>
    refine (ensures_increment c.next).bind fun increment _ => ?_
    cases increment with
    | some d => exact hend ⟨chomping, some d⟩ hbehind
    | none => exact hend ⟨chomping, none⟩ hnext
  | none =>
    refine (ensures_increment c).bind fun increment _ => ?_
    cases increment with
    | some d =>
      simp only
      cases chomping? c.next with
      | some chomping => exact hend ⟨chomping, some d⟩ hbehind
      | none => exact hend ⟨.clip, some d⟩ hnext
    | none => exact hend ⟨.clip, none⟩ hc

/-- The rest behind the indentation of a block is behind the cursor. -/
private lemma blockIndentation_suffix (n : Nat) (c : Cursor) (passed : List Char) (greatest : Nat) :
    (blockIndentation n c passed greatest).2.2.rest <:+ c.rest := by
  induction n generalizing c passed greatest with
  | zero => exact List.suffix_refl _
  | succ n ih =>
    have hspaces := c.spanWhile_suffix (· = ' ')
    unfold blockIndentation
    generalize c.spanWhile (· = ' ') = span at hspaces
    obtain ⟨spaces, c₁⟩ := span
    cases hbreak : c₁.lineBreak with
    | none => simpa only [hbreak] using hspaces
    | some p =>
      simp only [hbreak]
      exact (ih ..).trans ((Cursor.lineBreak_suffix hbreak).trans hspaces)

/-- The rest behind the indentation of a line is behind the cursor. -/
private lemma skipIndent_suffix (indent : Nat) (rest : List Char) (position : Position) :
    (skipIndent indent rest position).rest <:+ rest := by
  fun_induction skipIndent indent rest position with
  | case1 rest position _ ih => exact ih.trans (List.suffix_cons ..)
  | case2 | case3 => exact List.suffix_refl _

/-- The rest behind the breaks of a block is behind the cursor. -/
private lemma blockBreaks_suffix (indent n : Nat) (c : Cursor) (passed : List Char) :
    (blockBreaks indent n c passed).2.rest <:+ c.rest := by
  induction n generalizing c passed with
  | zero => exact List.suffix_refl _
  | succ n ih =>
    have hindent := skipIndent_suffix indent c.rest c.position
    unfold blockBreaks
    generalize skipIndent indent c.rest c.position = c₁ at hindent
    cases hbreak : c₁.lineBreak with
    | none => simpa only [hbreak] using hindent
    | some p =>
      simp only [hbreak]
      exact (ih ..).trans ((Cursor.lineBreak_suffix hbreak).trans hindent)

/-- The rest behind the lines of a block is behind the cursor. -/
private lemma blockLines_suffix (folded : Bool) (indent n : Nat) (c : Cursor)
    (breaks passed : List Char) :
    (blockLines folded indent n c breaks passed).2.2.2.rest <:+ c.rest := by
  induction n generalizing c breaks passed with
  | zero => exact List.suffix_refl _
  | succ n ih =>
    have hline := c.spanWhile_suffix (!isBreak ·)
    unfold blockLines
    generalize c.spanWhile (!isBreak ·) = span at hline
    obtain ⟨line, c₁⟩ := span
    -- The line break is skipped if there is one, and then the empty lines behind it.
    have hbreaks : ∀ c₂ : Cursor, c₂.rest <:+ c₁.rest →
        (blockBreaks indent (c₂.rest.length + 1) c₂ []).2.rest <:+ c.rest :=
      fun c₂ h₂ => (blockBreaks_suffix ..).trans (h₂.trans hline)
    cases hbreak : c₁.lineBreak with
    | none =>
      have h := hbreaks c₁ (List.suffix_refl _)
      simp only [hbreak]
      split_ifs
      exacts [(ih ..).trans h, (ih ..).trans h, (ih ..).trans h, h]
    | some p =>
      have h := hbreaks p.2 (Cursor.lineBreak_suffix hbreak)
      simp only [hbreak]
      split_ifs
      exacts [(ih ..).trans h, (ih ..).trans h, (ih ..).trans h, h]

/-- A block scalar is read inside the text. -/
private lemma reads_block (folded : Bool) (parent : Nat) (hc : c.Within text) :
    Reads text (readBlock folded parent c) := by
  refine (reads_header (hc.of_suffix c.next_suffix)).bind fun ⟨header, c₁⟩ h₁ => ?_
  -- The lines begin behind the empty ones.
  have hlines (breaks : List Char) (indent : Nat) {c₂ : Cursor} (h₂ : c₂.rest <:+ c₁.rest) :
      (if atBlockLine indent c₂ then blockLines folded indent (c₂.rest.length + 1) c₂ breaks []
        else ([], [], breaks, c₂)).2.2.2.Within text := by
    refine h₁.of_suffix (List.IsSuffix.trans ?_ h₂)
    split_ifs
    · exact blockLines_suffix ..
    · exact List.suffix_refl _
  cases hincrement : header.increment with
  | none =>
    simp only [hincrement]
    exact hlines _ _ (blockIndentation_suffix ..)
  | some increment =>
    simp only [hincrement]
    exact hlines _ _ (blockBreaks_suffix ..)

/-! ### Scalars without quotes -/

/-- The rest behind a run of a scalar without quotes is behind the cursor. -/
private lemma plainRun_suffix (inFlow : Bool) (passed rest : List Char) (position : Position) :
    (plainRun inFlow passed rest position).2.rest <:+ rest := by
  fun_induction plainRun inFlow passed rest position with
  | case1 | case2 => exact List.suffix_refl _
  | case3 passed x rest position _ ih => exact ih.trans (List.suffix_cons ..)

/-- The rest behind the breaks of a scalar without quotes is behind the cursor. -/
private lemma plainBreaks_suffix (n : Nat) (c : Cursor) (passed : List Char) :
    (plainBreaks n c passed).2.rest <:+ c.rest := by
  induction n generalizing c passed with
  | zero => exact List.suffix_refl _
  | succ n ih =>
    have hspaces := c.dropWhile_suffix (· = ' ')
    unfold plainBreaks
    generalize c.dropWhile (· = ' ') = c₁ at hspaces
    cases hbreak : c₁.lineBreak with
    | none => simpa only [hbreak] using hspaces
    | some p =>
      have h := (Cursor.lineBreak_suffix hbreak).trans hspaces
      simp only [hbreak]
      split_ifs
      exacts [h, (ih ..).trans h]

/-- The rest behind the blanks of a scalar without quotes is behind the cursor. -/
private lemma plainBlanks_suffix (c : Cursor) : (plainBlanks c).2.1.rest <:+ c.rest := by
  have hspaces := c.spanWhile_suffix (· = ' ')
  unfold plainBlanks
  generalize c.spanWhile (· = ' ') = span at hspaces
  obtain ⟨spaces, c₁⟩ := span
  cases hbreak : c₁.lineBreak with
  | none => simpa only [hbreak] using hspaces
  | some p =>
    have h := (Cursor.lineBreak_suffix hbreak).trans hspaces
    have hothers := (plainBreaks_suffix (p.2.rest.length + 1) p.2 []).trans h
    simp only [hbreak]
    split_ifs
    · exact h
    · generalize plainBreaks (p.2.rest.length + 1) p.2 [] = others at hothers
      obtain ⟨_ | others, c₂⟩ := others
      exacts [hothers, hothers]

/-- The rest behind the runs of a scalar without quotes is behind the cursor. -/
private lemma plainRuns_suffix (inFlow : Bool) (indent n : Nat) (blanks : List Char)
    (s : PlainScalar) :
    (plainRuns inFlow indent n blanks s).cursor.rest <:+ s.cursor.rest := by
  induction n generalizing blanks s with
  | zero => exact List.suffix_refl _
  | succ n ih =>
    have hrun := plainRun_suffix inFlow [] s.cursor.rest s.cursor.position
    unfold plainRuns
    split_ifs
    · exact List.suffix_refl _
    · generalize plainRun inFlow [] s.cursor.rest s.cursor.position = run at hrun
      obtain ⟨_ | ⟨x, run⟩, c⟩ := run
      · exact List.suffix_refl _
      · have hblanks := (plainBlanks_suffix c).trans hrun
        simp only
        split_ifs
        exacts [hblanks, (ih ..).trans hblanks]

/-- The rest behind a scalar without quotes is behind the cursor. -/
private lemma readPlain_suffix (inFlow : Bool) (indent : Nat) (c : Cursor) :
    (readPlain inFlow indent c).cursor.rest <:+ c.rest :=
  plainRuns_suffix ..

/-! ### Scalars between quotes -/

/-- The breaks of a scalar between quotes are read inside the text. -/
private lemma reads_quotedBreaks (n : Nat) (passed : List Char) (hc : c.Within text) :
    Reads text (quotedBreaks n c passed) := by
  induction n generalizing c passed with
  | zero => exact reads_invalid
  | succ n ih =>
    have hblanks := hc.of_suffix (c.dropWhile_suffix isSpaceOrTab)
    unfold quotedBreaks
    refine .ite (fun _ => reads_invalid) fun _ => ?_
    generalize c.dropWhile isSpaceOrTab = c₁ at hblanks
    cases hbreak : c₁.lineBreak with
    | none =>
      simp only [hbreak]
      exact hblanks
    | some p =>
      simp only [hbreak]
      exact ih _ (hblanks.of_suffix (Cursor.lineBreak_suffix hbreak))

/-- An escape stands behind a backslash. -/
private lemma reads_escape (bound : Nat) {before : List Char}
    (htext : text = before ++ '\\' :: c.rest) :
    Reads text (readEscape bound c) := by
  have hc : c.Within text := ⟨before ++ ['\\'], by simp [htext]⟩
  unfold readEscape
  cases hpeek : c.peek with
  | none => exact reads_invalid
  | some letter =>
    cases hletter : escapeLetter? letter with
    | some code =>
      simp only [hletter]
      exact hc.of_suffix c.next_suffix
    | none =>
      cases hwidth : escapeWidth? letter with
      | none =>
        simp only [hletter, hwidth]
        cases hbreak : c.lineBreak with
        | none => exact reads_invalid
        | some p =>
          exact reads_quotedBreaks _ _ (hc.of_suffix (Cursor.lineBreak_suffix hbreak))
      | some width =>
        simp only [hletter, hwidth]
        refine .ite (fun _ => reads_invalid) fun hlength => ?_
        cases hcode : hexNumber? (c.next.rest.take width) with
        | none => exact reads_invalid
        | some code =>
          have hfault (hlarge : 0x10ffff < code) :
              LexicalFault text (if 0x7fffffff < code then .tooLarge else .noSuchCharacter) := by
            have hdigits : (c.next.rest.take width).length = width := by
              rw [List.length_take] at hlength ⊢
              omega
            have hsplit : text = before ++ '\\' :: letter ::
                (c.next.rest.take width ++ c.next.rest.drop width) := by
              rw [htext, Cursor.rest_of_peek hpeek, List.take_append_drop]
            exact .escape hsplit (by rw [hwidth, hdigits]) hcode hlarge
          simp only
          refine .ite (fun hlarge => ?_) fun hsmall => .ite (fun hlarge => ?_) fun _ => ?_
          · rintro f ⟨⟩
            simpa only [if_pos hlarge] using hfault (by omega)
          · rintro f ⟨⟩
            simpa only [if_neg hsmall] using hfault hlarge
          · exact hc.of_suffix ((Cursor.skip_suffix ..).trans c.next_suffix)

/-- The rest of a scalar between quotes is read inside the text. -/
private lemma reads_quotedRest (double : Bool) (n : Nat) (passed : List Char) (hc : c.Within text) :
    Reads text (quotedRest double n c passed) := by
  induction n generalizing c passed with
  | zero => exact reads_invalid
  | succ n ih =>
    unfold quotedRest
    cases hpeek : c.peek with
    | none => exact reads_invalid
    | some x =>
      have hnext := hc.of_suffix c.next_suffix
      simp only
      refine .ite (fun _ => ?_) fun _ => .ite (fun _ => hnext) fun _ => .ite (fun _ => ?_) fun _ =>
        .ite (fun hescape => ?_) fun _ => ih _ hnext
      · have hblanks := hc.of_suffix (c.spanWhile_suffix isSpaceOrTab)
        generalize c.spanWhile isSpaceOrTab = span at hblanks
        obtain ⟨blanks, c₁⟩ := span
        cases hbreak : c₁.lineBreak with
        | none =>
          simp only
          exact ih _ hblanks
        | some p =>
          simp only
          exact (reads_quotedBreaks n [] (hblanks.of_suffix (Cursor.lineBreak_suffix hbreak))).bind
            fun ⟨_, _⟩ h => ih _ h
      · exact .ite (fun _ => ih _ (hc.of_suffix (c.skip_suffix 2))) fun _ => hnext
      · obtain ⟨before, htext⟩ := hc
        obtain ⟨rfl, -⟩ : x = '\\' ∧ double := by simpa using hescape
        have hbefore : text = before ++ '\\' :: c.next.rest := by
          rw [← htext, Cursor.rest_of_peek hpeek]
        exact (reads_escape n hbefore).bind fun ⟨_, _⟩ h => ih _ h

/-- A scalar between quotes is read inside the text. -/
private lemma reads_quoted (double : Bool) (hc : c.Within text) :
    Reads text (readQuoted double c) :=
  (reads_quotedRest double _ [] (hc.of_suffix c.next_suffix)).bind fun ⟨_, _⟩ hstop => hstop

end Readers

/-! ## Tokens -/

namespace Lexer

variable {text : List Char} {l : Lexer}

/-- The lexer ends inside the text, and its faults are those of the text. -/
def Fetches (text : List Char) (r : Except LoadError Lexer) : Prop :=
  Except.Ensures (fun l => l.cursor.Within text) (LoadError.IsLexical text) r

/-- A key that is out of date is dropped inside the text. -/
private lemma fetches_dropStale (hl : l.cursor.Within text) : Fetches text l.dropStale :=
  .ite (fun _ => isLexical_invalid text) fun _ => hl

/-- The key that may begin is dropped inside the text. -/
private lemma fetches_dropKey (hl : l.cursor.Within text) : Fetches text l.dropKey :=
  .ite (fun _ => isLexical_invalid text) fun _ => hl

/-- The key that may begin is saved inside the text. -/
private lemma fetches_saveKey (hl : l.cursor.Within text) : Fetches text l.saveKey :=
  .ite (fun _ => (fetches_dropKey hl).bind fun _ h => h) fun _ => hl

/-- Closing blocks does not move the cursor. -/
private lemma cursor_closeBlocks (l : Lexer) (p : Nat → Bool) :
    (l.closeBlocks p).cursor = l.cursor := by
  unfold closeBlocks
  generalize (l.indents.takeWhile p).length = n
  induction n with
  | zero => rfl
  | succ n ih => rwa [Nat.fold_succ]

/-- Unwinding to a column does not move the cursor. -/
private lemma cursor_unwind (l : Lexer) (column : Nat) : (l.unwind column).cursor = l.cursor := by
  unfold unwind
  split_ifs
  exacts [rfl, cursor_closeBlocks ..]

/-- Unwinding everything does not move the cursor. -/
private lemma cursor_unwindAll (l : Lexer) : l.unwindAll.cursor = l.cursor := by
  unfold unwindAll
  split_ifs
  exacts [rfl, cursor_closeBlocks ..]

/-- Opening a block does not move the cursor. -/
private lemma cursor_openBlock (l : Lexer) (token : Token) :
    (l.openBlock token).cursor = l.cursor := by
  simp only [openBlock]
  split_ifs <;> rfl

/-- A token is taken inside the text. -/
private lemma within_take (token : Token) (width : Nat) (hl : l.cursor.Within text) :
    (l.take token width).cursor.Within text :=
  hl.of_suffix (l.cursor.skip_suffix width)

/-- The rest behind a gap is behind the cursor. -/
private lemma skipGap_suffix (inFlow inComment keyAllowed : Bool) (rest : List Char)
    (position : Position) :
    (skipGap inFlow inComment keyAllowed rest position).2.rest <:+ rest := by
  fun_induction skipGap inFlow inComment keyAllowed rest position with
  | case1 | case5 => exact List.suffix_refl _
  | case2 _ _ _ _ _ _ ih => exact ih.trans (List.suffix_cons ..)
  | case3 _ _ _ _ _ _ _ ih => exact ih.trans (List.suffix_cons ..)
  | case4 _ _ _ _ _ _ ih => exact ih.trans (List.suffix_cons ..)

/-- The next token is inside the text. -/
private lemma within_toNextToken (hl : l.cursor.Within text) :
    l.toNextToken.cursor.Within text := by
  refine hl.of_suffix ((skipGap_suffix ..).trans ?_)
  split_ifs
  exacts [l.cursor.next_suffix, List.suffix_refl _]

/-- What may begin a key is fetched inside the text. -/
private lemma fetches_keyStart {read : Cursor → Except LoadError (Token × Cursor)}
    (hread : ∀ c : Cursor, c.Within text → Reads text (read c)) (hl : l.cursor.Within text) :
    Fetches text (l.fetchKeyStart read) :=
  (fetches_saveKey hl).bind fun _ hl => (hread _ hl).bind fun _ hstop => hstop

/-- The end is fetched inside the text. -/
private lemma fetches_end (hl : l.cursor.Within text) : Fetches text l.fetchEnd :=
  (fetches_dropKey ((cursor_unwindAll l).symm ▸ hl)).bind fun _ h => h

/-- A mark of a document is fetched inside the text. -/
private lemma fetches_documentMark (token : Token) (hl : l.cursor.Within text) :
    Fetches text (l.fetchDocumentMark token) :=
  (fetches_dropKey ((cursor_unwindAll l).symm ▸ hl)).bind fun _ h => within_take token 3 h

/-- A directive is fetched inside the text. -/
private lemma fetches_directive (hl : l.cursor.Within text) (hpeek : l.cursor.peek = some '%') :
    Fetches text l.fetchDirective := by
  have hkeeps : Except.Ensures (fun l' : Lexer => l'.cursor = l.cursor) (LoadError.IsLexical text)
      l.unwindAll.dropKey :=
    .ite (fun _ => isLexical_invalid text) fun _ => cursor_unwindAll l
  refine hkeeps.bind fun l' h => ?_
  rw [← h] at hl hpeek
  exact (reads_directive hl hpeek).bind fun ⟨_, _⟩ hstop => hstop

/-- The beginning of a flow collection is fetched inside the text. -/
private lemma fetches_flowStart (token : Token) (hl : l.cursor.Within text) :
    Fetches text (l.fetchFlowStart token) :=
  (fetches_saveKey hl).bind fun l h =>
    within_take (l := { l with flow := l.flow + 1, keyAllowed := true }) token 1 h

/-- The end of a flow collection is fetched inside the text. -/
private lemma fetches_flowEnd (token : Token) (hl : l.cursor.Within text) :
    Fetches text (l.fetchFlowEnd token) :=
  (fetches_dropKey hl).bind fun l h =>
    within_take (l := { l with flow := l.flow - 1, keyAllowed := false }) token 1 h

/-- An entry of a flow collection is fetched inside the text. -/
private lemma fetches_flowEntry (hl : l.cursor.Within text) : Fetches text l.fetchFlowEntry :=
  (fetches_dropKey (l := { l with keyAllowed := true }) hl).bind fun _ h => within_take _ 1 h

/-- The block that a token may begin is begun at the cursor. -/
private lemma within_openBlock (token : Token) (hl : l.cursor.Within text) :
    (if l.inFlow then l else l.openBlock token).cursor.Within text := by
  split_ifs
  exacts [hl, (cursor_openBlock l token).symm ▸ hl]

/-- An entry of a block sequence is fetched inside the text. -/
private lemma fetches_blockEntry (hl : l.cursor.Within text) : Fetches text l.fetchBlockEntry :=
  .ite (fun _ => isLexical_invalid text) fun _ =>
    (fetches_dropKey (l := { (if l.inFlow then l else l.openBlock .blockSequenceStart) with
      keyAllowed := true }) (within_openBlock _ hl)).bind fun _ h => within_take _ 1 h

/-- A key is fetched inside the text. -/
private lemma fetches_key (hl : l.cursor.Within text) : Fetches text l.fetchKey :=
  .ite (fun _ => isLexical_invalid text) fun _ =>
    (fetches_dropKey (l := { (if l.inFlow then l else l.openBlock .blockMappingStart) with
      keyAllowed := !(if l.inFlow then l else l.openBlock .blockMappingStart).inFlow })
      (within_openBlock _ hl)).bind fun _ h => within_take _ 1 h

/-- A value is fetched inside the text. -/
private lemma fetches_value (hl : l.cursor.Within text) : Fetches text l.fetchValue := by
  unfold fetchValue
  split
  · simp only
    split_ifs
    · exact hl.of_suffix (l.cursor.skip_suffix 1)
    · exact hl.of_suffix (l.cursor.skip_suffix 1)
  · refine .ite (fun _ => isLexical_invalid text) fun _ => ?_
    exact (fetches_dropKey (l := { (if l.inFlow then l else l.openBlock .blockMappingStart) with
      keyAllowed := !(if l.inFlow then l else l.openBlock .blockMappingStart).inFlow })
      (within_openBlock _ hl)).bind fun _ h => within_take _ 1 h

/-- A block scalar is fetched inside the text. -/
private lemma fetches_blockScalar (folded : Bool) (hl : l.cursor.Within text) :
    Fetches text (l.fetchBlockScalar folded) :=
  (fetches_dropKey (l := { l with keyAllowed := true }) hl).bind fun l h =>
    (reads_block folded l.innerIndent h).bind fun ⟨_, _⟩ hstop => hstop

/-- A scalar without quotes is fetched inside the text. -/
private lemma fetches_plain (hl : l.cursor.Within text) : Fetches text l.fetchPlain :=
  (fetches_saveKey hl).bind fun _ h => h.of_suffix (readPlain_suffix ..)

/-- The token at a character is fetched inside the text. -/
private lemma fetches_at {ch : Char} (hl : l.cursor.Within text) (hpeek : l.cursor.peek = some ch) :
    Fetches text (l.fetchAt ch) := by
  have hname (token : String → Token) :
      Fetches text (l.fetchKeyStart fun c => (readName c).map fun p => (token p.1, p.2)) :=
    fetches_keyStart (fun _ hc => (reads_name hc).map fun _ h => h) hl
  have hquoted (double : Bool) : Fetches text
      (l.fetchKeyStart fun c => (readQuoted double c).map fun p => (.scalar p.1 false, p.2)) :=
    fetches_keyStart (fun _ hc => (reads_quoted double hc).map fun _ h => h) hl
  refine .ite (fun hpercent => ?_) fun _ =>
    .ite (fun _ => fetches_documentMark _ hl) fun _ =>
    .ite (fun _ => fetches_documentMark _ hl) fun _ =>
    .ite (fun _ => fetches_flowStart _ hl) fun _ =>
    .ite (fun _ => fetches_flowStart _ hl) fun _ =>
    .ite (fun _ => fetches_flowEnd _ hl) fun _ =>
    .ite (fun _ => fetches_flowEnd _ hl) fun _ =>
    .ite (fun _ => fetches_flowEntry hl) fun _ =>
    .ite (fun _ => fetches_blockEntry hl) fun _ =>
    .ite (fun _ => fetches_key hl) fun _ =>
    .ite (fun _ => fetches_value hl) fun _ =>
    .ite (fun _ => hname .alias) fun _ =>
    .ite (fun _ => hname .anchor) fun _ =>
    .ite (fun _ => fetches_keyStart (fun _ => reads_tag) hl) fun _ =>
    .ite (fun _ => fetches_blockScalar _ hl) fun _ =>
    .ite (fun _ => fetches_blockScalar _ hl) fun _ =>
    .ite (fun _ => hquoted false) fun _ =>
    .ite (fun _ => hquoted true) fun _ =>
    .ite (fun _ => fetches_plain hl) fun _ => isLexical_invalid text
  obtain ⟨rfl, -⟩ : ch = '%' ∧ l.cursor.column = 0 := by simpa using hpercent
  exact fetches_directive hl hpeek

/-- **One more token is read inside the text**, or there is an error, which is one of the text if it
is a fault. -/
theorem fetches_fetch (hl : l.cursor.Within text) : Fetches text l.fetch := by
  refine (fetches_dropStale (within_toNextToken hl)).bind fun l h => ?_
  have hunwind : (l.unwind l.cursor.column).cursor.Within text := (cursor_unwind ..).symm ▸ h
  cases hpeek : (l.unwind l.cursor.column).cursor.peek with
  | none =>
    simp only [hpeek]
    exact fetches_end hunwind
  | some ch =>
    simp only [hpeek]
    exact fetches_at hunwind hpeek

/-- Tokens end with an error of the text. -/
lemma run_error {n certain : Nat} (hl : l.cursor.Within text) :
    ∀ e ∈ (run n l certain).error, e.IsLexical text := by
  -- By induction on the bound: behind each token the cursor is inside the text again.
  induction n generalizing l certain with
  | zero =>
    rintro e ⟨⟩
    exact isLexical_invalid text
  | succ n ih =>
    have hfetch := fetches_fetch hl
    unfold run
    cases hnext : l.fetch with
    | error e =>
      rintro e' ⟨⟩
      exact hfetch.of_eq_error hnext
    | ok next =>
      rw [hnext] at hfetch
      have hstale := fetches_dropStale (l := next) hfetch
      simp only
      split_ifs
      · exact nofun
      · cases hdrop : next.dropStale with
        | error e =>
          rintro e' ⟨⟩
          exact hstale.of_eq_error hdrop
        | ok next' =>
          rw [hdrop] at hstale
          exact ih hstale

end Lexer

/-- **The tokens of a text end with a fault only if it stands in the text.** -/
theorem lexicalFault_of_tokens {text : List Char} {f : Fault}
    (h : (tokens text).error = some (.fault f)) : LexicalFault text f :=
  Lexer.run_error (l := .ofText text) (List.suffix_refl text) _ h f rfl

end CwlDescriptor.Yaml
