import CwlDescriptor.Proofs.Dot.Reading
import CwlDescriptor.Proofs.Numerals
import Mathlib.Data.List.TakeWhile
set_option autoImplicit false

/-!
# Identifiers of the DOT language

What an identifier that was written is read as. Words and numbers that are written as they stand
lose a line feed at their end. Between quotes a text is read as it was if nothing in it was escaped
already: a quote with a backslash before it loses the backslash, and one before a line feed takes it
away. One at the end hides the closing quote, so that the text is not read as one identifier. Text
between angle brackets that is written as it stands has to have its brackets in pairs.

## Main definitions

* `isEscapable`, `isBalanced`: texts that can be written between quotes and between angle brackets.
* `isClosed`: texts that do not hide the closing quote.
* `Enclosed`: texts that are read as one identifier.
* `unquoted`, `identifier`: what a text is read as.

## Main results

* `Enclosed.spells_quote`: an enclosed text is read as one identifier.
* `unquoted_of_isEscapable`: a text in which nothing was escaped is read as it was.
-/

namespace CwlDescriptor.Dot

/-- The backslashes before a quote, a line feed or the end of the text come in pairs; `slashes` is
the number of backslashes in front of the text. -/
def isEscapable (slashes : Nat) : List Char → Bool
  | [] => slashes % 2 = 0
  | c :: rest =>
    if c = '\\' then isEscapable (slashes + 1) rest
    else (slashes % 2 = 0 || !(c = '"' || c = '\n')) && isEscapable 0 rest

/-- The backslashes at the end of the text come in pairs; `slashes` is the number of backslashes in
front of the text. -/
def isClosed (slashes : Nat) : List Char → Bool
  | [] => slashes % 2 = 0
  | c :: rest => isClosed (if c = '\\' then slashes + 1 else 0) rest

/-- The angle brackets come in pairs and the last one closes at the end of the text; `depth` is the
number of brackets that are still open in front of the text, besides the first one. -/
def isBalanced : Nat → List Char → Bool
  | _, [] => false
  | depth, c :: rest =>
    if c = '<' then isBalanced (depth + 1) rest
    else if c = '>' then match depth with
      | 0 => rest.isEmpty
      | depth + 1 => isBalanced depth rest
    else isBalanced depth rest

/-- Texts that are read as one identifier. -/
structure Enclosed (s : List Char) : Prop where
  closed : isBare s = false → isClosed 0 s = true
  balanced : isMarkup s = true → isBalanced 0 (dropLineFeed s).tail = true
  keyword : ∀ word, s = word ++ ['\n'] → keywords.contains (String.ofList (Text.lower word)) = false

/-- What a text between quotes is read as; `slashes` is the number of backslashes in front of the
text, of which the last one has not been read if there is an odd number. -/
def unquoted (slashes : Nat) : List Char → List Char
  | [] => []
  | c :: rest =>
    if c = '\\' then
      if slashes % 2 = 0 then unquoted (slashes + 1) rest
      else '\\' :: '\\' :: unquoted (slashes + 1) rest
    else if slashes % 2 = 0 || c = '"' then c :: unquoted 0 rest
    else if c = '\n' then unquoted 0 rest
    else '\\' :: c :: unquoted 0 rest

/-- What a text is read as. -/
def identifier (s : List Char) : Token :=
  if isMarkup s then .markup (String.ofList (dropLineFeed s))
  else if isBare s then .name (String.ofList (dropLineFeed s))
  else .name (String.ofList (unquoted 0 s))

/-- Characters of words that are written as they stand. -/
def isWordCharacter (c : Char) : Bool := c.isAlphanum || c = '_'

/-- Names of steps that can be read again, as the label of a node and, behind the prefix, as the
node and as the end of an edge. -/
structure Drawable (s : List Char) : Prop where
  escapable : isEscapable 0 s = true
  balanced : isMarkup s = true → isBalanced 0 (dropLineFeed s).tail = true
  colon : ':' ∉ s
  lineFeed : ∀ word, s = word ++ ['\n'] → ¬ ∀ c ∈ word, isWordCharacter c = true

/-! ## Words and numbers -/

section Bare

variable {s rest digits : List Char} {c : Char}

/-- A character of a word is a letter or a digit in the sense of the reader. -/
private lemma isLetter_or_isDigit (h : isWordCharacter c = true) :
    (isLetter c || c.isDigit) = true := by
  simp only [isWordCharacter, Char.isAlphanum, isLetter, Bool.or_eq_true] at h ⊢
  tauto

/-- A letter or a digit is no blank. -/
private lemma not_isSpace (h : (isLetter c || c.isDigit) = true) : isSpace c = false := by
  rw [← Bool.not_eq_true]
  intro hspace
  simp only [isSpace, Bool.or_eq_true, decide_eq_true_eq] at hspace
  rcases hspace with ((rfl | rfl) | rfl) | rfl <;> exact absurd h (by decide)

/-- A digit is no letter. -/
private lemma not_isLetter (h : c.isDigit = true) : isLetter c = false :=
  Text.forall_ascii (p := fun c => c.isDigit = true → isLetter c = false) (by decide)
    (Text.toNat_lt_of_isDigit h) h

/-- The rest of a word is read up to its end. -/
private lemma run_word (seen : List Char) (h : ∀ c ∈ rest, isWordCharacter c = true) :
    (Lexing.word seen).run rest = some ([], .word (seen ++ rest)) := by
  induction rest generalizing seen with
  | nil => simp [Lexing.run]
  | cons c rest ih =>
    have hstep : (Lexing.word seen).step c = some ([], .word (seen ++ [c])) :=
      if_pos (isLetter_or_isDigit (h c List.mem_cons_self))
    rw [Lexing.run_cons hstep, ih _ fun c hc => h c (List.mem_cons_of_mem _ hc)]
    simp

/-- The rest of a number is read up to its end. -/
private lemma run_numeral (seen : List Char) (dotted : Bool) (h : ∀ c ∈ digits, c.isDigit = true) :
    (Lexing.numeral seen dotted).run digits = some ([], .numeral (seen ++ digits) dotted) := by
  induction digits generalizing seen with
  | nil => simp [Lexing.run]
  | cons c digits ih =>
    have hstep : (Lexing.numeral seen dotted).step c = some ([], .numeral (seen ++ [c]) dotted) :=
      if_pos (h c List.mem_cons_self)
    rw [Lexing.run_cons hstep, ih _ fun c hc => h c (List.mem_cons_of_mem _ hc)]
    simp

/-- What is read up to the inside of a token is read with the token, if a character that delimits it
follows. -/
private lemma spells_of_run {l : Lexing} {t : Token} (h : Lexing.between.run s = some ([], l))
    (hend : ∀ c, Delimits c → l.step c = Lexing.ending t c) : Spells s [t] := by
  intro c hc
  rw [Lexing.run_append h, Lexing.run_singleton, hend c hc, Lexing.ending, Option.map_map]
  rfl

/-- A name is read as one word. -/
lemma spells_word (h : isName s = true) : Spells s [wordToken s] := by
  cases s with
  | nil => cases h
  | cons c rest =>
    simp only [isName, Bool.and_eq_true, List.all_eq_true] at h
    have hletter : isLetter c = true := by
      have := h.1
      simp only [isLetter, Bool.or_eq_true] at this ⊢
      tauto
    have hspace : isSpace c = false := not_isSpace (by simp [hletter])
    have hstart : Lexing.between.step c = some ([], .word [c]) := by
      simp [Lexing.step, Lexing.start, hspace, hletter]
    refine spells_of_run (l := .word (c :: rest)) ?_ fun d hd => ?_
    · rw [Lexing.run_cons hstart, run_word _ fun c hc => h.2 c hc]
      rfl
    · simp [Lexing.step, hd.1, hd.2.1]

/-- A number may begin with a digit. -/
private lemma step_between_digit (h : c.isDigit = true) :
    Lexing.between.step c = some ([], .numeral [c] false) := by
  have hspace : isSpace c = false := not_isSpace (by simp [h])
  simp [Lexing.step, Lexing.start, hspace, not_isLetter h, h]

/-- A number may begin with a minus. -/
private lemma step_minus_digit (h : c.isDigit = true) :
    Lexing.minus.step c = some ([], .numeral ['-', c] false) := by
  have hne : c ≠ '>' := by
    rintro rfl
    cases h
  simp [Lexing.step, hne, h]

/-- The digits of a number and its point are read, from where a number begins or its sign has been
read. -/
private lemma run_isNumeral {l : Lexing} (sign : List Char)
    (hdigit : ∀ c, c.isDigit = true → l.step c = some ([], .numeral (sign ++ [c]) false))
    (hpoint : l.step '.' = some ([], .point (sign ++ ['.'])))
    (h : (match s.drop (s.takeWhile Char.isDigit).length with
      | [] => !(s.takeWhile Char.isDigit).isEmpty
      | '.' :: fraction => fraction.all Char.isDigit &&
        (!(s.takeWhile Char.isDigit).isEmpty || !fraction.isEmpty)
      | _ => false) = true) :
    ∃ dotted, l.run s = some ([], .numeral (sign ++ s) dotted) := by
  obtain ⟨rest, hsplit⟩ := List.takeWhile_prefix Char.isDigit (l := s)
  have hwhole : ∀ c ∈ s.takeWhile Char.isDigit, c.isDigit = true :=
    fun c hc => List.mem_takeWhile_imp hc
  generalize s.takeWhile Char.isDigit = whole at h hsplit hwhole
  subst hsplit
  rw [List.drop_left] at h
  have hdigits : ∀ {c : Char} {ds : List Char}, whole = c :: ds →
      l.run whole = some ([], .numeral (sign ++ whole) false) := by
    rintro c ds rfl
    rw [Lexing.run_cons (hdigit c (hwhole c List.mem_cons_self)),
      run_numeral _ _ fun d hd => hwhole d (List.mem_cons_of_mem c hd), List.append_assoc]
    rfl
  rcases rest with _ | ⟨c, fraction⟩
  · rcases whole with _ | ⟨c, ds⟩
    · cases h
    · exact ⟨false, by rw [List.append_nil]; exact hdigits rfl⟩
  · obtain rfl : c = '.' := by
      by_contra hne
      simp [hne] at h
    simp only [Bool.and_eq_true, List.all_eq_true] at h
    refine ⟨true, ?_⟩
    rcases whole with _ | ⟨d, ds⟩
    · rcases fraction with _ | ⟨d, ds⟩
      · simp at h
      · have hstep : (Lexing.point (sign ++ ['.'])).step d =
            some ([], .numeral (sign ++ ['.'] ++ [d]) true) := if_pos (h.1 d List.mem_cons_self)
        rw [List.nil_append, Lexing.run_cons hpoint, Lexing.run_cons hstep,
          run_numeral _ _ fun d hd => h.1 d (List.mem_cons_of_mem _ hd)]
        simp
    · have hstep : (Lexing.numeral (sign ++ d :: ds) false).step '.' =
          some ([], .numeral (sign ++ d :: ds ++ ['.']) true) := rfl
      rw [Lexing.run_append (hdigits rfl), Lexing.run_cons hstep, run_numeral _ _ h.1]
      simp

/-- A number is read as one name. -/
private lemma spells_numeral (h : isNumeral s = true) : Spells s [.name (String.ofList s)] := by
  obtain ⟨dotted, hrun⟩ : ∃ dotted, Lexing.between.run s = some ([], .numeral s dotted) := by
    rcases s with _ | ⟨c, rest⟩
    · cases h
    · by_cases hminus : c = '-'
      · subst hminus
        have hstep : Lexing.between.step '-' = some ([], .minus) := rfl
        rw [Lexing.run_cons hstep]
        exact run_isNumeral ['-'] (fun c hc => step_minus_digit hc) rfl h
      · refine run_isNumeral [] (fun c hc => step_between_digit hc) rfl ?_
        unfold isNumeral at h
        split at h
        · next hcons => exact absurd (List.cons.inj hcons).1 hminus
        · exact h
  refine spells_of_run hrun fun c hc => ?_
  simp [Lexing.step, hc.2.1, hc.2.2]

/-- A line feed at the end of a text is the only thing that is dropped. -/
private lemma dropLineFeed_cases (s : List Char) :
    s = dropLineFeed s ++ ['\n'] ∨ s = dropLineFeed s := by
  unfold dropLineFeed
  split_ifs with hlast
  · exact .inl (List.dropLast_append_getLast? '\n' hlast).symm
  · exact .inr rfl

/-- A line feed at the end of a text is passed over. -/
private lemma spells_of_dropLineFeed {ts : List Token} (h : Spells (dropLineFeed s) ts) :
    Spells s ts := by
  rcases dropLineFeed_cases s with hs | hs
  · have hreads := h.reads (c := '\n') (by decide) rfl
    rw [← hs, List.append_nil] at hreads
    exact hreads.spells
  · rwa [← hs] at h

end Bare

/-! ## Text between angle brackets -/

/-- A text in which the brackets are balanced is read as markup up to its last bracket. -/
private lemma run_markup {s : List Char} {depth : Nat} (seen : List Char)
    (h : isBalanced depth s = true) : (Lexing.markup depth seen).run s =
      some ([.markup (String.ofList (seen ++ s))], .between) := by
  induction s generalizing depth seen with
  | nil => cases h
  | cons c s ih =>
    have hseen : seen ++ c :: s = (seen ++ [c]) ++ s := by simp
    rw [hseen]
    unfold isBalanced at h
    split_ifs at h with hopen hclose
    · have hstep : (Lexing.markup depth seen).step c =
          some ([], .markup (depth + 1) (seen ++ [c])) := by simp [Lexing.step, hopen]
      rw [Lexing.run_cons hstep, ih _ h]
    · cases depth with
      | zero =>
        obtain rfl := List.isEmpty_iff.1 h
        simp [Lexing.run_singleton, Lexing.step, hclose]
      | succ depth =>
        have hstep : (Lexing.markup (depth + 1) seen).step c =
            some ([], .markup depth (seen ++ [c])) := by simp [Lexing.step, hclose]
        rw [Lexing.run_cons hstep, ih _ h]
    · have hstep : (Lexing.markup depth seen).step c = some ([], .markup depth (seen ++ [c])) := by
        simp [Lexing.step, hopen, hclose]
      rw [Lexing.run_cons hstep, ih _ h]

/-! ## Text between quotes -/

/-- Behind a number of backslashes between quotes. -/
def Lexing.behind (seen : List Char) (slashes : Nat) : Lexing :=
  if slashes % 2 = 0 then .quoted seen else .escaped seen

/-- A text that does not hide the closing quote is read up to it. -/
private lemma run_escapeQuotes {s : List Char} {slashes : Nat} (seen : List Char)
    (h : isClosed slashes s = true) :
    (Lexing.behind seen slashes).run (escapeQuotes slashes s ++ ['"']) =
      some ([.name (String.ofList (seen ++ unquoted slashes s))], .between) := by
  induction s generalizing slashes seen with
  | nil =>
    have heven : slashes % 2 = 0 := of_decide_eq_true h
    simp [escapeQuotes, unquoted, Lexing.behind, heven, Lexing.run_singleton, Lexing.step]
  | cons c s ih =>
    unfold isClosed at h
    by_cases hslash : c = '\\'
    · subst hslash
      have hih := fun seen => ih seen (show isClosed (slashes + 1) s = true from h)
      rcases Nat.mod_two_eq_zero_or_one slashes with hmod | hmod
      · have hnext : (slashes + 1) % 2 = 1 := by omega
        simpa [escapeQuotes, unquoted, Lexing.behind, hmod, hnext, Lexing.run, Lexing.step]
          using hih seen
      · have hnext : (slashes + 1) % 2 = 0 := by omega
        simpa [escapeQuotes, unquoted, Lexing.behind, hmod, hnext, Lexing.run, Lexing.step]
          using hih (seen ++ ['\\', '\\'])
    · rw [if_neg hslash] at h
      have hih := fun seen => ih seen h
      -- a quote gets a backslash if it has none, and behind a single one a line feed is lost
      rcases Nat.mod_two_eq_zero_or_one slashes with hmod | hmod <;> by_cases hquote : c = '"'
      · subst hquote
        simpa [escapeQuotes, unquoted, Lexing.behind, hmod, Lexing.run, Lexing.step]
          using hih (seen ++ ['"'])
      · simpa [escapeQuotes, unquoted, Lexing.behind, hmod, Lexing.run, Lexing.step, hquote, hslash]
          using hih (seen ++ [c])
      · subst hquote
        simpa [escapeQuotes, unquoted, Lexing.behind, hmod, Lexing.run, Lexing.step]
          using hih (seen ++ ['"'])
      · by_cases hlineFeed : c = '\n'
        · subst hlineFeed
          simpa [escapeQuotes, unquoted, Lexing.behind, hmod, Lexing.run, Lexing.step]
            using hih seen
        · simpa [escapeQuotes, unquoted, Lexing.behind, hmod, Lexing.run, Lexing.step, hquote,
            hlineFeed, hslash] using hih (seen ++ ['\\', c])

/-- A text in which nothing was escaped is read as it was, with a backslash in front of it that has
not been read. -/
lemma unquoted_of_isEscapable {s : List Char} {slashes : Nat} (h : isEscapable slashes s = true) :
    unquoted slashes s = List.replicate (slashes % 2) '\\' ++ s := by
  induction s generalizing slashes with
  | nil =>
    have heven : slashes % 2 = 0 := of_decide_eq_true h
    simp [unquoted, heven]
  | cons c s ih =>
    unfold isEscapable at h
    by_cases hslash : c = '\\'
    · rw [if_pos hslash] at h
      rcases Nat.mod_two_eq_zero_or_one slashes with hmod | hmod
      · have hnext : (slashes + 1) % 2 = 1 := by omega
        simp [unquoted, hslash, hmod, ih h, hnext]
      · have hnext : (slashes + 1) % 2 = 0 := by omega
        simp [unquoted, hslash, hmod, ih h, hnext]
    · rw [if_neg hslash, Bool.and_eq_true] at h
      rcases Nat.mod_two_eq_zero_or_one slashes with hmod | hmod
      · simp [unquoted, hslash, hmod, ih h.2]
      · have hplain : c ≠ '"' ∧ c ≠ '\n' := by simpa [hmod] using h.1
        simp [unquoted, hslash, hmod, ih h.2, hplain]

/-- A text in which nothing was escaped does not hide the closing quote. -/
lemma isClosed_of_isEscapable {s : List Char} {slashes : Nat} (h : isEscapable slashes s = true) :
    isClosed slashes s = true := by
  induction s generalizing slashes with
  | nil => exact h
  | cons c s ih =>
    unfold isEscapable at h
    unfold isClosed
    split_ifs at h ⊢
    · exact ih h
    · exact ih (Bool.and_eq_true_iff.1 h).2

/-- What is written between angle brackets is read with them. -/
private lemma reads_markup {s : List Char} (h : isMarkup s = true)
    (hbalanced : isBalanced 0 (dropLineFeed s).tail = true) :
    Reads (dropLineFeed s) [.markup (String.ofList (dropLineFeed s))] := by
  simp only [isMarkup, Bool.and_eq_true, decide_eq_true_eq] at h
  obtain ⟨⟨hhead, hlength⟩, -⟩ := h
  obtain ⟨u, hu⟩ : ∃ u, dropLineFeed s = '<' :: u := by
    rcases hdrop : dropLineFeed s with _ | ⟨c, u⟩
    · rw [hdrop] at hlength
      cases hlength
    · rcases dropLineFeed_cases s with hs | hs <;> rw [hs, hdrop] at hhead <;>
        exact ⟨u, congrArg (· :: u) (Option.some.inj hhead)⟩
  rw [hu] at hbalanced ⊢
  have hstep : Lexing.between.step '<' = some ([], .markup 0 ['<']) := rfl
  rw [Reads, Lexing.run_cons hstep, run_markup (s := u) _ hbalanced]
  rfl

/-! ## Identifiers -/

/-- What a text is read as is a name or text between angle brackets. -/
lemma identifier_cases (s : List Char) : ∃ text, identifier s = .name text ∨
    identifier s = .markup text := by
  unfold identifier
  split_ifs
  · exact ⟨_, .inr rfl⟩
  · exact ⟨_, .inl rfl⟩
  · exact ⟨_, .inl rfl⟩

/-- An enclosed text is read as one identifier, whatever follows that is no part of a word. -/
lemma Enclosed.spells_quote {s : List Char} (h : Enclosed s) : Spells (quote s) [identifier s] := by
  unfold quote identifier
  by_cases hmarkup : isMarkup s = true
  · have hbare : isBare s = true := by simp [isBare, hmarkup]
    rw [if_pos hbare, if_pos hmarkup]
    exact spells_of_dropLineFeed (reads_markup hmarkup (h.balanced hmarkup)).spells
  rw [if_neg hmarkup]
  by_cases hbare : isBare s = true
  · rw [if_pos hbare, if_pos hbare]
    refine spells_of_dropLineFeed ?_
    simp only [isBare, hmarkup, Bool.false_or, Bool.and_eq_true, Bool.or_eq_true,
      Bool.not_eq_true'] at hbare
    obtain ⟨hname | hnumeral, hkeyword⟩ := hbare
    · have hword : keywords.contains (String.ofList (Text.lower (dropLineFeed s))) = false := by
        rcases dropLineFeed_cases s with hs | hs
        · exact h.keyword _ hs
        · rwa [← hs]
      have htoken : wordToken (dropLineFeed s) = .name (String.ofList (dropLineFeed s)) := by
        rw [wordToken, hword, if_neg Bool.false_ne_true]
      exact htoken ▸ spells_word hname
    · exact spells_numeral hnumeral
  · rw [if_neg hbare, if_neg hbare]
    refine Reads.spells ?_
    have hstep : Lexing.between.step '"' = some ([], .behind [] 0) := rfl
    rw [Reads, List.cons_append, Lexing.run_cons hstep,
      run_escapeQuotes [] (h.closed (by simpa using hbare))]
    rfl

/-! ## Names of nodes -/

/-- A character with a small letter is one of a word. -/
private lemma isWordCharacter_of_toLower {c : Char} (h : c.toLower.isLower = true) :
    isWordCharacter c = true := by
  suffices hletter : c.isUpper = true ∨ c.isLower = true by
    have halpha : c.isAlpha = true := Bool.or_eq_true_iff.2 hletter
    simp [isWordCharacter, Char.isAlphanum, halpha]
  unfold Char.toLower at h
  split_ifs at h with hupper
  · exact .inl (decide_eq_true hupper)
  · exact .inr h

/-- All characters of a keyword have small letters. -/
private lemma isLower_of_keyword {word : List Char} {c : Char}
    (h : keywords.contains (String.ofList (Text.lower word)) = true) (hc : c ∈ word) :
    c.toLower.isLower = true := by
  have hlower : ∀ word ∈ keywords, word.toList.all Char.isLower = true := by decide
  refine List.all_eq_true.1 (hlower _ (List.contains_iff_mem.1 h)) _ ?_
  rw [String.toList_ofList]
  exact List.mem_map_of_mem hc

namespace Drawable

variable {s : List Char} (h : Drawable s)

include h

/-- The label of a step is read as one identifier. -/
lemma enclosed : Enclosed s := by
  refine ⟨fun _ => isClosed_of_isEscapable h.escapable, h.balanced, fun word hs => ?_⟩
  rw [← Bool.not_eq_true]
  intro hkeyword
  exact h.lineFeed word hs fun c hc => isWordCharacter_of_toLower (isLower_of_keyword hkeyword hc)

/-- The node of a step is read as one identifier. -/
lemma enclosed_node : Enclosed (nodePrefix.toList ++ s) where
  closed _ := isClosed_of_isEscapable h.escapable
  balanced hmarkup := absurd hmarkup (Bool.false_ne_true ·)
  keyword word hs := by
    rw [← Bool.not_eq_true]
    intro hkeyword
    have hmem : '_' ∈ word := by
      have hprefix : '_' ∈ word ++ ['\n'] := hs ▸ List.mem_append_left s (by decide)
      simpa using hprefix
    exact absurd (isLower_of_keyword hkeyword hmem) (by decide)

omit h in

/-- A name consists of characters of words. -/
private lemma isWordCharacter_of_isName (h : isName s = true) :
    ∀ c ∈ s, isWordCharacter c = true := by
  cases s with
  | nil => cases h
  | cons c rest =>
    simp only [isName, Bool.and_eq_true, List.all_eq_true] at h
    refine List.forall_mem_cons.2 ⟨?_, h.2⟩
    have hfirst := h.1
    simp only [isWordCharacter, Char.isAlphanum, Bool.or_eq_true] at hfirst ⊢
    tauto

/-- The node of a step is read as it is. -/
lemma identifier_node :
    identifier (nodePrefix.toList ++ s) = .name (String.ofList (nodePrefix.toList ++ s)) := by
  have hmarkup : isMarkup (nodePrefix.toList ++ s) = false := rfl
  rw [identifier, hmarkup, if_neg Bool.false_ne_true]
  split_ifs with hbare
  · rcases dropLineFeed_cases (nodePrefix.toList ++ s) with hs | hs
    · -- A word that is written as it stands would lose its line feed.
      obtain ⟨word, rfl⟩ : ∃ word, s = word ++ ['\n'] := by
        rcases s.eq_nil_or_concat with rfl | ⟨word, c, rfl⟩
        · exact absurd hs (by decide)
        · rw [List.concat_eq_append, ← List.append_assoc] at hs
          exact ⟨word, by rw [List.concat_eq_append, (List.append_inj' hs rfl).2]⟩
      rw [← List.append_assoc] at hs
      have hdrop := List.append_cancel_right hs
      have hnumeral : isNumeral (nodePrefix.toList ++ word) = false := rfl
      have hname : isName (nodePrefix.toList ++ word) = true := by
        rw [isBare, hmarkup, ← List.append_assoc, ← hdrop, hnumeral, Bool.false_or, Bool.or_false,
          Bool.and_eq_true] at hbare
        exact hbare.1
      exact absurd (fun c hc => isWordCharacter_of_isName hname c (List.mem_append_right _ hc))
        (h.lineFeed word rfl)
    · rw [← hs]
  · have hescapable : isEscapable 0 (nodePrefix.toList ++ s) = true := h.escapable
    rw [unquoted_of_isEscapable hescapable]
    rfl

end Drawable

end CwlDescriptor.Dot
