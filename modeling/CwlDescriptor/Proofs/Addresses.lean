import CwlDescriptor.Proofs.Discovery
import Mathlib.Data.List.TakeWhile
import Mathlib.Tactic
set_option autoImplicit false

/-!
# Addresses of the web among the references

A reference is a path, unless it is an address of the web. Discovery takes it for an address if it
has the form of one: a scheme in any case, and a location without blanks behind it. Expansion looks
at the scheme only, and only if it is in lower case. So the two of them differ on addresses with
another spelling of the scheme, for which expansion looks for a file, and on schemes in lower case
with something behind them that is no location, for which discovery does. All other references are
read alike.

## Main definitions

* `Reference.IsScheme`, `Reference.IsPlainScheme`, `Reference.IsLocation`: the two parts of an
  address.
* `Reference.IsAddress`, `Reference.IsMisspelled`, `Reference.IsMalformed`: addresses, and the
  references that are not read alike.
* `Reference.Denotes`: the path that a reference stands for.
* `Discovery.lookedUp?`, `Discovery.lookUp`: the path that discovery looks up, and what it does with
  it.

## Main results

* `Reference.isUrl_iff`: discovery recognizes addresses by their form.
* `Reference.target?_eq_some_iff`, `Discovery.lookedUp?_eq_some_iff`: the path that each of the two
  finds.
* `Reference.target?_eq_lookedUp?_iff`: the references that are read alike.
-/

namespace CwlDescriptor

namespace Reference

variable {scheme scheme' location location' : List Char}

/-! ## The form of an address -/

/-- The beginning of an address, in any case. -/
def IsScheme (scheme : List Char) : Prop :=
  scheme.map foldLetter = "http://".toList ∨ scheme.map foldLetter = "https://".toList

/-- The beginning of an address in lower case. -/
def IsPlainScheme (scheme : List Char) : Prop :=
  scheme = "http://".toList ∨ scheme = "https://".toList

/-- What may stand behind a scheme: a first character that may begin a host, and no blanks but
perhaps a line feed at the end. -/
def IsLocation (location : List Char) : Prop :=
  ∃ first rest ending, location = first :: rest ++ ending ∧ first ∉ "/$.?#".toList ∧
    (∀ c ∈ first :: rest, Text.isBlank c = false) ∧ (ending = [] ∨ ending = ['\n'])

/-- An address of the web. -/
def IsAddress (reference : List Char) : Prop :=
  ∃ scheme location, IsScheme scheme ∧ IsLocation location ∧ reference = scheme ++ location

/-- The plain beginnings of an address are among those in any spelling. -/
private lemma IsPlainScheme.isScheme (h : IsPlainScheme scheme) : IsScheme scheme := by
  rcases h with rfl | rfl
  · exact .inl (by decide)
  · exact .inr (by decide)

/-- A spelling of a text has the length of this text. -/
private lemma length_of_map_foldLetter {start : String} (h : scheme.map foldLetter = start.toList) :
    scheme.length = start.length := by
  rw [← List.length_map (f := foldLetter), h, String.length_toList]

/-- A scheme is found in front of anything. The shorter scheme is no beginning of the longer one, so
that it does not matter which of them is tried first. -/
private lemma dropScheme?_append (h : IsScheme scheme) (location : List Char) :
    dropScheme? (scheme ++ location) = some location := by
  unfold dropScheme?
  rcases h with h | h
  · have hlength := length_of_map_foldLetter h
    have hdrop : (scheme ++ location).drop 7 = location := List.drop_left' hlength
    simp only [← hlength, List.take_left, h, decide_true, if_true, hdrop]
  · have hlength := length_of_map_foldLetter h
    have hdrop : (scheme ++ location).drop 8 = location := List.drop_left' hlength
    have hshort : ((scheme ++ location).take "http://".length).map foldLetter ≠
        "http://".toList := by
      rw [List.take_append_of_le_length (by rw [hlength]; decide), List.map_take, h]
      decide
    simp only [hshort, ← hlength, List.take_left, h, decide_true, decide_false, if_true, hdrop]
    rfl

/-- The location behind the scheme of an address is what is left without one of its beginnings. -/
private lemma dropScheme?_eq_some_iff {reference : List Char} :
    dropScheme? reference = some location ↔
      ∃ scheme, IsScheme scheme ∧ reference = scheme ++ location := by
  constructor
  · intro h
    simp only [dropScheme?, decide_eq_true_eq] at h
    split_ifs at h with hshort hlong
    · cases h
      exact ⟨_, .inl hshort, (List.take_append_drop 7 reference).symm⟩
    · cases h
      exact ⟨_, .inr hlong, (List.take_append_drop 8 reference).symm⟩
  · rintro ⟨scheme, hscheme, rfl⟩
    exact dropScheme?_append hscheme location

/-- A reference begins with one scheme at most. -/
private lemma IsScheme.append_inj (h : IsScheme scheme) (h' : IsScheme scheme')
    (heq : scheme ++ location = scheme' ++ location') :
    scheme = scheme' ∧ location = location' := by
  have hdrop := dropScheme?_append h location
  rw [heq, dropScheme?_append h' location', Option.some_inj] at hdrop
  subst hdrop
  exact ⟨List.append_cancel_right heq, rfl⟩

/-- A location is read without the line feed at its end. -/
private lemma isLocation_iff : IsLocation location ↔
    ∃ first rest, (if location.getLast? = some '\n' then location.dropLast else location) =
      first :: rest ∧ first ∉ "/$.?#".toList ∧ ∀ c ∈ first :: rest, Text.isBlank c = false := by
  constructor
  · rintro ⟨first, rest, ending, rfl, hfirst, hblank, hending⟩
    refine ⟨first, rest, ?_, hfirst, hblank⟩
    rcases hending with rfl | rfl
    · have hlast : (first :: rest).getLast? ≠ some '\n' := by
        intro h
        exact absurd (hblank _ (List.mem_of_getLast? h)) (by decide)
      rw [List.append_nil, if_neg hlast]
    · rw [List.getLast?_concat, if_pos rfl, List.dropLast_concat]
  · rintro ⟨first, rest, hcut, hfirst, hblank⟩
    split_ifs at hcut with hlast
    · refine ⟨first, rest, ['\n'], ?_, hfirst, hblank, .inr rfl⟩
      rw [← hcut]
      exact (List.dropLast_append_getLast? _ hlast).symm
    · exact ⟨first, rest, [], by rw [hcut, List.append_nil], hfirst, hblank, .inl rfl⟩

/-- **Discovery recognizes addresses by their form.** -/
theorem isUrl_iff {reference : String} : isUrl reference = true ↔ IsAddress reference.toList := by
  unfold isUrl IsAddress
  cases hdrop : dropScheme? reference.toList with
  | none =>
    refine iff_of_false (by simp) ?_
    rintro ⟨scheme, location, hscheme, -, heq⟩
    rw [heq, dropScheme?_append hscheme] at hdrop
    cases hdrop
  | some location =>
    obtain ⟨scheme, hscheme, heq⟩ := dropScheme?_eq_some_iff.1 hdrop
    -- no other scheme has to be considered
    have hlocation : (∃ scheme' location', IsScheme scheme' ∧ IsLocation location' ∧
        reference.toList = scheme' ++ location') ↔ IsLocation location := by
      constructor
      · rintro ⟨scheme', location', hscheme', hlocation', heq'⟩
        rwa [(hscheme.append_inj hscheme' (heq.symm.trans heq')).2]
      · exact fun h => ⟨scheme, location, hscheme, h, heq⟩
    rw [hlocation, isLocation_iff]
    cases haddress : if location.getLast? = some '\n' then location.dropLast else location with
    | nil => simp [haddress]
    | cons first rest => simp [haddress]

/-! ## The path of a reference -/

/-- What is left behind a beginning is the rest of the text. -/
private lemma dropStart?_eq_some_iff {start reference : String} {rest : List Char} :
    dropStart? start reference = some rest ↔ reference.toList = start.toList ++ rest := by
  unfold dropStart?
  rw [List.isPrefixOf?_eq_some_iff_append_eq, eq_comm]

/-- The path that a reference stands for: the scheme of a file and all slashes behind it are one
slash, and any other reference is a path already. -/
inductive Denotes (reference : List Char) : List Char → Prop
  | file {slashes rest : List Char} (heq : reference = "file:".toList ++ (slashes ++ rest))
    (hslashes : ∀ c ∈ slashes, c = '/') (hrest : rest.head? ≠ some '/') :
    Denotes reference ('/' :: rest)
  | path (h : ¬ "file:".toList <+: reference) : Denotes reference reference

/-- The slashes in front of a rest without any are those that are dropped. -/
private lemma dropWhile_slashes {slashes rest : List Char} (hslashes : ∀ c ∈ slashes, c = '/')
    (hrest : rest.head? ≠ some '/') : (slashes ++ rest).dropWhile (· = '/') = rest := by
  rw [List.dropWhile_append_of_pos (by simpa using hslashes)]
  cases rest with
  | nil => rfl
  | cons c rest =>
    rw [List.dropWhile_cons_of_neg]
    simpa using hrest

/-- Every reference stands for one path. -/
private lemma denotes_iff {reference : String} {path : List Char} :
    Denotes reference.toList path ↔ (asPath reference).toList = path := by
  unfold asPath
  cases hdrop : dropStart? "file:" reference with
  | none =>
    have hplain : ¬ "file:".toList <+: reference.toList := by
      rintro ⟨rest, hrest⟩
      rw [dropStart?_eq_some_iff.2 hrest.symm] at hdrop
      cases hdrop
    constructor
    · intro h
      cases h with
      | file heq => exact absurd ⟨_, heq.symm⟩ hplain
      | path => rfl
    · rintro rfl
      exact .path hplain
  | some behind =>
    have hreference := dropStart?_eq_some_iff.1 hdrop
    rw [String.toList_ofList]
    constructor
    · intro h
      cases h with
      | file heq hslashes hrest =>
        rw [heq] at hreference
        rw [← List.append_cancel_left hreference, dropWhile_slashes hslashes hrest]
      | path h => exact absurd ⟨_, hreference.symm⟩ h
    · rintro rfl
      have hsplit := List.takeWhile_append_dropWhile (p := (· = '/')) (l := behind)
      refine .file (hreference.trans (by rw [hsplit])) (fun c hc => ?_) fun h => ?_
      · simpa using List.mem_takeWhile_imp hc
      · have hhead := List.head?_dropWhile_not (· = '/') behind
        rw [h] at hhead
        simp at hhead

/-- A reference names a path in one way only, that of `asPath`. -/
private lemma exists_denotes_iff {reference parent path : String} :
    (∃ child, Denotes reference.toList child ∧ path = Path.resolve parent (String.ofList child)) ↔
      path = Path.resolve parent (asPath reference) := by
  constructor
  · rintro ⟨child, hchild, rfl⟩
    rw [← denotes_iff.1 hchild, String.ofList_toList]
  · rintro rfl
    exact ⟨_, denotes_iff.2 rfl, by rw [String.ofList_toList]⟩

/-! ## What expansion takes for an address -/

/-- A text that begins with a scheme in lower case. -/
def BeginsPlain (reference : List Char) : Prop :=
  ∃ scheme rest, IsPlainScheme scheme ∧ reference = scheme ++ rest

/-- An expansion takes for an address what begins plainly like one. -/
private lemma target?_eq_none_iff {reference parent : String} :
    target? reference parent = none ↔ BeginsPlain reference.toList := by
  have hstart : ((dropStart? "http://" reference).isSome ||
      (dropStart? "https://" reference).isSome) = true ↔ BeginsPlain reference.toList := by
    simp only [Bool.or_eq_true, Option.isSome_iff_exists, dropStart?_eq_some_iff, BeginsPlain,
      IsPlainScheme, or_and_right, exists_or, exists_and_left, exists_eq_left]
  unfold target?
  split_ifs with h
  · exact iff_of_true rfl (hstart.1 h)
  · exact iff_of_false (by simp) fun hplain => h (hstart.2 hplain)

/-- The path that expansion looks up for a reference. -/
theorem target?_eq_some_iff {reference parent path : String} :
    target? reference parent = some path ↔ ¬ BeginsPlain reference.toList ∧
      ∃ child, Denotes reference.toList child ∧
        path = Path.resolve parent (String.ofList child) := by
  have hnone : BeginsPlain reference.toList ↔ target? reference parent = none :=
    target?_eq_none_iff.symm
  rw [exists_denotes_iff, hnone]
  unfold target?
  split_ifs <;> simp [eq_comm]

/-! ## References that are not read alike -/

/-- An address whose scheme is not in lower case. -/
def IsMisspelled (reference : List Char) : Prop :=
  ∃ scheme location, IsScheme scheme ∧ ¬ IsPlainScheme scheme ∧ IsLocation location ∧
    reference = scheme ++ location

/-- A scheme in lower case with something behind it that is no location. -/
def IsMalformed (reference : List Char) : Prop :=
  ∃ scheme rest, IsPlainScheme scheme ∧ ¬ IsLocation rest ∧ reference = scheme ++ rest

/-- A reference is misspelled if it is an address whose beginning is not written plainly. -/
private lemma isMisspelled_iff {reference : List Char} :
    IsMisspelled reference ↔ IsAddress reference ∧ ¬ BeginsPlain reference := by
  constructor
  · rintro ⟨scheme, location, hscheme, hplain, hlocation, rfl⟩
    refine ⟨⟨scheme, location, hscheme, hlocation, rfl⟩, ?_⟩
    rintro ⟨scheme', rest, hscheme', heq⟩
    exact hplain ((hscheme.append_inj hscheme'.isScheme heq).1 ▸ hscheme')
  · rintro ⟨⟨scheme, location, hscheme, hlocation, rfl⟩, hplain⟩
    exact ⟨scheme, location, hscheme, fun h => hplain ⟨scheme, location, h, rfl⟩, hlocation, rfl⟩

/-- A reference is malformed if it begins plainly like an address, but is none. -/
private lemma isMalformed_iff {reference : List Char} :
    IsMalformed reference ↔ BeginsPlain reference ∧ ¬ IsAddress reference := by
  constructor
  · rintro ⟨scheme, rest, hplain, hrest, rfl⟩
    refine ⟨⟨scheme, rest, hplain, rfl⟩, ?_⟩
    rintro ⟨scheme', location, hscheme', hlocation, heq⟩
    exact hrest ((hplain.isScheme.append_inj hscheme' heq).2 ▸ hlocation)
  · rintro ⟨⟨scheme, rest, hplain, rfl⟩, haddress⟩
    exact ⟨scheme, rest, hplain, fun h => haddress ⟨scheme, rest, hplain.isScheme, h, rfl⟩, rfl⟩

/-- A reference that begins with a scheme of the web is a path as it stands. -/
private lemma asPath_of_isScheme {reference : String} (h : IsScheme scheme)
    (heq : reference.toList = scheme ++ location) : asPath reference = reference := by
  have hplain : ¬ "file:".toList <+: reference.toList := by
    rintro ⟨rest, hrest⟩
    have hhead : (reference.toList.map foldLetter).head? = some 'h' := by
      rw [heq, List.map_append]
      rcases h with h | h <;> rw [h] <;> rfl
    rw [← hrest] at hhead
    simp [foldLetter] at hhead
  have hpath := denotes_iff.1 (.path hplain)
  rw [String.toList_inj] at hpath
  exact hpath

end Reference

namespace Discovery

open Reference

variable {reference parent path : String}

/-! ## What discovery takes for an address -/

/-- The path that discovery looks up for a reference in the file at `parent`. -/
def lookedUp? (reference parent : String) : Option String :=
  if isUrl reference then none else some (Path.resolve parent (asPath reference))

/-- Looks up a path, unless this has been done before. -/
def lookUp (store : SourceStore) (d : Discovery) (path : String) : Discovery :=
  if path ∈ d.visited then { d with hasLocalImports := true }
  else { d with
    hasLocalImports := true
    visited := d.visited ++ [path]
    found := d.found ++ (store.file? path).toList
    queue := d.queue ++ (store.file? path).toList }

/-- Following a reference is noting an address, or looking up its path. -/
private lemma follow_eq_lookUp (store : SourceStore) (d : Discovery) (reference parent : String) :
    d.follow store parent reference =
      match lookedUp? reference parent with
      | none => { d with hasHttpImports := true }
      | some path => d.lookUp store path := by
  rw [show d.follow store parent reference = _ from follow_eq store ⟨parent, ""⟩ d reference]
  unfold lookedUp? lookUp
  cases isUrl reference <;> rfl

/-- Discovery takes for an address what is one. -/
private lemma lookedUp?_eq_none_iff :
    lookedUp? reference parent = none ↔ IsAddress reference.toList := by
  rw [← isUrl_iff]
  unfold lookedUp?
  split_ifs with h <;> simp [h]

/-- The path that discovery looks up for a reference. -/
theorem lookedUp?_eq_some_iff :
    lookedUp? reference parent = some path ↔ ¬ IsAddress reference.toList ∧
      ∃ child, Denotes reference.toList child ∧
        path = Path.resolve parent (String.ofList child) := by
  have hnone : IsAddress reference.toList ↔ lookedUp? reference parent = none :=
    lookedUp?_eq_none_iff.symm
  rw [exists_denotes_iff, hnone]
  unfold lookedUp?
  split_ifs <;> simp [eq_comm]

/-- **Expansion and discovery read references alike**, except for addresses whose scheme is not in
lower case, which expansion takes for paths, and for schemes in lower case with something behind
them that is no location, which discovery takes for paths. Discovery notes an address if there is no
path that it looks up, and otherwise it looks up this path.

**Proof sketch.** Where both of them find a path, it is that of the reference behind the scheme of a
file, if there is one. So they differ if just one of them takes the reference for an address: an
address does not begin with a scheme in lower case, or a text that does is no address. The reference
begins with a scheme of the web in both cases, so that the other one takes it as it stands. -/
theorem target?_eq_lookedUp?_iff (reference parent : String) :
    (target? reference parent = lookedUp? reference parent ↔
      ¬ IsMisspelled reference.toList ∧ ¬ IsMalformed reference.toList) ∧
    (lookedUp? reference parent = none ∧
        target? reference parent = some (Path.resolve parent reference) ↔
      IsMisspelled reference.toList) ∧
    (target? reference parent = none ∧
        lookedUp? reference parent = some (Path.resolve parent reference) ↔
      IsMalformed reference.toList) ∧
    ∀ (store : SourceStore) (d : Discovery), d.follow store parent reference =
      match lookedUp? reference parent with
      | none => { d with hasHttpImports := true }
      | some path => d.lookUp store path := by
  have hpath : BeginsPlain reference.toList ∨ IsAddress reference.toList →
      asPath reference = reference := by
    rintro (⟨scheme, rest, hscheme, heq⟩ | ⟨scheme, location, hscheme, -, heq⟩)
    · exact asPath_of_isScheme hscheme.isScheme heq
    · exact asPath_of_isScheme hscheme heq
  have hexpansion : ¬ BeginsPlain reference.toList →
      target? reference parent = some (Path.resolve parent (asPath reference)) :=
    fun h => target?_eq_some_iff.2 ⟨h, exists_denotes_iff.2 rfl⟩
  have hdiscovery : ¬ IsAddress reference.toList →
      lookedUp? reference parent = some (Path.resolve parent (asPath reference)) :=
    fun h => lookedUp?_eq_some_iff.2 ⟨h, exists_denotes_iff.2 rfl⟩
  rw [isMisspelled_iff, isMalformed_iff]
  refine ⟨?_, ?_, ?_, fun store d => follow_eq_lookUp store d reference parent⟩
  · by_cases hplain : BeginsPlain reference.toList <;>
      by_cases haddress : IsAddress reference.toList
    · simp [target?_eq_none_iff.2 hplain, lookedUp?_eq_none_iff.2 haddress, hplain, haddress]
    · simp [target?_eq_none_iff.2 hplain, hdiscovery haddress, hplain, haddress]
    · simp [hexpansion hplain, lookedUp?_eq_none_iff.2 haddress, hplain, haddress]
    · simp [hexpansion hplain, hdiscovery haddress, hplain, haddress]
  · constructor
    · rintro ⟨hnone, hsome⟩
      exact ⟨lookedUp?_eq_none_iff.1 hnone, (target?_eq_some_iff.1 hsome).1⟩
    · rintro ⟨haddress, hplain⟩
      have hsome := hexpansion hplain
      rw [hpath (.inr haddress)] at hsome
      exact ⟨lookedUp?_eq_none_iff.2 haddress, hsome⟩
  · constructor
    · rintro ⟨hnone, hsome⟩
      exact ⟨target?_eq_none_iff.1 hnone, (lookedUp?_eq_some_iff.1 hsome).1⟩
    · rintro ⟨hplain, haddress⟩
      have hsome := hdiscovery haddress
      rw [hpath (.inl hplain)] at hsome
      exact ⟨target?_eq_none_iff.2 hplain, hsome⟩

/-- Expansion looks for a file behind an address in capitals, which discovery takes for an address;
and a scheme that nothing follows is a file for discovery only. -/
theorem capitals_target? :
    lookedUp? "HTTP://potato.com/a.cwl" "/main.cwl" = none ∧
      target? "HTTP://potato.com/a.cwl" "/main.cwl" = some "/HTTP:/potato.com/a.cwl" ∧
      target? "http://" "/main.cwl" = none ∧
      lookedUp? "http://" "/main.cwl" = some "/http:" := by
  decide

end Discovery

end CwlDescriptor
