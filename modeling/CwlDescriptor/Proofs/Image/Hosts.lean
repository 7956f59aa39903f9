import CwlDescriptor.Image.Registry
import CwlDescriptor.Proofs.Cuts
set_option autoImplicit false

/-!
# The host of an image

What the beginning of a reference says is said by the text in front of its first slash, the host.
The tests for registries are patterns for this text. So references with the same host are in the
same registries, whatever stands behind the slash, and no host is in two registries with patterns
that exclude each other.

## Main definitions

* `Image.host?`: the text in front of the first slash.
* `Image.IsPrivateHost`, `Image.IsQualifier`, `Image.IsSevenBridgesHost`: the patterns for hosts.

## Main results

* `Image.startsWith_iff`, `Image.isPrivateEcr_iff`, `Image.isSevenBridges_iff`: the tests by the
  host.
* `Image.not_isSevenBridges`: an image of this service is in no other registry.
-/

namespace CwlDescriptor.Image

variable {image image' host t : List Char}

/-! ## The first slash -/

/-- The text in front of the first slash. -/
def host? (image : List Char) : Option (List Char) := (Text.cutFirst '/' image).map (·.1)

/-- The host of an image is what stands in front of its first slash. -/
lemma host?_eq_some_iff :
    host? image = some host ↔ '/' ∉ host ∧ ∃ rest, image = host ++ '/' :: rest := by
  unfold host?
  rw [Option.map_eq_some_iff]
  constructor
  · rintro ⟨⟨_, rest⟩, hcut, rfl⟩
    obtain ⟨hhost, himage⟩ := Text.cutFirst_eq_some_iff.1 hcut
    exact ⟨hhost, rest, himage⟩
  · rintro ⟨hhost, rest, rfl⟩
    exact ⟨_, Text.cutFirst_append hhost rest, rfl⟩

/-- An image without a slash has no host. -/
private lemma host?_eq_none_iff : host? image = none ↔ '/' ∉ image := by
  unfold host?
  rw [Option.map_eq_none_iff, Text.cutFirst_eq_none_iff]

/-- What is added without a slash leaves the host as it is. -/
lemma host?_append (ht : '/' ∉ t) (image : List Char) : host? (image ++ t) = host? image := by
  cases hhost : host? image with
  | none =>
    rw [host?_eq_none_iff] at hhost ⊢
    simp [hhost, ht]
  | some host =>
    obtain ⟨hslash, rest, rfl⟩ := host?_eq_some_iff.1 hhost
    exact host?_eq_some_iff.2 ⟨hslash, rest ++ t, by simp⟩

/-- A pattern for hosts at the beginning of a reference. -/
private lemma exists_host?_iff {P : List Char → Prop} (hP : ∀ host, P host → '/' ∉ host) :
    (∃ host rest, P host ∧ image = host ++ '/' :: rest) ↔
      ∃ host, host? image = some host ∧ P host := by
  constructor
  · rintro ⟨host, rest, h, rfl⟩
    exact ⟨host, host?_eq_some_iff.2 ⟨hP host h, rest, rfl⟩, h⟩
  · rintro ⟨host, hhost, h⟩
    obtain ⟨-, rest, rfl⟩ := host?_eq_some_iff.1 hhost
    exact ⟨host, rest, h, rfl⟩

/-! ## Hosts of registries -/

/-- The host of a registry has no slash. -/
lemma Registry.slash_not_mem (r : Registry) : '/' ∉ r.host.toList := by
  cases r <;> decide

/-- An image is one of a registry if its host is that of the registry. -/
lemma startsWith_iff {r : Registry} :
    startsWith image r = true ↔ host? image = some r.host.toList := by
  unfold startsWith Registry.start
  rw [List.isPrefixOf_iff_prefix, host?_eq_some_iff]
  constructor
  · rintro ⟨rest, rfl⟩
    exact ⟨r.slash_not_mem, rest, by simp⟩
  · rintro ⟨-, rest, rfl⟩
    exact ⟨rest, by simp⟩

/-- The hosts of private registries: an account of twelve digits, the service, and a region. -/
def IsPrivateHost (host : List Char) : Prop :=
  ∃ account region, account.length = 12 ∧ (∀ c ∈ account, c.isDigit = true) ∧
    region ≠ [] ∧ (∀ c ∈ region, isHostChar c = true) ∧
    host = account ++ ".dkr.ecr.".toList ++ region ++ ".amazonaws.com".toList

/-- There is no slash among the characters of hosts. -/
private lemma slash_not_mem_of_isHostChar (h : ∀ c ∈ t, isHostChar c = true) : '/' ∉ t :=
  fun hslash => absurd (h _ hslash) (by decide)

/-- The host of a private registry has no slash. -/
lemma IsPrivateHost.slash_not_mem (h : IsPrivateHost host) : '/' ∉ host := by
  obtain ⟨account, region, -, haccount, -, hregion, rfl⟩ := h
  have haccount : '/' ∉ account := fun hslash => absurd (haccount _ hslash) (by decide)
  have hregion := slash_not_mem_of_isHostChar hregion
  have hservice : '/' ∉ ".dkr.ecr.".toList ∧ '/' ∉ ".amazonaws.com".toList := by decide
  simp only [List.mem_append, not_or]
  exact ⟨⟨⟨haccount, hservice.1⟩, hregion⟩, hservice.2⟩

/-- The characters of a label in front of a dot are all those that are found there. -/
private lemma takeWhile_isHostChar {label : List Char} (h : ∀ c ∈ label, isHostChar c = true)
    (rest : List Char) : (label ++ '.' :: rest).takeWhile isHostChar = label := by
  have hdot : isHostChar '.' = false := by decide
  rw [List.takeWhile_append_of_pos h]
  simp [hdot]

/-- The test for private registries reads their hosts. -/
lemma isPrivateEcr_iff :
    isPrivateEcr image = true ↔ ∃ host, host? image = some host ∧ IsPrivateHost host := by
  rw [← exists_host?_iff fun _ h => IsPrivateHost.slash_not_mem h]
  unfold isPrivateEcr
  constructor
  · intro h
    simp only [Bool.and_eq_true, decide_eq_true_eq, List.all_eq_true] at h
    obtain ⟨⟨hlength, haccount⟩, h⟩ := h
    split at h
    · cases h
    · next rest hrest =>
      simp only [Bool.and_eq_true, Bool.not_eq_true', List.isEmpty_eq_false_iff,
        List.isPrefixOf_iff_prefix] at h
      obtain ⟨hregion, last, hlast⟩ := h
      have hrest := List.isPrefixOf?_eq_some_iff_append_eq.1 hrest
      refine ⟨_, last, ⟨image.take 12, rest.takeWhile isHostChar, hlength, haccount, hregion,
        fun c => List.mem_takeWhile_imp, rfl⟩, ?_⟩
      have hregion := List.prefix_iff_eq_append.1 (rest.takeWhile_prefix isHostChar)
      calc image = image.take 12 ++ image.drop 12 := (List.take_append_drop 12 image).symm
        _ = image.take 12 ++ (".dkr.ecr.".toList ++ (rest.takeWhile isHostChar ++
              (".amazonaws.com/".toList ++ last))) := by rw [hlast, hregion, hrest]
        _ = _ := by simp
  · rintro ⟨_, last, ⟨account, region, hlength, haccount, hregion, hall, rfl⟩, rfl⟩
    have htake : (account ++ ".dkr.ecr.".toList ++ region ++ ".amazonaws.com".toList ++
        '/' :: last).take 12 = account := by
      simp only [List.append_assoc]
      exact List.take_left' hlength
    have hdrop : (account ++ ".dkr.ecr.".toList ++ region ++ ".amazonaws.com".toList ++
        '/' :: last).drop 12 =
          ".dkr.ecr.".toList ++ (region ++ (".amazonaws.com/".toList ++ last)) := by
      simp only [List.append_assoc]
      rw [List.drop_left' hlength]
      simp
    have hlabel : (region ++ (".amazonaws.com/".toList ++ last)).takeWhile isHostChar = region :=
      takeWhile_isHostChar hall _
    rw [htake, hdrop, List.isPrefixOf?_eq_some_iff_append_eq.2 rfl]
    simp only [hlabel, List.drop_left]
    simp only [Bool.and_eq_true, decide_eq_true_eq, List.all_eq_true, Bool.not_eq_true',
      List.isEmpty_eq_false_iff, List.isPrefixOf_iff_prefix]
    exact ⟨⟨hlength, haccount⟩, hregion, List.prefix_append _ _⟩

/-- A word with a hyphen behind it, or nothing. -/
def IsQualifier (word : List Char) : Prop :=
  word = [] ∨ ∃ label, label ≠ [] ∧ (∀ c ∈ label, isHostChar c = true) ∧ word = label ++ ['-']

/-- The hosts of the service, perhaps behind a word with a hyphen. -/
def IsSevenBridgesHost (host : List Char) : Prop :=
  ∃ word, IsQualifier word ∧ host = word ++ "images.sbgenomics.com".toList

/-- A qualifier in front of the word for images consists of characters of hosts. -/
private lemma IsQualifier.all_isHostChar {word : List Char} (h : IsQualifier word) :
    ∀ c ∈ word ++ "images".toList, isHostChar c = true := by
  have himages : ∀ c ∈ "images".toList, isHostChar c = true := List.all_eq_true.1 (by decide)
  have hhyphen : isHostChar '-' = true := by decide
  rcases h with rfl | ⟨label, -, hlabel, rfl⟩
  · exact himages
  · simp only [List.append_assoc, List.forall_mem_append]
    exact ⟨hlabel, by simpa using hhyphen, himages⟩

/-- The host of Seven Bridges has no slash. -/
lemma IsSevenBridgesHost.slash_not_mem (h : IsSevenBridgesHost host) : '/' ∉ host := by
  obtain ⟨word, hword, rfl⟩ := h
  have hlabel := slash_not_mem_of_isHostChar (hword.all_isHostChar)
  have hservice : '/' ∉ "images.sbgenomics.com".toList := by decide
  rw [List.mem_append, not_or] at hlabel ⊢
  exact ⟨hlabel.1, hservice⟩

/-- The test for Seven Bridges reads its hosts. -/
lemma isSevenBridges_iff :
    isSevenBridges image = true ↔ ∃ host, host? image = some host ∧ IsSevenBridgesHost host := by
  rw [← exists_host?_iff fun _ h => IsSevenBridgesHost.slash_not_mem h]
  unfold isSevenBridges
  constructor
  · intro h
    simp only [Bool.and_eq_true, Bool.or_eq_true, decide_eq_true_eq, List.isEmpty_iff,
      List.isPrefixOf_iff_prefix] at h
    obtain ⟨⟨himages, last, hlast⟩, hword⟩ := h
    generalize hlabel : image.takeWhile isHostChar = label at himages hlast hword
    have hall : ∀ c ∈ label, isHostChar c = true := fun c hc =>
      List.mem_takeWhile_imp (hlabel ▸ hc)
    have hsplit : label.take (label.length - 6) ++ "images".toList = label := by
      rw [← himages, List.length_take_of_le (by omega), List.take_append_drop]
    refine ⟨_, last, ⟨label.take (label.length - 6), ?_, rfl⟩, ?_⟩
    · refine hword.imp_right fun ⟨hlength, hhyphen⟩ => ?_
      obtain ⟨front, hfront⟩ := List.getLast?_eq_some_iff.1 hhyphen
      refine ⟨front, ?_, fun c hc => hall c ?_, hfront⟩
      · rintro rfl
        rw [hfront] at hlength
        simp at hlength
      · rw [← hsplit, hfront]
        simp [hc]
    · have hprefix := List.prefix_iff_eq_append.1 (image.takeWhile_prefix isHostChar)
      rw [hlabel] at hprefix
      calc image = label ++ (".sbgenomics.com/".toList ++ last) := by rw [hlast, hprefix]
        _ = label.take (label.length - 6) ++ "images".toList ++
              (".sbgenomics.com/".toList ++ last) := by rw [hsplit]
        _ = _ := by simp
  · rintro ⟨_, last, ⟨word, hword, rfl⟩, rfl⟩
    have hall := hword.all_isHostChar
    have himage : word ++ "images.sbgenomics.com".toList ++ '/' :: last =
        (word ++ "images".toList) ++ (".sbgenomics.com/".toList ++ last) := by simp
    have hlabel : (word ++ "images.sbgenomics.com".toList ++ '/' :: last).takeWhile isHostChar =
        word ++ "images".toList := by
      rw [himage]
      exact takeWhile_isHostChar hall _
    have hlength : (word ++ "images".toList).length - 6 = word.length := by simp
    simp only [hlabel, hlength, List.take_left]
    rw [himage, List.drop_left, List.drop_left]
    simp only [decide_true, Bool.true_and, Bool.and_eq_true, Bool.or_eq_true, decide_eq_true_eq,
      List.isEmpty_iff, List.isPrefixOf_iff_prefix]
    refine ⟨List.prefix_append _ _, hword.imp_right ?_⟩
    rintro ⟨label, hne, -, rfl⟩
    have hpos := List.length_pos_iff.2 hne
    exact ⟨by rw [List.length_append, List.length_singleton]; omega, by simp⟩

/-! ## The tests read the host only -/

/-- The test for a host in a reference reads nothing but the host. -/
private lemma hasHost_eq (image : List Char) : hasHost image =
    (host? image).any fun first =>
      first.contains '.' || first.contains ':' || first = "localhost".toList := by
  unfold hasHost host?
  cases Text.cutFirst '/' image <;> rfl

section Congr

variable (h : host? image = host? image')

include h

/-- Whether an image is one of a registry depends on its host only. -/
lemma startsWith_congr (r : Registry) : startsWith image r = startsWith image' r := by
  rw [Bool.eq_iff_iff, startsWith_iff, startsWith_iff, h]

/-- Whether an image is one of a private registry depends on its host only. -/
lemma isPrivateEcr_congr : isPrivateEcr image = isPrivateEcr image' := by
  rw [Bool.eq_iff_iff, isPrivateEcr_iff, isPrivateEcr_iff, h]

/-- Whether an image is one of Amazon depends on its host only. -/
lemma isAmazonEcr_congr : isAmazonEcr image = isAmazonEcr image' := by
  rw [isAmazonEcr, isAmazonEcr, startsWith_congr h, isPrivateEcr_congr h]

/-- Whether an image is one of Seven Bridges depends on its host only. -/
lemma isSevenBridges_congr : isSevenBridges image = isSevenBridges image' := by
  rw [Bool.eq_iff_iff, isSevenBridges_iff, isSevenBridges_iff, h]

/-- Whether an image has the host of any registry depends on its host only. -/
lemma hasHost_congr : hasHost image = hasHost image' := by
  rw [hasHost_eq, hasHost_eq, h]

end Congr

/-! ## Different registries have different hosts -/

/-- The hosts of the service are in one domain. -/
lemma IsSevenBridgesHost.ending (h : IsSevenBridgesHost host) :
    ".sbgenomics.com".toList <:+ host := by
  obtain ⟨word, -, rfl⟩ := h
  exact ⟨word ++ "images".toList, by simp⟩

/-- An image of this service is in none of the registries that are looked for first. -/
lemma not_isSevenBridges (h : startsWith image .quayIo = true ∨
    startsWith image .githubContainerRegistry = true ∨ isAmazonEcr image = true) :
    isSevenBridges image = false := by
  rw [Bool.eq_false_iff]
  intro hseven
  obtain ⟨host, hhost, hseven⟩ := isSevenBridges_iff.1 hseven
  have hending := hseven.ending
  have hother : ∀ r : Registry, r.host.toList = host → r = .sevenBridges := by
    rintro r rfl
    revert hending
    cases r <;> decide
  rw [isAmazonEcr, Bool.or_eq_true, startsWith_iff, startsWith_iff, startsWith_iff,
    isPrivateEcr_iff, hhost] at h
  simp only [Option.some.injEq] at h
  rcases h with h | h | h | ⟨_, rfl, account, region, -, -, -, -, rfl⟩
  · exact absurd (hother _ h.symm) (by decide)
  · exact absurd (hother _ h.symm) (by decide)
  · exact absurd (hother _ h.symm) (by decide)
  · -- the domains of the two services have different ends
    have hamazon : "aws.com".toList <:+
        account ++ ".dkr.ecr.".toList ++ region ++ ".amazonaws.com".toList :=
      ⟨account ++ ".dkr.ecr.".toList ++ region ++ ".amazon".toList, by simp⟩
    have hgenomics : "ics.com".toList <:+
        account ++ ".dkr.ecr.".toList ++ region ++ ".amazonaws.com".toList :=
      List.IsSuffix.trans ⟨".sbgenom".toList, by simp⟩ hending
    have heq := (List.suffix_of_suffix_length_le hamazon hgenomics (by decide)).eq_of_length
      (by decide)
    exact absurd heq (by decide)

end CwlDescriptor.Image
