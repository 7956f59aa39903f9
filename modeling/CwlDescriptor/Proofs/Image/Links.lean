import CwlDescriptor.Proofs.Image.Hosts
import CwlDescriptor.Proofs.Image.Versions
set_option autoImplicit false

/-!
# The link of an image and its registry

An image is classified twice: as a reference, to find its registry, and by its name without tag and
digest, to find its link, with the tests in another order. Both say the same, since the tests read
the host only, which stays when the version is taken off, and since the tests whose order differs
exclude each other. This needs that no slash stands in the digest.

## Main definitions

* `Image.page?`, `Image.lookedUp?`: the page of an image and the path that has to be looked up, by
  the registry of the image.
* `Image.ToolLookup.ask`, `Image.Link.consult`: looking up a tool, with a note of what was asked
  for.

## Main results

* `Image.host?_name`: the name of an image has the host of the image.
* `Image.link_by_registry`: where the link leads, and what has to be looked up for it.
-/

namespace CwlDescriptor.Image

variable {image : List Char}

/-! ## The host of the name -/

/-- No slash stands behind the first at sign. -/
def HasPlainDigest (image : List Char) : Prop :=
  ∀ before digest, '@' ∉ before → image = before ++ '@' :: digest → '/' ∉ digest

/-- The name of an image has the host of the image. -/
lemma host?_name (h : HasPlainDigest image) :
    host? (name image (specifier image)) = host? image := by
  obtain ⟨v, -, hname, hcomposed⟩ := composedOf_specifier image
  generalize name image (specifier image) = n at hname hcomposed ⊢
  -- nothing that is taken off has a slash
  suffices hadded : ∃ added, '/' ∉ added ∧ image = n ++ added by
    obtain ⟨added, hslash, rfl⟩ := hadded
    exact (host?_append hslash n).symm
  have hat : '@' ∉ n := fun hat => by simp [specifier_of_at hat] at hname
  cases hspecifier : specifier image with
  | noTag =>
    rw [hspecifier] at hcomposed
    exact ⟨[], by simp, by simpa using hcomposed.1.symm⟩
  | latest =>
    rw [hspecifier] at hcomposed
    obtain ⟨rfl, rfl⟩ := hcomposed
    exact ⟨_, by decide, rfl⟩
  | tag =>
    rw [hspecifier] at hcomposed
    obtain ⟨rfl, -, -, hslash⟩ := hcomposed
    exact ⟨_, by simpa using hslash, rfl⟩
  | digest =>
    rw [hspecifier] at hcomposed
    rcases hcomposed with rfl | ⟨t, hslash, htag, rfl⟩
    · exact ⟨_, by simpa using h n v hat rfl, rfl⟩
    · have hbefore : '@' ∉ n ++ ':' :: t := by simp [hat, htag]
      have hdigest := h _ v hbefore rfl
      exact ⟨':' :: t ++ '@' :: v, by simp [hslash, hdigest], by simp⟩
  | parameter => exact absurd hspecifier (specifier_ne_parameter image)

/-! ## The page and the path -/

/-- The page of an image in its registry, if there is one. An image on an unknown host has none, and
any other image without registry has a page as if it were on the default one. -/
def page? (image : List Char) : Option String :=
  let name := name image (specifier image)
  let repository (r : Registry) := String.ofList (repository r image (specifier image))
  match registry? image with
  | some .quayIo => some ("https://quay.io/repository/" ++ repository .quayIo)
  | some .githubContainerRegistry =>
    some ("https://ghcr.io/" ++ repository .githubContainerRegistry)
  | some .amazonEcr =>
    if isPrivateEcr image then some ("https://" ++ repository .amazonEcr)
    else some ("https://gallery.ecr.aws/" ++ repository .amazonEcr)
  | some .sevenBridges => some ("https://" ++ String.ofList name)
  | some .dockerHub =>
    if '/' ∈ name then some ("https://hub.docker.com/r/" ++ repository .dockerHub)
    else some ("https://hub.docker.com/_/" ++ String.ofList name)
  | none =>
    if hasHost image then none
    else if '/' ∈ name then some ("https://hub.docker.com/r/" ++ String.ofList name)
    else some ("https://hub.docker.com/_/" ++ String.ofList name)

/-- The path that has to be looked up for an image, if there is one. -/
def lookedUp? (image : List Char) : Option String :=
  let name := name image (specifier image)
  match registry? image with
  | some .quayIo | some .githubContainerRegistry | some .amazonEcr => some (String.ofList name)
  | some .sevenBridges => none
  | some .dockerHub | none =>
    if hasHost image = false ∧ '/' ∈ name then
      some ("registry.hub.docker.com/" ++ String.ofList name)
    else none

/-- An image in a private registry keeps its host. -/
private lemma repository_of_isPrivateEcr {s : Specifier} (h : isPrivateEcr (name image s) = true) :
    repository .amazonEcr image s = name image s := by
  simp [repository, h]

/-- An image with an owner is in no library. -/
private lemma repository_of_slash {s : Specifier} (h : '/' ∈ name image s) :
    repository .dockerHub image s = name image s := by
  simp [repository, h]

/-- The path of an image on the default registry begins with its host. -/
private lemma ofList_start (name : List Char) : String.ofList (Registry.dockerHub.start ++ name) =
    "registry.hub.docker.com/" ++ String.ofList name :=
  String.ofList_append

/-- **The link of an image is that of its registry.**

**Proof sketch.** The tests for the name are those for the image, which has the same host. If the
host is the one that is tested first for links and last for registries, then it is none of those in
between. An image without host is on the default registry if it has a version, and otherwise it has
the same page without being on a registry. -/
private lemma link_eq (hne : image ≠ []) (h : HasPlainDigest image) :
    (link image).page? = page? image ∧ (link image).path? = lookedUp? image := by
  have hhost := host?_name h
  have hprivate := isPrivateEcr_congr hhost
  rw [link_eq_linkOfName hne]
  unfold linkOfName page? lookedUp? registry?
  simp only [isSevenBridges_congr hhost, startsWith_congr hhost, isAmazonEcr_congr hhost,
    hasHost_congr hhost, hprivate]
  cases hseven : isSevenBridges image with
  | true =>
    have hother : startsWith image .quayIo = false ∧
        startsWith image .githubContainerRegistry = false ∧ isAmazonEcr image = false := by
      refine ⟨?_, ?_, ?_⟩ <;> rw [Bool.eq_false_iff] <;> intro hother
      all_goals simp [not_isSevenBridges, hother] at hseven
    simp [hother, Link.page?, Link.path?]
  | false =>
    cases hquay : startsWith image .quayIo with
    | true => exact ⟨rfl, rfl⟩
    | false =>
    cases hghcr : startsWith image .githubContainerRegistry with
    | true => exact ⟨rfl, rfl⟩
    | false =>
    cases hecr : isAmazonEcr image with
    | true =>
      cases hhosted : isPrivateEcr image with
      | true =>
        have hkept := repository_of_isPrivateEcr (hprivate.trans hhosted)
        simp [Link.page?, Link.path?, hkept]
      | false => exact ⟨rfl, rfl⟩
    | false =>
    cases hhas : hasHost image with
    | true => exact ⟨rfl, rfl⟩
    | false =>
      simp only [Bool.false_eq_true, if_false, List.contains_iff_mem, ofList_start]
      by_cases htag : specifier image = .noTag
      · rw [if_pos htag]
        by_cases hslash : '/' ∈ name image (specifier image) <;>
          simp [Link.page?, Link.path?, hslash]
      · rw [if_neg htag]
        by_cases hslash : '/' ∈ name image (specifier image)
        · simp [Link.page?, Link.path?, hslash, repository_of_slash hslash]
        · simp [Link.page?, Link.path?, hslash]

/-! ## What is looked up -/

/-- An image on a registry other than the default one has a host. -/
private lemma exists_host?_of_registry? {r : Registry} (h : registry? image = some r)
    (hr : r ≠ .dockerHub) : ∃ host, host? image = some host := by
  unfold registry? at h
  split_ifs at h with hquay hghcr hecr hseven
  · exact ⟨_, startsWith_iff.1 hquay⟩
  · exact ⟨_, startsWith_iff.1 hghcr⟩
  · rcases Bool.or_eq_true_iff.1 hecr with hpublic | hprivate
    · exact ⟨_, startsWith_iff.1 hpublic⟩
    · obtain ⟨host, hhost, -⟩ := isPrivateEcr_iff.1 hprivate
      exact ⟨host, hhost⟩
  · obtain ⟨host, hhost, -⟩ := isSevenBridges_iff.1 hseven
    exact ⟨host, hhost⟩
  · cases h
    exact absurd rfl hr

/-- A path is looked up for names with a slash only, and neither for the service that has no tools
nor for unknown hosts. -/
private lemma of_lookedUp?_eq_some (h : HasPlainDigest image) {path : String}
    (hpath : lookedUp? image = some path) : '/' ∈ name image (specifier image) ∧
      registry? image ≠ some .sevenBridges ∧
      ¬ (hasHost image = true ∧ registry? image = none) := by
  have hslash : ∀ {r}, registry? image = some r → r ≠ .dockerHub →
      '/' ∈ name image (specifier image) := by
    intro r hregistry hr
    obtain ⟨host, hhost⟩ := exists_host?_of_registry? hregistry hr
    rw [← host?_name h] at hhost
    obtain ⟨-, rest, hname⟩ := host?_eq_some_iff.1 hhost
    rw [hname]
    simp
  unfold lookedUp? at hpath
  cases hregistry : registry? image with
  | none =>
    simp only [hregistry] at hpath
    split_ifs at hpath with hunowned
    exact ⟨hunowned.2, by simp, by simp [hunowned.1]⟩
  | some r =>
    simp only [hregistry] at hpath
    cases r with
    | quayIo | githubContainerRegistry | amazonEcr =>
      exact ⟨hslash hregistry (by decide), by simp, by simp⟩
    | sevenBridges => cases hpath
    | dockerHub =>
      split_ifs at hpath with howned
      exact ⟨howned.2, by simp, by simp⟩

/-- Looks up a path, with a note that it was asked for. -/
def ToolLookup.ask (lookup : ToolLookup) (path : String) :
    EStateM Fault (List String) Bool := fun asked =>
  match lookup path with
  | .ok found => .ok found (asked ++ [path])
  | .error e => .error e (asked ++ [path])

namespace Link

/-- The address that a link leads to, with notes of the paths that are asked for. -/
def consult (lookup : ToolLookup) : Link → EStateM Fault (List String) (Option String)
  | .none => return Option.none
  | .fixed url => return some url
  | .tool path page => do
    let found ← lookup.ask path
    return some (if found then toolPage path else page)

/-- Finding the address asks for the path of the link, if it has one, and for nothing else. -/
private lemma consult_eq (link : Link) (lookup : ToolLookup) (asked : List String) :
    link.consult lookup asked =
      match link.resolve lookup with
      | .ok url => .ok url (asked ++ link.path?.toList)
      | .error e => .error e (asked ++ link.path?.toList) := by
  cases link with
  | none | fixed url =>
    rw [path?, Option.toList_none, List.append_nil]
    · rfl
    · nofun
  | tool path page =>
    show EStateM.bind (lookup.ask path) _ asked = _
    rw [EStateM.bind, ToolLookup.ask, resolve]
    cases lookup path <;> rfl

/-- A link leads to the registered tool if there is one, and to its page otherwise. -/
lemma resolve_eq (link : Link) (lookup : ToolLookup) :
    link.resolve lookup =
      match link.path? with
      | Option.none => .ok link.page?
      | some path =>
        (lookup path).map fun found => if found then some (toolPage path) else link.page? := by
  cases link with
  | none | fixed url => rfl
  | tool path page =>
    show (lookup path).map _ = (lookup path).map _
    congr 1
    funext found
    cases found <;> rfl

end Link

/-- **The registry of an image says where its link leads.** Let no slash stand behind the first at
sign of an image. If no tools are looked up, its link leads to its page in its registry. Otherwise
one path at most is asked for, which is none if the name has no slash, the host is unknown, or the
image is on the service without tools; and the link leads to the tool with this path if one is
registered, and to the page otherwise.

**Proof sketch.** By `link_eq`, the page and the path of the link are those of the registry. -/
theorem link_by_registry (hne : image ≠ []) (h : HasPlainDigest image) (lookup : ToolLookup) :
    (link image).resolve noTools = .ok (page? image) ∧
    (link image).resolve lookup =
      (match lookedUp? image with
      | none => .ok (page? image)
      | some path => (lookup path).map fun found =>
          if found then some (Link.toolPage path) else page? image) ∧
    (link image).consult lookup [] =
      (match (link image).resolve lookup with
      | .ok url => .ok url (lookedUp? image).toList
      | .error e => .error e (lookedUp? image).toList) ∧
    ∀ path, lookedUp? image = some path → '/' ∈ name image (specifier image) ∧
      registry? image ≠ some .sevenBridges ∧
      ¬ (hasHost image = true ∧ registry? image = none) := by
  obtain ⟨hpage, hpath⟩ := link_eq hne h
  refine ⟨?_, ?_, ?_, fun path => of_lookedUp?_eq_some h⟩
  · rw [Link.resolve_eq, hpage]
    cases (link image).path? <;> rfl
  · rw [Link.resolve_eq, hpage, hpath]
  · rw [Link.consult_eq, hpath]
    rfl

/-- A digest is plain if no slash stands in what is cut off at the first at sign. -/
private lemma hasPlainDigest_of_cut (h : ∀ cut ∈ Text.cutFirst '@' image, '/' ∉ cut.2) :
    HasPlainDigest image := by
  rintro before digest hbefore rfl
  exact h _ (Text.cutFirst_append hbefore digest)

/-- An image in a private registry with a tag and a digest, the tool of which is registered. -/
theorem pinned_link_by_registry :
    let image := "012345678912.dkr.ecr.us-east-1.amazonaws.com/foo:1@sha256:a".toList
    let url := "https://www.dockstore.org/containers/" ++
      "012345678912.dkr.ecr.us-east-1.amazonaws.com/foo"
    image ≠ [] ∧ HasPlainDigest image ∧
      (link image).resolve noTools =
        .ok (some "https://012345678912.dkr.ecr.us-east-1.amazonaws.com/foo") ∧
      (link image).resolve (fun _ => .ok true) = .ok (some url) := by
  intro image url
  have hne : image ≠ [] := by decide
  have hdigest : HasPlainDigest image := hasPlainDigest_of_cut (by decide)
  have hpage : page? image = some "https://012345678912.dkr.ecr.us-east-1.amazonaws.com/foo" := by
    decide
  have hpath : lookedUp? image = some "012345678912.dkr.ecr.us-east-1.amazonaws.com/foo" := by
    decide
  obtain ⟨hnone, hsome, -, -⟩ := link_by_registry hne hdigest fun _ => .ok true
  refine ⟨hne, hdigest, ?_, ?_⟩
  · rw [hnone, hpage]
  · rw [hsome, hpath]
    rfl

end CwlDescriptor.Image
