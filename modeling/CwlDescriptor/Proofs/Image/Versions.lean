import CwlDescriptor.Image.Link
import CwlDescriptor.Proofs.Cuts
set_option autoImplicit false

/-!
# Taking references to images apart and putting them together

A name, a tag and a digest are put together with a colon and an at sign. A tag begins at the first
colon behind the last slash, so that the port of a host is none, and a digest begins at the first at
sign. Taking a reference apart gives back what it was put together from; and every reference is put
together from its name and its version.

## Main definitions

* `Image.Untagged`: nothing behind the last slash is a tag, even an empty one.
* `Image.untag`: a reference without its tag.
* `Image.IsName`, `Image.IsTag`: what a name and a tag may be.
* `Image.ComposedOf`: how a reference is put together from its name and its version.
* `Image.Versions`: a reference is read as a version of a name, and it has the link of the name.

## Main results

* `Image.tag?_eq_some_iff`: where a tag begins.
* `Image.composedOf_specifier`: what a reference is put together from.
* `Image.splits_composes`: taking apart and putting together, in both directions.
-/

namespace CwlDescriptor.Image

/-! ## Tags -/

/-- Nothing behind the last slash is a tag, even an empty one. -/
def Untagged (image : List Char) : Prop := ':' ∉ Text.afterLast '/' image

variable {image n t g : List Char}

/-- An image without a tag is one in which no colon stands behind the last slash. -/
private lemma tag?_eq_none_iff : tag? image = none ↔ Untagged image := by
  unfold tag? Untagged
  rw [Option.map_eq_none_iff, Text.cutFirst_eq_none_iff]

/-- A tag is what follows the first colon behind the last slash. -/
private lemma tag?_append (hn : Untagged n) (ht : '/' ∉ t) : tag? (n ++ ':' :: t) = some t := by
  have hslash : '/' ∉ ':' :: t := by simpa using ht
  unfold tag?
  rw [Text.afterLast_append_of_not_mem hslash, Text.cutFirst_append hn]
  rfl

/-- The tag of an image stands behind the last colon, if there is no slash in it. -/
lemma tag?_eq_some_iff :
    tag? image = some t ↔ '/' ∉ t ∧ ∃ n, Untagged n ∧ image = n ++ ':' :: t := by
  constructor
  · intro h
    obtain ⟨⟨before, _⟩, hcut, rfl⟩ := Option.map_eq_some_iff.1 h
    obtain ⟨hbefore, hlast⟩ := Text.cutFirst_eq_some_iff.1 hcut
    have hslash := Text.not_mem_afterLast '/' image
    rw [hlast, List.mem_append, List.mem_cons, not_or, not_or] at hslash
    refine ⟨hslash.2.2, ?_⟩
    rcases Text.exists_append_afterLast '/' image with himage | ⟨front, himage⟩
    · refine ⟨before, ?_, by rw [← himage, hlast]⟩
      rwa [Untagged, Text.afterLast_of_not_mem hslash.1]
    · refine ⟨front ++ '/' :: before, ?_, by rw [← himage, hlast]; simp⟩
      rwa [Untagged, Text.afterLast_append front hslash.1]
  · rintro ⟨ht, n, hn, rfl⟩
    exact tag?_append hn ht

/-- The reference without its tag. -/
def untag (image : List Char) : List Char :=
  match tag? image with
  | some tag => image.take (image.length - (tag.length + 1))
  | none => image

/-- An image without a tag stays as it is without it. -/
private lemma untag_of_untagged (h : Untagged image) : untag image = image := by
  unfold untag
  rw [tag?_eq_none_iff.2 h]

/-- Without its tag, an image is what stands in front of the last colon. -/
private lemma untag_append (hn : Untagged n) (ht : '/' ∉ t) : untag (n ++ ':' :: t) = n := by
  unfold untag
  rw [tag?_append hn ht]
  simp

/-- A reference has no tag, or it is put together from what is left without its tag and the tag. -/
private lemma untag_cases (image : List Char) :
    (Untagged image ∧ untag image = image) ∨
      ∃ t, tag? image = some t ∧ '/' ∉ t ∧ image = untag image ++ ':' :: t := by
  cases htag : tag? image with
  | none =>
    have h := tag?_eq_none_iff.1 htag
    exact .inl ⟨h, untag_of_untagged h⟩
  | some t =>
    obtain ⟨ht, n, hn, rfl⟩ := tag?_eq_some_iff.1 htag
    exact .inr ⟨t, rfl, ht, by rw [untag_append hn ht]⟩

/-- Nothing is left of a tag when it has been taken off. -/
private lemma untagged_untag (image : List Char) : Untagged (untag image) := by
  rcases untag_cases image with ⟨h, huntag⟩ | ⟨t, htag, -⟩
  · rwa [huntag]
  · obtain ⟨ht, n, hn, rfl⟩ := tag?_eq_some_iff.1 htag
    rwa [untag_append hn ht]

/-- Taking the tag away adds no characters. -/
private lemma untag_subset (image : List Char) : untag image ⊆ image := by
  rcases untag_cases image with ⟨-, huntag⟩ | ⟨t, -, -, himage⟩
  · rw [huntag]
    exact List.Subset.refl _
  · intro c hc
    rw [himage]
    exact List.mem_append_left _ hc

/-! ## Digests and specifiers -/

/-- In front of a digest stands what is in front of the first at sign. -/
private lemma beforeDigest_append (hn : '@' ∉ n) (g : List Char) :
    beforeDigest (n ++ '@' :: g) = n := by
  unfold beforeDigest
  rw [Text.cutFirst_append hn]

/-- An image with an at sign has a digest. -/
lemma specifier_of_at (h : '@' ∈ image) : specifier image = .digest := by
  unfold specifier
  rw [if_pos (by simpa using h)]

/-- An image with neither an at sign nor a tag has no version. -/
private lemma specifier_of_untagged (hat : '@' ∉ image) (h : Untagged image) :
    specifier image = .noTag := by
  unfold specifier
  rw [if_neg (by simpa using hat), tag?_eq_none_iff.2 h]

/-- An image with a tag has it as its version, unless it is empty. -/
private lemma specifier_of_tag (hat : '@' ∉ image) (htag : tag? image = some t) :
    specifier image =
      if t = [] then .noTag else if t = "latest".toList then .latest else .tag := by
  unfold specifier
  rw [if_neg (by simpa using hat), htag]

/-! ## Taking apart -/

/-- A reference is put together from its name and its version, in a way that depends on its
specifier. A reference with a digest may have a tag besides, which may be empty. -/
def ComposedOf (image name version : List Char) : Specifier → Prop
  | .tag => image = name ++ ':' :: version ∧ version ≠ [] ∧ version ≠ "latest".toList ∧
      '/' ∉ version
  | .latest => image = name ++ ':' :: version ∧ version = "latest".toList
  | .digest => image = name ++ '@' :: version ∨
      ∃ tag, '/' ∉ tag ∧ '@' ∉ tag ∧ image = name ++ ':' :: tag ++ '@' :: version
  | .noTag => name = image ∧ version = []
  | .parameter => False

/-- **Every reference is put together from its name and its version**, and its name is the name of
an image without a version.

**Proof sketch.** A digest stands behind the first at sign. In what is before it, or in the whole
reference if there is no at sign, the tag stands behind the first colon that no slash follows, and
what is left without it has no such colon. -/
theorem composedOf_specifier (image : List Char) :
    ∃ v, version image (specifier image) = .ok v ∧
      specifier (name image (specifier image)) = .noTag ∧
      ComposedOf image (name image (specifier image)) v (specifier image) := by
  by_cases hat : '@' ∈ image
  · obtain ⟨before, digest, rfl, hbefore⟩ := List.eq_append_cons_of_mem hat
    rw [specifier_of_at hat]
    have hname : name (before ++ '@' :: digest) .digest = untag before := by
      show untag (beforeDigest _) = _
      rw [beforeDigest_append hbefore]
    have hversion : version (before ++ '@' :: digest) .digest = .ok digest := by
      unfold version
      simp only [Text.cutFirst_append hbefore]
    have hname_at : '@' ∉ untag before := fun h => hbefore (untag_subset before h)
    rw [hname]
    refine ⟨digest, hversion, specifier_of_untagged hname_at (untagged_untag before), ?_⟩
    rcases untag_cases before with ⟨-, huntag⟩ | ⟨t, -, ht, hsplit⟩
    · exact .inl (by rw [huntag])
    · have ht_at : '@' ∉ t := by
        intro h
        rw [hsplit] at hbefore
        exact hbefore (List.mem_append_right _ (List.mem_cons_of_mem _ h))
      exact .inr ⟨t, ht, ht_at, by rw [← hsplit]⟩
  · rcases untag_cases image with ⟨h, -⟩ | ⟨t, htag, ht, hsplit⟩
    · rw [specifier_of_untagged hat h]
      exact ⟨[], rfl, specifier_of_untagged hat h, rfl, rfl⟩
    · have hname : specifier (untag image) = .noTag :=
        specifier_of_untagged (fun h => hat (untag_subset image h)) (untagged_untag image)
      have hversion : ((tag? image).getD []) = t := by rw [htag]; rfl
      have hspecifier := specifier_of_tag hat htag
      split_ifs at hspecifier with hempty hlatest
      · rw [hspecifier]
        exact ⟨[], rfl, hspecifier, rfl, rfl⟩
      · rw [hspecifier]
        exact ⟨t, congrArg Except.ok hversion, hname, hsplit, hlatest⟩
      · rw [hspecifier]
        exact ⟨t, congrArg Except.ok hversion, hname, hsplit, hempty, hlatest, ht⟩

/-- A reference in a descriptor is not computed. -/
lemma specifier_ne_parameter (image : List Char) : specifier image ≠ .parameter := by
  intro h
  obtain ⟨v, -, -, hcomposed⟩ := composedOf_specifier image
  rw [h] at hcomposed
  exact hcomposed

/-- The link of an image is that of its name. -/
lemma link_eq_linkOfName (himage : image ≠ []) :
    link image = linkOfName (name image (specifier image)) := by
  unfold link linkWith
  rw [if_neg (by simp [himage, specifier_ne_parameter image])]

/-! ## Putting together -/

/-- A name to which a tag and a digest can be added. -/
structure IsName (n : List Char) : Prop where
  ne_nil : n ≠ []
  at_not_mem : '@' ∉ n
  untagged : Untagged n

/-- A tag that can be added to a name. -/
structure IsTag (t : List Char) : Prop where
  ne_nil : t ≠ []
  slash_not_mem : '/' ∉ t
  at_not_mem : '@' ∉ t

/-- A reference is read as a version of a name, and it leads where the name leads. -/
structure Versions (image n v : List Char) : Prop where
  name : name image (specifier image) = n
  version : version image (specifier image) = .ok v
  link : ∀ lookup, (link image).resolve lookup = (Image.link n).resolve lookup

/-- The name of an image that is a name is the image. -/
private lemma name_of_isName (h : IsName n) : name n (specifier n) = n := by
  rw [specifier_of_untagged h.at_not_mem h.untagged]
  rfl

/-- References with one name have one link. -/
private lemma link_eq_of_name (himage : image ≠ []) (hn : IsName n)
    (hname : name image (specifier image) = n) : link image = link n := by
  rw [link_eq_linkOfName himage, link_eq_linkOfName hn.ne_nil, hname, name_of_isName hn]

/-- The version of an image with a tag is the tag. -/
private lemma versions_tag (hn : IsName n) (ht : IsTag t) : Versions (n ++ ':' :: t) n t := by
  have hat : '@' ∉ n ++ ':' :: t := by simp [hn.at_not_mem, ht.at_not_mem]
  have htag := tag?_append hn.untagged ht.slash_not_mem
  have hversion : (tag? (n ++ ':' :: t)).getD [] = t := by rw [htag]; rfl
  have hspecifier := specifier_of_tag hat htag
  rw [if_neg ht.ne_nil] at hspecifier
  have hread : name (n ++ ':' :: t) (specifier (n ++ ':' :: t)) = n ∧
      version (n ++ ':' :: t) (specifier (n ++ ':' :: t)) = .ok t := by
    split_ifs at hspecifier <;> rw [hspecifier]
    all_goals exact ⟨untag_append hn.untagged ht.slash_not_mem, congrArg Except.ok hversion⟩
  exact ⟨hread.1, hread.2, fun lookup => by rw [link_eq_of_name (by simp) hn hread.1]⟩

/-- A digest is added to a name, or to a name with a tag. -/
private lemma versions_digest (hn : IsName n) {base : List Char} (hat : '@' ∉ base)
    (hbase : untag base = n) (g : List Char) : Versions (base ++ '@' :: g) n g := by
  have hspecifier : specifier (base ++ '@' :: g) = .digest := specifier_of_at (by simp)
  have hname : name (base ++ '@' :: g) (specifier (base ++ '@' :: g)) = n := by
    rw [hspecifier]
    show untag (beforeDigest _) = n
    rw [beforeDigest_append hat, hbase]
  refine ⟨hname, ?_, fun lookup => by rw [link_eq_of_name (by simp) hn hname]⟩
  rw [hspecifier]
  unfold version
  simp only [Text.cutFirst_append hat]

/-- **References are taken apart into what they are put together from.** Every reference has a name,
which has no version itself, and a version, and it is put together from them. Conversely, a tag, a
digest, or both that are added to a name are read as a version of this name, the digest if there are
both; and the reference leads where the name leads.

**Proof sketch.** The first part is `composedOf_specifier`. For the second part, the name has no at
sign and no colon behind its last slash, and the tag has neither an at sign nor a slash. So the
first at sign and the first colon behind the last slash in front of it are those that were added. -/
theorem splits_composes :
    (∀ image, ∃ v, version image (specifier image) = .ok v ∧
      specifier (name image (specifier image)) = .noTag ∧
      ComposedOf image (name image (specifier image)) v (specifier image)) ∧
    ∀ n t g, IsName n → IsTag t →
      Versions (n ++ ':' :: t) n t ∧ Versions (n ++ '@' :: g) n g ∧
        Versions (n ++ ':' :: t ++ '@' :: g) n g := by
  refine ⟨composedOf_specifier, fun n t g hn ht => ⟨versions_tag hn ht, ?_, ?_⟩⟩
  · exact versions_digest hn hn.at_not_mem (untag_of_untagged hn.untagged) g
  · have hat : '@' ∉ n ++ ':' :: t := by simp [hn.at_not_mem, ht.at_not_mem]
    exact versions_digest hn hat (untag_append hn.untagged ht.slash_not_mem) g

/-- The host has a port, the tag has a colon, and the digest has all three separators. -/
theorem ported_splits_composes :
    let n := "localhost:5000/foo".toList
    let t := "1:0".toList
    let g := "sha256:a/b@c".toList
    IsName n ∧ IsTag t ∧ Versions (n ++ ':' :: t) n t ∧ Versions (n ++ '@' :: g) n g ∧
      Versions (n ++ ':' :: t ++ '@' :: g) n g := by
  intro n t g
  have hn : IsName n := ⟨by decide, by decide, by unfold Untagged; decide⟩
  have ht : IsTag t := ⟨by decide, by decide, by decide⟩
  exact ⟨hn, ht, splits_composes.2 n t g hn ht⟩

end CwlDescriptor.Image
