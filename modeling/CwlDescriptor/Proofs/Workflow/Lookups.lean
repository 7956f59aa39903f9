import CwlDescriptor.Proofs.Image.Links
import CwlDescriptor.Proofs.Workflow.Recording
set_option autoImplicit false

/-!
# Looking up tools changes nothing but links

A walk looks up the tools of the images of its steps, and a look-up may fail. What it answers goes
into the link of the step only, and a failure takes away the link and the specifier of this one
step. So two walks with different look-ups find the same steps and record the same of them, except
for the links of those steps for whose images the two answers differ.

## Main definitions

* `ImageInfo.lookedUp?`: the path that is looked up for an image.
* `ImageInfo.Absorbs`: what is recorded if this fails.
* `ImageInfo.Alike`, `WalkResult.Alike`: what two look-ups record.
* `Walker.nodesOf`: the nodes with the links of the images of their own steps.
* `Walker.asking`: a walker with another look-up.

## Main results

* `Walker.imageInfo_alike`: what is recorded of one image.
* `Walker.walk_lookups`: walks with two look-ups.
-/

namespace CwlDescriptor

namespace Image

/-- The answer of a look-up, unless it fails. -/
def ToolLookup.answer? (lookup : ToolLookup) (path : String) : Option Bool :=
  (lookup path).toOption

/-- The address that a link leads to, if it is known, depends on the answer for its path. -/
private lemma Link.toOption_resolve (link : Link) (lookup : ToolLookup) :
    (link.resolve lookup).toOption =
      match link.path? with
      | Option.none => some link.page?
      | some path => (lookup.answer? path).map fun found =>
          if found then some (toolPage path) else link.page? := by
  rw [resolve_eq]
  cases link.path? with
  | none => rfl
  | some path =>
    show ((lookup path).map _).toOption = (lookup path).toOption.map _
    cases lookup path <;> rfl

end Image

/-! ## What is recorded of one image -/

namespace ImageInfo

/-- The path that is looked up for an image, if there is one. -/
def lookedUp? (info : ImageInfo) : Option String :=
  info.image.bind fun text => (Image.link text.toList).path?

/-- If the look-up of its path fails, an image has neither specifier nor link. -/
def Absorbs (lookup : Image.ToolLookup) (info : ImageInfo) : Prop :=
  ∀ path ∈ info.lookedUp?, lookup.answer? path = none → info.specifier = none ∧ info.url = none

/-- What two look-ups record of one image. -/
structure Alike (lookup lookup' : Image.ToolLookup) (info info' : ImageInfo) : Prop where
  runPath : info.runPath = info'.runPath
  image : info.image = info'.image
  /-- The links differ only if the answers for the path do. -/
  url : (∀ path ∈ info.lookedUp?, lookup.answer? path = lookup'.answer? path) →
    info.url = info'.url
  /-- The specifiers differ only if one of the look-ups fails and the other one does not. -/
  specifier :
    (∀ path ∈ info.lookedUp?, (lookup.answer? path).isSome = (lookup'.answer? path).isSome) →
    info.specifier = info'.specifier
  absorbs : info.Absorbs lookup
  absorbs' : info'.Absorbs lookup'

end ImageInfo

namespace Walker

/-- The walker with another look-up. -/
def asking (w : Walker) (lookup : Image.ToolLookup) : Walker := { w with lookup := lookup }

variable (w : Walker) (lookup lookup' : Image.ToolLookup)

/-- Whether an image is classified at all does not depend on the look-up. -/
lemma classified?_cases (type : Option TargetType) (image : Option String) :
    (∀ lookup, (w.asking lookup).classified? type image = none) ∨
    ∃ text, image = some text ∧ ∀ lookup, (w.asking lookup).classified? type image =
      (((Image.link text.toList).resolve lookup).toOption).map
        (Image.specifier text.toList, ·) := by
  unfold classified?
  by_cases htype : type.any TargetType.usesImage = true
  · cases image with
    | none => exact .inl fun _ => by simp
    | some text =>
      by_cases htext : text = ""
      · exact .inl fun _ => by simp [htext]
      · refine .inr ⟨text, rfl, fun lookup => ?_⟩
        simp only [htype, htext, if_true, if_false, Option.bind_some]
        exact classify_eq _ text
  · exact .inl fun _ => if_neg htype

/-- **Two look-ups record the same of an image**, except for its link and its specifier if their
answers for its path differ.

**Proof sketch.** If the image is not classified, there is neither link nor specifier. Otherwise the
specifier is that of the image, and the link is found without a look-up or depends on the answer for
one path, without which there is neither of the two. -/
lemma imageInfo_alike (type : Option TargetType) (runPath : String) (image : Option String) :
    ((w.asking lookup).imageInfo type runPath image).Alike lookup lookup'
      ((w.asking lookup').imageInfo type runPath image) := by
  rw [imageInfo_eq, imageInfo_eq]
  rcases classified?_cases w type image with hnone | ⟨text, rfl, hsome⟩
  · rw [hnone, hnone]
    exact ⟨rfl, rfl, fun _ => rfl, fun _ => rfl, fun _ _ _ => ⟨rfl, rfl⟩, fun _ _ _ => ⟨rfl, rfl⟩⟩
  · rw [hsome, hsome, Image.Link.toOption_resolve, Image.Link.toOption_resolve]
    cases hpath : (Image.link text.toList).path? with
    | none =>
      have hlooked : ∀ {runPath url specifier}, (⟨runPath, some text, url, specifier⟩ :
          ImageInfo).lookedUp? = none := hpath
      refine ⟨rfl, rfl, fun _ => rfl, fun _ => rfl, ?_, ?_⟩ <;> intro path hmem <;>
        simp [hlooked] at hmem
    | some path =>
      have hlooked : ∀ {runPath url specifier}, (⟨runPath, some text, url, specifier⟩ :
          ImageInfo).lookedUp? = some path := hpath
      refine ⟨rfl, rfl, fun h => ?_, fun h => ?_, ?_, ?_⟩
      · simp only [h path hlooked]
      · have hknown := h path hlooked
        show (((lookup.answer? path).map _).map _).map _ =
          (((lookup'.answer? path).map _).map _).map _
        -- either both answers are known or none is
        cases hanswer : lookup.answer? path <;> cases hanswer' : lookup'.answer? path <;>
          simp only [hanswer, hanswer', Option.isSome_none, Option.isSome_some,
            Bool.false_eq_true, Bool.true_eq_false] at hknown
        · rfl
        · rfl
      all_goals
        intro path' hmem hfails
        cases hlooked.symm.trans hmem
        simp [hfails]

end Walker

/-! ## What is recorded of a workflow -/

/-- The nodes of a walk that has found the given visits, with the links of the images of their own
steps. -/
def Walker.nodesOf (w : Walker) (vs : List Visit) : List (String × Option String) :=
  if w.mode = .dag then vs.map fun v => (nodeName none v.key, (v.info w).url) else []

/-- What walks with two look-ups record, which have found the same visits. -/
structure WalkResult.Alike (w : Walker) (lookup lookup' : Image.ToolLookup) (vs : List Visit)
    (r r' : WalkResult) : Prop where
  dependencies : r.dependencies = r'.dependencies
  types : r.types = r'.types
  /-- The same steps have images, in the same order, and what is recorded of them is alike. -/
  images : Table.Related (ImageInfo.Alike lookup lookup') r.images r'.images
  /-- The same steps are nodes, in the same order. -/
  nodes : r.nodes = (w.asking lookup).nodesOf vs
  nodes' : r'.nodes = (w.asking lookup').nodesOf vs
  /-- The images that their links come from are alike. -/
  infos : ∀ v ∈ vs,
    (v.info (w.asking lookup)).Alike lookup lookup' (v.info (w.asking lookup'))

namespace Walker

variable (w : Walker) (lookup lookup' : Image.ToolLookup)

/-- The records of walks that have found the same visits are alike. -/
private lemma record_alike (vs : List Visit) :
    ((w.asking lookup).record 0 none {} vs).Alike w lookup lookup' vs
      ((w.asking lookup').record 0 none {} vs) where
  dependencies := rfl
  types := rfl
  images := by
    refine Table.Related.insertAll ?_ .nil
    unfold Visit.records Table.Related
    rw [List.forall₂_map_left_iff, List.forall₂_map_right_iff, List.forall₂_same]
    exact fun e _ => ⟨rfl, imageInfo_alike w lookup lookup' _ _ _⟩
  nodes := by
    simp [record, nodesOf]
  nodes' := by
    simp [record, nodesOf]
  infos v _ := imageInfo_alike w lookup lookup' _ _ _

/-- **Looking up tools changes nothing but links.** Two walks of a workflow with different look-ups,
which may fail for any path, both succeed or are refused for the same reason. If they succeed, then
they have recorded the same dependencies and types, and the same steps in the same order, with the
same images and the same paths of what they run. The link of a step, also that of its node, differs
only if the answers for the one path differ that is looked up for its image, and the specifier only
if one of the look-ups fails there and the other one does not; a step has neither of the two if its
look-up fails.

**Proof sketch.** By `outcome_walk`, a walk reads the visits of the workflow and records them. The
reading does not depend on the look-up. What is recorded of each visit is alike by
`imageInfo_alike`, and setting related values keeps tables related. -/
theorem walk_lookups (workflow : Entries) (inherited : Option String) :
    (∃ vs r r', visits w.pathOfId workflow inherited = .ok vs ∧
      ((w.asking lookup).walk workflow inherited 0 none).run {} = .ok () r ∧
      ((w.asking lookup').walk workflow inherited 0 none).run {} = .ok () r' ∧
      r.Alike w lookup lookup' vs r') ∨
    ∃ e r r', ((w.asking lookup).walk workflow inherited 0 none).run {} = .error e r ∧
      ((w.asking lookup').walk workflow inherited 0 none).run {} = .error e r' := by
  cases hvisits : visits w.pathOfId workflow inherited with
  | ok vs =>
    exact .inl ⟨vs, _, _, rfl, walk_eq_ok_iff.2 ⟨vs, hvisits, rfl⟩,
      walk_eq_ok_iff.2 ⟨vs, hvisits, rfl⟩, record_alike w lookup lookup' vs⟩
  | error e =>
    have hfails : ∀ lookup, ∃ r,
        ((w.asking lookup).walk workflow inherited 0 none).run {} = .error e r := by
      intro lookup
      rw [← Walk.outcome_eq_error, outcome_walk _ le_rfl, Except.map_eq_error]
      exact hvisits
    obtain ⟨r, hr⟩ := hfails lookup
    obtain ⟨r', hr'⟩ := hfails lookup'
    exact .inr ⟨e, r, r', hr, hr'⟩

end Walker

end CwlDescriptor
