import CwlDescriptor.Error
import CwlDescriptor.Text.Cut
set_option autoImplicit false

/-!
# Names and versions of images

A reference to a container image is a name, perhaps with a colon and a tag, perhaps with an at sign
and a digest. The name may begin with a host that a colon and a number follow, so a tag is looked
for behind the last slash only.

## Main definitions

* `Image.Specifier`, `Image.specifier`: how a reference names a version of the image.
* `Image.name`: the name without tag and digest.
* `Image.version`: the tag or digest.
-/

namespace CwlDescriptor.Image

/-- How a reference names a version of an image. -/
inductive Specifier where
  | noTag
  | latest
  | tag
  | digest
  | parameter
deriving DecidableEq, Repr

/-- The name of a specifier. -/
def Specifier.text : Specifier → String
  | .noTag => "NO_TAG"
  | .latest => "LATEST"
  | .tag => "TAG"
  | .digest => "DIGEST"
  | .parameter => "PARAMETER"

/-- Where the text of a reference comes from. -/
inductive Origin where
  /-- It is written in the descriptor. -/
  | literal
  /-- It is computed from inputs. -/
  | dynamic
  | unknown
deriving DecidableEq, Repr

/-- The reference without its digest. -/
def beforeDigest (image : List Char) : List Char :=
  match Text.cutFirst '@' image with
  | some (before, _) => before
  | none => image

/-- The tag of a reference without digest: what follows the first colon behind the last slash. -/
def tag? (image : List Char) : Option (List Char) :=
  (Text.cutFirst ':' (Text.afterLast '/' image)).map (·.2)

/-- The specifier of a reference that is written in the descriptor; an empty tag is none. -/
def specifier (image : List Char) : Specifier :=
  if image.contains '@' then .digest
  else match tag? image with
    | none => .noTag
    | some tag => if tag = [] then .noTag else if tag = "latest".toList then .latest else .tag

/-- The specifier of a reference. -/
def specifierFrom (origin : Origin) (image : List Char) : Specifier :=
  if origin = .dynamic then .parameter else specifier image

/-- The specifier says that there is a tag or a digest. -/
def Specifier.isVersioned : Specifier → Bool
  | .tag | .latest | .digest => true
  | _ => false

/-- The name of an image without tag and digest, as far as the specifier says that there is one. -/
def name (image : List Char) (s : Specifier) : List Char :=
  let image := if s = .digest then beforeDigest image else image
  if s.isVersioned then
    match tag? image with
    | some tag => image.take (image.length - (tag.length + 1))
    | none => image
  else image

/-- The digest or tag of an image; a digest must be there if the specifier says so. -/
def version (image : List Char) (s : Specifier) : Except Fault (List Char) :=
  match s with
  | .digest =>
    match Text.cutFirst '@' image with
    | some (_, digest) => .ok digest
    | none => .error .noDigest
  | .tag | .latest => .ok ((tag? image).getD [])
  | _ => .ok []

end CwlDescriptor.Image
