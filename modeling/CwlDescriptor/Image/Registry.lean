import CwlDescriptor.Image.Specifier
set_option autoImplicit false

/-!
# Registries of images

## Main definitions

* `Image.Registry`: the supported registries.
* `Image.isAmazonEcr`, `Image.isSevenBridges`, `Image.hasHost`: what the beginning of a reference
  says.
* `Image.registry?`: the registry that hosts an image.
* `Image.repository`: the name of the repository of an image in a registry.
-/

namespace CwlDescriptor.Image

/-- The supported registries. -/
inductive Registry where
  | dockerHub
  | quayIo
  | githubContainerRegistry
  | amazonEcr
  | sevenBridges
deriving DecidableEq, Repr

/-- The host of a registry. -/
def Registry.host : Registry → String
  | .dockerHub => "registry.hub.docker.com"
  | .quayIo => "quay.io"
  | .githubContainerRegistry => "ghcr.io"
  | .amazonEcr => "public.ecr.aws"
  | .sevenBridges => "images.sbgenomics.com"

/-- All registries. -/
def Registry.all : List Registry :=
  [.dockerHub, .quayIo, .githubContainerRegistry, .amazonEcr, .sevenBridges]

/-- What the names of the images of a registry start with. -/
def Registry.start (r : Registry) : List Char :=
  r.host.toList ++ ['/']

/-- The image begins with the host of the registry. -/
def startsWith (image : List Char) (r : Registry) : Bool :=
  r.start.isPrefixOf image

/-- A lower case letter, digit or hyphen. -/
def isHostChar (c : Char) : Bool :=
  c.isLower || c.isDigit || c = '-'

/-- The image is in a private registry: an account of twelve digits, the service, and a region. -/
def isPrivateEcr (image : List Char) : Bool :=
  (image.take 12).length = 12 && (image.take 12).all Char.isDigit &&
    match ".dkr.ecr.".toList.isPrefixOf? (image.drop 12) with
    | none => false
    | some rest =>
      let region := rest.takeWhile isHostChar
      !region.isEmpty && ".amazonaws.com/".toList.isPrefixOf (rest.drop region.length)

/-- The image is in a public or in a private registry of the service. -/
def isAmazonEcr (image : List Char) : Bool :=
  startsWith image .amazonEcr || isPrivateEcr image

/-- The image begins with the host of the service, perhaps behind a word with a hyphen. -/
def isSevenBridges (image : List Char) : Bool :=
  let label := image.takeWhile isHostChar
  let word := label.take (label.length - 6)
  label.drop word.length = "images".toList &&
    ".sbgenomics.com/".toList.isPrefixOf (image.drop label.length) &&
    (word.isEmpty || (2 ≤ word.length && word.getLast? = some '-'))

/-- The image begins with a host: there is a slash, and the text before the first one has a dot or
a colon, or is the local host. -/
def hasHost (image : List Char) : Bool :=
  match Text.cutFirst '/' image with
  | none => false
  | some (first, _) =>
    first.contains '.' || first.contains ':' || first = "localhost".toList

/-- The supported registry that hosts an image. An image without host is on the default one if it
has a version. -/
def registry? (image : List Char) : Option Registry :=
  if startsWith image .quayIo then some .quayIo
  else if startsWith image .githubContainerRegistry then some .githubContainerRegistry
  else if isAmazonEcr image then some .amazonEcr
  else if isSevenBridges image then some .sevenBridges
  else if hasHost image then none
  else if specifier image = .noTag then none
  else some .dockerHub

/-- The name of the repository of an image in a registry: the name without the host. A private
registry keeps the host, and the default one puts images without owner into its library. -/
def repository (r : Registry) (image : List Char) (s : Specifier) : List Char :=
  let name := name image s
  if r = .dockerHub then
    if name.contains '/' then name else "library/".toList ++ name
  else if r = .amazonEcr && isPrivateEcr name then name
  else match r.start.isPrefixOf? name with
    | some rest => rest
    | none =>
      match Text.cutFirst '/' name with
      | some (_, rest) => rest
      | none => name

end CwlDescriptor.Image
