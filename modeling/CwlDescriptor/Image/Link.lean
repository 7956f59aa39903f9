import CwlDescriptor.Image.Registry
set_option autoImplicit false

/-!
# Links to images

An image is linked to the registered tool with its path, or if there is none to the page of the
image in its registry. Whether a tool is registered is not known here; one path at most has to be
looked up.

## Main definitions

* `Image.ToolLookup`: what is known of registered tools.
* `Image.Link`, `Image.link`: the link of an image before and after the look-up.
-/

namespace CwlDescriptor.Image

/-- Tells whether a tool is registered under a path; the look-up may fail. -/
abbrev ToolLookup := String → Except Fault Bool

/-- No tool is registered. -/
def noTools : ToolLookup := fun _ => .ok false

/-- The link of an image, before a tool is looked up. -/
inductive Link where
  /-- There is no link. -/
  | none
  /-- A link that no tool can take the place of. -/
  | fixed (url : String)
  /-- A link to the tool registered under the path, or else to the page. -/
  | tool (path : String) (page : String)
deriving DecidableEq, Repr

namespace Link

/-- The address of a registered tool. -/
def toolPage (path : String) : String :=
  "https://www.dockstore.org/containers/" ++ path

/-- The path that has to be looked up, if there is one. -/
def path? : Link → Option String
  | .tool path _ => some path
  | _ => Option.none

/-- The address of the page in the registry, if there is one. -/
def page? : Link → Option String
  | .none => Option.none
  | .fixed url => some url
  | .tool _ page => some page

/-- The address that the link leads to. -/
def resolve (lookup : ToolLookup) : Link → Except Fault (Option String)
  | .none => .ok Option.none
  | .fixed url => .ok (some url)
  | .tool path page => (lookup path).map fun found => some (if found then toolPage path else page)

end Link

/-- The link of the image with a name, which has neither tag nor digest. -/
def linkOfName (name : List Char) : Link :=
  let text := String.ofList name
  let pageIn (start : String) (r : Registry) : String :=
    start ++ String.ofList (repository r name .noTag)
  if isSevenBridges name then .fixed ("https://" ++ text)
  else if startsWith name .quayIo then
    .tool text (pageIn "https://quay.io/repository/" .quayIo)
  else if startsWith name .githubContainerRegistry then
    .tool text (pageIn "https://ghcr.io/" .githubContainerRegistry)
  else if isAmazonEcr name then
    .tool text (if isPrivateEcr name then "https://" ++ text
      else pageIn "https://gallery.ecr.aws/" .amazonEcr)
  else if hasHost name then .none
  else if name.contains '/' then
    .tool (String.ofList (Registry.dockerHub.start ++ name)) ("https://hub.docker.com/r/" ++ text)
  else .fixed ("https://hub.docker.com/_/" ++ text)

/-- The link of an image with a specifier; there is none for an empty reference or a computed
one. -/
def linkWith (image : List Char) (s : Specifier) : Link :=
  if image = [] || s = .parameter then .none else linkOfName (name image s)

/-- The link of an image. -/
def link (image : List Char) : Link :=
  linkWith image (specifier image)

end CwlDescriptor.Image
