import CwlDescriptor.CommandLine.Run
set_option autoImplicit false

/-!
# The program

The files that a command needs are read from the disk, the command is run on them, and its output
and the graph that it writes are passed on.

## Main definitions

* `Disk.add`, `Disk.addWay`: files and directories of the disk.
* `Disk.site`: what a command needs of the disk.
* `main`: the program.
-/

namespace CwlDescriptor.Disk

/-- The text of the path of a location. -/
def path (l : Location) : String :=
  (Text.release? ("/" ++ "/".intercalate l)).getD "/"

/-- Adds what is at a location of the disk, and if it is a directory what is below it. -/
partial def add (below : Bool) (t : FileTree) (l : Location) : IO FileTree := do
  let place := (← IO.currentDir) / path l
  if ← place.isDir then
    let t := ((t.makeDirectories [] l).toOption.map (·.1)).getD t
    if below then
      (← place.readDir).foldlM (fun t entry =>
        if Repository.skipped.contains entry.fileName then pure t
        else add true t (l ++ [Text.hold entry.fileName])) t
    else return t
  else if ← place.pathExists then
    let bytes ← IO.FS.readBinFile place
    return (t.addFile l bytes.toList).toOption.getD t
  else return t

/-- Adds what is on the way that names lead. -/
def addWay (t : FileTree) (names : List String) : IO FileTree :=
  (List.range (names.length + 1)).foldlM (fun t n =>
    add false t (Location.ofNames (names.take n))) t

/-- What a command needs of the disk. -/
def site (i : Invocation) : IO Site := do
  let here := Location.names [] (Text.hold (← IO.currentDir).toString)
  let home ← IO.getEnv "HOME"
  let site : Site := {
    files := {}
    directory := here
    configFile := home.map (Text.hold · ++ "/cwl-descriptor/config.json") }
  let root := i.root.getD ""
  let directory := i.directory site root
  let configuration := (i.configFile <|> site.configFile).toList.map site.names
  let files ← ([here, site.names root, directory] ++ configuration).foldlM addWay {}
  return { site with files := ← add true files (Location.ofNames directory) }

/-- Writes the graph that a command has put into a file. -/
def save (arguments : List String) (site : Site) (o : Outcome) : IO Unit := do
  let some file := (Invocation.ofArguments arguments).toOption.bind (·.graphviz) | return
  let l := Location.ofNames (site.names file)
  match o.files.at? l with
  | some (.file bytes) =>
    IO.FS.createDirAll (path l.dropLast)
    IO.FS.writeBinFile (path l) (ByteArray.mk bytes.toArray)
  | _ => return

end CwlDescriptor.Disk

open CwlDescriptor

/-- The program. -/
def main (arguments : List String) : IO UInt32 := do
  let arguments := arguments.map Text.hold
  let site ← match Invocation.ofArguments arguments with
    | .ok i => Disk.site i
    | .error _ => pure { files := {}, directory := [] }
  match runCommand site arguments with
  | .ok o =>
    IO.print o.output
    for complaint in o.complaint do
      IO.eprintln ((Text.release? complaint).getD complaint)
    if o.status = 0 then
      Disk.save arguments site o
    return o.status.toUInt32
  | .error breakdown =>
    IO.eprintln breakdown.text
    return 1
