import VariantGraph.CommandLine.Paths

/-!
# The program

Puts the files that a command needs into a tree, runs the command on it and writes back what it has
changed. All decisions are made on the tree.
-/

open VariantGraph VariantGraph.CommandLine

namespace VariantGraph.Program

/-- The text of the path of a place. -/
def pathText (place : FileTree.Place) : String := "/" ++ "/".intercalate place

/-- The place that a path leads to if all directories on the way are there. -/
def placeOf (current : FileTree.Place) (p : Path) : FileTree.Place :=
  let start := if Path.isAbsolute p.text then [] else current
  (Text.splitAt '/' p.text).foldl
    (fun place segment =>
      if segment = "" ∨ segment = "." then place
      else if segment = ".." then place.dropLast
      else place ++ [segment])
    start

/-- Adds what stands at a place on disk, and if asked for everything below it. -/
partial def addPlace (below : Bool) (t : FileTree) (place : FileTree.Place) : IO FileTree := do
  match ← (IO.FS.realPath (pathText place)).toBaseIO with
  | .error _ => return t
  | .ok path =>
    if ← path.isDir then
      let t := if place.isEmpty then t else t.put place .directory
      if below then
        (← path.readDir).foldlM (fun t entry => addPlace below t (place ++ [entry.fileName])) t
      else return t
    else
      match ← (IO.FS.readBinFile path).toBaseIO with
      | .ok content => return t.put place (.file content)
      | .error _ => return t

/-- Adds what a path leads to, with the directories on the way. -/
def addPath (below : Bool) (t : FileTree) (p : Path) : IO FileTree := do
  let place := placeOf t.current p
  let t ← (List.range place.length).foldlM (fun t n => addPlace false t (place.take n)) t
  addPlace below t place

/-- Adds what some paths lead to. -/
def addPaths (below : Bool) (t : FileTree) (l : List Path) : IO FileTree :=
  l.foldlM (addPath below) t

/-- The tree of the files that a command needs. -/
def treeFor (env : Environment) (t : FileTree) (i : Invocation) : IO FileTree := do
  let t ← addPaths false t (preparationPaths env t.currentPath i.manifest)
  match (findManifest t i.manifest).toOption.bind fun file => (Project.load t file).toOption with
  | none => return t
  | some p =>
    let t ← addPaths true t (repositoryPaths p)
    let t ← addPaths false t (artifactPaths p)
    addPaths false t (targetPaths p i.command)

/-- Writes a file beside its place first, so that it is replaced as a whole. -/
def replaceFile (path : String) (content : ByteArray) : IO Unit := do
  let draft := path ++ ".new"
  IO.FS.writeBinFile draft content
  IO.FS.rename draft path

/-- Writes what has changed in a tree. -/
def save (before after : FileTree) : IO Unit := do
  for (place, entry) in after.entries.toList do
    unless before.get? place = some entry do
      match entry with
      | .directory => IO.FS.createDirAll (pathText place)
      | .file content => replaceFile (pathText place) content

/-- A name for the build at hand. -/
def buildName : IO String := do
  let bytes ← IO.getRandomBytes 13
  return String.ofList (bytes.toList.flatMap Digest.hexByte)

/-- What the surroundings of the program say. -/
def environment : IO Environment := do
  let home ← IO.getEnv "HOME"
  let profile ← IO.getEnv "USERPROFILE"
  return {
    home := ⟨(home <|> profile).getD "."⟩
    manifest := ← IO.getEnv "MODGRAPH_MANIFEST"
    build := ← buildName }

end VariantGraph.Program

open VariantGraph.Program in
/-- Runs the program on its command line. -/
def main (args : List String) : IO UInt32 := do
  let env ← environment
  let current := placeOf [] ⟨(← IO.currentDir).toString⟩
  let start : FileTree := { current := current }
  let tree ←
    match read env args with
    | .run i => treeFor env start i
    | _ => pure start
  let (after, outcome) := run tree env args
  save tree after
  IO.print outcome.output
  IO.eprint outcome.message
  return outcome.status.toUInt32
