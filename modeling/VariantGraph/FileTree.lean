import VariantGraph.Path
import VariantGraph.Table

/-!
# File trees

A tree of directories and files, with a directory from which relative paths start. Following a path
goes from name to name: whatever is left by a further segment, be it `..` or empty, has to be a
directory. A file is replaced as a whole: its new content is put together elsewhere and takes the
place of the old one in a single step.

Main statement: `FileTree.get?_put` says what a tree holds after an entry is put somewhere.
-/

namespace VariantGraph

open VariantGraph.Text

/-- Why something cannot be done with files. -/
inductive FileError where
  | notFound
  | notADirectory
  | isADirectory
  | alreadyExists
  /-- The content is no text. -/
  | invalidData
  /-- The path holds a character that no path may hold. -/
  | invalidInput
  /-- A name or a path is too long. -/
  | invalidFilename
  /-- The target is the top of the tree, or the current or the parent directory of a path. -/
  | resourceBusy
deriving DecidableEq, Repr

/-- What a reader is told. -/
def FileError.message : FileError → String
  | notFound => "No such file or directory"
  | notADirectory => "Not a directory"
  | isADirectory => "Is a directory"
  | alreadyExists => "File exists"
  | invalidData => "The content is not text"
  | invalidInput => "Invalid argument"
  | invalidFilename => "File name too long"
  | resourceBusy => "Device or resource busy"

/-- What stands at a place of a tree. -/
inductive FileTree.Entry where
  | directory
  | file (content : ByteArray)

instance : DecidableEq FileTree.Entry
  | .directory, .directory => .isTrue rfl
  | .directory, .file _ => .isFalse nofun
  | .file _, .directory => .isFalse nofun
  | .file a, .file b =>
    match decEq a.data b.data with
    | .isTrue h => .isTrue (congrArg _ (ByteArray.ext h))
    | .isFalse h => .isFalse fun he => h (by injection he with he; rw [he])

/-- The names on the way from the top of a tree to a file or a directory. -/
abbrev FileTree.Place := List String

/-- A tree of files. Its top is a directory that needs no entry. -/
structure FileTree where
  entries : Table FileTree.Place FileTree.Entry := Table.empty
  /-- The directory from which relative paths start. -/
  current : FileTree.Place := []
deriving DecidableEq

namespace FileTree

/-! ## Places -/

/-- What stands at a place. -/
def get? (t : FileTree) (place : Place) : Option Entry :=
  if place = [] then some .directory else t.entries.get? place

/-- Puts something at a place. -/
def put (t : FileTree) (place : Place) (e : Entry) : FileTree :=
  { t with entries := t.entries.insert place e }

theorem get?_put (t : FileTree) {place : Place} (h : place ≠ []) (e : Entry) (other : Place) :
    (t.put place e).get? other = if other = place then some e else t.get? other := by
  unfold get? put
  by_cases hp : other = place
  · subst hp
    simp [h]
  · by_cases he : other = []
    · subst he
      simp [hp]
    · simp [hp, he]

/-- The number of bytes that a name may have. -/
def nameLimit : Nat := 255

/-- The number of bytes that a path may have. -/
def pathLimit : Nat := 4095

/-- The place that a segment leads to from a place. -/
def step (t : FileTree) (place : Place) (segment : String) : Except FileError Place :=
  match t.get? place with
  | none => .error .notFound
  | some (.file _) => .error .notADirectory
  | some .directory =>
    if segment = "" ∨ segment = "." then .ok place
    else if segment = ".." then .ok place.dropLast
    else if nameLimit < segment.utf8ByteSize then .error .invalidFilename
    else .ok (place ++ [segment])

/-- The place that some segments lead to from a place. -/
def follow (t : FileTree) : Place → List String → Except FileError Place
  | place, [] => .ok place
  | place, segment :: rest => (t.step place segment).bind fun p => t.follow p rest

/-- Why a path cannot be followed in any tree. -/
def flaw? (p : Path) : Option FileError :=
  if '\x00' ∈ p.text.toList then some .invalidInput
  else if pathLimit < p.text.utf8ByteSize then some .invalidFilename
  else if p.text = "" then some .notFound
  else none

/-- The place that a path leads to. Nothing has to stand there, but in a directory that is there. -/
def locate (t : FileTree) (p : Path) : Except FileError Place :=
  match flaw? p with
  | some e => .error e
  | none => t.follow (if Path.isAbsolute p.text then [] else t.current) (splitAt '/' p.text)

/-- What stands where a path leads. -/
def entryAt (t : FileTree) (p : Path) : Except FileError Entry :=
  (t.locate p).bind fun place =>
    match t.get? place with
    | some e => .ok e
    | none => .error .notFound

/-! ## Looking -/

/-- Whether a path leads to a file or a directory. -/
def pathExists (t : FileTree) (p : Path) : Bool :=
  match t.entryAt p with
  | .ok _ => true
  | .error _ => false

/-- Whether a path leads to a file. -/
def isFile (t : FileTree) (p : Path) : Bool :=
  match t.entryAt p with
  | .ok (.file _) => true
  | _ => false

/-- Whether a path leads to a directory. -/
def isDirectory (t : FileTree) (p : Path) : Bool :=
  match t.entryAt p with
  | .ok .directory => true
  | _ => false

/-- The content of a file. -/
def read (t : FileTree) (p : Path) : Except FileError ByteArray :=
  (t.entryAt p).bind fun
    | .file content => .ok content
    | .directory => .error .isADirectory

/-- The content of a file as text. -/
def readText (t : FileTree) (p : Path) : Except FileError String :=
  (t.read p).bind fun content =>
    match String.fromUTF8? content with
    | some text => .ok text
    | none => .error .invalidData

/-- The names of what stands in the directory at a place, in ascending order. -/
def namesIn (t : FileTree) (place : Place) : List String :=
  t.entries.keys.filterMap fun k =>
    if k.dropLast = place then k.getLast? else none

/-- The names of what stands in a directory, in ascending order. -/
def list (t : FileTree) (p : Path) : Except FileError (List String) :=
  (t.locate p).bind fun place =>
    match t.get? place with
    | some .directory => .ok (t.namesIn place)
    | some (.file _) => .error .notADirectory
    | none => .error .notFound

/-- The path of the directory from which relative paths start. -/
def currentPath (t : FileTree) : Path := ⟨"/" ++ "/".intercalate t.current⟩

/-- A tree in which relative paths start from the directory that a path leads to. -/
def enter (t : FileTree) (p : Path) : Except FileError FileTree :=
  (t.locate p).bind fun place =>
    match t.get? place with
    | some .directory => .ok { t with current := place }
    | some (.file _) => .error .notADirectory
    | none => .error .notFound

/-- The nearest directory, from a path upwards, that holds a file of some name. -/
def findAncestorWith (t : FileTree) (start : Path) (name : String) : Option Path :=
  start.ancestors.find? fun d => t.isFile (d.join name)

/-! ## Changing -/

/-- The path without slashes at its end. -/
def withoutSlashes (p : Path) : Path :=
  match (p.text.toList.reverse.dropWhile (· == '/')).reverse with
  | [] => p
  | s => ⟨String.ofList s⟩

/-- The place that a path leads to when slashes at its end are ignored. -/
def locateBare (t : FileTree) (p : Path) : Except FileError Place :=
  match flaw? p with
  | some e => .error e
  | none => t.locate (withoutSlashes p)

/-- Creates a directory in one that is there. -/
def createDirectory (t : FileTree) (p : Path) : Except FileError FileTree :=
  (t.locateBare p).bind fun place =>
    match t.get? place with
    | some _ => .error .alreadyExists
    | none => .ok (t.put place .directory)

/-- Creates a directory if there is none. -/
def createIfMissing (t : FileTree) (p : Path) : Except FileError FileTree :=
  match t.createDirectory p with
  | .ok t => .ok t
  | .error e => if t.isDirectory p then .ok t else .error e

/-- A tree after a change, or as it was if the change cannot be made. -/
def attempt (t : FileTree) : Except FileError FileTree → FileTree × Except FileError Unit
  | .ok t => (t, .ok ())
  | .error e => (t, .error e)

/-- Creates the directories of a list of paths from the last one on, which lies furthest up. The
first path that can be created at once ends the way up. What has been created stays if a further
directory cannot be created. -/
def createChain (t : FileTree) : List Path → FileTree × Except FileError Unit
  | [] => (t, .ok ())
  | p :: up =>
    if p = Path.empty then (t, .ok ())
    else
      match t.createIfMissing p with
      | .error .notFound =>
        match t.createChain up with
        | (t, .ok ()) => t.attempt (t.createIfMissing p)
        | failed => failed
      | done => t.attempt done

/-- Makes sure that there is a directory, with all directories on the way to it. -/
def ensureDirectory (t : FileTree) (p : Path) : FileTree × Except FileError Unit :=
  if t.pathExists p then (t, .ok ()) else t.createChain p.ancestors

/-- Writes a file into a directory that is there. -/
def write (t : FileTree) (p : Path) (content : ByteArray) : Except FileError FileTree :=
  (t.locate p).bind fun place =>
    match t.get? place with
    | some .directory => .error .isADirectory
    | _ => .ok (t.put place (.file content))

/-- The place that a new file takes when it replaces what a path names. A path of nothing but
slashes names the top of the tree. -/
def replaceable (t : FileTree) (p : Path) : Except FileError Place :=
  let last := (splitAt '/' (withoutSlashes p).text).getLast?
  (t.locateBare p).bind fun place =>
    if last = some "" ∨ last = some "." ∨ last = some ".." then .error .resourceBusy
    else if p ≠ withoutSlashes p then .error .notADirectory
    else
      match t.get? place with
      | some .directory => .error .isADirectory
      | _ => .ok place

/-- The path at which new content is put together: a file in the same directory, whose name has
ten bytes. -/
def draftPath (t : FileTree) (p : Path) : Path :=
  (t.currentPath.join p.directory.text).join ".tmp000000"

/-- Replaces a file by new content, or leaves everything as it is: what is put together from the
tree takes its place only when it is complete. The directory of the file is created first. -/
def replace {ε : Type} (t : FileTree) (p : Path) (failed : FileError → ε)
    (content : Except ε ByteArray) : FileTree × Except ε Unit :=
  match t.ensureDirectory p.directory with
  | (t, .error e) => (t, .error (failed e))
  | (t, .ok ()) =>
    match t.locate (t.draftPath p) with
    | .error e => (t, .error (failed e))
    | .ok _ =>
      match content with
      | .error e => (t, .error e)
      | .ok content =>
        match t.replaceable p with
        | .error e => (t, .error (failed e))
        | .ok place => (t.put place (.file content), .ok ())

/-- Removes what a path leads to, with everything below it. -/
def remove (t : FileTree) (p : Path) : Except FileError FileTree :=
  (t.locate p).bind fun place =>
    match t.get? place with
    | none => .error .notFound
    | some _ => .ok { t with entries := t.entries.filter fun k _ => !place.isPrefixOf k }

/-- The paths of all files below a directory, each with the path of the directory before it, in
ascending order. -/
def filesBelow (t : FileTree) (p : Path) : Except FileError (List Path) :=
  (t.locate p).bind fun place =>
    match t.get? place with
    | some .directory =>
      .ok ((t.entries.toList.filterMap fun e =>
        match e with
        | (k, .file _) =>
          if place.isPrefixOf k then
            some ((k.drop place.length).foldl (fun s name => s ++ "/" ++ name) p.text)
          else none
        | (_, .directory) => none).mergeSort.map Path.mk)
    | some (.file _) => .error .notADirectory
    | none => .error .notFound

end FileTree

end VariantGraph
