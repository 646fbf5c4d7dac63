import VariantGraph.FileTree

/-!
# Drafts

New content is put together in a draft, a file of its own beside the one that it is meant for, and
takes the place of that file only when it is complete. Each step of this can fail for reasons that
lie outside of the tree. Whatever fails, the draft is thrown away.

Main definition: `FileTree.replaceByDraft`.
-/

namespace VariantGraph

/-- A step on the way to replacing a file that fails for a reason outside of the tree. -/
inductive Fault (ε : Type) where
  /-- A directory cannot be created: the one that is so many steps above that of the file. -/
  | directory (above : Nat) (error : ε)
  | draft (error : ε)
  /-- The content cannot be written any further than so. -/
  | writing (written : ByteArray) (error : ε)
  | syncing (error : ε)
  | renaming (error : ε)

namespace FileTree

/-- Throws away what stands at a place. -/
def discard (t : FileTree) (place : Place) : FileTree :=
  { t with entries := t.entries.erase place }

/-- Creates the directory of a file. -/
def prepareDirectory {ε : Type} (t : FileTree) (p : Path) (failed : FileError → ε) :
    Option (Fault ε) → FileTree × Except ε Unit
  | some (.directory above e) =>
    if t.pathExists p then (t, .ok ())
    else ((t.createChain (p.ancestors.drop (above + 1))).1, .error e)
  | _ =>
    match t.ensureDirectory p with
    | (t, .error e) => (t, .error (failed e))
    | (t, .ok ()) => (t, .ok ())

/-- The place of a new draft. -/
def draftPlace (t : FileTree) (p : Path) (name : String) : Except FileError Place :=
  (t.locate (t.draftPath p)).bind fun place =>
    match t.get? (place.dropLast ++ [name]) with
    | some _ => .error .alreadyExists
    | none => .ok (place.dropLast ++ [name])

/-- Creates an empty draft. -/
def createDraft {ε : Type} (t : FileTree) (p : Path) (name : String) (failed : FileError → ε) :
    Option (Fault ε) → Except ε (Place × FileTree)
  | some (.draft e) => .error e
  | _ =>
    match t.draftPlace p name with
    | .error e => .error (failed e)
    | .ok draft => .ok (draft, t.put draft (.file .empty))

/-- Writes the content into a draft and makes sure that it is there to stay. -/
def fill {ε : Type} (t : FileTree) (draft : Place) (content : Except ε ByteArray) :
    Option (Fault ε) → FileTree × Except ε Unit
  | some (.writing written e) => (t.put draft (.file written), .error e)
  | some (.syncing e) =>
    match content with
    | .error e => (t, .error e)
    | .ok c => (t.put draft (.file c), .error e)
  | _ =>
    match content with
    | .error e => (t, .error e)
    | .ok c => (t.put draft (.file c), .ok ())

/-- Lets a draft leave its place for that of a file, in a single step. -/
def persist {ε : Type} (t : FileTree) (draft : Place) (p : Path) (failed : FileError → ε) :
    Option (Fault ε) → Except ε FileTree
  | some (.renaming e) => .error e
  | _ =>
    match t.get? draft with
    | none => .error (failed .notFound)
    | some e =>
      match (t.discard draft).replaceable p with
      | .error e => .error (failed e)
      | .ok place => .ok ((t.discard draft).put place e)

/-- Replaces a file by way of a draft. -/
def replaceByDraft {ε : Type} (t : FileTree) (p : Path) (name : String) (failed : FileError → ε)
    (content : Except ε ByteArray) (fault : Option (Fault ε)) : FileTree × Except ε Unit :=
  match t.prepareDirectory p.directory failed fault with
  | (t, .error e) => (t, .error e)
  | (t, .ok ()) =>
    match t.createDraft p name failed fault with
    | .error e => (t, .error e)
    | .ok (draft, t) =>
      match t.fill draft content fault with
      | (t, .error e) => (t.discard draft, .error e)
      | (t, .ok ()) =>
        match t.persist draft p failed fault with
        | .error e => (t.discard draft, .error e)
        | .ok t => (t, .ok ())

end FileTree

end VariantGraph
