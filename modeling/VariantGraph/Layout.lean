import VariantGraph.Coordinates
import VariantGraph.Path

/-!
# Repository layout

Where the document of a module version lies in a repository. The group is a chain of directories,
one for each part between dots; below them lie the directory of the module, the directory of the
version and in it the document: `org.example:lib:1.0` has `org/example/lib/1.0/lib-1.0.module`.
-/

namespace VariantGraph.Layout

open VariantGraph.Text

/-- The ending of the names of documents. -/
def extension : String := ".module"

/-- The directory of a group. -/
def groupDir (group : String) : Path := (splitAt '.' group).foldl Path.join Path.empty

/-- The directory of all versions of a module. -/
def moduleDir (m : ModuleId) : Path := (groupDir m.group).join m.name

/-- The directory of a module version. -/
def versionDir (c : Coordinates) : Path := (moduleDir c.module).join c.version

/-- The name of the document of a module version. -/
def documentName (c : Coordinates) : String := c.name ++ "-" ++ c.version ++ extension

/-- The path of the document of a module version, seen from the root of the repository. -/
def documentPath (c : Coordinates) : Path := (versionDir c).join (documentName c)

/-- The address of the document of a module version, seen from the document of another module of the
same group. -/
def relativeUrl (c : Coordinates) : String :=
  "../../" ++ c.name ++ "/" ++ c.version ++ "/" ++ documentName c

end VariantGraph.Layout
