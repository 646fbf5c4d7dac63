import VariantGraph.CommandLine

/-!
# The files of a command

Which files a command looks at, so that a tree of files can be put together that has all of them.
-/

namespace VariantGraph.CommandLine

/-- The files that tell which manifest and which configuration a command has, given the current
directory. -/
def preparationPaths (env : Environment) (current : Path) (named : Option Path) : List Path :=
  Config.pathIn env.home ::
    match named with
    | some file => [file]
    | none => current.ancestors.map fun d => d.join Project.manifestName

/-- The directories of which a command needs everything that lies below them. -/
def repositoryPaths (p : Project) : List Path :=
  match p.repositoryRoot with
  | .ok root => [root]
  | .error _ => []

/-- The files that a project publishes. -/
def artifactPaths (p : Project) : List Path :=
  p.manifest.variants.flatMap fun v => v.files.map fun f => p.root.join f.path

/-- The files that a command writes. -/
def targetPaths (p : Project) : Command → List Path
  | .resolve _ => []
  | .publish options =>
    match p.target options with
    | .ok repository => [repository.join (Layout.documentPath p.manifest.component.id).text]
    | .error _ => []

end VariantGraph.CommandLine
