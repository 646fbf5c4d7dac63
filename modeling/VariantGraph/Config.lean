import VariantGraph.FileTree
import VariantGraph.Toml.Fields
import VariantGraph.Toml.Reader

/-!
# Configuration

What a user sets for all projects: how resolutions are run, and what documents say about the tool
that wrote them.
-/

namespace VariantGraph

/-- The configuration of a user. -/
structure Config where
  /-- How many fetches may run at the same time. -/
  jobs : Nat := 8
  /-- The number of passes after which a resolution gives up. -/
  maxPasses : Nat := 64
  /-- The version of the tool that documents name. -/
  toolVersion : Option String := none
  /-- The build that documents name. -/
  buildId : Option String := none
deriving DecidableEq, Repr

/-- Why a configuration cannot be used. -/
inductive ConfigError where
  | unreadable
  | malformed
deriving DecidableEq, Repr

/-- What a reader is told. -/
def ConfigError.message : ConfigError → String
  | unreadable => "Failed to read global config"
  | malformed => "Failed to parse global config"

namespace Config

open VariantGraph.Toml

/-- Reads how resolutions are run into a configuration. -/
def resolution? (c : Config) (v : Toml) : Option Config := do
  let f ← fields? ["jobs", "max-passes"] v
  let jobs ← f.default? "jobs" c.jobs natural?
  let maxPasses ← f.default? "max-passes" c.maxPasses natural?
  return { c with jobs := jobs, maxPasses := maxPasses }

/-- Reads what documents say about the tool into a configuration. -/
def tool? (c : Config) (v : Toml) : Option Config := do
  let f ← fields? ["version", "build-id"] v
  let version ← f.optional? "version" text?
  let build ← f.optional? "build-id" text?
  return { c with toolVersion := version, buildId := build }

/-- Reads a configuration from a TOML value. -/
def ofToml? (v : Toml) : Option Config := do
  let f ← fields? ["resolution", "tool"] v
  let c ← f.default? "resolution" {} (resolution? {})
  f.default? "tool" c (tool? c)

/-- Reads a configuration. -/
def parse? (content : String) : Option Config := (Toml.parse? content).bind ofToml?

/-- Reads a configuration, or says that the text is none. -/
def read (content : String) : Except ConfigError Config :=
  match parse? content with
  | some c => .ok c
  | none => .error .malformed

/-- Loads the configuration of a file. Without the file everything is at its default. -/
def load (t : FileTree) (file : Path) : Except ConfigError Config :=
  if t.isFile file then
    match t.readText file with
    | .ok content => read content
    | .error _ => .error .unreadable
  else .ok {}

/-- The version of this tool. -/
def version : String := "0.1.0"

/-- The path of the configuration below the directory of a user. -/
def pathIn (home : Path) : Path := (home.join ".modgraph").join "config.toml"

end Config

end VariantGraph
