import VariantGraph.Graph
import VariantGraph.Resolution.Traversal

/-!
# What a pass decides

After a walk the version of every reached module is chosen anew from the requests that were recorded
for it. A pass that changes nothing is stable: then its first failure ends the resolution, modules
that provide the same capability are told apart by the capability rules, and without any such
conflict the graph is built.

Main statement: `Situation.chosen?_eq_some` says when a version is chosen.
-/

namespace VariantGraph

/-- Why a resolution failed, where `ε` is what the source of metadata can fail with. -/
inductive ResolutionError (ε : Type) where
  | version (error : VersionError)
  | selection (error : SelectionError)
  /-- A module version does not exist. -/
  | moduleNotFound (id : Coordinates) (requiredBy : List String)
  /-- Modules provide one capability and no rule prefers one of them. -/
  | capabilityConflict (capability : CapabilityId) (providers : List Coordinates)
  /-- No pass was stable. -/
  | unstable (passes : Nat)
  | cancelled
  /-- The source of metadata failed. -/
  | provider (error : ε)
deriving DecidableEq

namespace ResolutionError

/-- What a reader is told, given what is told of failures of the source of metadata. -/
def message {ε : Type} (providerMessage : ε → String) : ResolutionError ε → String
  | version e => e.message
  | selection e => e.message
  | moduleNotFound id requiredBy =>
    "Could not find " ++ id.text ++ " (required by " ++ ", ".intercalate requiredBy ++ ")"
  | capabilityConflict c providers =>
    "Capability " ++ c.text ++ " is provided by more than one module: " ++
      ", ".intercalate (providers.map Coordinates.text)
  | unstable passes =>
    "Dependency resolution failed: no stable graph after " ++ toString passes ++ " passes"
  | cancelled => "Resolution cancelled"
  | provider e => providerMessage e

end ResolutionError

namespace Resolution

namespace Situation

/-! ## Versions -/

/-- The choice of version for a module after a walk. -/
def verdict (s : Situation) (w : Walk) (m : ModuleId) : Except VersionError Decision :=
  VersionChoice.select m (w.table.requestsFor m) (s.rules.forcedVersion? m) (s.cache.listing? m)

/-- The version that a walk chooses for a module. -/
def chosen? (s : Situation) (w : Walk) (m : ModuleId) : Option SelectedVersion :=
  match s.verdict w m with
  | .ok (.selected v) => some v
  | _ => none

theorem chosen?_eq_some {s : Situation} {w : Walk} {m : ModuleId} {v : SelectedVersion} :
    s.chosen? w m = some v ↔ s.verdict w m = .ok (.selected v) := by
  unfold chosen?
  split
  · next u hu => simp [hu]
  · next hn =>
    constructor
    · intro h
      simp at h
    · intro h
      exact absurd h (hn v)

/-- The versions that a walk chooses for the reached modules. -/
def newSelections (s : Situation) (w : Walk) : Table ModuleId SelectedVersion :=
  Table.ofList (w.order.filterMap fun m => (s.chosen? w m).map fun v => (m, v))

/-- The reached modules whose version listing has to be fetched. -/
def neededListings (s : Situation) (w : Walk) : List ModuleId :=
  w.order.filter fun m =>
    (match s.verdict w m with
      | .ok .needsListing => true
      | _ => false) && (s.cache.listing? m).isNone

/-- The selected module versions that have to be fetched, in ascending order. -/
def neededModules (s : Situation) (w : Walk) : List Coordinates :=
  ((s.newSelections w).toList.map fun e => e.1.withVersion e.2.version).filter
    fun id => !s.cache.isFetched id

/-- Whether the walk changes no selection and needs nothing more. -/
def isStable (s : Situation) (w : Walk) : Bool :=
  s.newSelections w == s.selections && (s.neededModules w).isEmpty &&
    (s.neededListings w).isEmpty

/-! ## Failures -/

/-- How the resolution fails at a module, if it does: no version can be chosen, no variant can be
selected, or the chosen version does not exist. -/
def failureAt? {ε : Type} (s : Situation) (w : Walk) (m : ModuleId) : Option (ResolutionError ε) :=
  match s.verdict w m with
  | .error e => some (.version e)
  | .ok _ =>
    match w.outcomes.get? m with
    | some (.failed e) => some (.selection e)
    | some (.missing id) => some (.moduleNotFound id (w.table.requesters m))
    | _ => none

/-- The first failure in the order of discovery. -/
def failure? {ε : Type} (s : Situation) (w : Walk) : Option (ResolutionError ε) :=
  w.order.findSome? (s.failureAt? w)

end Situation

/-! ## Capabilities -/

/-- The modules that provide a capability, with their coordinates. -/
abbrev Providers := Table ModuleId Coordinates

namespace Walk

/-- The selected node of a module. -/
def selected? (w : Walk) (m : ModuleId) : Option SelectedNode :=
  match w.outcomes.get? m with
  | some (.selected node) => some node
  | _ => none

/-- The reached modules that have a selected node, with it. -/
def selectedNodes (w : Walk) : List (ModuleId × SelectedNode) :=
  w.order.filterMap fun m => (w.selected? m).map fun node => (m, node)

/-- Adds a provider of a capability. -/
def addProvider (t : Table CapabilityId Providers) (m : ModuleId) (version : String)
    (c : CapabilityId) : Table CapabilityId Providers :=
  t.insert c (((t.get? c).getD Table.empty).insert m (m.withVersion version))

/-- The providers of every capability in the graph. -/
def providers (w : Walk) : Table CapabilityId Providers :=
  w.selectedNodes.foldl
    (fun t e => (e.2.capabilities.map Capability.id).foldl
      (fun t c => addProvider t e.1 e.2.version c) t)
    Table.empty

end Walk

/-- The redirects that settle one capability: from each provider to the preferred one. -/
def settleCapability {ε : Type} (rules : Rules) (c : CapabilityId) (providers : Providers) :
    Except (ResolutionError ε) (List (ModuleId × Redirect)) :=
  if providers.size < 2 then .ok []
  else
    match (rules.capabilityRule? c).filter fun rule => providers.contains rule.prefer with
    | none => .error (.capabilityConflict c providers.values)
    | some rule =>
      .ok ((providers.keys.filter fun m => m != rule.prefer).map
        fun m => (m, ⟨rule.prefer, rule.description⟩))

/-- The redirects that settle all capabilities with several providers. The first capability that
cannot be settled is the error. -/
def capabilityRedirects {ε : Type} (rules : Rules) (w : Walk) :
    Except (ResolutionError ε) (Table ModuleId Redirect) :=
  (w.providers.toList.mapM fun e => settleCapability rules e.1 e.2).map
    fun l => Table.ofList l.flatten

/-! ## The graph of a stable pass -/

namespace Situation

/-- The reasons on an edge: the rule that changed its target, then why its version was chosen. -/
def reasonsOf (s : Situation) (e : Edge) : List SelectionReason :=
  match s.selections.get? e.target with
  | none => []
  | some v =>
    let rule := e.substitution.toList.map SelectionReason.selectedByRule
    let reason := SelectionReason.ofRequest e.request v
    if rule.contains reason then rule else rule ++ [reason]

/-- The node of a module with a selected variant. -/
def graphNode (s : Situation) (w : Walk) (m : ModuleId) (node : SelectedNode) : Graph.Node :=
  { id := m.withVersion node.version
    variant := node.variant
    attributes := node.attributes
    capabilities := node.capabilities
    files := node.files
    availableAt := node.availableAt
    reasons := ((w.table.edges.filter fun e => e.target == m).flatMap s.reasonsOf).eraseDups }

/-- The edge of the graph that a recorded edge becomes. -/
def graphEdge (s : Situation) (e : Edge) : Graph.Edge :=
  { source := e.source
    target := e.target
    requested := e.request.constraint
    isConstraint := e.request.isConstraint
    reasons := s.reasonsOf e }

/-- The graph of a stable pass. -/
def graph (s : Situation) (w : Walk) : Graph :=
  (w.table.edges.map s.graphEdge).foldl Graph.addEdge
    ((w.selectedNodes.map fun e => s.graphNode w e.1 e.2).foldl Graph.addNode
      (Graph.ofRoot { id := s.request.root }))

end Situation

end Resolution

end VariantGraph
