import VariantGraph.Resolution.Cache
import VariantGraph.Resolution.EdgeTable
import VariantGraph.Resolution.NodeState

/-!
# Walking the graph

One pass walks the graph breadth-first from the root, with the versions chosen so far and the module
data fetched so far. At each node one variant is selected for all requests that have reached it; its
declarations are changed by the rules, those that every path excludes are left out, and the others
are recorded as edges and push what the path demands into their targets. A node whose state changes
is visited again; a new variant request also withdraws the selection made before.

Every visit but the first of a node is caused by a new variant request, a new exclude set or the
loss of an inherited constraint, and there are finitely many of each: `Situation.visitBound` counts
them, and the walk is cut off at that count only in form.

Main statements: `Walk.arrive_order` and `Situation.visit_root` describe single steps.
-/

namespace VariantGraph

/-- The root of a resolution and what it asks for. -/
structure ResolveRequest where
  root : Coordinates
  /-- The attributes that every variant is selected by. -/
  attributes : Attributes := Table.empty
  dependencies : List Dependency := []
  constraints : List DependencyConstraint := []
deriving DecidableEq

namespace Resolution

/-- The module that takes the place of another one which provides the same capability. -/
structure Redirect where
  winner : ModuleId
  description : String
deriving DecidableEq, Repr

/-- What a node declares. -/
structure Declarations where
  dependencies : List Dependency := []
  constraints : List DependencyConstraint := []
deriving DecidableEq

/-- What is recorded of the variant that was selected for a node. -/
structure SelectedNode where
  version : String
  variant : Option String
  attributes : Attributes
  capabilities : List Capability
  files : List FileRef
  availableAt : Option Coordinates
deriving DecidableEq

/-- What came of a node. -/
inductive Outcome where
  | selected (node : SelectedNode)
  /-- The module version does not exist. -/
  | missing (id : Coordinates)
  | failed (error : SelectionError)
deriving DecidableEq

/-- Everything that a pass depends on. -/
structure Situation where
  request : ResolveRequest
  schema : Schema
  rules : Rules
  selections : Table ModuleId SelectedVersion := Table.empty
  cache : Cache := {}
  redirects : Table ModuleId Redirect := Table.empty

/-- What a pass has learned of the graph, and the nodes that it still has to visit. -/
structure Walk where
  nodes : Table ModuleId NodeState
  /-- The reached modules in order of discovery, without the root. -/
  order : List ModuleId
  table : EdgeTable
  outcomes : Table ModuleId Outcome
  queue : List ModuleId
deriving DecidableEq

/-! ## Declarations -/

/-- The record of a selection. -/
def SelectedNode.ofSelection (data : ModuleData) : Selection → SelectedNode
  | .variant v =>
    { version := data.id.version
      variant := some v.name
      attributes := v.attributes
      capabilities := data.provided v
      files := v.files
      availableAt := v.availableAt? }
  | .artifacts files =>
    { version := data.id.version
      variant := none
      attributes := Table.empty
      capabilities := [Capability.implicit data.id.module data.id.version]
      files := files
      availableAt := none }

/-- What comes of a node with some module data and variant requests. -/
def outcomeOf (schema : Schema) (data : ModuleData) (asks : List VariantRequest) : Outcome :=
  match Selection.selectShared schema data asks with
  | .ok s => .selected (SelectedNode.ofSelection data s)
  | .error e => .failed e

/-- The dependency that leads from a variant to the module version at which it is available. It asks
for what the first request for the variant asked. -/
def hop (target : Coordinates) (asks : List VariantRequest) : Dependency :=
  { module := target.module
    constraint := VersionConstraint.require target.version
    attributes := (asks.head?.map VariantRequest.attributes).getD Table.empty
    capabilities := (asks.head?.map VariantRequest.capabilities).getD [] }

/-- The declarations of a selected node: those of the variant of the recorded name, or one hop when
the variant lives elsewhere. -/
def declarations (data : ModuleData) (node : SelectedNode) (asks : List VariantRequest) :
    Declarations :=
  match node.availableAt with
  | some target => { dependencies := [hop target asks] }
  | none =>
    match node.variant.bind data.variant? with
    | some v => { dependencies := v.dependencies, constraints := v.constraints }
    | none => {}

namespace Situation

/-- The module of the root. -/
def root (s : Situation) : ModuleId := s.request.root.module

/-- A request after the rules and after redirects between modules of one capability. -/
def underRules (s : Situation) (m : ModuleId) (c : VersionConstraint) : RuledRequest :=
  let ruled := s.rules.apply m c
  match s.redirects.get? ruled.module with
  | none => ruled
  | some r =>
    { module := r.winner
      constraint := { VersionConstraint.any with forSubgraph := ruled.constraint.forSubgraph }
      substitution := some r.description
      pinned := none }

end Situation

/-! ## Arriving at a node -/

namespace Walk

/-- The walk before its first step. -/
def start (root : ModuleId) : Walk where
  nodes := (Table.empty : Table ModuleId NodeState).insert root NodeState.root
  order := []
  table := EdgeTable.empty
  outcomes := Table.empty
  queue := [root]

/-- A path arrives at a node for the first time. -/
def discover (w : Walk) (m : ModuleId) (excludes : List ExcludeSet) (passedDown : Inherited)
    (ask : VariantRequest) : Walk :=
  { w with
    nodes := w.nodes.insert m ⟨normalize excludes, passedDown, [ask]⟩
    order := w.order ++ [m]
    queue := w.queue ++ [m] }

/-- A path arrives at a node that has been reached before. The node is queued again when a change is
reported, and a new request withdraws the selection made before. -/
def rejoin (w : Walk) (m : ModuleId) (node : NodeState) (excludes : List ExcludeSet)
    (passedDown : Inherited) (ask : VariantRequest) : Walk :=
  let isNew := !node.asks.contains ask
  let asked := node.ask ask
  { w with
    nodes := w.nodes.insert m (asked.merge excludes passedDown)
    outcomes := if isNew then w.outcomes.erase m else w.outcomes
    queue := if asked.mergeChanges excludes passedDown || isNew then w.queue ++ [m] else w.queue }

/-- A path arrives at a node with its exclude sets, its constraints and its variant request. -/
def arrive (w : Walk) (m : ModuleId) (excludes : List ExcludeSet) (passedDown : Inherited)
    (ask : VariantRequest) : Walk :=
  match w.nodes.get? m with
  | some node => w.rejoin m node excludes passedDown ask
  | none => w.discover m excludes passedDown ask

/-- Records an edge. -/
def record (w : Walk) (slot : Slot) (e : Edge) : Walk := { w with table := w.table.record slot e }

theorem arrive_order (w : Walk) (m : ModuleId) (excludes : List ExcludeSet)
    (passedDown : Inherited) (ask : VariantRequest) :
    (w.arrive m excludes passedDown ask).order
      = if (w.nodes.get? m).isSome then w.order else w.order ++ [m] := by
  unfold arrive
  cases h : w.nodes.get? m with
  | none => simp [discover]
  | some node => simp [rejoin]

end Walk

/-! ## Expanding a node -/

/-- A declared dependency with its place among the declarations and what the rules made of it. -/
structure RuledDependency where
  index : Nat
  declared : Dependency
  ruled : RuledRequest
deriving DecidableEq

/-- A declared dependency constraint with its place and what the rules made of it. -/
structure RuledConstraint where
  index : Nat
  ruled : RuledRequest
deriving DecidableEq

/-- The node that is being expanded. -/
structure Origin where
  module : ModuleId
  /-- The coordinates of the node, for messages. -/
  requestedBy : String
  /-- The state of the node when its expansion started. -/
  state : NodeState

namespace Situation

/-- The declared dependencies of a node that are not excluded at it, neither by the declared module
nor by the one that the rules put in its place. -/
def followed (s : Situation) (node : NodeState) (dependencies : List Dependency) :
    List RuledDependency :=
  dependencies.zipIdx.filterMap fun e =>
    let ruled := s.underRules e.1.module e.1.constraint
    if node.excludes e.1.module || node.excludes ruled.module then none
    else some ⟨e.2, e.1, ruled⟩

/-- The declared dependency constraints of a node after the rules. -/
def ruledConstraints (s : Situation) (constraints : List DependencyConstraint) :
    List RuledConstraint :=
  constraints.zipIdx.map fun e => ⟨e.2, s.underRules e.1.module e.1.constraint⟩

/-- The constraints that bind the nodes below: the inherited ones, then the node's own for modules
that have none yet. -/
def passedDown (inherited : Inherited) (requests : List RuledRequest) : Inherited :=
  requests.foldl
    (fun t r => if r.constraint.forSubgraph then t.insertIfNew r.module r.constraint else t)
    inherited

/-- The edge of a dependency. -/
def dependencyEdge (o : Origin) (d : RuledDependency) : Edge where
  source := o.module
  target := d.ruled.module
  request :=
    { requestedBy := o.requestedBy
      constraint := d.ruled.constraint
      forced := d.declared.force
      pinned := d.ruled.pinned
      inherited := o.state.inherited.get? d.ruled.module }
  substitution := d.ruled.substitution

/-- The edge of a dependency constraint. -/
def constraintEdge (o : Origin) (c : RuledConstraint) : Edge where
  source := o.module
  target := c.ruled.module
  request :=
    { requestedBy := o.requestedBy
      constraint := c.ruled.constraint
      pinned := c.ruled.pinned
      inherited := o.state.inherited.get? c.ruled.module
      isConstraint := true }
  substitution := c.ruled.substitution

/-- The exclude sets of the paths through an edge. -/
def excludesBelow (state : NodeState) (d : Dependency) : List ExcludeSet :=
  state.excludeSets.map fun set => OrderedSet.union set d.effectiveExcludes

/-- What a dependency asks of its target. -/
def askOf (s : Situation) (d : Dependency) : VariantRequest :=
  { attributes := s.request.attributes.merge d.attributes
    capabilities := d.capabilities
    targetVariant := d.targetVariant }

/-- Records the edge of a dependency and arrives at its target. The root is recorded as a target and
not visited again. -/
def follow (s : Situation) (o : Origin) (below : Inherited) (w : Walk) (d : RuledDependency) :
    Walk :=
  let w := w.record ⟨o.module, false, d.index⟩ (dependencyEdge o d)
  if d.ruled.module = s.root then w
  else w.arrive d.ruled.module (excludesBelow o.state d.declared) below (s.askOf d.declared)

/-- Records the edge of a dependency constraint. Constraints on the root say nothing. -/
def recordConstraint (s : Situation) (o : Origin) (w : Walk) (c : RuledConstraint) : Walk :=
  if c.ruled.module = s.root then w
  else w.record ⟨o.module, true, c.index⟩ (constraintEdge o c)

/-- Records the edges of a node and pushes its state into their targets. -/
def expand (s : Situation) (o : Origin) (d : Declarations) (w : Walk) : Walk :=
  let dependencies := s.followed o.state d.dependencies
  let constraints := s.ruledConstraints d.constraints
  let below := passedDown o.state.inherited
    (dependencies.map RuledDependency.ruled ++ constraints.map RuledConstraint.ruled)
  constraints.foldl (s.recordConstraint o) (dependencies.foldl (s.follow o below) w)

/-! ## The walk -/

/-- Visits the root, which declares what the request asks for. -/
def visitRoot (s : Situation) (w : Walk) : Walk :=
  match w.nodes.get? s.root with
  | none => w
  | some state =>
    s.expand ⟨s.root, s.request.root.text, state⟩
      ⟨s.request.dependencies, s.request.constraints⟩ w

/-- Visits a node whose module data is known. -/
def visitData (s : Situation) (m : ModuleId) (id : Coordinates) (data : ModuleData)
    (state : NodeState) (w : Walk) : Walk :=
  let outcome := (w.outcomes.get? m).getD (outcomeOf s.schema data state.asks)
  let w := { w with outcomes := w.outcomes.insert m outcome }
  match outcome with
  | .selected node =>
    let d := declarations data node state.asks
    s.expand ⟨m, id.text, state⟩ d
      { w with table := w.table.truncate m d.dependencies.length d.constraints.length }
  | _ => w

/-- Visits a node. Without a chosen version, or before its data is fetched, nothing comes of it. -/
def visit (s : Situation) (m : ModuleId) (w : Walk) : Walk :=
  if m = s.root then s.visitRoot w
  else
    match s.selections.get? m with
    | none => w
    | some selected =>
      let id := m.withVersion selected.version
      match s.cache.module? id with
      | none => w
      | some none => { w with outcomes := w.outcomes.insert m (.missing id) }
      | some (some data) =>
        match w.nodes.get? m with
        | none => w
        | some state => s.visitData m id data state w

/-- Visits the queued nodes, at most a number of times. -/
def run (s : Situation) : Nat → Walk → Walk
  | 0, w => w
  | n + 1, w =>
    match w.queue with
    | [] => w
    | m :: rest => run s n (s.visit m { w with queue := rest })

/-- The module data in the cache. -/
def fetchedData (s : Situation) : List ModuleData := s.cache.modules.values.reduceOption

/-- The variants that a walk can come across. -/
def knownVariants (s : Situation) : List Variant := s.fetchedData.flatMap ModuleData.variants

/-- The dependencies that a walk can come across. -/
def knownDependencies (s : Situation) : List Dependency :=
  s.request.dependencies ++ s.knownVariants.flatMap Variant.dependencies

/-- The dependency constraints that a walk can come across. -/
def knownConstraints (s : Situation) : List DependencyConstraint :=
  s.request.constraints ++ s.knownVariants.flatMap Variant.constraints

/-- The number of exclude rules that a walk can come across, the universal one included. -/
def ruleCount (s : Situation) : Nat :=
  (s.knownDependencies.map fun d => d.excludes.size).foldl (· + ·) 1

/-- The number of visits that no walk exceeds: every node is visited once when it is discovered and
once for each exclude set, each variant request and each inherited constraint. -/
def visitBound (s : Situation) : Nat :=
  let edges := s.knownDependencies.length + s.knownVariants.length
  1 + (edges + 1) * (Nat.pow 2 s.ruleCount + 3 * (edges + s.knownConstraints.length + 2))

/-- Walks the graph from the root. -/
def traverse (s : Situation) : Walk := s.run s.visitBound (Walk.start s.root)

theorem visit_root (s : Situation) (w : Walk) : s.visit s.root w = s.visitRoot w := by
  simp [visit]

end Situation

end Resolution

end VariantGraph
