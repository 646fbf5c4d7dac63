import VariantGraph.Proofs.Resolution.Nodes

/-!
# A resolution that succeeds is a fixed point

The last pass of a resolution selects again what it was given. Every node of the graph has the data
that the provider has for the version that the choice among all requests of that pass gives, and the
variant of these data that all variant requests share. It has that version itself unless a rule on
metadata changes the version of the data.

Main statement: `Resolver.resolve_fixpoint`.
-/

namespace VariantGraph

open Resolution

namespace Resolver

variable {ε : Type} {r : Resolver ε} {request : ResolveRequest}

/-- A node of a graph is what a pass selects for its module from what the provider has. -/
structure Selects (r : Resolver ε) (s : Situation) (n : Graph.Node) (state : NodeState)
    (v : SelectedVersion) (data : ModuleData) (selection : Selection) : Prop where
  reached : n.module ∈ s.traverse.order
  /-- The state of the node, with the variant requests of all edges into it. -/
  node : s.traverse.nodes.get? n.module = some state
  version : VersionChoice.select n.module (s.traverse.table.requestsFor n.module)
    (r.rules.forcedVersion? n.module) (s.cache.listing? n.module) = .ok (.selected v)
  fetched : r.provider.fetch (n.module.withVersion v.version) = .ok (some data)
  /-- The node has the selected version if the rules on metadata leave the data theirs. -/
  id : n.id = n.module.withVersion v.version ↔
    (r.rules.reviseMetadata data).id.version = data.id.version
  variant : Selection.selectShared r.schema (r.rules.reviseMetadata data) state.asks = .ok selection
  selected : n.selected = SelectedNode.ofSelection (r.rules.reviseMetadata data) selection

/-- A graph is a fixed point of the pass of a situation. -/
structure Fixpoint (r : Resolver ε) (s : Situation) (g : Graph) : Prop where
  /-- The walk was not cut off. -/
  finished : s.traverse.queue = []
  selections : s.newSelections s.traverse = s.selections
  listing : ∀ {m versions}, s.cache.listing? m = some versions → r.provider.versions m = .ok versions
  node : ∀ n ∈ g.nodes, ∃ state v data selection, Selects r s n state v data selection
  /-- No reached module is undecided, waits for a listing, is missing or has failed. -/
  decided : ∀ m ∈ s.traverse.order, (∃ v, s.verdict s.traverse m = .ok (.selected v)) ∧
    (∃ node, s.traverse.outcomes.get? m = some (.selected node)) ∧ ∃ n ∈ g.nodes, n.module = m

/-- What the selection for given data records is what the node of the graph records. -/
theorem selects_graphNode {p : Progress} (hp : r.provider.Faithful)
    (hcache : p.cache.ComesFrom r.provider r.rules) {m : ModuleId} {st : NodeState}
    {v : SelectedVersion} {data : ModuleData} {node : SelectedNode}
    (hm : m ∈ (r.situation request p).traverse.order)
    (h : (r.situation request p).Settled (r.situation request p).traverse m st v data node) :
    ∃ original selection, Selects r (r.situation request p)
      ((r.situation request p).graphNode (r.situation request p).traverse m node) st v original
      selection := by
  obtain ⟨original, selection, hrecorded, hselected⟩ := exists_recordedFrom hcache h
  obtain ⟨v', hv', hfetch⟩ := hrecorded.fetched
  obtain rfl : v = v' := Option.some.inj (h.selection.symm.trans hv')
  refine ⟨original, selection, hm, h.reached, h.verdict, hfetch, ?_, hselected, hrecorded.recorded⟩
  rw [← hrecorded.version_eq, hp _ _ hfetch]
  constructor
  · exact congrArg Coordinates.version
  · exact congrArg (ModuleId.withVersion _)

/-- A resolution that succeeds ends with a fixed point of its last pass, whatever the rules are. -/
theorem resolve_fixpoint (hp : r.provider.Faithful) {res : Resolution}
    (h : r.resolve request = .ok res) :
    ∃ k p, LastPass r request k p (.ok res) ∧ Fixpoint r (r.situation request p) res.graph := by
  obtain ⟨k, p, hlast⟩ := exists_lastPass h
  have hcache := hlast.reaches.comesFrom
  obtain ⟨hcomplete, hgraph⟩ := Situation.complete_of_lastPass hlast
  generalize hs : r.situation request p = s at hcomplete hgraph
  have hnodes : res.graph.nodes
      = s.traverse.selectedNodes.map fun e => s.graphNode s.traverse e.1 e.2 := by
    rw [hgraph, Situation.nodes_graph s.shape_traverse]
  refine ⟨k, p, hlast, ?_⟩
  rw [hs]
  refine ⟨s.queue_traverse, (Situation.isStable_iff.1 hcomplete.stable).1, ?_, ?_, ?_⟩
  · intro m versions hl
    rw [← hs] at hl
    exact hcache.listing hl
  · intro n hn
    rw [hnodes] at hn
    obtain ⟨⟨m, node⟩, he, rfl⟩ := List.mem_map.1 hn
    obtain ⟨st, v, data, hsettled⟩ := hcomplete.settled_of_mem_selectedNodes he
    have hm := (Walk.mem_selectedNodes.1 he).1
    subst hs
    obtain ⟨original, selection, hsel⟩ := selects_graphNode hp hcache hm hsettled
    exact ⟨st, v, original, selection, hsel⟩
  · intro m hm
    obtain ⟨st, v, data, node, hsettled⟩ := hcomplete.settled hm
    refine ⟨⟨v, hsettled.verdict⟩, ⟨node, hsettled.recorded⟩, s.graphNode s.traverse m node, ?_, rfl⟩
    rw [hnodes]
    exact List.mem_map_of_mem (f := fun e => s.graphNode s.traverse e.1 e.2)
      (hsettled.mem_selectedNodes hm)

/-- Two modules that require different versions of a third. The later one has a dependency. -/
def divergingData : List ModuleData :=
  [.single ⟨"org", "a", "1.0"⟩ [.on ⟨"org", "c", "1.0"⟩],
    .single ⟨"org", "b", "1.0"⟩ [.on ⟨"org", "c", "2.0"⟩],
    .single ⟨"org", "c", "1.0"⟩ [],
    .single ⟨"org", "c", "2.0"⟩ [.on ⟨"org", "d", "1.0"⟩],
    .single ⟨"org", "d", "1.0"⟩ []]

/-- The later version is forced. -/
def divergingResolver : Resolver Empty where
  provider := Provider.ofData divergingData
  rules := ({} : Rules).force ⟨"org", "c"⟩ "2.0"

/-- A request for both modules. -/
def divergingRequest : ResolveRequest where
  root := ⟨"org", "root", "1.0"⟩
  dependencies := [.on ⟨"org", "a", "1.0"⟩, .on ⟨"org", "b", "1.0"⟩]

theorem resolve_fixpoint_diverging :
    ∃ res, divergingResolver.resolve divergingRequest = .ok res ∧ ∃ k p,
      LastPass divergingResolver divergingRequest k p (.ok res) ∧
        Fixpoint divergingResolver (divergingResolver.situation divergingRequest p) res.graph := by
  have hok : (divergingResolver.resolve divergingRequest).toOption.isSome = true := by
    decide +kernel
  cases h : divergingResolver.resolve divergingRequest with
  | error e => simp [h, Except.toOption] at hok
  | ok res => exact ⟨res, rfl, resolve_fixpoint (Provider.faithful_ofData _) h⟩

/-- A rule on metadata gives the data of every module another version. -/
def renumberedResolver : Resolver Empty where
  provider := Provider.ofData [.single ⟨"org", "a", "1.0"⟩ []]
  rules := { metadataRules := [fun d => { d with id := d.id.module.withVersion "2.0" }] }

def renumberedRequest : ResolveRequest where
  root := ⟨"org", "root", "1.0"⟩
  dependencies := [.on ⟨"org", "a", "1.0"⟩]

/-- What the last pass of the sample starts with. -/
def renumberedProgress : Progress := (renumberedResolver.pass renumberedRequest {} 1).1

theorem reaches_renumberedProgress :
    Reaches renumberedResolver renumberedRequest 1 renumberedProgress :=
  Reaches.start.next (by decide +kernel)

/-- The node has the version of the rule and not the one that was selected. -/
theorem not_selected_renumbered :
    renumberedResolver.provider.Faithful ∧
      ∃ res, renumberedResolver.resolve renumberedRequest = .ok res ∧
        ¬ ∃ k p, LastPass renumberedResolver renumberedRequest k p (.ok res) ∧
          ∀ n ∈ res.graph.nodes, ∃ v, VersionChoice.select n.module
              ((renumberedResolver.situation renumberedRequest p).traverse.table.requestsFor n.module)
              (renumberedResolver.rules.forcedVersion? n.module)
              ((renumberedResolver.situation renumberedRequest p).cache.listing? n.module)
                = .ok (.selected v) ∧ n.id.version = v.version := by
  refine ⟨Provider.faithful_ofData _, ?_⟩
  have hnode : ((renumberedResolver.resolve renumberedRequest).toOption.any fun res =>
      res.graph.nodes.any fun n => n.id == ⟨"org", "a", "2.0"⟩) = true := by
    decide +kernel
  cases h : renumberedResolver.resolve renumberedRequest with
  | error e => simp [h, Except.toOption] at hnode
  | ok res =>
    simp only [h, Except.toOption, Option.any_some, List.any_eq_true, beq_iff_eq] at hnode
    obtain ⟨n, hn, hid⟩ := hnode
    refine ⟨res, rfl, ?_⟩
    rintro ⟨k, p, hlast, hselected⟩
    obtain ⟨rfl, rfl⟩ := hlast.eq_of_reaches reaches_renumberedProgress (by decide +kernel)
    obtain ⟨v, hv, hversion⟩ := hselected n hn
    have hone : VersionChoice.select ⟨"org", "a"⟩
        ((renumberedResolver.situation renumberedRequest renumberedProgress).traverse.table.requestsFor
          ⟨"org", "a"⟩)
        (renumberedResolver.rules.forcedVersion? ⟨"org", "a"⟩)
        ((renumberedResolver.situation renumberedRequest renumberedProgress).cache.listing?
          ⟨"org", "a"⟩) = .ok (.selected ⟨"1.0", .compared⟩) := by
      decide +kernel
    have hmodule : n.module = ⟨"org", "a"⟩ := congrArg Coordinates.module hid
    rw [hmodule, hone, Except.ok.injEq, Decision.selected.injEq] at hv
    rw [← hv, hid] at hversion
    simp at hversion

end Resolver

end VariantGraph
