import VariantGraph.Proofs.Resolution.Complete

/-!
# What the nodes of a graph record

Every node of the graph of a resolution records a selection from the module data that the provider
has for the chosen version, after the rules on metadata. This holds of every provider and of all
rules. The version of the node is the one that these data carry; it is the chosen one if the
provider is faithful, which is to say that it answers data of the module version that it is asked
for, and the rules keep the coordinates of module data.

Main statement: `Resolver.exists_recordedFrom`.
-/

namespace VariantGraph

open Resolution

/-- What a node of a graph records of its selection. -/
def Graph.Node.selected (n : Graph.Node) : SelectedNode where
  version := n.id.version
  variant := n.variant
  attributes := n.attributes
  capabilities := n.capabilities
  files := n.files
  availableAt := n.availableAt

@[simp] theorem Resolution.SelectedNode.version_ofSelection (data : ModuleData)
    (selection : Selection) : (SelectedNode.ofSelection data selection).version = data.id.version := by
  cases selection <;> rfl

/-- A node provides a capability, in whatever version. -/
def Graph.Node.Provides (n : Graph.Node) (c : CapabilityId) : Prop :=
  ∃ capability ∈ n.capabilities, capability.id = c

namespace Resolver

variable {ε : Type} {r : Resolver ε} {request : ResolveRequest}

/-- A node records a selection from the data that the provider has for the chosen version of its
module. -/
structure RecordedFrom (r : Resolver ε) (s : Situation) (n : Graph.Node) (data : ModuleData)
    (selection : Selection) : Prop where
  fetched : ∃ v, s.selections.get? n.module = some v ∧
    r.provider.fetch (n.module.withVersion v.version) = .ok (some data)
  recorded : n.selected = SelectedNode.ofSelection (r.rules.reviseMetadata data) selection
  /-- A faithful provider answers data of the node itself, and such rules keep them so. -/
  own : r.provider.Faithful → r.rules.KeepsIds → (r.rules.reviseMetadata data).id = n.id

/-- A node has the version that its data carry. -/
theorem RecordedFrom.version_eq {s : Situation} {n : Graph.Node} {data : ModuleData}
    {selection : Selection} (h : RecordedFrom r s n data selection) :
    n.id.version = (r.rules.reviseMetadata data).id.version := by
  have hversion : n.id.version = _ := congrArg SelectedNode.version h.recorded
  rw [hversion, SelectedNode.version_ofSelection]

/-- A node provides the capabilities that are recorded of its selection. -/
theorem RecordedFrom.provides_iff {s : Situation} {n : Graph.Node} {data : ModuleData}
    {selection : Selection} (h : RecordedFrom r s n data selection) {c : CapabilityId} :
    n.Provides c ↔ c ∈ (SelectedNode.ofSelection
      (r.rules.reviseMetadata data) selection).capabilities.map Capability.id := by
  have hcapabilities : n.capabilities = _ := congrArg SelectedNode.capabilities h.recorded
  unfold Graph.Node.Provides
  rw [hcapabilities, List.mem_map]

/-- The node of a settled module records what all its variant requests select. -/
theorem exists_recordedFrom {p : Progress} (hcache : p.cache.ComesFrom r.provider r.rules)
    {m : ModuleId} {st : NodeState} {v : SelectedVersion} {data : ModuleData} {node : SelectedNode}
    (h : (r.situation request p).Settled (r.situation request p).traverse m st v data node) :
    ∃ original selection,
      RecordedFrom r (r.situation request p)
        ((r.situation request p).graphNode (r.situation request p).traverse m node) original
        selection ∧
      Selection.selectShared r.schema (r.rules.reviseMetadata original) st.asks = .ok selection := by
  obtain ⟨fetched, hfetch, hfound⟩ := hcache.module h.module
  obtain ⟨original, rfl, rfl⟩ := Option.map_eq_some_iff.1 hfound.symm
  have hout := h.outcome
  unfold outcomeOf at hout
  split at hout
  · next selection hsel =>
    obtain rfl := Outcome.selected.inj hout
    refine ⟨original, selection, ⟨⟨v, h.selection, hfetch⟩, rfl, fun hp hr => ?_⟩, hsel⟩
    have hid : (r.rules.reviseMetadata original).id = m.withVersion v.version := by
      rw [hr.id_reviseMetadata, hp _ _ hfetch]
    rw [Situation.graphNode, SelectedNode.version_ofSelection, hid]
    rfl
  · cases hout

end Resolver

end VariantGraph
