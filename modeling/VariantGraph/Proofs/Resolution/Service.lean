import VariantGraph.Proofs.Resolution.Namesakes

/-!
# Every dependency is served

A dependency that reaches a node late withdraws the selection made there so far. When the walk ends,
the selection of every node is therefore one for the requests of all dependencies on it, and each of
them gets a variant that serves it. What the module of a node is, and whether it has variants, is
taken from its data after the rules on metadata: a rule that gives them other coordinates changes
which capability a dependency without requested ones is served by.

Main statement: `Resolver.resolve_serves`.
-/

namespace VariantGraph

open Resolution

/-- A node of a graph serves a dependency of a consumer: it has the variant of the wanted name or,
when no name is given and the data of its module have variants, a variant with compatible attributes
that provides the requested capabilities, that of the module of the data when none is requested. -/
structure Graph.Node.Serves (n : Graph.Node) (schema : Schema) (data : ModuleData)
    (consumer : Attributes) (dep : Dependency) : Prop where
  named : ∀ {name}, dep.targetVariant = some name → n.variant = some name
  compatible : dep.targetVariant = none → data.variants ≠ [] → ∀ {name wanted provided},
    (consumer.merge dep.attributes).get? name = some wanted →
      n.attributes.get? name = some provided → schema.accepts name wanted provided = true
  capable : dep.targetVariant = none → data.variants ≠ [] → ∀ c ∈ dep.capabilities, n.Provides c
  implicit : dep.targetVariant = none → data.variants ≠ [] → dep.capabilities = [] →
    n.Provides (CapabilityId.ofModule data.id.module)

namespace Resolver

variable {ε : Type} {r : Resolver ε} {request : ResolveRequest}

/-- A node serves the dependencies that its selection serves. -/
theorem RecordedFrom.serves {p : Progress} {n : Graph.Node} {data : ModuleData}
    {selection : Selection} (h : RecordedFrom r (r.situation request p) n data selection)
    {dep : Dependency} (hs : Selection.Serves r.schema (r.rules.reviseMetadata data)
      ((r.situation request p).askOf dep) selection) :
    n.Serves r.schema (r.rules.reviseMetadata data) request.attributes dep := by
  cases selection with
  | artifacts files =>
    -- without variants there is nothing to choose
    obtain ⟨hname, hempty⟩ := hs
    have hname : dep.targetVariant = none := hname
    refine ⟨fun h' => ?_, fun _ h' => absurd hempty h', fun _ h' => absurd hempty h',
      fun _ h' => absurd hempty h'⟩
    rw [hname] at h'
    cases h'
  | variant variant =>
    have hvariant : n.variant = some variant.name := congrArg SelectedNode.variant h.recorded
    have hattributes : n.attributes = variant.attributes :=
      congrArg SelectedNode.attributes h.recorded
    cases hname : dep.targetVariant with
    | some name =>
      have hs : variant.name = name := by simpa [Selection.Serves, Situation.askOf, hname] using hs
      refine ⟨fun h' => ?_, fun h' => ?_, fun h' => ?_, fun h' => ?_⟩
      · rw [hname, Option.some.injEq] at h'
        rw [hvariant, hs, h']
      · simp [hname] at h'
      · simp [hname] at h'
      · simp [hname] at h'
    | none =>
      have hs : Selection.Acceptable r.schema (r.rules.reviseMetadata data)
          ((r.situation request p).askOf dep) variant := by
        simpa [Selection.Serves, Situation.askOf, hname] using hs
      obtain ⟨haccepts, hcapable⟩ := hs
      refine ⟨fun h' => ?_, fun _ _ name wanted provided hwanted hprovided => ?_,
        fun _ _ c hc => ?_, fun _ _ hnone => ?_⟩
      · simp [hname] at h'
      · rw [hattributes] at hprovided
        exact haccepts (name, wanted) (Table.mem_toList_iff.2 hwanted) provided hprovided
      · have hne : ((r.situation request p).askOf dep).capabilities ≠ [] := List.ne_nil_of_mem hc
        rw [if_neg hne] at hcapable
        exact h.provides_iff.2 (hcapable c hc)
      · have hnone : ((r.situation request p).askOf dep).capabilities = [] := hnone
        rw [if_pos hnone] at hcapable
        exact h.provides_iff.2 hcapable

/-- In the last pass every dependency that is not left out leads to a node that serves it. -/
theorem exists_serves {p : Progress} (hcomplete : (r.situation request p).Complete)
    (hcache : p.cache.ComesFrom r.provider r.rules) {m : ModuleId} {st : NodeState}
    {d : Declarations}
    (hd : (r.situation request p).Declares (r.situation request p).traverse m st d)
    {dep : Dependency} (hdep : dep ∈ d.dependencies)
    (hout : (r.situation request p).isLeftOut st dep = false)
    (hroot : (r.situation request p).dependencyTarget dep ≠ (r.situation request p).root) :
    ∃ n ∈ ((r.situation request p).graph (r.situation request p).traverse).nodes,
      n.module = (r.situation request p).dependencyTarget dep ∧ ∃ data selection,
        RecordedFrom r (r.situation request p) n data selection ∧
          n.Serves r.schema (r.rules.reviseMetadata data) request.attributes dep := by
  obtain ⟨t, ht, hserves⟩ := Situation.serves_of_mem_dependencies hd hdep hout hroot
  have horder := (r.situation request p).shape_traverse.mem_order.2 ⟨hroot, t, ht⟩
  obtain ⟨t', v, data, node, hsettled⟩ := hcomplete.settled horder
  obtain rfl : t = t' := Option.some.inj (ht.symm.trans hsettled.reached)
  obtain ⟨original, selection, hrecorded, hselected⟩ := exists_recordedFrom hcache hsettled
  refine ⟨_, ?_, rfl, original, selection, hrecorded, ?_⟩
  · rw [Situation.nodes_graph (r.situation request p).shape_traverse]
    exact List.mem_map_of_mem (hsettled.mem_selectedNodes horder)
  · -- the request of the dependency is among those that the node was selected for
    exact hrecorded.serves (Selection.serves_of_selectShared hselected hserves.asked)

/-- In the graph of a resolution that succeeds every dependency that its node declares in the last
pass and that is not left out there leads to the root or to a node that serves it. -/
theorem resolve_serves {res : Resolution} (h : r.resolve request = .ok res) :
    ∃ k p, LastPass r request k p (.ok res) ∧ ∀ m ∈ res.graph.modules, ∃ st d,
      (r.situation request p).Declares (r.situation request p).traverse m st d ∧
        ∀ dep ∈ d.dependencies, (r.situation request p).isLeftOut st dep = false →
          (r.situation request p).dependencyTarget dep ≠ request.root.module →
            ∃ n ∈ res.graph.nodes, n.module = (r.situation request p).dependencyTarget dep ∧
              ∃ data selection, RecordedFrom r (r.situation request p) n data selection ∧
                n.Serves r.schema (r.rules.reviseMetadata data) request.attributes dep := by
  obtain ⟨k, p, hlast⟩ := exists_lastPass h
  obtain ⟨hcomplete, hgraph⟩ := Situation.complete_of_lastPass hlast
  refine ⟨k, p, hlast, ?_⟩
  intro m hm
  rw [hgraph] at hm ⊢
  obtain ⟨st, d, hd⟩ := hcomplete.exists_declares hm
  exact ⟨st, d, hd, fun dep hdep hout hroot =>
    exists_serves hcomplete hlast.reaches.comesFrom hd hdep hout hroot⟩

/-- The second variant of `a` is asked for late, and that of `c` by its name besides a request that
prefers the first one and arrives through a variant of `hosted` that lives there. -/
def sharingResolver : Resolver Empty where
  provider := Provider.ofData
    [.double ⟨"org", "a", "1.0"⟩ ⟨"org", "extra"⟩ { dependencies := [.on ⟨"org", "hosted", "1.0"⟩] }
        { dependencies := [.on ⟨"org", "hosted", "1.0"⟩] },
      .single ⟨"org", "b", "1.0"⟩
        [{ Dependency.on ⟨"org", "a", "1.0"⟩ with capabilities := [⟨"org", "extra"⟩] },
          { Dependency.on ⟨"org", "c", "1.0"⟩ with targetVariant := some "alt" }],
      .double ⟨"org", "c", "1.0"⟩ ⟨"org", "other"⟩ {} {},
      { id := ⟨"org", "hosted", "1.0"⟩
        variants :=
          [{ name := "link"
             attributes := Table.empty
             capabilities := []
             source := .availableAt ⟨"org", "c", "1.0"⟩ }] }]
  schema := Schema.withDisambiguation Table.empty "kind" (.prefer (.string "main"))
  rules := { metadataRules := [SubgraphRule.rule ⟨⟨"org", "a"⟩⟩] }

def sharingRequest : ResolveRequest where
  root := ⟨"org", "root", "1.0"⟩
  dependencies := [.on ⟨"org", "a", "1.0"⟩, .on ⟨"org", "b", "1.0"⟩]

/-- The provider and the rules keep the coordinates of all data. -/
theorem resolve_serves_sharing :
    sharingResolver.provider.Faithful ∧ sharingResolver.rules.KeepsIds ∧
    ∃ res, sharingResolver.resolve sharingRequest = .ok res ∧ ∃ k p,
      LastPass sharingResolver sharingRequest k p (.ok res) ∧ ∀ m ∈ res.graph.modules, ∃ st d,
        (sharingResolver.situation sharingRequest p).Declares
            (sharingResolver.situation sharingRequest p).traverse m st d ∧
          ∀ dep ∈ d.dependencies,
            (sharingResolver.situation sharingRequest p).isLeftOut st dep = false →
              (sharingResolver.situation sharingRequest p).dependencyTarget dep
                  ≠ sharingRequest.root.module →
                ∃ n ∈ res.graph.nodes,
                  n.module = (sharingResolver.situation sharingRequest p).dependencyTarget dep ∧
                  ∃ data selection,
                    RecordedFrom sharingResolver (sharingResolver.situation sharingRequest p) n data
                      selection ∧
                    n.Serves sharingResolver.schema (sharingResolver.rules.reviseMetadata data)
                      sharingRequest.attributes dep := by
  refine ⟨Provider.faithful_ofData _, ?_, ?_⟩
  · intro rule hrule d
    obtain rfl := List.mem_singleton.1 hrule
    exact SubgraphRule.id_rule _ d
  have hok : (sharingResolver.resolve sharingRequest).toOption.isSome = true := by decide +kernel
  cases h : sharingResolver.resolve sharingRequest with
  | error e => simp [h, Except.toOption] at hok
  | ok res => exact ⟨res, rfl, resolve_serves h⟩

/-- A rule on metadata gives the data of `a` another module, and another one takes away all variants
of `b`. -/
def revisedResolver : Resolver Empty where
  provider := Provider.ofData
    [.single ⟨"org", "a", "1.0"⟩ [], .double ⟨"org", "b", "1.0"⟩ ⟨"org", "extra"⟩ {} {}]
  rules :=
    { metadataRules := [
        fun d => if d.id.name = "a" then { d with id := ⟨"org", "other", "1.0"⟩ } else d,
        fun d => if d.id.name = "b" then { d with variants := [] } else d] }

def revisedRequest : ResolveRequest where
  root := ⟨"org", "root", "1.0"⟩
  dependencies :=
    [.on ⟨"org", "a", "1.0"⟩,
      { Dependency.on ⟨"org", "b", "1.0"⟩ with capabilities := [⟨"org", "extra"⟩] }]

/-- A node of the sample with some coordinates provides some capabilities. -/
theorem exists_node_revised {res : Resolution} (h : revisedResolver.resolve revisedRequest = .ok res)
    {id : Coordinates} {capability : CapabilityId}
    (hmem : (id, [capability]) ∈ [((⟨"org", "a", "1.0"⟩, [⟨"org", "other"⟩]) :
      Coordinates × List CapabilityId), (⟨"org", "b", "1.0"⟩, [⟨"org", "b"⟩])]) :
    ∃ n ∈ res.graph.nodes, n.id = id ∧ ∀ c, n.Provides c → c = capability := by
  have hnodes : (revisedResolver.resolve revisedRequest).toOption.map (fun res =>
      res.graph.nodes.map fun n => (n.id, n.capabilities.map Capability.id))
        = some [(⟨"org", "a", "1.0"⟩, [⟨"org", "other"⟩]),
            (⟨"org", "b", "1.0"⟩, [⟨"org", "b"⟩])] := by
    decide +kernel
  rw [h] at hnodes
  rw [← Option.some.inj hnodes] at hmem
  obtain ⟨n, hn, heq⟩ := List.mem_map.1 hmem
  obtain ⟨hid, hcapabilities⟩ := Prod.mk.inj heq
  refine ⟨n, hn, hid, ?_⟩
  rintro c ⟨provided, hprovided, rfl⟩
  have hlisted := List.mem_map_of_mem (f := Capability.id) hprovided
  rwa [hcapabilities, List.mem_singleton] at hlisted

/-- What the second of two variants of one name declares is not followed. -/
theorem exists_unfollowed_namesakes :
    ∃ res, namesakesResolver.resolve namesakesRequest = .ok res ∧
      ∃ n ∈ res.graph.nodes, ∃ data selected,
        namesakesResolver.provider.fetch n.id = .ok (some data) ∧ selected ∈ data.variants ∧
        n.selected = SelectedNode.ofSelection data (.variant selected) ∧
        ∃ dep ∈ selected.dependencies, dep.module ∉ res.graph.modules := by
  have hgraph : ((namesakesResolver.resolve namesakesRequest).toOption.any fun res =>
      res.graph.nodes.any fun n => namesakesData.any fun data => data.variants.any fun selected =>
        namesakesData.find? (fun d => d.id == n.id) == some data &&
        n.selected == SelectedNode.ofSelection data (.variant selected) &&
        selected.dependencies.any fun dep => !res.graph.modules.contains dep.module) = true := by
    decide +kernel
  cases h : namesakesResolver.resolve namesakesRequest with
  | error e => simp [h, Except.toOption] at hgraph
  | ok res =>
    simp only [h, Except.toOption, Option.any_some, List.any_eq_true, Bool.and_eq_true,
      beq_iff_eq, Bool.not_eq_true', ← Bool.not_eq_true, List.contains_iff_mem] at hgraph
    obtain ⟨n, hn, data, -, selected, hselected, ⟨hfetch, hrecorded⟩, dep, hdep, hmodule⟩ := hgraph
    exact ⟨res, rfl, n, hn, data, selected, congrArg Except.ok hfetch, hselected, hrecorded, dep,
      hdep, hmodule⟩

/-- With respect to what is published the node of `a` lacks the capability of its module, and that
of `b` the requested one. What the second of two variants of one name declares is not followed. -/
theorem not_serves_revised :
    revisedResolver.provider.Faithful ∧
      (∃ res, revisedResolver.resolve revisedRequest = .ok res ∧
        ∀ dep ∈ revisedRequest.dependencies, ∃ n ∈ res.graph.nodes, n.module = dep.module ∧
          ∃ data, revisedResolver.provider.fetch n.id = .ok (some data) ∧
            ¬ n.Serves revisedResolver.schema data revisedRequest.attributes dep) ∧
      ∃ res, namesakesResolver.resolve namesakesRequest = .ok res ∧
        ∃ n ∈ res.graph.nodes, ∃ data selected,
          namesakesResolver.provider.fetch n.id = .ok (some data) ∧ selected ∈ data.variants ∧
          n.selected = SelectedNode.ofSelection data (.variant selected) ∧
          ∃ dep ∈ selected.dependencies, dep.module ∉ res.graph.modules := by
  refine ⟨Provider.faithful_ofData _, ?_, exists_unfollowed_namesakes⟩
  have hok : (revisedResolver.resolve revisedRequest).toOption.isSome = true := by decide +kernel
  cases h : revisedResolver.resolve revisedRequest with
  | error e => simp [h, Except.toOption] at hok
  | ok res =>
    refine ⟨res, rfl, List.forall_mem_cons.2 ⟨?_, List.forall_mem_singleton.2 ?_⟩⟩
    · obtain ⟨n, hn, hid, hprovides⟩ := exists_node_revised h List.mem_cons_self
      refine ⟨n, hn, congrArg Coordinates.module hid, ?_⟩
      rw [hid]
      refine ⟨_, rfl, fun hserves => ?_⟩
      have hother := hprovides _ (hserves.implicit rfl (List.cons_ne_nil _ _) rfl)
      exact absurd hother (by decide)
    · obtain ⟨n, hn, hid, hprovides⟩ :=
        exists_node_revised h (List.mem_cons_of_mem _ List.mem_cons_self)
      refine ⟨n, hn, congrArg Coordinates.module hid, ?_⟩
      rw [hid]
      refine ⟨_, rfl, fun hserves => ?_⟩
      have hextra := hprovides _ (hserves.capable rfl (List.cons_ne_nil _ _) _ List.mem_cons_self)
      exact absurd hextra (by decide)

end Resolver

end VariantGraph
