import VariantGraph.Proofs.Resolution.Leftover
import VariantGraph.Proofs.Resolution.Nodes
import VariantGraph.Proofs.Selection

/-!
# Which declarations a node follows

A node records the attributes, the capabilities and the files of the variant that its requests
selected, but of that variant's identity only the name. The declarations that are followed are
looked up again by this name, and are those of the first variant that has it. They are those of the
recorded variant where names are unique, but nothing makes them so.

Main statement: `Resolver.resolve_follows_namesake`.
-/

namespace VariantGraph

open Resolution

/-! ## Look-up by name -/

namespace ModuleData

variable {d : ModuleData} {v w : Variant}

theorem exists_variant?_of_mem (hv : v ∈ d.variants) : ∃ u, d.variant? v.name = some u := by
  refine Option.isSome_iff_exists.1 (List.find?_isSome.2 ⟨v, hv, ?_⟩)
  exact beq_self_eq_true v.name

theorem eq_of_variant? (hunique : ∀ w ∈ d.variants, w.name = v.name → w = v)
    (h : d.variant? v.name = some w) : w = v := by
  obtain ⟨hname, hw⟩ := name_of_variant? h
  exact hunique w hw hname

end ModuleData

/-- The declarations of a variant. -/
def Variant.declarations (v : Variant) : Declarations := ⟨v.dependencies, v.constraints⟩

namespace Resolution

/-- A node that records a variant of the module itself declares what the first variant of that name
declares. -/
theorem declarations_ofSelection {data : ModuleData} {selected followed : Variant}
    (hhere : selected.availableAt? = none)
    (hfirst : data.variant? selected.name = some followed) (asks : List VariantRequest) :
    declarations data (SelectedNode.ofSelection data (.variant selected)) asks
      = followed.declarations := by
  simp only [declarations, SelectedNode.ofSelection, hhere, Option.bind_some, hfirst]
  rfl

/-- What a node declares is determined by its state. -/
theorem Situation.Declares.unique {s : Situation} {m : ModuleId} {st : NodeState}
    {d d' : Declarations} (h : s.Declares s.traverse m st d) (h' : s.Declares s.traverse m st d') :
    d = d' := by
  obtain ⟨-, hd⟩ := Situation.declares_traverse_iff.1 h
  obtain ⟨-, hd'⟩ := Situation.declares_traverse_iff.1 h'
  exact Option.some.inj (hd.symm.trans hd')

end Resolution

namespace Resolver

variable {ε : Type} {r : Resolver ε} {request : ResolveRequest}

/-- A node records the local variant that its requests selected, and the edges of a graph from it
follow the declarations of the first variant of that name. -/
structure Follows (r : Resolver ε) (s : Situation) (g : Graph) (n : Graph.Node) (st : NodeState)
    (data : ModuleData) (selected followed : Variant) : Prop where
  recorded : RecordedFrom r s n data (.variant selected)
  asked : Selection.selectShared r.schema (r.rules.reviseMetadata data) st.asks
    = .ok (.variant selected)
  here : selected.availableAt? = none
  published : selected ∈ (r.rules.reviseMetadata data).variants
  first : (r.rules.reviseMetadata data).variant? selected.name = some followed
  declares : s.Declares s.traverse n.module st followed.declarations
  edges : s.EdgesOf g n.module st followed.declarations

section Follows

variable {s : Situation} {g : Graph} {n : Graph.Node} {st : NodeState} {data : ModuleData}
  {selected followed : Variant}

/-- Where the selected variant is the only one of its name, its own declarations are followed. -/
theorem Follows.eq_of_unique (h : Follows r s g n st data selected followed)
    (hunique : ∀ w ∈ (r.rules.reviseMetadata data).variants,
      w.name = selected.name → w = selected) : followed = selected :=
  ModuleData.eq_of_variant? hunique h.first

/-- The declarations of the selected variant are followed exactly if the first variant of its name
declares the same. -/
theorem Follows.declares_iff (h : Follows r s g n st data selected followed) :
    s.Declares s.traverse n.module st selected.declarations ↔
      followed.declarations = selected.declarations :=
  ⟨fun hselected => h.declares.unique hselected, fun heq => heq ▸ h.declares⟩

end Follows

/-- The data that a settled module was decided with is what its node records, after the rules. -/
theorem revised_of_recordedFrom {p : Progress} (hcache : p.cache.ComesFrom r.provider r.rules)
    {m : ModuleId} {st : NodeState} {v : SelectedVersion} {data original : ModuleData}
    {node : SelectedNode} {selection : Selection}
    (h : (r.situation request p).Settled (r.situation request p).traverse m st v data node)
    (hrecorded : RecordedFrom r (r.situation request p)
      ((r.situation request p).graphNode (r.situation request p).traverse m node) original
      selection) : data = r.rules.reviseMetadata original := by
  obtain ⟨fetched, hfetch, hfound⟩ := hcache.module h.module
  obtain ⟨v', hv', hfetch'⟩ := hrecorded.fetched
  obtain rfl : v = v' := Option.some.inj (h.selection.symm.trans hv')
  obtain rfl : fetched = some original := Except.ok.inj (hfetch.symm.trans hfetch')
  exact Option.some.inj hfound

theorem exists_follows {p : Progress} (hcomplete : (r.situation request p).Complete)
    (hcache : p.cache.ComesFrom r.provider r.rules) {n : Graph.Node}
    (hn : n ∈ ((r.situation request p).graph (r.situation request p).traverse).nodes)
    (hvariant : n.variant ≠ none) (hhere : n.availableAt = none) :
    ∃ st data selected followed, Follows r (r.situation request p)
      ((r.situation request p).graph (r.situation request p).traverse) n st data selected
      followed := by
  have hshape := (r.situation request p).shape_traverse
  rw [Situation.nodes_graph hshape] at hn
  obtain ⟨⟨m, node⟩, he, rfl⟩ := List.mem_map.1 hn
  obtain ⟨st, v, data, hsettled⟩ := hcomplete.settled_of_mem_selectedNodes he
  obtain ⟨original, selection, hrecorded, hselected⟩ := exists_recordedFrom hcache hsettled
  have hnode : node = SelectedNode.ofSelection (r.rules.reviseMetadata original) selection :=
    hrecorded.recorded
  cases selection with
  | artifacts files => exact absurd (congrArg SelectedNode.variant hnode) hvariant
  | variant selected =>
    have hlocal : selected.availableAt? = none :=
      (congrArg SelectedNode.availableAt hnode).symm.trans hhere
    have hpublished := Selection.mem_variants_of_selectShared hselected
    obtain ⟨followed, hfirst⟩ := ModuleData.exists_variant?_of_mem hpublished
    have horder : m ∈ (r.situation request p).traverse.order := (Walk.mem_selectedNodes.1 he).1
    have hroot : m ≠ (r.situation request p).root := (hshape.mem_order.1 horder).1
    -- the walk looks the variant up in the data that the node was selected from
    have hdata := revised_of_recordedFrom hcache hsettled hrecorded
    have hdeclares : (r.situation request p).Declares (r.situation request p).traverse m st
        followed.declarations := by
      refine Situation.declares_traverse_iff.2 ⟨hsettled.reached, ?_⟩
      rw [hsettled.declared?_eq hroot, hdata, hnode, declarations_ofSelection hlocal hfirst]
    have hm := hcomplete.mem_modules_graph.2 (.inr horder)
    exact ⟨st, original, selected, followed, hrecorded, hselected, hlocal, hpublished, hfirst,
      hdeclares, hcomplete.edgesOf hm hdeclares⟩

/-- In the graph of a resolution that succeeds, the edges from every node whose selected variant is
local follow the declarations of the first variant of that name. These are the ones of the
selected variant if no other variant has its name, and else only if both declare the same. -/
theorem resolve_follows_namesake {res : Resolution} (h : r.resolve request = .ok res) :
    ∃ k p, LastPass r request k p (.ok res) ∧
      ∀ n ∈ res.graph.nodes, n.variant ≠ none → n.availableAt = none →
        ∃ st data selected followed,
          Follows r (r.situation request p) res.graph n st data selected followed ∧
          ((∀ w ∈ (r.rules.reviseMetadata data).variants, w.name = selected.name → w = selected) →
            followed = selected) ∧
          ((r.situation request p).Declares (r.situation request p).traverse n.module st
              selected.declarations ↔ followed.declarations = selected.declarations) := by
  obtain ⟨k, p, hlast⟩ := exists_lastPass h
  obtain ⟨hcomplete, hgraph⟩ := Situation.complete_of_lastPass hlast
  refine ⟨k, p, hlast, fun n hn hvariant hhere => ?_⟩
  rw [hgraph] at hn ⊢
  obtain ⟨st, data, selected, followed, hfollows⟩ :=
    exists_follows hcomplete hlast.reaches.comesFrom hn hvariant hhere
  exact ⟨st, data, selected, followed, hfollows, hfollows.eq_of_unique, hfollows.declares_iff⟩

/-- A module version with two variants of one name. -/
def namesakes (id : Coordinates) (first second : List Dependency) : ModuleData where
  id := id
  variants :=
    [{ name := "api"
       attributes := Table.ofList [("kind", Value.string "x")]
       capabilities := []
       source := .here { dependencies := first } },
      { name := "api"
        attributes := Table.ofList [("kind", Value.string "y")]
        capabilities := []
        source := .here { dependencies := second } }]

def namesakesData : List ModuleData :=
  [namesakes ⟨"org", "a", "1.0"⟩ [.on ⟨"org", "x", "1.0"⟩] [.on ⟨"org", "y", "1.0"⟩],
    .single ⟨"org", "x", "1.0"⟩ [], .single ⟨"org", "y", "1.0"⟩ []]

def namesakesResolver : Resolver Empty where
  provider := Provider.ofData namesakesData

def namesakesRequest : ResolveRequest where
  root := ⟨"org", "root", "1.0"⟩
  dependencies :=
    [{ Dependency.on ⟨"org", "a", "1.0"⟩ with
        attributes := Table.ofList [("kind", Value.string "y")] }]

/-- The node of `a` records the second variant and depends on what the first one declares. -/
theorem resolve_follows_namesake_second :
    ∃ res, namesakesResolver.resolve namesakesRequest = .ok res ∧ ∃ n ∈ res.graph.nodes,
      n.attributes.get? "kind" = some (.string "y") ∧ res.graph.DependsOn n.module ⟨"org", "x"⟩ ∧
        ∃ k p, LastPass namesakesResolver namesakesRequest k p (.ok res) ∧
          ∃ st data selected followed,
            Follows namesakesResolver (namesakesResolver.situation namesakesRequest p) res.graph n
              st data selected followed ∧ followed ≠ selected := by
  have hgraph : ((namesakesResolver.resolve namesakesRequest).toOption.any fun res =>
      res.graph.nodes.any fun n => n.variant.isSome && n.availableAt == none &&
        n.attributes.get? "kind" == some (.string "y") &&
        (res.graph.dependencyTargets n.module).contains ⟨"org", "x"⟩) = true := by
    decide +kernel
  have hlater : ∀ data ∈ namesakesData,
      ∀ v ∈ (namesakesResolver.rules.reviseMetadata data).variants,
        v.attributes.get? "kind" = some (.string "y") →
          (namesakesResolver.rules.reviseMetadata data).variant? v.name ≠ some v := by
    decide +kernel
  cases h : namesakesResolver.resolve namesakesRequest with
  | error e => simp [h, Except.toOption] at hgraph
  | ok res =>
    simp only [h, Except.toOption, Option.any_some, List.any_eq_true, Bool.and_eq_true,
      beq_iff_eq, List.contains_iff_mem] at hgraph
    obtain ⟨n, hn, ⟨⟨hvariant, hhere⟩, hkind⟩, hlink⟩ := hgraph
    obtain ⟨k, p, hlast, hfollows⟩ := resolve_follows_namesake h
    obtain ⟨st, data, selected, followed, hn', -, -⟩ :=
      hfollows n hn (Option.isSome_iff_ne_none.1 hvariant) hhere
    refine ⟨res, rfl, n, hn, hkind, hlink, k, p, hlast, st, data, selected, followed, hn', ?_⟩
    rintro rfl
    obtain ⟨v, -, hfetch⟩ := hn'.recorded.fetched
    have hdata : data ∈ namesakesData := List.mem_of_find?_eq_some (Except.ok.inj hfetch)
    have hattributes : n.attributes = followed.attributes :=
      congrArg SelectedNode.attributes hn'.recorded.recorded
    exact hlater data hdata followed hn'.published (hattributes ▸ hkind) hn'.first

end Resolver

end VariantGraph
