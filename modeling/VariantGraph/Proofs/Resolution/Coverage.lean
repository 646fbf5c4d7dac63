import VariantGraph.Proofs.Resolution.Complete

/-!
# No declaration is lost

In the graph of a resolution every dependency that a node declares and that is not left out at it
leads to a node, and a constraint that is on a node binds it.

Main statement: `Resolver.resolve_covers`.
-/

namespace VariantGraph

open Resolution

namespace Resolution.Situation

variable {s : Situation} {m : ModuleId} {st : NodeState} {d : Declarations}

/-- At the end of a walk a module is a node of some state and declares `d`: the root what the
request asks for, another module what its selected variant declares. -/
def Declares (s : Situation) (w : Walk) (m : ModuleId) (st : NodeState) (d : Declarations) : Prop :=
  w.nodes.get? m = some st ∧
    ((m = s.root ∧ d = ⟨s.request.dependencies, s.request.constraints⟩) ∨
      (m ≠ s.root ∧ ∃ data node, s.data? m = some data ∧ w.selected? m = some node ∧
        d = declarations data node st.asks))

/-- When a walk ends, what a node declares is a function of its state. -/
theorem declares_traverse_iff : s.Declares s.traverse m st d ↔
    s.traverse.nodes.get? m = some st ∧ s.declared? m st = some d := by
  refine and_congr_right ?_
  intro hst
  have hout := (upToDate_traverse hst).outcome
  by_cases hm : m = s.root
  · subst hm
    rw [declared?_root, Option.some.injEq]
    constructor
    · rintro (⟨-, rfl⟩ | ⟨hne, -⟩)
      · rfl
      · exact absurd rfl hne
    · intro h
      exact .inl ⟨rfl, h.symm⟩
  · rw [declared?_eq_some_iff hm, ← hout]
    constructor
    · rintro (⟨hroot, -⟩ | ⟨-, data, node, hdata, hsel, rfl⟩)
      · exact absurd hroot hm
      · exact ⟨data, node, hdata, Walk.selected?_eq_some.1 hsel, rfl⟩
    · rintro ⟨data, node, hdata, hsel, rfl⟩
      exact .inr ⟨hm, data, node, hdata, Walk.selected?_eq_some.2 hsel, rfl⟩

/-- A dependency that is not left out is recorded. -/
theorem links_of_mem_dependencies (h : s.Declares s.traverse m st d) {dep : Dependency}
    (hdep : dep ∈ d.dependencies) (hout : s.isLeftOut st dep = false) :
    s.traverse.Links false m (s.dependencyTarget dep) := by
  obtain ⟨hst, hd⟩ := declares_traverse_iff.1 h
  obtain ⟨i, hi⟩ := List.mem_iff_getElem?.1 hdep
  have hrd := followed_of_getElem? hi hout
  have hwritten := mem_written_iff (o := s.origin m st).2 (.inl ⟨_, hrd, rfl, rfl⟩)
  exact ⟨_, _, (upToDate_traverse hst).written hd hwritten, rfl, rfl, rfl⟩

/-- The target of a dependency that is not left out serves the node that declares it. -/
theorem serves_of_mem_dependencies (h : s.Declares s.traverse m st d) {dep : Dependency}
    (hdep : dep ∈ d.dependencies) (hout : s.isLeftOut st dep = false)
    (hroot : s.dependencyTarget dep ≠ s.root) :
    ∃ t, s.traverse.nodes.get? (s.dependencyTarget dep) = some t ∧
      t.Serves (excludesBelow st dep) (s.below (s.origin m st) d) (s.askOf dep) := by
  obtain ⟨hst, hd⟩ := declares_traverse_iff.1 h
  obtain ⟨i, hi⟩ := List.mem_iff_getElem?.1 hdep
  exact (upToDate_traverse hst).serves hd (followed_of_getElem? hi hout) hroot

/-- A constraint that is not on the root is recorded. -/
theorem links_of_mem_constraints (h : s.Declares s.traverse m st d) {c : DependencyConstraint}
    (hc : c ∈ d.constraints) (hroot : s.constraintTarget c ≠ s.root) :
    s.traverse.Links true m (s.constraintTarget c) := by
  obtain ⟨hst, hd⟩ := declares_traverse_iff.1 h
  obtain ⟨i, hi⟩ := List.mem_iff_getElem?.1 hc
  have hrc : (⟨i, s.underRules c.module c.constraint⟩ : RuledConstraint)
      ∈ s.ruledConstraints d.constraints := mem_ruledConstraints_iff.2 ⟨c, hi, rfl⟩
  have hwritten := mem_written_iff (o := s.origin m st).2 (.inr ⟨_, hrc, hroot, rfl, rfl⟩)
  exact ⟨_, _, (upToDate_traverse hst).written hd hwritten, rfl, rfl, rfl⟩

/-- A graph has all that a node of some state declares. -/
structure Covers (s : Situation) (g : Graph) (m : ModuleId) (st : NodeState) (d : Declarations) :
    Prop where
  dependency : ∀ dep ∈ d.dependencies, s.isLeftOut st dep = false →
    s.dependencyTarget dep ∈ g.modules ∧ g.DependsOn m (s.dependencyTarget dep)
  constraint : ∀ c ∈ d.constraints, s.constraintTarget c ≠ s.root →
    s.constraintTarget c ∈ g.modules → g.Constrains m (s.constraintTarget c)

namespace Complete

variable (h : s.Complete)

include h

/-- The target of a recorded dependency is a node of the graph. -/
theorem mem_modules_of_links {n : ModuleId} (hlink : s.traverse.Links false m n) :
    n ∈ (s.graph s.traverse).modules := by
  obtain ⟨-, t, ht⟩ := s.wired_traverse.of_links hlink
  rw [h.mem_modules_graph]
  by_cases hroot : n = s.root
  · exact .inl hroot
  · exact .inr (s.shape_traverse.mem_order.2 ⟨hroot, t, ht⟩)

/-- Every node of the graph declares something. -/
theorem exists_declares (hm : m ∈ (s.graph s.traverse).modules) :
    ∃ st d, s.Declares s.traverse m st d := by
  rcases h.mem_modules_graph.1 hm with rfl | horder
  · exact ⟨NodeState.root, _, s.shape_traverse.root, .inl ⟨rfl, rfl⟩⟩
  · obtain ⟨st, v, data, node, hsettled⟩ := h.settled horder
    have hroot := (s.shape_traverse.mem_order.1 horder).1
    exact ⟨st, _, declares_traverse_iff.2 ⟨hsettled.reached, hsettled.declared?_eq hroot⟩⟩

/-- The graph covers what its nodes declare. -/
theorem covers (hm : m ∈ (s.graph s.traverse).modules) (hd : s.Declares s.traverse m st d) :
    s.Covers (s.graph s.traverse) m st d := by
  refine ⟨?_, ?_⟩
  · intro dep hdep hout
    have hlink := links_of_mem_dependencies hd hdep hout
    have htarget := h.mem_modules_of_links hlink
    refine ⟨htarget, Graph.dependsOn_iff_links.2 ?_⟩
    exact (links_graph s.shape_traverse s.wired_traverse).2 ⟨hm, htarget, hlink⟩
  · intro c hc hroot htarget
    have hlink := links_of_mem_constraints hd hc hroot
    exact (links_graph s.shape_traverse s.wired_traverse).2 ⟨hm, htarget, hlink⟩

end Complete

end Resolution.Situation

namespace Resolver

variable {ε : Type} {r : Resolver ε} {request : ResolveRequest}

/-- The graph of a resolution that succeeds covers what its nodes declare in the last pass. -/
theorem resolve_covers {res : Resolution} (h : r.resolve request = .ok res) :
    ∃ k p, LastPass r request k p (.ok res) ∧ ∀ m ∈ res.graph.modules, ∃ st d,
      (r.situation request p).Declares (r.situation request p).traverse m st d ∧
        (r.situation request p).Covers res.graph m st d := by
  obtain ⟨k, p, hlast⟩ := exists_lastPass h
  obtain ⟨hcomplete, hgraph⟩ := Situation.complete_of_lastPass hlast
  refine ⟨k, p, hlast, ?_⟩
  intro m hm
  rw [hgraph] at hm ⊢
  obtain ⟨st, d, hd⟩ := hcomplete.exists_declares hm
  exact ⟨st, d, hd, hcomplete.covers hm hd⟩

/-- A module that excludes one of the dependencies of its own dependency and constrains the other
one. -/
def excludingData : List ModuleData :=
  [.single ⟨"org", "a", "1.0"⟩
      [{ Dependency.on ⟨"org", "b", "1.0"⟩ with
          excludes := OrderedSet.ofElements [⟨some "org", some "x"⟩] }]
      [{ module := ⟨"org", "y"⟩, constraint := VersionConstraint.require "1.0" }],
    .single ⟨"org", "b", "1.0"⟩ [.on ⟨"org", "x", "1.0"⟩, .on ⟨"org", "y", "1.0"⟩],
    .single ⟨"org", "y", "1.0"⟩ []]

def excludingRequest : ResolveRequest where
  root := ⟨"org", "root", "1.0"⟩
  dependencies := [.on ⟨"org", "a", "1.0"⟩]

theorem resolve_covers_excluding :
    let r : Resolver Empty := { provider := Provider.ofData excludingData }
    ∃ res, r.resolve excludingRequest = .ok res ∧ ∃ k p,
      LastPass r excludingRequest k p (.ok res) ∧ ∀ m ∈ res.graph.modules, ∃ st d,
        (r.situation excludingRequest p).Declares
            (r.situation excludingRequest p).traverse m st d ∧
          (r.situation excludingRequest p).Covers res.graph m st d := by
  intro r
  have hok : (r.resolve excludingRequest).toOption.isSome = true := by decide +kernel
  cases h : r.resolve excludingRequest with
  | error e => simp [h, Except.toOption] at hok
  | ok res => exact ⟨res, rfl, resolve_covers h⟩

end Resolver

end VariantGraph
