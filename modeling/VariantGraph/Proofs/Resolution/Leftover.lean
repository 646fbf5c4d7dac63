import VariantGraph.Proofs.Resolution.Coverage
import VariantGraph.Proofs.Resolution.History

/-!
# Which edges no declaration asks for

When another variant is selected for a node, the slots beyond its declarations are dropped and those
of the declarations that are recorded are overwritten. The slot of a declaration that is not
recorded, because the dependency is left out or the constraint is on the root, keeps the edge of the
variant before.

Main statements: `Situation.links_dependency_iff` and `Situation.links_constraint_iff` list the
recorded edges of a node, `Resolver.resolve_edges_iff` those of the graph of a resolution.
-/

namespace VariantGraph

open Resolution

namespace Resolution.Situation

variable {s : Situation} {m n : ModuleId} {st : NodeState} {d : Declarations} {i : Nat}

/-! ## Edges that are left over -/

/-- The edge in a slot leads to a module and is left over: an outdated visit wrote it, and the
visits since have left the slot alone. -/
def LeftOver (s : Situation) (k : Slot) (n : ModuleId) : Prop :=
  ∃ i st d e, s.Outdated i k.source st d ∧ (k, e) ∈ s.written (s.origin k.source st) d ∧
    e.target = n ∧ ∀ j, i < j → j < s.visitBound → s.Spares j k

/-- What is left over in a slot is recorded. -/
theorem LeftOver.links {k : Slot} (h : s.LeftOver k n) :
    s.traverse.Links k.isConstraint k.source n := by
  obtain ⟨i, st, d, e, hout, hmem, htarget, hspares⟩ := h
  have hwrites : s.Writes i k e := ⟨st, d, hout.visits, hmem⟩
  have he : s.traverse.table.get? k = some e :=
    get?_table_stage_iff.2 ⟨i, hout.before, hwrites, hspares⟩
  exact ⟨k, e, he, rfl, htarget, rfl⟩

/-- An edge that the declarations of the node do not write is left over. -/
theorem leftOver_of_get? {k : Slot} {e : Edge} (he : s.traverse.table.get? k = some e)
    (h : s.Declares s.traverse k.source st d)
    (hnot : ∀ e', (k, e') ∉ s.written (s.origin k.source st) d) : s.LeftOver k e.target := by
  obtain ⟨hst, hd⟩ := declares_traverse_iff.1 h
  obtain ⟨i, hi, ⟨st₀, d₀, hv, hmem⟩, hspares⟩ := get?_table_stage_iff.1 he
  refine ⟨i, st₀, d₀, e, ?_, hmem, rfl, hspares⟩
  by_contra hsame
  obtain ⟨st', hst', hd', e', hmem', -⟩ := hv.exists_mem_written hi hsame hmem
  obtain rfl : st = st' := Option.some.inj (hst.symm.trans hst')
  obtain rfl : d = d₀ := Option.some.inj (hd.symm.trans hd')
  exact hnot e' hmem'

/-! ## The recorded edges of a node -/

/-- The slot of a dependency that is left out is not written. -/
theorem not_mem_written_of_isLeftOut {dep : Dependency} (hdep : d.dependencies[i]? = some dep)
    (hout : s.isLeftOut st dep = true) (e : Edge) :
    (⟨m, false, i⟩, e) ∉ s.written (s.origin m st) d := by
  intro hmem
  rcases mem_written_iff.1 hmem with ⟨rd, hrd, hk, -⟩ | ⟨rc, -, -, hk, -⟩
  · obtain ⟨hget, hkept, -⟩ := mem_followed_iff.1 hrd
    obtain rfl : i = rd.index := congrArg Slot.index hk
    rw [hdep, Option.some.injEq] at hget
    subst hget
    exact Bool.false_ne_true (hkept.symm.trans hout)
  · exact Bool.noConfusion (congrArg Slot.isConstraint hk)

/-- The slot of a constraint that is on the root is not written. -/
theorem not_mem_written_of_constraintTarget {c : DependencyConstraint}
    (hc : d.constraints[i]? = some c) (hroot : s.constraintTarget c = s.root) (e : Edge) :
    (⟨m, true, i⟩, e) ∉ s.written (s.origin m st) d := by
  intro hmem
  rcases mem_written_iff.1 hmem with ⟨rd, -, hk, -⟩ | ⟨rc, hrc, hne, hk, -⟩
  · exact Bool.noConfusion (congrArg Slot.isConstraint hk)
  · obtain ⟨c', hget, hruled⟩ := mem_ruledConstraints_iff.1 hrc
    obtain rfl : i = rc.index := congrArg Slot.index hk
    rw [hc, Option.some.injEq] at hget
    subst hget
    rw [hruled] at hne
    exact hne hroot

/-- A recorded dependency of a node is one that it declares, or it is left over in the slot of one
that is left out. -/
theorem links_dependency_iff (h : s.Declares s.traverse m st d) : s.traverse.Links false m n ↔
    (∃ dep ∈ d.dependencies, s.isLeftOut st dep = false ∧ s.dependencyTarget dep = n) ∨
      ∃ i dep, d.dependencies[i]? = some dep ∧ s.isLeftOut st dep = true ∧
        s.LeftOver ⟨m, false, i⟩ n := by
  obtain ⟨hst, hd⟩ := declares_traverse_iff.1 h
  have hcurrent := upToDate_traverse hst
  constructor
  · rintro ⟨⟨m, kind, i⟩, e, he, rfl, rfl, rfl⟩
    have hlt : i < d.dependencies.length := by
      have hslot := hcurrent.current hd he rfl
      simpa [EdgeTable.isCurrent] using hslot
    have hdep := List.getElem?_eq_getElem hlt
    -- the last expansion has overwritten the slot unless the dependency is left out
    cases hout : s.isLeftOut st d.dependencies[i] with
    | false =>
      have hrd := followed_of_getElem? hdep hout
      have hwritten := mem_written_iff (o := s.origin m st).2 (.inl ⟨_, hrd, rfl, rfl⟩)
      have hedge := hcurrent.written hd hwritten
      obtain rfl := Option.some.inj (he.symm.trans hedge)
      exact .inl ⟨_, List.getElem_mem hlt, hout, rfl⟩
    | true =>
      have hleft := leftOver_of_get? he h (not_mem_written_of_isLeftOut hdep hout)
      exact .inr ⟨i, _, hdep, hout, hleft⟩
  · rintro (⟨dep, hdep, hout, rfl⟩ | ⟨i, dep, -, -, hleft⟩)
    · exact links_of_mem_dependencies h hdep hout
    · exact hleft.links

/-- A recorded constraint of a node is one that it declares, or it is left over in the slot of one
that is on the root. -/
theorem links_constraint_iff (h : s.Declares s.traverse m st d) : s.traverse.Links true m n ↔
    (∃ c ∈ d.constraints, s.constraintTarget c = n ∧ n ≠ s.root) ∨
      ∃ i c, d.constraints[i]? = some c ∧ s.constraintTarget c = s.root ∧
        s.LeftOver ⟨m, true, i⟩ n := by
  obtain ⟨hst, hd⟩ := declares_traverse_iff.1 h
  have hcurrent := upToDate_traverse hst
  constructor
  · rintro ⟨⟨m, kind, i⟩, e, he, rfl, rfl, rfl⟩
    have hlt : i < d.constraints.length := by
      have hslot := hcurrent.current hd he rfl
      simpa [EdgeTable.isCurrent] using hslot
    have hc := List.getElem?_eq_getElem hlt
    -- the last expansion has overwritten the slot unless the constraint is on the root
    by_cases hroot : s.constraintTarget d.constraints[i] = s.root
    · have hleft := leftOver_of_get? he h (not_mem_written_of_constraintTarget hc hroot)
      exact .inr ⟨i, _, hc, hroot, hleft⟩
    · have hrc : (⟨i, s.underRules d.constraints[i].module d.constraints[i].constraint⟩ :
          RuledConstraint) ∈ s.ruledConstraints d.constraints :=
        mem_ruledConstraints_iff.2 ⟨_, hc, rfl⟩
      have hwritten := mem_written_iff (o := s.origin m st).2 (.inr ⟨_, hrc, hroot, rfl, rfl⟩)
      have hedge := hcurrent.written hd hwritten
      obtain rfl := Option.some.inj (he.symm.trans hedge)
      exact .inl ⟨_, List.getElem_mem hlt, rfl, hroot⟩
  · rintro (⟨c, hc, rfl, hroot⟩ | ⟨i, c, -, -, hleft⟩)
    · exact links_of_mem_constraints h hc hroot
    · exact hleft.links

/-! ## The edges of a graph -/

/-- The edges that a graph has from a node of some state which declares `d`. -/
structure EdgesOf (s : Situation) (g : Graph) (m : ModuleId) (st : NodeState) (d : Declarations) :
    Prop where
  dependency : ∀ n, g.DependsOn m n ↔
    (∃ dep ∈ d.dependencies, s.isLeftOut st dep = false ∧ s.dependencyTarget dep = n) ∨
      ∃ i dep, d.dependencies[i]? = some dep ∧ s.isLeftOut st dep = true ∧
        s.LeftOver ⟨m, false, i⟩ n
  constraint : ∀ n, g.Constrains m n ↔ n ∈ g.modules ∧
    ((∃ c ∈ d.constraints, s.constraintTarget c = n ∧ n ≠ s.root) ∨
      ∃ i c, d.constraints[i]? = some c ∧ s.constraintTarget c = s.root ∧
        s.LeftOver ⟨m, true, i⟩ n)

theorem Complete.edgesOf (h : s.Complete) (hm : m ∈ (s.graph s.traverse).modules)
    (hd : s.Declares s.traverse m st d) : s.EdgesOf (s.graph s.traverse) m st d where
  dependency n := by
    have hgraph := links_graph s.shape_traverse s.wired_traverse (k := false) (m := m) (n := n)
    rw [Graph.dependsOn_iff_links, hgraph, ← links_dependency_iff hd]
    constructor
    · exact fun ⟨_, _, hlink⟩ => hlink
    · exact fun hlink => ⟨hm, h.mem_modules_of_links hlink, hlink⟩
  constraint n := by
    rw [Graph.Constrains, links_graph s.shape_traverse s.wired_traverse, ← links_constraint_iff hd]
    exact and_iff_right hm

end Resolution.Situation

namespace Resolver

variable {ε : Type} {r : Resolver ε} {request : ResolveRequest}

/-- The edges in the graph of a resolution that succeeds: those that the declarations of the nodes
in the last pass ask for, and those that are left over there. -/
theorem resolve_edges_iff {res : Resolution} (h : r.resolve request = .ok res) :
    ∃ k p, LastPass r request k p (.ok res) ∧ ∀ m ∈ res.graph.modules, ∃ st d,
      (r.situation request p).Declares (r.situation request p).traverse m st d ∧
        (r.situation request p).EdgesOf res.graph m st d := by
  obtain ⟨k, p, hlast⟩ := exists_lastPass h
  obtain ⟨hcomplete, hgraph⟩ := Situation.complete_of_lastPass hlast
  refine ⟨k, p, hlast, ?_⟩
  intro m hm
  rw [hgraph] at hm ⊢
  obtain ⟨st, d, hd⟩ := hcomplete.exists_declares hm
  exact ⟨st, d, hd, hcomplete.edgesOf hm hd⟩

/-- The second variant of `a` depends only on a module that every path to `a` excludes. -/
def leftoverResolver : Resolver Empty where
  provider := Provider.ofData
    [.double ⟨"org", "a", "1.0"⟩ ⟨"org", "extra"⟩
        { dependencies := [.on ⟨"org", "c", "1.0"⟩] } { dependencies := [.on ⟨"org", "y", "1.0"⟩] },
      .single ⟨"org", "b", "1.0"⟩
        [{ Dependency.on ⟨"org", "a", "1.0"⟩ with
            capabilities := [⟨"org", "extra"⟩]
            excludes := OrderedSet.ofElements [⟨some "org", some "y"⟩] }],
      .single ⟨"org", "c", "1.0"⟩ []]
  schema := Schema.withDisambiguation Table.empty "kind" (.prefer (.string "main"))

def leftoverRequest : ResolveRequest where
  root := ⟨"org", "root", "1.0"⟩
  dependencies :=
    [{ Dependency.on ⟨"org", "a", "1.0"⟩ with
        excludes := OrderedSet.ofElements [⟨some "org", some "y"⟩] },
      .on ⟨"org", "b", "1.0"⟩]

/-- What the last pass of the sample starts with. -/
def leftoverProgress : Progress :=
  (leftoverResolver.pass leftoverRequest (leftoverResolver.pass leftoverRequest {} 1).1 2).1

theorem reaches_leftoverProgress : Reaches leftoverResolver leftoverRequest 2 leftoverProgress :=
  (Reaches.start.next (by decide +kernel)).next (by decide +kernel)

/-- The first variant of `a` leaves its edge to `c` behind, though nothing that the second one
declares is followed. -/
theorem resolve_edges_iff_leftover :
    ∃ res, leftoverResolver.resolve leftoverRequest = .ok res ∧
      res.graph.DependsOn ⟨"org", "a"⟩ ⟨"org", "c"⟩ ∧
        ∃ k p, LastPass leftoverResolver leftoverRequest k p (.ok res) ∧ ∃ st d,
          (leftoverResolver.situation leftoverRequest p).Declares
              (leftoverResolver.situation leftoverRequest p).traverse ⟨"org", "a"⟩ st d ∧
            (∀ dep ∈ d.dependencies,
              (leftoverResolver.situation leftoverRequest p).isLeftOut st dep = true) ∧
              ∃ i, (leftoverResolver.situation leftoverRequest p).LeftOver
                ⟨⟨"org", "a"⟩, false, i⟩ ⟨"org", "c"⟩ := by
  have hgraph : ((leftoverResolver.resolve leftoverRequest).toOption.any fun res =>
      res.graph.modules.contains ⟨"org", "a"⟩ &&
        (res.graph.dependencyTargets ⟨"org", "a"⟩).contains ⟨"org", "c"⟩) = true := by
    decide +kernel
  cases h : leftoverResolver.resolve leftoverRequest with
  | error e => simp [h, Except.toOption] at hgraph
  | ok res =>
    simp only [h, Except.toOption, Option.any_some, Bool.and_eq_true,
      List.contains_iff_mem] at hgraph
    obtain ⟨hm, hlink⟩ := hgraph
    obtain ⟨k, p, hlast, hedges⟩ := resolve_edges_iff h
    obtain ⟨rfl, rfl⟩ := hlast.eq_of_reaches reaches_leftoverProgress (by decide +kernel)
    obtain ⟨st, d, hd, hfrom⟩ := hedges _ hm
    have hleft : ∀ dep ∈ d.dependencies,
        (leftoverResolver.situation leftoverRequest leftoverProgress).isLeftOut st dep = true := by
      have hcheck : let s := leftoverResolver.situation leftoverRequest leftoverProgress
          ((s.traverse.nodes.get? ⟨"org", "a"⟩).all fun st =>
            (s.declared? ⟨"org", "a"⟩ st).all fun d =>
              d.dependencies.all (s.isLeftOut st)) = true := by
        decide +kernel
      obtain ⟨hst, hdeclared⟩ := Situation.declares_traverse_iff.1 hd
      dsimp only at hcheck
      rw [hst, Option.all_some, hdeclared, Option.all_some] at hcheck
      exact List.all_eq_true.1 hcheck
    refine ⟨res, rfl, hlink, 2, leftoverProgress, hlast, st, d, hd, hleft, ?_⟩
    rcases (hfrom.dependency _).1 hlink with ⟨dep, hdep, hkept, -⟩ | ⟨i, -, -, -, hleftover⟩
    · rw [hleft dep hdep] at hkept
      cases hkept
    · exact ⟨i, hleftover⟩

end Resolver

end VariantGraph
