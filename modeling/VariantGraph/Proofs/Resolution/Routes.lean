import VariantGraph.Proofs.Resolution.Inheritance

/-!
# What all routes to a node exclude

A route leads from the root to a node along dependencies that are not left out. A node excludes a
module only if on every route to it the rules of some dependency do, however many routes there are
and however often they go around a cycle. So no route to a node wants what is left out at it.

Main statements: `Situation.all_excludesBelow` says what is excluded below a dependency,
`Situation.Route.bars` what the routes to a node exclude, `Situation.forall_route_bars_of_leftOut`
why a dependency is left out.
-/

namespace VariantGraph

/-- Whether the rules of a dependency exclude a module below it. -/
def Dependency.bars (dep : Dependency) (m : ModuleId) : Bool :=
  Resolution.ExcludeSet.admits dep.effectiveExcludes m

namespace Resolution

/-! ## One dependency -/

theorem ExcludeSet.admits_union (set set' : ExcludeSet) (m : ModuleId) :
    ExcludeSet.admits (OrderedSet.union set set') m
      = (ExcludeSet.admits set m || ExcludeSet.admits set' m) := by
  rw [Bool.eq_iff_iff, Bool.or_eq_true, admits_iff, admits_iff, admits_iff]
  constructor
  · rintro ⟨r, hr, hm⟩
    rcases OrderedSet.mem_elements_union.1 hr with hr | hr
    · exact .inl ⟨r, hr, hm⟩
    · exact .inr ⟨r, hr, hm⟩
  · rintro (⟨r, hr, hm⟩ | ⟨r, hr, hm⟩)
    · exact ⟨r, OrderedSet.mem_elements_union.2 (.inl hr), hm⟩
    · exact ⟨r, OrderedSet.mem_elements_union.2 (.inr hr), hm⟩

theorem NodeState.excludes_root (m : ModuleId) : NodeState.root.excludes m = false := rfl

namespace Situation

variable {s : Situation} {m n p : ModuleId} {st : NodeState} {d : Declarations} {dep : Dependency}
  {route : List Dependency} {i : Nat}

/-- Below a dependency all paths exclude what all paths to its node exclude, and what it excludes
itself. -/
theorem all_excludesBelow (st : NodeState) (dep : Dependency) (m : ModuleId) :
    ((excludesBelow st dep).all fun set => ExcludeSet.admits set m)
      = (st.excludes m || dep.bars m) := by
  unfold excludesBelow NodeState.excludes
  rw [List.all_map]
  induction st.excludeSets with
  | nil => rfl
  | cons set rest ih =>
    rw [List.all_cons, List.all_cons, ih, Function.comp_apply, ExcludeSet.admits_union]
    exact (Bool.or_and_distrib_right _ _ _).symm

/-! ## Routes -/

/-- When a walk ends, some dependencies lead from the root to a module: each is declared by the node
that those before it lead to, and not left out at it. -/
inductive Route (s : Situation) : List Dependency → ModuleId → Prop
  | root : s.Route [] s.root
  | follow {route : List Dependency} {p : ModuleId} {st : NodeState} {d : Declarations}
      {dep : Dependency} (before : s.Route route p) (declares : s.Declares s.traverse p st d)
      (declared : dep ∈ d.dependencies) (kept : s.isLeftOut st dep = false) :
      s.Route (route ++ [dep]) (s.dependencyTarget dep)

/-- Some dependency of a route excludes a module. -/
def Bars (route : List Dependency) (m : ModuleId) : Prop := ∃ dep ∈ route, dep.bars m = true

theorem not_bars_nil : ¬ Bars [] m := by
  rintro ⟨dep, hdep, -⟩
  exact List.not_mem_nil hdep

theorem bars_concat_iff : Bars (route ++ [dep]) m ↔ Bars route m ∨ dep.bars m = true := by
  simp [Bars, or_and_right, exists_or]

/-- The root excludes nothing. -/
theorem ne_root_of_excludes (hst : s.traverse.nodes.get? n = some st)
    (hm : st.excludes m = true) : n ≠ s.root := by
  rintro rfl
  rw [s.shape_traverse.root, Option.some.injEq] at hst
  rw [← hst, NodeState.excludes_root] at hm
  cases hm

/-- What a node excludes, every route to it excludes. -/
theorem Route.bars (h : s.Route route n) (hst : s.traverse.nodes.get? n = some st)
    (hm : st.excludes m = true) : Bars route m := by
  have hroot := ne_root_of_excludes hst hm
  -- from node to node, because each serves the one before it
  induction h generalizing st with
  | root => exact absurd rfl hroot
  | @follow route p t d dep before declares declared kept ih =>
    obtain ⟨st', hst', hserves⟩ := serves_of_mem_dependencies declares declared kept hroot
    obtain rfl := Option.some.inj (hst.symm.trans hst')
    have hall := hserves.excludes hm
    rw [all_excludesBelow, Bool.or_eq_true] at hall
    rw [bars_concat_iff]
    rcases hall with hexcludes | hbars
    · exact .inl (ih declares.1 hexcludes (ne_root_of_excludes declares.1 hexcludes))
    · exact .inr hbars

/-- If every dependency on a node excludes a module, then so does every route to the node. -/
theorem Route.bars_of_forall_declares (h : s.Route route n) (hroot : n ≠ s.root)
    (hbars : ∀ p st d, s.Declares s.traverse p st d → ∀ dep ∈ d.dependencies,
      s.isLeftOut st dep = false → s.dependencyTarget dep = n → dep.bars m = true) :
    Bars route m := by
  cases h with
  | root => exact absurd rfl hroot
  | follow before declares declared kept =>
    exact bars_concat_iff.2 (.inr (hbars _ _ _ declares _ declared kept rfl))

/-- No route to a node wants a dependency that is declared at some place but not followed: all of
them exclude the module that the dependency declares, or all exclude the one that the rules put in
its place. -/
theorem forall_route_bars_of_leftOut (h : s.Declares s.traverse n st d)
    (hdep : d.dependencies[i]? = some dep)
    (hout : ∀ rd ∈ s.followed st d.dependencies, rd.index ≠ i) :
    (∀ route, s.Route route n → Bars route dep.module) ∨
      ∀ route, s.Route route n → Bars route (s.dependencyTarget dep) := by
  cases hleft : s.isLeftOut st dep with
  | false => exact absurd rfl (hout _ (followed_of_getElem? hdep hleft))
  | true =>
    rw [isLeftOut, Bool.or_eq_true] at hleft
    rcases hleft with hm | hm
    · exact .inl fun route hroute => hroute.bars h.1 hm
    · exact .inr fun route hroute => hroute.bars h.1 hm

/-- Two routes lead to `n`, and the rules that exclude `x` stand at different dependencies of them:
at the last one of the route through `a`, and at the first one of the route through `b` and `c`. One
dependency of `n` leads back to `a`. -/
def diamond : Situation :=
  ofData
    ⟨⟨"org", "root", "1.0"⟩, Table.empty,
      [.on ⟨"org", "a", "1.0"⟩,
        { Dependency.on ⟨"org", "b", "1.0"⟩ with
          excludes := OrderedSet.ofElements [⟨some "lib", none⟩] }], []⟩
    Schema.standard
    [.single ⟨"org", "a", "1.0"⟩
        [{ Dependency.on ⟨"org", "n", "1.0"⟩ with
            excludes := OrderedSet.ofElements [⟨none, some "x"⟩] }],
      .single ⟨"org", "b", "1.0"⟩ [.on ⟨"org", "c", "1.0"⟩],
      .single ⟨"org", "c", "1.0"⟩ [.on ⟨"org", "n", "1.0"⟩],
      .single ⟨"org", "n", "1.0"⟩ [.on ⟨"org", "a", "1.0"⟩, .on ⟨"lib", "x", "1.0"⟩],
      .single ⟨"lib", "x", "1.0"⟩ []]

theorem forall_route_bars_of_leftOut_diamond :
    ∃ st d dep, diamond.Declares diamond.traverse ⟨"org", "n"⟩ st d ∧
      d.dependencies[1]? = some dep ∧
        (∀ rd ∈ diamond.followed st d.dependencies, rd.index ≠ 1) ∧
          ((∀ route, diamond.Route route ⟨"org", "n"⟩ → Bars route dep.module) ∨
            ∀ route, diamond.Route route ⟨"org", "n"⟩ →
              Bars route (diamond.dependencyTarget dep)) := by
  have hout : ((diamond.traverse.nodes.get? ⟨"org", "n"⟩).any fun st =>
      (diamond.declared? ⟨"org", "n"⟩ st).any fun d => d.dependencies[1]?.isSome &&
        (diamond.followed st d.dependencies).all fun rd => rd.index != 1) = true := by
    decide +kernel
  obtain ⟨st, hst, hout⟩ := (Option.any_eq_true _ _).1 hout
  obtain ⟨d, hd, hout⟩ := (Option.any_eq_true _ _).1 hout
  rw [Bool.and_eq_true, List.all_eq_true] at hout
  obtain ⟨dep, hdep⟩ := Option.isSome_iff_exists.1 hout.1
  have hdeclares := declares_traverse_iff.2 ⟨hst, hd⟩
  have hnot : ∀ rd ∈ diamond.followed st d.dependencies, rd.index ≠ 1 :=
    fun rd hrd => bne_iff_ne.1 (hout.2 rd hrd)
  exact ⟨st, d, dep, hdeclares, hdep, hnot, forall_route_bars_of_leftOut hdeclares hdep hnot⟩

end Situation

end Resolution

end VariantGraph
