import Mathlib.Data.List.Chain
import VariantGraph.Proofs.Resolution.Coverage

/-!
# Inherited constraints come from above

A node passes down the constraints that it inherits and, for other modules, its own requirements for
the subgraph. What a node inherits all nodes with a dependency on it pass down, so on every path from
the root to the node some node before it declares the requirement.

Main statements: `Situation.get?_below` says what a node passes down, `Situation.Follows.inherited`
what it leaves to the targets of its dependencies, `Situation.exists_binds_of_inherited` where an
inherited constraint comes from.
-/

namespace VariantGraph.Resolution.Situation

variable {s : Situation} {o : Origin} {m n p : ModuleId} {st : NodeState} {d : Declarations}
  {c : VersionConstraint}

/-! ## What a node passes down -/

/-- The rules keep whether a request binds the subgraph. -/
@[simp] theorem forSubgraph_underRules (s : Situation) (m : ModuleId) (c : VersionConstraint) :
    (s.underRules m c).constraint.forSubgraph = c.forSubgraph := by
  have hruled : (s.rules.apply m c).constraint.forSubgraph = c.forSubgraph := by
    unfold Rules.apply Rules.substitute
    split
    · unfold Rules.substituted
      dsimp only
      split <;> rfl
    · rfl
  unfold underRules
  dsimp only
  split
  · exact hruled
  · exact hruled

/-- Whether a request binds the subgraph to a version of a module. -/
def isBinding (m : ModuleId) (r : RuledRequest) : Bool := r.constraint.forSubgraph && r.module == m

theorem get?_passedDown (inherited : Inherited) (requests : List RuledRequest) :
    (passedDown inherited requests).get? m
      = (inherited.get? m).or ((requests.find? (isBinding m)).map RuledRequest.constraint) := by
  unfold passedDown
  induction requests generalizing inherited with
  | nil => simp
  | cons r rest ih =>
    rw [List.foldl_cons, ih]
    cases hsubgraph : r.constraint.forSubgraph with
    | false => simp [isBinding, hsubgraph]
    | true =>
      rw [if_pos rfl, Table.get?_insertIfNew]
      by_cases hm : m = r.module
      · subst hm
        cases inherited.get? r.module <;> simp [isBinding, hsubgraph]
      · have hne : ¬ r.module = m := fun h => hm h.symm
        simp [isBinding, hsubgraph, hm, hne]

/-- The requests that a node of some state makes: those of the dependencies that are not left out,
then those of the constraints. -/
def ruledRequests (s : Situation) (st : NodeState) (d : Declarations) : List RuledRequest :=
  (s.followed st d.dependencies).map RuledDependency.ruled ++
    (s.ruledConstraints d.constraints).map RuledConstraint.ruled

/-- The first requirement for the subgraph that a node of some state declares for a module. -/
def binding? (s : Situation) (st : NodeState) (d : Declarations) (m : ModuleId) :
    Option VersionConstraint :=
  ((s.ruledRequests st d).find? (isBinding m)).map RuledRequest.constraint

/-- A node passes down what it inherits, and its own requirements for the other modules. -/
theorem get?_below : (s.below o d).get? m
    = (o.state.inherited.get? m).or (s.binding? o.state d m) :=
  get?_passedDown o.state.inherited _

/-! ## Demands on the subgraph -/

/-- A node of some state that declares `d` has a dependency on a module that is not left out. -/
def LeadsTo (s : Situation) (st : NodeState) (d : Declarations) (n : ModuleId) : Prop :=
  ∃ dep ∈ d.dependencies, s.isLeftOut st dep = false ∧ s.dependencyTarget dep = n

instance : Decidable (s.LeadsTo st d n) :=
  inferInstanceAs
    (Decidable (∃ dep ∈ d.dependencies, s.isLeftOut st dep = false ∧ s.dependencyTarget dep = n))

/-- When a walk ends, a node has a dependency on a module. -/
def Follows (s : Situation) (p n : ModuleId) : Prop :=
  ∃ st d, s.Declares s.traverse p st d ∧ s.LeadsTo st d n

instance : DecidableRel s.Follows := fun p n =>
  decidable_of_iff
    (((s.traverse.nodes.get? p).any fun st =>
      (s.declared? p st).any fun d => decide (s.LeadsTo st d n)) = true)
    (by simp [Follows, declares_traverse_iff, Option.any_eq_true, and_assoc])

/-- A declared request binds the subgraph, and the rules make the constraint `c` on a module of it. -/
structure Demands (s : Situation) (declared : ModuleId) (constraint : VersionConstraint)
    (m : ModuleId) (c : VersionConstraint) : Prop where
  forSubgraph : constraint.forSubgraph = true
  target : (s.underRules declared constraint).module = m
  ruled : (s.underRules declared constraint).constraint = c

theorem demands_of_isBinding {declared : ModuleId} {constraint : VersionConstraint}
    (h : isBinding m (s.underRules declared constraint) = true) :
    s.Demands declared constraint m (s.underRules declared constraint).constraint := by
  rw [isBinding, forSubgraph_underRules, Bool.and_eq_true, beq_iff_eq] at h
  exact ⟨h.1, h.2, rfl⟩

/-- When a walk ends, a node demands a constraint on a module for the subgraph, by a dependency that
is not left out or by a dependency constraint. -/
def Binds (s : Situation) (p m : ModuleId) (c : VersionConstraint) : Prop :=
  ∃ st d, s.Declares s.traverse p st d ∧
    ((∃ dep ∈ d.dependencies,
        s.isLeftOut st dep = false ∧ s.Demands dep.module dep.constraint m c) ∨
      ∃ dc ∈ d.constraints, s.Demands dc.module dc.constraint m c)

theorem binds_of_binding?_eq_some (h : s.Declares s.traverse p st d)
    (hc : s.binding? st d m = some c) : s.Binds p m c := by
  obtain ⟨r, hr, rfl⟩ := Option.map_eq_some_iff.1 hc
  have hbinding := List.find?_some hr
  refine ⟨st, d, h, ?_⟩
  rcases List.mem_append.1 (List.mem_of_find?_eq_some hr) with hmem | hmem
  · obtain ⟨rd, hrd, rfl⟩ := List.mem_map.1 hmem
    obtain ⟨hget, hout, hruled⟩ := mem_followed_iff.1 hrd
    rw [hruled] at hbinding ⊢
    exact .inl ⟨rd.declared, List.mem_of_getElem? hget, hout, demands_of_isBinding hbinding⟩
  · obtain ⟨rc, hrc, rfl⟩ := List.mem_map.1 hmem
    obtain ⟨dc, hget, hruled⟩ := mem_ruledConstraints_iff.1 hrc
    rw [hruled] at hbinding ⊢
    exact .inr ⟨dc, List.mem_of_getElem? hget, demands_of_isBinding hbinding⟩

/-! ## Where an inherited constraint comes from -/

/-- The root inherits nothing. -/
theorem inherited_root (h : s.traverse.nodes.get? s.root = some st) :
    st.inherited.get? m = none := by
  rw [s.shape_traverse.root, Option.some.injEq] at h
  rw [← h]
  rfl

/-- What a node inherits, the nodes with a dependency on it inherit or declare. -/
theorem Follows.inherited (h : s.Follows p n) (hst : s.traverse.nodes.get? n = some st)
    (hc : st.inherited.get? m = some c) :
    (∃ t, s.traverse.nodes.get? p = some t ∧ t.inherited.get? m = some c) ∨ s.Binds p m c := by
  obtain ⟨t, d, hd, dep, hdep, hout, rfl⟩ := h
  have hroot : s.dependencyTarget dep ≠ s.root := by
    intro hroot
    rw [hroot] at hst
    rw [inherited_root hst] at hc
    cases hc
  obtain ⟨st', hst', hserves⟩ := serves_of_mem_dependencies hd hdep hout hroot
  obtain rfl := Option.some.inj (hst.symm.trans hst')
  have hbelow := hserves.inherited hc
  rw [get?_below, Option.or_eq_some_iff] at hbelow
  rcases hbelow with hinherited | ⟨-, hbinding⟩
  · exact .inl ⟨t, hd.1, hinherited⟩
  · exact .inr (binds_of_binding?_eq_some hd hbinding)

/-- On every path from the root to a node that inherits a constraint, some node before it declares
the requirement. -/
theorem exists_binds_of_inherited {path : List ModuleId}
    (hstart : (path ++ [n]).head? = some s.root) (hpath : (path ++ [n]).IsChain s.Follows)
    (hst : s.traverse.nodes.get? n = some st) (hc : st.inherited.get? m = some c) :
    ∃ p ∈ path, s.Binds p m c := by
  -- from the end of the path back to the root, which inherits nothing
  induction path using List.reverseRecOn generalizing n st with
  | nil =>
    obtain rfl := Option.some.inj hstart
    rw [inherited_root hst] at hc
    cases hc
  | append_singleton path p ih =>
    rw [List.append_assoc, List.singleton_append, List.isChain_split] at hpath
    obtain ⟨hpath, hlast⟩ := hpath
    have hstart : (path ++ [p]).head? = some s.root := by
      rw [List.head?_append_of_ne_nil _ (by simp)] at hstart
      exact hstart
    rcases (List.isChain_pair.1 hlast).inherited hst hc with ⟨t, ht, hinherited⟩ | hbinds
    · obtain ⟨q, hq, hbinds⟩ := ih hstart hpath ht hinherited
      exact ⟨q, List.mem_append_left _ hq, hbinds⟩
    · exact ⟨p, List.mem_append_right _ (List.mem_singleton_self p), hbinds⟩

/-! ## A graph with a cycle -/

/-- A pass for which all versions of some module data are fetched and selected. -/
def ofData (request : ResolveRequest) (schema : Schema) (l : List ModuleData) : Situation where
  request := request
  schema := schema
  rules := {}
  selections := Table.ofList (l.map fun d => (d.id.module, ⟨d.id.version, .compared⟩))
  cache := { modules := Table.ofList (l.map fun d => (d.id, some d)) }

/-- The constraint on `m` is declared on the cycle through which `n` is reached. -/
def cyclic : Situation :=
  ofData ⟨⟨"org", "root", "1.0"⟩, Table.empty, [.on ⟨"org", "a", "1.0"⟩], []⟩ Schema.standard
    [.single ⟨"org", "a", "1.0"⟩ [.on ⟨"org", "b", "1.0"⟩]
        [{ module := ⟨"org", "m"⟩, constraint := { required := some "1.0", forSubgraph := true } }],
      .single ⟨"org", "b", "1.0"⟩ [.on ⟨"org", "a", "1.0"⟩, .on ⟨"org", "n", "1.0"⟩],
      .single ⟨"org", "n", "1.0"⟩ [.on ⟨"org", "m", "2.0"⟩],
      .single ⟨"org", "m", "1.0"⟩ []]

/-- A path twice through the cycle. -/
def cyclicPath : List ModuleId :=
  [⟨"org", "root"⟩, ⟨"org", "a"⟩, ⟨"org", "b"⟩, ⟨"org", "a"⟩, ⟨"org", "b"⟩]

theorem exists_binds_of_inherited_cyclic :
    let c : VersionConstraint := { required := some "1.0", forSubgraph := true }
    let n : ModuleId := ⟨"org", "n"⟩
    (cyclicPath ++ [n]).head? = some cyclic.root ∧ (cyclicPath ++ [n]).IsChain cyclic.Follows ∧
      ∃ st, cyclic.traverse.nodes.get? n = some st ∧ st.inherited.get? ⟨"org", "m"⟩ = some c ∧
        ∃ p ∈ cyclicPath, cyclic.Binds p ⟨"org", "m"⟩ c := by
  intro c n
  have hpath : (cyclicPath ++ [n]).IsChain cyclic.Follows := by decide +kernel
  have hinherited : ((cyclic.traverse.nodes.get? n).any fun st =>
      st.inherited.get? ⟨"org", "m"⟩ == some c) = true := by
    decide +kernel
  obtain ⟨st, hst, hc⟩ := (Option.any_eq_true _ _).1 hinherited
  rw [beq_iff_eq] at hc
  exact ⟨rfl, hpath, st, hst, hc, exists_binds_of_inherited rfl hpath hst hc⟩

end VariantGraph.Resolution.Situation
