import VariantGraph.Selection

/-!
# What the paths to a node agree on

A traversal keeps for each node what the paths that reach it have in common: the modules that every
path excludes, and the constraints for the subgraph that every path passes down. It also collects
the variant requests of the edges into the node.

Main statements: `excludes_merge` and `get?_inherited_merge` say that merging another path leaves
exactly what both sides agree on, `excludes_normalize` that normalising loses nothing.
-/

namespace VariantGraph.Resolution

/-- The rules that one path excludes modules by. -/
abbrev ExcludeSet := OrderedSet ExcludeRule

/-- Whether a set of rules excludes a module. -/
def ExcludeSet.admits (s : ExcludeSet) (m : ModuleId) : Bool :=
  (OrderedSet.elements s).any fun r => r.admits m

/-- The constraints for the subgraph, by module. -/
abbrev Inherited := Table ModuleId VersionConstraint

/-- What is known of a node while the graph is walked. -/
structure NodeState where
  /-- One set of rules for each distinct path to the node. A module is excluded below the node only
  when every set excludes it. -/
  excludeSets : List ExcludeSet
  /-- The constraints for the subgraph that every path to the node agrees on. -/
  inherited : Inherited
  /-- The distinct variant requests of the edges into the node, in order of arrival. -/
  asks : List VariantRequest
deriving DecidableEq

/-- Distinct sets in ascending order; one empty set when there is none or when a path excludes
nothing. -/
def normalize (sets : List ExcludeSet) : List ExcludeSet :=
  if sets.isEmpty || sets.any Table.isEmpty then [Table.empty]
  else (OrderedSet.ofElements sets).elements

/-- Adds a set, unless it is there. -/
def addSet (sets : List ExcludeSet) (s : ExcludeSet) : List ExcludeSet :=
  if sets.contains s then sets else sets ++ [s]

/-- The exclude sets of a node after more paths: a path that excludes nothing outdoes all others. -/
def mergeSets (sets incoming : List ExcludeSet) : List ExcludeSet :=
  if sets.any Table.isEmpty then sets
  else if incoming.any Table.isEmpty then [Table.empty]
  else incoming.foldl addSet sets

/-- Adds a set to some sets, unless it is there, and notes whether they have changed. -/
def addSetNoting (r : List ExcludeSet × Bool) (s : ExcludeSet) : List ExcludeSet × Bool :=
  (addSet r.1 s, r.2 || !r.1.contains s)

/-- Whether more paths change the exclude sets of a node, as it turns out while they are added. -/
def setsChange (sets incoming : List ExcludeSet) : Bool :=
  if sets.any Table.isEmpty then false
  else if incoming.any Table.isEmpty then true
  else (incoming.foldl addSetNoting (sets, false)).2

namespace NodeState

/-- The state of the root: one path, without excludes and with an open request. -/
def root : NodeState := ⟨[Table.empty], Table.empty, [{}]⟩

/-- Whether every path to the node excludes a module. -/
def excludes (n : NodeState) (m : ModuleId) : Bool :=
  n.excludeSets.all fun s => ExcludeSet.admits s m

/-- The state after more paths that bring some exclude sets and constraints. -/
def merge (n : NodeState) (incoming : List ExcludeSet) (inherited : Inherited) : NodeState :=
  { n with
    excludeSets := mergeSets n.excludeSets incoming
    inherited := n.inherited.filter fun m c => inherited.get? m == some c }

/-- Whether a merge reports a change: of the exclude sets, or of the number of constraints. -/
def mergeChanges (n : NodeState) (incoming : List ExcludeSet) (inherited : Inherited) : Bool :=
  setsChange n.excludeSets incoming ||
    (n.merge incoming inherited).inherited.size != n.inherited.size

/-- The state after another variant request. -/
def ask (n : NodeState) (r : VariantRequest) : NodeState :=
  if n.asks.contains r then n else { n with asks := n.asks ++ [r] }

end NodeState

/-! ## What the operations leave excluded -/

theorem ExcludeSet.admits_iff {set : ExcludeSet} {m : ModuleId} :
    ExcludeSet.admits set m = true ↔ ∃ r ∈ OrderedSet.elements set, r.admits m = true := by
  rw [ExcludeSet.admits, List.any_eq_true]

theorem admits_of_isEmpty {s : ExcludeSet} (h : Table.isEmpty s) (m : ModuleId) :
    ExcludeSet.admits s m = false := by
  have : s.entries = [] := by simpa [Table.isEmpty] using h
  simp [ExcludeSet.admits, OrderedSet.elements, Table.keys, this]

theorem all_admits_of_any_isEmpty {sets : List ExcludeSet} (h : sets.any Table.isEmpty)
    (m : ModuleId) : (sets.all fun s => ExcludeSet.admits s m) = false := by
  obtain ⟨s, hs, he⟩ := List.any_eq_true.1 h
  rw [List.all_eq_false]
  exact ⟨s, hs, by simp [admits_of_isEmpty he]⟩

theorem excludes_normalize {sets : List ExcludeSet} (h : sets ≠ []) (m : ModuleId) :
    ((normalize sets).all fun s => ExcludeSet.admits s m)
      = sets.all fun s => ExcludeSet.admits s m := by
  unfold normalize
  split
  · next hc =>
    have he : sets.any Table.isEmpty := by
      cases sets with
      | nil => exact absurd rfl h
      | cons s rest => simpa using hc
    rw [all_admits_of_any_isEmpty he]
    simp [admits_of_isEmpty (s := Table.empty) rfl]
  · rw [Bool.eq_iff_iff, List.all_eq_true, List.all_eq_true]
    simp

theorem all_foldl_addSet (incoming sets : List ExcludeSet) (p : ExcludeSet → Bool) :
    (incoming.foldl addSet sets).all p = (sets.all p && incoming.all p) := by
  induction incoming generalizing sets with
  | nil => simp
  | cons s rest ih =>
    have hadd : (addSet sets s).all p = (sets.all p && p s) := by
      unfold addSet
      split
      · next hc =>
        have hs : s ∈ sets := List.contains_iff_mem.1 hc
        cases hall : sets.all p with
        | false => rfl
        | true => simp [List.all_eq_true.1 hall s hs]
      · simp
    rw [List.foldl_cons, ih, hadd, List.all_cons, Bool.and_assoc]

namespace NodeState

/-- After a merge a node excludes what it excluded before and every incoming set excludes. -/
theorem excludes_merge (n : NodeState) (incoming : List ExcludeSet) (inherited : Inherited)
    (m : ModuleId) :
    (n.merge incoming inherited).excludes m
      = (n.excludes m && incoming.all fun s => ExcludeSet.admits s m) := by
  unfold excludes merge mergeSets
  split
  · next h => simp [all_admits_of_any_isEmpty h]
  · split
    · next h =>
      rw [all_admits_of_any_isEmpty h]
      simp [admits_of_isEmpty (s := Table.empty) rfl]
    · exact all_foldl_addSet _ _ _

/-- After a merge a node inherits a constraint for a module when it did before and the other path
passes down the same one. -/
theorem get?_inherited_merge (n : NodeState) (incoming : List ExcludeSet) (inherited : Inherited)
    (m : ModuleId) : (n.merge incoming inherited).inherited.get? m
      = (n.inherited.get? m).filter fun c => inherited.get? m == some c := by
  simp [merge]

end NodeState

end VariantGraph.Resolution
