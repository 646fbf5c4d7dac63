import VariantGraph.Resolution.Positions
import VariantGraph.VersionChoice

/-!
# The edges of a pass

While the graph is walked, every declaration of a node has a slot for the edge that it gives. A node
that is expanded again writes its edges into the same slots, and slots beyond its current
declarations are dropped. Edges keep the order in which their slots were first used; a table holds
the position of each slot's edge among them.

Main statement: the field `EdgeTable.numbering`, which recording and truncating keep, says that every
position is that of one slot.
-/

namespace VariantGraph.Resolution

/-- The declaration that an edge comes from. -/
structure Slot where
  source : ModuleId
  isConstraint : Bool
  index : Nat
deriving DecidableEq, Repr

instance : Ord Slot :=
  ⟨compareLex (compareOn Slot.source)
    (compareLex (compareOn Slot.isConstraint) (compareOn Slot.index))⟩

instance : Std.TransOrd Slot :=
  inferInstanceAs (Std.TransCmp (compareLex (compareOn Slot.source)
    (compareLex (compareOn Slot.isConstraint) (compareOn Slot.index))))

instance : Std.LawfulEqOrd Slot where
  eq_of_compare {a b} h := by
    obtain ⟨a1, a2, a3⟩ := a
    obtain ⟨b1, b2, b3⟩ := b
    have h : ((compare a1 b1).then ((compare a2 b2).then (compare a3 b3))) = .eq := h
    rw [Ordering.then_eq_eq, Ordering.then_eq_eq] at h
    rw [Std.LawfulEqOrd.eq_of_compare h.1, Std.LawfulEqOrd.eq_of_compare h.2.1,
      Std.LawfulEqOrd.eq_of_compare h.2.2]

/-- An edge met on the walk. -/
structure Edge where
  source : ModuleId
  target : ModuleId
  request : VersionRequest
  /-- The description of the rule that changed the target. -/
  substitution : Option String := none
deriving DecidableEq

/-- The edges of a pass by slot. -/
structure EdgeTable where
  /-- The position of the edge of each slot in use. -/
  positions : Table Slot Nat
  /-- The edges in the order in which their slots were first used. -/
  edges : List Edge
  numbering : Numbers positions edges.length
deriving DecidableEq

namespace EdgeTable

/-- The table without edges. -/
def empty : EdgeTable := ⟨Table.empty, [], Numbers.empty⟩

/-- The edge in a slot. -/
def get? (t : EdgeTable) (s : Slot) : Option Edge := (t.positions.get? s).bind fun i => t.edges[i]?

/-- Writes an edge into its slot, behind all others if the slot is new. -/
def record (t : EdgeTable) (s : Slot) (e : Edge) : EdgeTable :=
  match h : t.positions.get? s with
  | some i =>
    { t with
      edges := t.edges.set i e
      numbering := by
        rw [List.length_set]
        exact t.numbering }
  | none =>
    { positions := t.positions.insert s t.edges.length
      edges := t.edges ++ [e]
      numbering := by
        rw [List.length_append]
        exact t.numbering.concat h }

/-- Whether a slot stays when a node has so many dependencies and constraints. -/
def isCurrent (m : ModuleId) (dependencies constraints : Nat) (s : Slot) : Bool :=
  s.source != m || decide (s.index < if s.isConstraint then constraints else dependencies)

/-- The positions of the slots of a node beyond its current declarations. -/
def stale (t : EdgeTable) (m : ModuleId) (dependencies constraints : Nat) : OrderedSet Nat :=
  OrderedSet.ofElements
    (t.positions.filter fun s _ => !isCurrent m dependencies constraints s).values

/-- A table without the edges at some positions and their slots. -/
def drop (t : EdgeTable) (dropped : OrderedSet Nat) : EdgeTable where
  positions :=
    (t.positions.filter fun _ i => !Table.contains dropped i).mapValues (shifted dropped)
  edges := dropPositions dropped t.edges
  numbering := by
    rw [length_dropPositions]
    exact t.numbering.drop dropped

/-- Drops the slots of a node beyond its current declarations. -/
def truncate (t : EdgeTable) (m : ModuleId) (dependencies constraints : Nat) : EdgeTable :=
  let stale := t.stale m dependencies constraints
  if Table.isEmpty stale then t else t.drop stale

/-- The requests for the version of a module. -/
def requestsFor (t : EdgeTable) (m : ModuleId) : List VersionRequest :=
  (t.edges.filter fun e => e.target == m).map Edge.request

/-- Who depends on a module, each once. -/
def requesters (t : EdgeTable) (m : ModuleId) : List String :=
  ((t.edges.filter fun e => e.target == m && !e.request.isConstraint).map
    fun e => e.request.requestedBy).eraseDups

end EdgeTable

end VariantGraph.Resolution
