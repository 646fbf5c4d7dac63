import VariantGraph.Coordinates

/-!
# Exclude rules

A rule excludes modules by group, by name or by both, written `group:name` with `*` for a part that
may be anything. A bare `group` excludes the whole group.

Main statement: `ExcludeRule.admits_all` says that the universal rule matches every module.
-/

namespace VariantGraph

open VariantGraph.Text

/-- The modules that a dependency keeps out of its subgraph. A missing part matches anything. -/
structure ExcludeRule where
  group : Option String
  name : Option String
deriving DecidableEq, Repr

instance : Ord ExcludeRule :=
  ⟨compareLex (compareOn ExcludeRule.group) (compareOn ExcludeRule.name)⟩

instance : Std.TransOrd ExcludeRule :=
  inferInstanceAs
    (Std.TransCmp (compareLex (compareOn ExcludeRule.group) (compareOn ExcludeRule.name)))

instance : Std.LawfulEqOrd ExcludeRule where
  eq_of_compare {a b} h := by
    obtain ⟨a1, a2⟩ := a
    obtain ⟨b1, b2⟩ := b
    have h : ((compare a1 b1).then (compare a2 b2)) = .eq := h
    rw [Ordering.then_eq_eq] at h
    rw [Std.LawfulEqOrd.eq_of_compare h.1, Std.LawfulEqOrd.eq_of_compare h.2]

namespace ExcludeRule

/-- The rule that excludes every module. -/
def all : ExcludeRule := ⟨none, none⟩

/-- The part of a rule that a text stands for. -/
def partOf (s : String) : Option String := if s = "*" then none else some s

/-- Reads a rule. Further colons belong to the name. -/
def parse? (s : String) : Option ExcludeRule :=
  match splitOnce ':' s with
  | some (group, name) =>
    if group = "" ∨ name = "" then none else some ⟨partOf group, partOf name⟩
  | none => if s = "" then none else some ⟨partOf s, none⟩

/-- The written form of the group. -/
def groupText (r : ExcludeRule) : String := r.group.getD "*"

/-- The written form of the name. -/
def nameText (r : ExcludeRule) : String := r.name.getD "*"

/-- The written form `group:name`. -/
def text (r : ExcludeRule) : String := r.groupText ++ ":" ++ r.nameText

instance : ToString ExcludeRule := ⟨text⟩

/-- Whether a rule matches a module. -/
def admits (r : ExcludeRule) (m : ModuleId) : Bool :=
  r.group.all (· == m.group) && r.name.all (· == m.name)

@[simp] theorem admits_all (m : ModuleId) : all.admits m := rfl

end ExcludeRule

end VariantGraph
