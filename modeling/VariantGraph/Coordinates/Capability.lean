import VariantGraph.Coordinates

/-!
# Capabilities

A capability is what a variant claims to provide. Two modules that provide capabilities of one group
and name stand in conflict, whatever the versions, so `CapabilityId` leaves the version out. A
variant that declares no capability provides the coordinates of its module.

Main statement: `Capability.parse?_text` says that a capability with proper parts is read back from
its written form.
-/

namespace VariantGraph

open VariantGraph.Text

/-- A capability, with a version or without. -/
structure Capability where
  group : String
  name : String
  version : Option String
deriving DecidableEq, Repr

/-- A capability without its version. -/
structure CapabilityId where
  group : String
  name : String
deriving DecidableEq, Repr

instance : Ord CapabilityId :=
  ⟨compareLex (compareOn CapabilityId.group) (compareOn CapabilityId.name)⟩

instance : Std.TransOrd CapabilityId :=
  inferInstanceAs
    (Std.TransCmp (compareLex (compareOn CapabilityId.group) (compareOn CapabilityId.name)))

instance : Std.LawfulEqOrd CapabilityId where
  eq_of_compare {a b} h := by
    obtain ⟨a1, a2⟩ := a
    obtain ⟨b1, b2⟩ := b
    have h : ((compare a1 b1).then (compare a2 b2)) = .eq := h
    rw [Ordering.then_eq_eq] at h
    rw [Std.LawfulEqOrd.eq_of_compare h.1, Std.LawfulEqOrd.eq_of_compare h.2]

namespace CapabilityId

/-- The written form `group:name`. -/
def text (c : CapabilityId) : String := c.group ++ ":" ++ c.name

instance : ToString CapabilityId := ⟨text⟩

/-- Reads `group:name`. -/
def parse? (s : String) : Option CapabilityId :=
  (ModuleId.parse? s).map fun m => ⟨m.group, m.name⟩

/-- The capability that a module has by its own name. -/
def ofModule (m : ModuleId) : CapabilityId := ⟨m.group, m.name⟩

/-- Whether this is the capability that a module has by its own name. -/
def isImplicitFor (c : CapabilityId) (m : ModuleId) : Bool := c == ofModule m

end CapabilityId

namespace Capability

/-- The written form `group:name` or `group:name:version`. -/
def text (c : Capability) : String :=
  match c.version with
  | some v => c.group ++ ":" ++ c.name ++ ":" ++ v
  | none => c.group ++ ":" ++ c.name

instance : ToString Capability := ⟨text⟩

/-- Reads `group:name` or `group:name:version`. -/
def parse? (s : String) : Option Capability :=
  match splitAt ':' s with
  | [group, name] => if group = "" ∨ name = "" then none else some ⟨group, name, none⟩
  | [group, name, version] =>
    if group = "" ∨ name = "" ∨ version = "" then none else some ⟨group, name, some version⟩
  | _ => none

/-- The capability without its version. -/
def id (c : Capability) : CapabilityId := ⟨c.group, c.name⟩

/-- The capability that every module version provides by itself. -/
def implicit (m : ModuleId) (version : String) : Capability := ⟨m.group, m.name, some version⟩

/-- What a variant provides that declares some capabilities: these, or the implicit one. -/
def effective (m : ModuleId) (version : String) (declared : List Capability) : List Capability :=
  if declared.isEmpty then [implicit m version] else declared

theorem effective_ne_nil (m : ModuleId) (v : String) (l : List Capability) :
    effective m v l ≠ [] := by
  cases l <;> simp [effective]

/-- A capability whose parts are nonempty and free of colons is read back from its text. -/
theorem parse?_text {c : Capability} (hg : IsPart c.group) (hn : IsPart c.name)
    (hv : ∀ v ∈ c.version, IsPart v) : parse? c.text = some c := by
  obtain ⟨group, name, version⟩ := c
  have hg2 : ':' ∉ group.toList := hg.2
  have hn2 : ':' ∉ name.toList := hn.2
  cases version with
  | none =>
    have h : splitAt ':' (text ⟨group, name, none⟩) = [group, name] := by
      rw [splitAt_eq_iff (by simp), ← String.toList_inj]
      simp [joinFields, text, hg2, hn2]
    simp [parse?, h, hg.1, hn.1]
  | some v =>
    have hv := hv v rfl
    have h : splitAt ':' (text ⟨group, name, some v⟩) = [group, name, v] := by
      rw [splitAt_eq_iff (by simp), ← String.toList_inj]
      simp [joinFields, text, hg2, hn2, hv.2]
    simp [parse?, h, hg.1, hn.1, hv.1]

end Capability

end VariantGraph
