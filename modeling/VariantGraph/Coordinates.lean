import VariantGraph.Table
import VariantGraph.Text.Fields

/-!
# Coordinates

A module is named by its group and its name, written `group:name`; a version of it by one more part,
`group:name:version`. Coordinates are ordered part by part.

Main statements: `ModuleId.parse?_eq_some_iff` and `Coordinates.parse?_eq_some_iff` say that reading
accepts exactly what writing gives for parts that are nonempty and free of colons.
-/

namespace VariantGraph

open VariantGraph.Text

/-- Whether a text can stand between the colons of coordinates. -/
def IsPart (s : String) : Prop := s ≠ "" ∧ ':' ∉ s.toList

instance : DecidablePred IsPart := fun s => inferInstanceAs (Decidable (s ≠ "" ∧ ':' ∉ s.toList))

/-- A module without a version. -/
structure ModuleId where
  group : String
  name : String
deriving DecidableEq, Repr, Inhabited

/-- One version of a module. -/
structure Coordinates where
  group : String
  name : String
  version : String
deriving DecidableEq, Repr, Inhabited

/-! ## Order -/

instance : Ord ModuleId := ⟨compareLex (compareOn ModuleId.group) (compareOn ModuleId.name)⟩

instance : Std.TransOrd ModuleId :=
  inferInstanceAs (Std.TransCmp (compareLex (compareOn ModuleId.group) (compareOn ModuleId.name)))

instance : Std.LawfulEqOrd ModuleId where
  eq_of_compare {a b} h := by
    obtain ⟨a1, a2⟩ := a
    obtain ⟨b1, b2⟩ := b
    have h : ((compare a1 b1).then (compare a2 b2)) = .eq := h
    rw [Ordering.then_eq_eq] at h
    rw [Std.LawfulEqOrd.eq_of_compare h.1, Std.LawfulEqOrd.eq_of_compare h.2]

instance : Ord Coordinates :=
  ⟨compareLex (compareOn Coordinates.group)
    (compareLex (compareOn Coordinates.name) (compareOn Coordinates.version))⟩

instance : Std.TransOrd Coordinates :=
  inferInstanceAs (Std.TransCmp (compareLex (compareOn Coordinates.group)
    (compareLex (compareOn Coordinates.name) (compareOn Coordinates.version))))

instance : Std.LawfulEqOrd Coordinates where
  eq_of_compare {a b} h := by
    obtain ⟨a1, a2, a3⟩ := a
    obtain ⟨b1, b2, b3⟩ := b
    have h : ((compare a1 b1).then ((compare a2 b2).then (compare a3 b3))) = .eq := h
    rw [Ordering.then_eq_eq, Ordering.then_eq_eq] at h
    rw [Std.LawfulEqOrd.eq_of_compare h.1, Std.LawfulEqOrd.eq_of_compare h.2.1,
      Std.LawfulEqOrd.eq_of_compare h.2.2]

/-! ## Modules -/

namespace ModuleId

/-- The written form `group:name`. -/
def text (m : ModuleId) : String := m.group ++ ":" ++ m.name

instance : ToString ModuleId := ⟨text⟩

/-- Reads `group:name`. Both parts must be there. -/
def parse? (s : String) : Option ModuleId :=
  match splitAt ':' s with
  | [group, name] => if group = "" ∨ name = "" then none else some ⟨group, name⟩
  | _ => none

/-- The coordinates of a version of the module. -/
def withVersion (m : ModuleId) (version : String) : Coordinates := ⟨m.group, m.name, version⟩

end ModuleId

/-! ## Module versions -/

namespace Coordinates

/-- The written form `group:name:version`. -/
def text (c : Coordinates) : String := c.group ++ ":" ++ c.name ++ ":" ++ c.version

instance : ToString Coordinates := ⟨text⟩

/-- Reads `group:name:version`. All three parts must be there. -/
def parse? (s : String) : Option Coordinates :=
  match splitAt ':' s with
  | [group, name, version] =>
    if group = "" ∨ name = "" ∨ version = "" then none else some ⟨group, name, version⟩
  | _ => none

/-- The module that a version belongs to. -/
def module (c : Coordinates) : ModuleId := ⟨c.group, c.name⟩

@[simp] theorem module_withVersion (m : ModuleId) (v : String) : (m.withVersion v).module = m := rfl

end Coordinates

/-! ## Reading and writing -/

theorem splitAt_eq_iff {s : String} {l : List String} (hne : l ≠ []) :
    splitAt ':' s = l ↔
      s = String.ofList (joinFields ':' (l.map String.toList)) ∧ ∀ x ∈ l, ':' ∉ x.toList := by
  constructor
  · rintro rfl
    constructor
    · have : ((splitAt ':' s).map String.toList) = fields ':' s.toList := by
        simp [splitAt, Function.comp_def]
      rw [this, joinFields_fields, String.ofList_toList]
    · intro x hx
      obtain ⟨f, hf, rfl⟩ := List.mem_map.1 hx
      rw [String.toList_ofList]
      exact not_mem_of_mem_fields hf
  · rintro ⟨rfl, h⟩
    rw [splitAt, String.toList_ofList, fields_joinFields (by simpa using hne)]
    · simp [Function.comp_def]
    · intro f hf
      obtain ⟨x, hx, rfl⟩ := List.mem_map.1 hf
      exact h x hx

namespace ModuleId

theorem parse?_eq_some_iff {s : String} {m : ModuleId} :
    parse? s = some m ↔ s = m.text ∧ IsPart m.group ∧ IsPart m.name := by
  have key : splitAt ':' s = [m.group, m.name] ↔
      s = m.text ∧ ':' ∉ m.group.toList ∧ ':' ∉ m.name.toList := by
    rw [splitAt_eq_iff (by simp), ← String.toList_inj, ← String.toList_inj]
    simp [joinFields, text]
  unfold parse? IsPart
  constructor
  · intro h
    split at h
    · next group name hs =>
      split at h
      · exact absurd h (by simp)
      · obtain rfl := Option.some.inj h
        have := key.1 hs
        simp_all
    · exact absurd h (by simp)
  · rintro ⟨hs, hg, hn⟩
    rw [key.2 ⟨hs, hg.2, hn.2⟩]
    simp [hg.1, hn.1]

end ModuleId

namespace Coordinates

theorem parse?_eq_some_iff {s : String} {c : Coordinates} :
    parse? s = some c ↔ s = c.text ∧ IsPart c.group ∧ IsPart c.name ∧ IsPart c.version := by
  have key : splitAt ':' s = [c.group, c.name, c.version] ↔
      s = c.text ∧ ':' ∉ c.group.toList ∧ ':' ∉ c.name.toList ∧ ':' ∉ c.version.toList := by
    rw [splitAt_eq_iff (by simp), ← String.toList_inj, ← String.toList_inj]
    simp [joinFields, text]
  unfold parse? IsPart
  constructor
  · intro h
    split at h
    · next group name version hs =>
      split at h
      · exact absurd h (by simp)
      · obtain rfl := Option.some.inj h
        have := key.1 hs
        simp_all
    · exact absurd h (by simp)
  · rintro ⟨hs, hg, hn, hv⟩
    rw [key.2 ⟨hs, hg.2, hn.2, hv.2⟩]
    simp [hg.1, hn.1, hv.1]

end Coordinates

end VariantGraph
