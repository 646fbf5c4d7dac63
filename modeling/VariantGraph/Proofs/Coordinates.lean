import Mathlib.Data.List.Basic
import VariantGraph.Coordinates.Capability
import VariantGraph.Coordinates.Exclude

/-!
# Reading what is written

Modules, module versions and capabilities have one written form each, which is all that their
readers accept. An exclude rule may be written with a bare group; what is written for the rule that
is read then has a `*` for the name.

Main statements: `Capability.parse?_eq_some_iff`, `ExcludeRule.parse?_eq_none_iff` and
`ExcludeRule.parse?_text_of_parse?`, `parse?_inverse_text` for all four readers.
-/

namespace VariantGraph

open VariantGraph.Text

/-! ## Texts joined by colons -/

/-- A text consists of a number of parts with colons between them. -/
def IsJoined (n : Nat) (s : String) : Prop :=
  ∃ parts : List String, parts.length = n ∧ (∀ p ∈ parts, IsPart p) ∧ s = ":".intercalate parts

theorem isJoined_two_iff {s : String} :
    IsJoined 2 s ↔ ∃ a b, IsPart a ∧ IsPart b ∧ s = a ++ ":" ++ b := by
  constructor
  · rintro ⟨parts, hlength, hparts, rfl⟩
    obtain ⟨a, b, rfl⟩ := List.length_eq_two.1 hlength
    exact ⟨a, b, hparts a (by simp), hparts b (by simp), rfl⟩
  · rintro ⟨a, b, ha, hb, rfl⟩
    exact ⟨[a, b], rfl, by simp [ha, hb], rfl⟩

theorem isJoined_three_iff {s : String} :
    IsJoined 3 s ↔ ∃ a b c, IsPart a ∧ IsPart b ∧ IsPart c ∧ s = a ++ ":" ++ b ++ ":" ++ c := by
  constructor
  · rintro ⟨parts, hlength, hparts, rfl⟩
    obtain ⟨a, b, c, rfl⟩ := List.length_eq_three.1 hlength
    exact ⟨a, b, c, hparts a (by simp), hparts b (by simp), hparts c (by simp), rfl⟩
  · rintro ⟨a, b, c, ha, hb, hc, rfl⟩
    exact ⟨[a, b, c], rfl, by simp [ha, hb, hc], rfl⟩

theorem ModuleId.isSome_parse?_iff {s : String} :
    (ModuleId.parse? s).isSome ↔ IsJoined 2 s := by
  rw [Option.isSome_iff_exists, isJoined_two_iff]
  constructor
  · rintro ⟨m, hm⟩
    obtain ⟨hs, hgroup, hname⟩ := ModuleId.parse?_eq_some_iff.1 hm
    exact ⟨m.group, m.name, hgroup, hname, hs⟩
  · rintro ⟨group, name, hgroup, hname, hs⟩
    exact ⟨⟨group, name⟩, ModuleId.parse?_eq_some_iff.2 ⟨hs, hgroup, hname⟩⟩

theorem Coordinates.isSome_parse?_iff {s : String} :
    (Coordinates.parse? s).isSome ↔ IsJoined 3 s := by
  rw [Option.isSome_iff_exists, isJoined_three_iff]
  constructor
  · rintro ⟨c, hc⟩
    obtain ⟨hs, hgroup, hname, hversion⟩ := Coordinates.parse?_eq_some_iff.1 hc
    exact ⟨c.group, c.name, c.version, hgroup, hname, hversion, hs⟩
  · rintro ⟨group, name, version, hgroup, hname, hversion, hs⟩
    exact ⟨⟨group, name, version⟩,
      Coordinates.parse?_eq_some_iff.2 ⟨hs, hgroup, hname, hversion⟩⟩

/-! ## Capabilities -/

namespace Capability

/-- A capability is read as a module, or as a module version. -/
theorem parse?_eq_orElse (s : String) : parse? s =
    ((ModuleId.parse? s).map fun m => ⟨m.group, m.name, none⟩).or
      ((Coordinates.parse? s).map fun c => ⟨c.group, c.name, some c.version⟩) := by
  unfold parse? ModuleId.parse? Coordinates.parse?
  rcases splitAt ':' s with _ | ⟨a, _ | ⟨b, _ | ⟨c, _ | ⟨d, rest⟩⟩⟩⟩
  · rfl
  · rfl
  · dsimp only
    split <;> rfl
  · dsimp only
    split <;> rfl
  · rfl

theorem isSome_parse?_iff {s : String} :
    (parse? s).isSome ↔ IsJoined 2 s ∨ IsJoined 3 s := by
  rw [parse?_eq_orElse, Option.isSome_or, Bool.or_eq_true, Option.isSome_map, Option.isSome_map,
    ModuleId.isSome_parse?_iff, Coordinates.isSome_parse?_iff]

theorem parse?_eq_some_iff {s : String} {c : Capability} : parse? s = some c ↔
    s = c.text ∧ IsPart c.group ∧ IsPart c.name ∧ ∀ v ∈ c.version, IsPart v := by
  constructor
  · intro h
    rw [parse?_eq_orElse, Option.or_eq_some_iff] at h
    rcases h with h | ⟨-, h⟩
    · obtain ⟨m, hm, rfl⟩ := Option.map_eq_some_iff.1 h
      obtain ⟨hs, hgroup, hname⟩ := ModuleId.parse?_eq_some_iff.1 hm
      exact ⟨hs, hgroup, hname, nofun⟩
    · obtain ⟨m, hm, rfl⟩ := Option.map_eq_some_iff.1 h
      obtain ⟨hs, hgroup, hname, hversion⟩ := Coordinates.parse?_eq_some_iff.1 hm
      exact ⟨hs, hgroup, hname, fun v hv => Option.some.inj hv ▸ hversion⟩
  · rintro ⟨rfl, hgroup, hname, hversion⟩
    exact parse?_text hgroup hname hversion

end Capability

/-! ## The first separator -/

namespace Text

variable {sep : Char} {s before after : List Char}

theorem splitFirst_eq_none_iff : splitFirst sep s = none ↔ sep ∉ s := by
  induction s with
  | nil => simp [splitFirst]
  | cons c rest ih =>
    rw [splitFirst]
    split
    · next h => simp [h]
    · next h => simp [ih, Ne.symm h]

theorem splitFirst_eq_some_iff :
    splitFirst sep s = some (before, after) ↔ s = before ++ sep :: after ∧ sep ∉ before := by
  induction s generalizing before with
  | nil => simp [splitFirst]
  | cons c rest ih =>
    rw [splitFirst]
    cases before with
    | nil =>
      split
      · next h => simp [h]
      · next h => simp [h]
    | cons b before =>
      split
      · next h =>
        subst h
        simp only [Option.some.injEq, Prod.mk.injEq, List.cons_append, List.cons.injEq,
          List.mem_cons, not_or]
        constructor
        · rintro ⟨hnil, -⟩
          cases hnil
        · rintro ⟨⟨hc, -⟩, hne, -⟩
          exact absurd hc hne
      · next h =>
        simp only [Option.map_eq_some_iff, Prod.exists, Prod.mk.injEq, List.cons.injEq,
          List.cons_append, List.mem_cons, not_or]
        constructor
        · rintro ⟨x, y, hxy, ⟨rfl, rfl⟩, rfl⟩
          obtain ⟨rfl, hx⟩ := ih.1 hxy
          exact ⟨⟨rfl, rfl⟩, Ne.symm h, hx⟩
        · rintro ⟨⟨rfl, rfl⟩, -, hbefore⟩
          exact ⟨before, after, ih.2 ⟨rfl, hbefore⟩, ⟨rfl, rfl⟩, rfl⟩

theorem splitOnce_colon_eq_none_iff {s : String} : splitOnce ':' s = none ↔ ':' ∉ s.toList := by
  rw [splitOnce, Option.map_eq_none_iff, splitFirst_eq_none_iff]

theorem splitOnce_colon_eq_some_iff {s before after : String} :
    splitOnce ':' s = some (before, after) ↔
      s = before ++ ":" ++ after ∧ ':' ∉ before.toList := by
  rw [splitOnce, Option.map_eq_some_iff, Prod.exists]
  simp only [splitFirst_eq_some_iff, Prod.mk.injEq]
  constructor
  · rintro ⟨a, b, ⟨hs, ha⟩, rfl, rfl⟩
    rw [String.toList_ofList, ← String.toList_inj]
    exact ⟨by simp [hs], ha⟩
  · rintro ⟨rfl, hbefore⟩
    exact ⟨before.toList, after.toList, ⟨by simp, hbefore⟩, String.ofList_toList,
      String.ofList_toList⟩

end Text

/-! ## Exclude rules -/

namespace ExcludeRule

variable {s : String} {r : ExcludeRule}

/-- The texts that stand for no rule. -/
def IsRefused (s : String) : Prop :=
  s = "" ∨ ∃ before after, s = before ++ ":" ++ after ∧ ':' ∉ before.toList ∧
    (before = "" ∨ after = "")

theorem parse?_of_colon {before after : String} (h : ':' ∉ before.toList) :
    parse? (before ++ ":" ++ after) =
      if before = "" ∨ after = "" then none else some ⟨partOf before, partOf after⟩ := by
  rw [parse?, splitOnce_colon_eq_some_iff.2 ⟨rfl, h⟩]

theorem parse?_of_not_colon (h : ':' ∉ s.toList) :
    parse? s = if s = "" then none else some ⟨partOf s, none⟩ := by
  rw [parse?, splitOnce_colon_eq_none_iff.2 h]

/-- A text has a first colon, with something before it and after it, or none. -/
theorem exists_colon_or (s : String) : ':' ∉ s.toList ∨
    ∃ before after, s = before ++ ":" ++ after ∧ ':' ∉ before.toList := by
  cases h : splitOnce ':' s with
  | none => exact .inl (splitOnce_colon_eq_none_iff.1 h)
  | some p => exact .inr ⟨p.1, p.2, splitOnce_colon_eq_some_iff.1 h⟩

theorem parse?_eq_none_iff : parse? s = none ↔ IsRefused s := by
  rcases exists_colon_or s with h | ⟨before, after, rfl, h⟩
  · rw [parse?_of_not_colon h]
    constructor
    · intro hnone
      split at hnone
      · next hs => exact .inl hs
      · cases hnone
    · rintro (rfl | ⟨before, after, rfl, -, -⟩)
      · rfl
      · exact absurd (by simp) h
  · rw [parse?_of_colon h]
    constructor
    · intro hnone
      split at hnone
      · next hempty => exact .inr ⟨before, after, rfl, h, hempty⟩
      · cases hnone
    · rintro (hs | ⟨before', after', hs, h', hempty⟩)
      · have hlist := congrArg String.toList hs
        simp at hlist
      · have hsame := (splitOnce_colon_eq_some_iff.2 ⟨hs, h'⟩).symm.trans
          (splitOnce_colon_eq_some_iff.2 ⟨rfl, h⟩)
        obtain ⟨rfl, rfl⟩ := Prod.mk.inj (Option.some.inj hsame)
        rw [if_pos hempty]

theorem partOf_getD (s : String) : (partOf s).getD "*" = s := by
  unfold partOf
  split
  · next h => rw [h, Option.getD_none]
  · rfl

/-- What is written for a rule that is read: the text itself, with a `*` for the name after a bare
group. -/
theorem text_of_parse? (h : parse? s = some r) :
    r.text = if ':' ∈ s.toList then s else s ++ ":*" := by
  rcases exists_colon_or s with hs | ⟨before, after, rfl, hbefore⟩
  · rw [parse?_of_not_colon hs] at h
    split at h
    · cases h
    · obtain rfl := Option.some.inj h
      rw [if_neg hs, text, groupText, nameText, partOf_getD, Option.getD_none, String.append_assoc]
      rfl
  · rw [parse?_of_colon hbefore] at h
    split at h
    · cases h
    · obtain rfl := Option.some.inj h
      rw [if_pos (by simp), text, groupText, nameText, partOf_getD, partOf_getD]

theorem parse?_text_of_parse? (h : parse? s = some r) : parse? r.text = some r := by
  rw [text_of_parse? h]
  rcases exists_colon_or s with hs | ⟨before, after, rfl, hbefore⟩
  · rw [parse?_of_not_colon hs] at h
    split at h
    · cases h
    · next hempty =>
      obtain rfl := Option.some.inj h
      have hstar : s ++ ":*" = s ++ ":" ++ "*" := by rw [String.append_assoc]; rfl
      rw [if_neg hs, hstar, parse?_of_colon hs, if_neg (by simp [hempty])]
      rfl
  · rw [if_pos (by simp), h]

end ExcludeRule

/-- Modules, module versions and capabilities are read from texts of two, of three and of two or
three parts between colons, and from what is written for them. Exclude rules are read from all
texts but those that lack a group or a name, and from what is written for the rule that is read. -/
theorem parse?_inverse_text (s : String) :
    (((ModuleId.parse? s).isSome ↔ IsJoined 2 s) ∧
      ∀ m, ModuleId.parse? s = some m ↔ m.text = s ∧ IsPart m.group ∧ IsPart m.name) ∧
    (((Coordinates.parse? s).isSome ↔ IsJoined 3 s) ∧
      ∀ c, Coordinates.parse? s = some c ↔
        c.text = s ∧ IsPart c.group ∧ IsPart c.name ∧ IsPart c.version) ∧
    (((Capability.parse? s).isSome ↔ IsJoined 2 s ∨ IsJoined 3 s) ∧
      ∀ c, Capability.parse? s = some c ↔
        c.text = s ∧ IsPart c.group ∧ IsPart c.name ∧ ∀ v ∈ c.version, IsPart v) ∧
    (ExcludeRule.parse? s = none ↔ ExcludeRule.IsRefused s) ∧
    ∀ r, ExcludeRule.parse? s = some r →
      r.text = (if ':' ∈ s.toList then s else s ++ ":*") ∧
        ExcludeRule.parse? r.text = some r := by
  refine ⟨⟨ModuleId.isSome_parse?_iff, fun m => ?_⟩, ⟨Coordinates.isSome_parse?_iff, fun c => ?_⟩,
    ⟨Capability.isSome_parse?_iff, fun c => ?_⟩, ExcludeRule.parse?_eq_none_iff, fun r hr => ?_⟩
  · rw [eq_comm (a := m.text)]
    exact ModuleId.parse?_eq_some_iff
  · rw [eq_comm (a := c.text)]
    exact Coordinates.parse?_eq_some_iff
  · rw [eq_comm (a := c.text)]
    exact Capability.parse?_eq_some_iff
  · exact ⟨ExcludeRule.text_of_parse? hr, ExcludeRule.parse?_text_of_parse? hr⟩

/-- A rule for a bare group, whose written form has a `*`, and a rule whose name holds a colon. -/
theorem parse?_inverse_text_bareGroup :
    ExcludeRule.parse? "org" = some ⟨some "org", none⟩ ∧
      ExcludeRule.parse? (ExcludeRule.text ⟨some "org", none⟩) = some ⟨some "org", none⟩ ∧
      ExcludeRule.parse? "org:a:b" = some ⟨some "org", some "a:b"⟩ ∧
      ExcludeRule.parse? (ExcludeRule.text ⟨some "org", some "a:b"⟩) =
        some ⟨some "org", some "a:b"⟩ := by
  have hbare : ExcludeRule.parse? "org" = some ⟨some "org", none⟩ := by decide +kernel
  have hcolon : ExcludeRule.parse? "org:a:b" = some ⟨some "org", some "a:b"⟩ := by decide +kernel
  exact ⟨hbare, ((parse?_inverse_text "org").2.2.2.2 _ hbare).2, hcolon,
    ((parse?_inverse_text "org:a:b").2.2.2.2 _ hcolon).2⟩

end VariantGraph
