import VariantGraph.Variant

/-!
# Resolution rules

Rules change what dependencies ask for. A request is first changed by the first substitution that
applies to it, then the first version rule that applies to what it has become may pin its version.
Rules on metadata rewrite module data before a variant of it is selected. Such rules are functions
from outside; there are ready-made ones for a module. Forced versions and capability rules are
consulted by the resolution itself.

Main statements: `Rules.pin?_of_versionRules` says that ready-made version rules pin all requests
for a module alike, `Rules.KeepsIds.id_reviseMetadata` that rules which keep the coordinates of
module data do so together.
-/

namespace VariantGraph

/-- What a rule changes about a request. -/
structure RuleOverride where
  target : Option ModuleId := none
  version : Option String := none
  description : String
deriving DecidableEq

/-- A rule on requests: what it changes about the request for a module, if it applies. -/
abbrev DependencyRule := ModuleId → VersionConstraint → Option RuleOverride

/-- A rule on metadata: what it makes of the data of a module version. -/
abbrev MetadataRule := ModuleData → ModuleData

/-- Replaces every request for one module by a request for another. -/
structure Substitution where
  replaced : ModuleId
  replacement : ModuleId
  /-- The version asked of the replacement; without one the request keeps its constraint. -/
  version : Option String := none
  reason : Option String := none
deriving DecidableEq

namespace Substitution

/-- What a substitution is called when no reason is given. -/
def description (s : Substitution) : String :=
  s.reason.getD ("substituted " ++ s.replaced.text ++ " with " ++
    match s.version with
    | some v => (s.replacement.withVersion v).text
    | none => s.replacement.text)

/-- The rule that a substitution stands for. -/
def rule (s : Substitution) : DependencyRule := fun m _ =>
  if m = s.replaced then
    some { target := some s.replacement, version := s.version, description := s.description }
  else none

end Substitution

/-- Pins the version of a module, whatever is requested. -/
structure VersionRule where
  module : ModuleId
  version : String
  reason : Option String := none
deriving DecidableEq

namespace VersionRule

/-- What a version rule is called when no reason is given. -/
def description (r : VersionRule) : String :=
  r.reason.getD (r.module.text ++ " pinned to " ++ r.version)

/-- The rule on requests that a version rule stands for. -/
def rule (r : VersionRule) : DependencyRule := fun m _ =>
  if m = r.module then some { version := some r.version, description := r.description } else none

end VersionRule

/-- Chooses one module where several provide a capability. -/
structure CapabilityRule where
  capability : CapabilityId
  prefer : ModuleId
  reason : Option String := none
deriving DecidableEq

namespace CapabilityRule

/-- What a capability rule is called when no reason is given. -/
def description (r : CapabilityRule) : String :=
  r.reason.getD (r.prefer.text ++ " selected for capability " ++ r.capability.text)

end CapabilityRule

/-- Makes all dependencies of a module bind their subgraphs. -/
structure SubgraphRule where
  module : ModuleId
deriving DecidableEq

namespace SubgraphRule

/-- A dependency that binds its subgraph. -/
def bindDependency (d : Dependency) : Dependency :=
  { d with constraint := { d.constraint with forSubgraph := true } }

/-- A variant whose own dependencies all bind their subgraphs. -/
def bindVariant (v : Variant) : Variant :=
  match v.source with
  | .here content =>
    { v with
      source := .here { content with dependencies := content.dependencies.map bindDependency } }
  | .availableAt _ => v

/-- The rule on metadata that a subgraph rule stands for. -/
def rule (r : SubgraphRule) : MetadataRule := fun d =>
  if d.id.module = r.module then { d with variants := d.variants.map bindVariant } else d

@[simp] theorem id_rule (r : SubgraphRule) (d : ModuleData) : (r.rule d).id = d.id := by
  unfold rule
  split <;> rfl

end SubgraphRule

/-- A version chosen by a rule, with the rule's description. -/
structure Pin where
  version : String
  description : String
deriving DecidableEq, Repr

/-- A request after the rules. -/
structure RuledRequest where
  module : ModuleId
  constraint : VersionConstraint
  /-- The description of the rule that changed the module. -/
  substitution : Option String := none
  pinned : Option Pin := none
deriving DecidableEq

/-- The rules of a resolution. -/
structure Rules where
  forced : Table ModuleId String := Table.empty
  substitutions : List DependencyRule := []
  versionRules : List DependencyRule := []
  capabilityRules : List CapabilityRule := []
  metadataRules : List MetadataRule := []

namespace Rules

/-- Forces the version of a module; a later call for the module replaces an earlier one. -/
def force (r : Rules) (m : ModuleId) (version : String) : Rules :=
  { r with forced := r.forced.insert m version }

/-- The version that a module is forced to. -/
def forcedVersion? (r : Rules) (m : ModuleId) : Option String := r.forced.get? m

/-- The rule for a capability. -/
def capabilityRule? (r : Rules) (c : CapabilityId) : Option CapabilityRule :=
  r.capabilityRules.find? fun rule => rule.capability == c

/-! ## Requests -/

/-- What a substitution makes of a request. A version that it asks for takes the place of the whole
constraint, except that the request still binds its subgraph if it did. -/
def substituted (o : RuleOverride) (m : ModuleId) (c : VersionConstraint) : RuledRequest where
  module := o.target.getD m
  constraint :=
    match o.version with
    | some v => { VersionConstraint.require v with forSubgraph := c.forSubgraph }
    | none => c
  substitution := some o.description

/-- A request after the substitutions. -/
def substitute (r : Rules) (m : ModuleId) (c : VersionConstraint) : RuledRequest :=
  match r.substitutions.findSome? fun rule => rule m c with
  | some o => substituted o m c
  | none => { module := m, constraint := c }

/-- The version that the rules pin a request to: that of the first rule that applies, if any. -/
def pin? (r : Rules) (m : ModuleId) (c : VersionConstraint) : Option Pin :=
  (r.versionRules.findSome? fun rule => rule m c).bind fun o =>
    o.version.map fun v => ⟨v, o.description⟩

/-- A request after substitutions and version rules. -/
def apply (r : Rules) (m : ModuleId) (c : VersionConstraint) : RuledRequest :=
  let s := r.substitute m c
  { s with pinned := r.pin? s.module s.constraint }

/-- Of ready-made version rules the first one for the module applies. -/
theorem findSome?_versionRules (l : List VersionRule) (m : ModuleId) (c : VersionConstraint) :
    ((l.map VersionRule.rule).findSome? fun rule => rule m c) =
      (l.find? fun rule => m == rule.module).map fun rule =>
        { version := some rule.version, description := rule.description } := by
  induction l with
  | nil => rfl
  | cons rule rest ih =>
    rw [List.map_cons, List.findSome?_cons, List.find?_cons, VersionRule.rule]
    by_cases hm : m = rule.module
    · simp [hm]
    · rw [if_neg hm, beq_false_of_ne hm]
      exact ih

/-- Ready-made version rules pin all requests for a module alike. -/
theorem pin?_of_versionRules {r : Rules} {l : List VersionRule}
    (h : r.versionRules = l.map VersionRule.rule) (m : ModuleId) (c : VersionConstraint) :
    r.pin? m c = (l.find? fun rule => m == rule.module).map fun rule =>
      ⟨rule.version, rule.description⟩ := by
  rw [pin?, h, findSome?_versionRules]
  cases l.find? fun rule => m == rule.module <;> rfl

/-! ## Metadata -/

/-- Module data as the rules on metadata leave them. -/
def reviseMetadata (r : Rules) (d : ModuleData) : ModuleData :=
  r.metadataRules.foldl (fun d rule => rule d) d

/-- No rule on metadata changes the coordinates of module data. -/
def KeepsIds (r : Rules) : Prop := ∀ rule ∈ r.metadataRules, ∀ d, (rule d).id = d.id

theorem KeepsIds.id_reviseMetadata {r : Rules} (h : r.KeepsIds) (d : ModuleData) :
    (r.reviseMetadata d).id = d.id := by
  refine List.foldlRecOn r.metadataRules (fun d rule => rule d) (motive := fun d' => d'.id = d.id)
    rfl ?_
  intro d' hd rule hrule
  rw [h rule hrule, hd]

end Rules

end VariantGraph
