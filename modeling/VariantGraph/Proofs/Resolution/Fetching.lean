import VariantGraph.Proofs.Table
import VariantGraph.Proofs.Traversal
import VariantGraph.Repository
import VariantGraph.Resolution.Run

/-!
# What a cache holds

Whatever a resolution remembers is what its provider answered, with the rules on metadata applied
to module data.

Main statements: `Resolution.comesFrom_gather` for the answers of a batch,
`Resolution.Batch.comesFrom_store` for the cache that remembers them.
-/

namespace VariantGraph

/-- The data that a provider answers carries the coordinates that it was asked for. -/
def Provider.Faithful {ε : Type} (p : Provider ε) : Prop :=
  ∀ id data, p.fetch id = .ok (some data) → data.id = id

/-- The provider of some module data. -/
def Provider.ofData {ε : Type} (l : List ModuleData) : Provider ε where
  fetch id := .ok (l.find? fun d => d.id == id)
  versions m := .ok ((l.filter fun d => d.id.module == m).map fun d => d.id.version)

/-- A module version that publishes one variant. -/
def ModuleData.single (id : Coordinates) (dependencies : List Dependency)
    (constraints : List DependencyConstraint := []) : ModuleData where
  id := id
  variants :=
    [{ name := "api"
       attributes := Table.empty
       capabilities := []
       source := .here { dependencies := dependencies, constraints := constraints } }]

/-- A module version that publishes two variants, of which the second one provides a capability
besides the implicit one. -/
def ModuleData.double (id : Coordinates) (capability : CapabilityId)
    (first second : LocalContent) : ModuleData where
  id := id
  variants :=
    [{ name := "api"
       attributes := Table.ofList [("kind", Value.string "main")]
       capabilities := []
       source := .here first },
      { name := "alt"
        attributes := Table.ofList [("kind", Value.string "extra")]
        capabilities :=
          [Capability.implicit id.module id.version, ⟨capability.group, capability.name, none⟩]
        source := .here second }]

/-- A dependency that requires a version. -/
def Dependency.on (id : Coordinates) : Dependency where
  module := id.module
  constraint := VersionConstraint.require id.version

theorem Provider.faithful_ofData {ε : Type} (l : List ModuleData) :
    (Provider.ofData l : Provider ε).Faithful := by
  intro id data h
  have hfind := List.find?_some (Except.ok.inj h)
  simpa using hfind

theorem Repository.faithful_provider (r : Repository) : r.provider.Faithful := by
  intro id data h
  dsimp only [Repository.provider] at h
  exact Repository.fetch_id h

namespace Resolution

variable {ε : Type}

/-! ## Batches -/

/-- The results of a batch are what a provider answers. -/
structure Batch.ComesFrom (b : Batch ε) (p : Provider ε) : Prop where
  module : ∀ {id result}, b.modules.get? id = some result → result = p.fetch id
  listing : ∀ {m result}, b.listings.get? m = some result → result = p.versions m

theorem comesFrom_gather (p : Provider ε) (modules : List Coordinates) (listings : List ModuleId) :
    (gather (completions p modules listings)).ComesFrom p := by
  have hadd : ∀ c ∈ completions p modules listings, ∀ b : Batch ε, b.ComesFrom p →
      (b.add c).ComesFrom p := by
    intro c hc b hb
    rcases List.mem_append.1 hc with hc | hc
    · obtain ⟨id, -, rfl⟩ := List.mem_map.1 hc
      refine ⟨?_, hb.listing⟩
      intro id' result h
      rw [Batch.add, Table.get?_insert] at h
      by_cases hid : id' = id
      · rw [if_pos hid, Option.some.injEq] at h
        rw [hid, h]
      · rw [if_neg hid] at h
        exact hb.module h
    · obtain ⟨m, -, rfl⟩ := List.mem_map.1 hc
      refine ⟨hb.module, ?_⟩
      intro m' result h
      rw [Batch.add, Table.get?_insert] at h
      by_cases hm : m' = m
      · rw [if_pos hm, Option.some.injEq] at h
        rw [hm, h]
      · rw [if_neg hm] at h
        exact hb.listing h
  have hfold : ∀ (l : List (Completion ε)) (b : Batch ε),
      (∀ c ∈ l, c ∈ completions p modules listings) → b.ComesFrom p →
      (l.foldl Batch.add b).ComesFrom p := by
    intro l
    induction l with
    | nil => exact fun _ _ hb => hb
    | cons c rest ih =>
      intro b hl hb
      exact ih _ (fun x hx => hl x (List.mem_cons_of_mem _ hx))
        (hadd c (hl c List.mem_cons_self) b hb)
  have hempty : ({} : Batch ε).ComesFrom p := by
    constructor
    · intro id result h
      simp at h
    · intro m result h
      simp at h
  exact hfold (completions p modules listings) {} (fun _ hc => hc) hempty

/-! ## Caches -/

/-- Everything in a cache is what a provider answers, after the rules on metadata. -/
structure Cache.ComesFrom (c : Cache) (p : Provider ε) (rules : Rules) : Prop where
  module : ∀ {id found}, c.module? id = some found →
    ∃ fetched, p.fetch id = .ok fetched ∧ found = fetched.map rules.reviseMetadata
  listing : ∀ {m versions}, c.listing? m = some versions → p.versions m = .ok versions

theorem comesFrom_empty (p : Provider ε) (rules : Rules) : ({} : Cache).ComesFrom p rules where
  module h := by simp [Cache.module?] at h
  listing h := by simp [Cache.listing?] at h

/-- Storing a batch of answers keeps a cache to what the provider answers. -/
theorem Batch.comesFrom_store {b : Batch ε} {p : Provider ε} {rules : Rules} {c c' : Cache}
    (hb : b.ComesFrom p) (hc : c.ComesFrom p rules) (h : b.store rules c = .ok c') :
    c'.ComesFrom p rules := by
  unfold Batch.store at h
  cases hmodules : b.modules.toList.foldlM (storeModule rules) c with
  | error e =>
    rw [hmodules] at h
    cases h
  | ok c₁ =>
    rw [hmodules] at h
    have hc₁ : c₁.ComesFrom p rules := by
      refine foldlM_ok_induction (P := fun c => Cache.ComesFrom c p rules) ?_ hc hmodules
      rintro ⟨id, result⟩ hmem c₂ c₃ hc₂ hstore
      obtain rfl := hb.module (Table.mem_toList_iff.1 hmem)
      unfold storeModule at hstore
      cases hfetch : p.fetch id with
      | error e =>
        simp [hfetch, Except.map] at hstore
      | ok data =>
        simp only [hfetch, Except.map, Except.ok.injEq] at hstore
        subst hstore
        refine ⟨?_, hc₂.listing⟩
        intro id' found hfound
        rw [Cache.module?_insertModule] at hfound
        by_cases hid : id' = id
        · rw [if_pos hid, Option.some.injEq] at hfound
          exact ⟨data, hid ▸ hfetch, hfound.symm⟩
        · rw [if_neg hid] at hfound
          exact hc₂.module hfound
    have hlistings : b.listings.toList.foldlM storeListing c₁ = .ok c' := h
    refine foldlM_ok_induction (P := fun c => Cache.ComesFrom c p rules) ?_ hc₁ hlistings
    rintro ⟨m, result⟩ hmem c₂ c₃ hc₂ hstore
    obtain rfl := hb.listing (Table.mem_toList_iff.1 hmem)
    unfold storeListing at hstore
    cases hversions : p.versions m with
    | error e =>
      simp [hversions, Except.map] at hstore
    | ok versions =>
      simp only [hversions, Except.map, Except.ok.injEq] at hstore
      subst hstore
      refine ⟨hc₂.module, ?_⟩
      intro m' l hl
      rw [Cache.listing?_insertListing] at hl
      by_cases hm : m' = m
      · rw [if_pos hm, Option.some.injEq] at hl
        rw [hm, hversions, hl]
      · rw [if_neg hm] at hl
        exact hc₂.listing hl

/-- Module data in the cache of a faithful provider carries its coordinates, if the rules on metadata
keep them. -/
theorem Cache.ComesFrom.id_eq {c : Cache} {p : Provider ε} {rules : Rules}
    (h : c.ComesFrom p rules) (hp : p.Faithful) (hr : rules.KeepsIds) {id : Coordinates}
    {data : ModuleData} (hd : c.module? id = some (some data)) : data.id = id := by
  obtain ⟨fetched, hfetch, hfound⟩ := h.module hd
  obtain ⟨original, rfl, rfl⟩ := Option.map_eq_some_iff.1 hfound.symm
  rw [hr.id_reviseMetadata]
  exact hp id original hfetch

end Resolution

end VariantGraph
