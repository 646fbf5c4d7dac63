import VariantGraph.Proofs.Resolution.Nodes

/-!
# No capability is provided twice

A stable pass ends a resolution only when no capability has several providers: a rule would redirect
the others, and without a rule there is an error. The providers are collected from all capabilities
of all selected nodes, so two nodes of a graph have no capability in common.

Main statements: `Walk.lists_providers_iff` says who is collected,
`Resolver.resolve_providers_unique` that nobody is collected besides another one.
-/

namespace VariantGraph

open Resolution

/-- The capabilities that a selection of a module provides: those that the variant declares, and the
one of the module itself when it declares none or there is no variant. -/
def Selection.capabilityIds (m : ModuleId) : Selection → List CapabilityId
  | .variant v =>
    if v.capabilities = [] then [CapabilityId.ofModule m] else v.capabilities.map Capability.id
  | .artifacts _ => [CapabilityId.ofModule m]

namespace Resolution

/-! ## The providers of a walk -/

namespace Walk

/-- A table of providers has a module among those of a capability. -/
def Lists (t : Table CapabilityId Providers) (c : CapabilityId) (m : ModuleId) : Prop :=
  ∃ providers, t.get? c = some providers ∧ m ∈ providers.keys

variable {t : Table CapabilityId Providers} {c : CapabilityId} {m : ModuleId}

theorem lists_addProvider_iff {m' : ModuleId} {version : String} {c' : CapabilityId} :
    Lists (addProvider t m' version c') c m ↔ (c = c' ∧ m = m') ∨ Lists t c m := by
  unfold Lists addProvider
  rw [Table.get?_insert]
  by_cases hc : c = c'
  · subst hc
    rw [if_pos rfl]
    simp only [Option.some.injEq, exists_eq_left', Table.mem_keys_iff, Table.get?_insert]
    by_cases hm : m = m'
    · simp [hm]
    · cases hold : t.get? c with
      | none => simp [hm]
      | some providers => simp [hm]
  · simp [hc]

theorem lists_foldl_addProvider_iff {m' : ModuleId} {version : String} {l : List CapabilityId} :
    Lists (l.foldl (fun t c => addProvider t m' version c) t) c m ↔
      (c ∈ l ∧ m = m') ∨ Lists t c m := by
  induction l generalizing t with
  | nil => simp
  | cons a rest ih =>
    rw [List.foldl_cons, ih, lists_addProvider_iff, List.mem_cons, or_and_right, or_assoc,
      or_left_comm]

theorem lists_foldl_nodes_iff {l : List (ModuleId × SelectedNode)} :
    Lists (l.foldl (fun t e => (e.2.capabilities.map Capability.id).foldl
        (fun t c => addProvider t e.1 e.2.version c) t) t) c m ↔
      (∃ node, (m, node) ∈ l ∧ c ∈ node.capabilities.map Capability.id) ∨ Lists t c m := by
  induction l generalizing t with
  | nil => simp
  | cons e rest ih =>
    obtain ⟨m', node'⟩ := e
    rw [List.foldl_cons, ih, lists_foldl_addProvider_iff]
    constructor
    · rintro (⟨node, hmem, hc⟩ | ⟨hc, rfl⟩ | hold)
      · exact .inl ⟨node, List.mem_cons_of_mem _ hmem, hc⟩
      · exact .inl ⟨node', List.mem_cons_self, hc⟩
      · exact .inr hold
    · rintro (⟨node, hmem, hc⟩ | hold)
      · rcases List.mem_cons.1 hmem with heq | hmem
        · obtain ⟨rfl, rfl⟩ := Prod.mk.inj heq
          exact .inr (.inl ⟨hc, rfl⟩)
        · exact .inl ⟨node, hmem, hc⟩
      · exact .inr (.inr hold)

/-- The providers of a capability are the modules of the selected nodes that have it. -/
theorem lists_providers_iff {w : Walk} : Lists w.providers c m ↔
    ∃ node, (m, node) ∈ w.selectedNodes ∧ c ∈ node.capabilities.map Capability.id := by
  have hempty : ¬ Lists (Table.empty : Table CapabilityId Providers) c m := by
    rintro ⟨providers, h, -⟩
    simp at h
  rw [providers, lists_foldl_nodes_iff, or_iff_left hempty]

end Walk

/-! ## Settled capabilities -/

variable {ε : Type} {rules : Rules}

/-- Where nothing is redirected there is at most one provider. -/
theorem size_lt_two_of_settleCapability {c : CapabilityId} {providers : Providers}
    (h : (settleCapability rules c providers : Except (ResolutionError ε) _) = .ok []) :
    providers.size < 2 := by
  unfold settleCapability at h
  split at h
  · assumption
  · split at h
    · cases h
    · next rule _ =>
      -- all providers are the preferred one
      have hnil := List.map_eq_nil_iff.1 (Except.ok.inj h)
      have hkeys : ∀ m ∈ providers.keys, m ∈ [rule.prefer] := by
        intro m hm
        have hkept := List.filter_eq_nil_iff.1 hnil m hm
        simpa using hkept
      exact Nat.lt_succ_of_le (Table.size_le_of_keys_subset hkeys)

/-- A walk without redirects has at most one provider of each capability. -/
theorem size_lt_two_of_capabilityRedirects {w : Walk} {redirects : Table ModuleId Redirect}
    (h : capabilityRedirects (ε := ε) rules w = .ok redirects) (hempty : redirects.isEmpty = true)
    {c : CapabilityId} {providers : Providers} (hproviders : w.providers.get? c = some providers) :
    providers.size < 2 := by
  unfold capabilityRedirects at h
  cases hl : (w.providers.toList.mapM fun e => settleCapability rules e.1 e.2 :
      Except (ResolutionError ε) _) with
  | error e =>
    rw [hl] at h
    cases h
  | ok l =>
    rw [hl] at h
    obtain rfl : Table.ofList l.flatten = redirects := Except.ok.inj h
    rw [Table.isEmpty_ofList, List.isEmpty_iff, List.flatten_eq_nil_iff] at hempty
    obtain ⟨settled, hsettled, hok⟩ := exists_of_mapM_eq_ok hl _ (Table.mem_toList_iff.2 hproviders)
    rw [hempty settled hsettled] at hok
    exact size_lt_two_of_settleCapability hok

end Resolution

namespace Resolver

variable {ε : Type} {r : Resolver ε} {request : ResolveRequest}

/-- A node provides what was selected for it provides, by itself or by its declarations. -/
theorem RecordedFrom.provides_iff_mem_capabilityIds {s : Situation} {n : Graph.Node}
    {data : ModuleData} {selection : Selection} (h : RecordedFrom r s n data selection)
    {c : CapabilityId} :
    n.Provides c ↔ c ∈ selection.capabilityIds (r.rules.reviseMetadata data).id.module := by
  rw [h.provides_iff]
  cases selection with
  | artifacts files => rfl
  | variant v =>
    rw [SelectedNode.ofSelection, ModuleData.provided, Variant.provided, Capability.effective,
      Selection.capabilityIds]
    cases v.capabilities with
    | nil => rfl
    | cons a rest => rfl

/-- Two nodes of the graph of a resolution that succeeds have no capability in common. The
capabilities of a node are those of its selection, with the one of its module, as its data name it
after the rules on metadata, where the selection declares none. -/
theorem resolve_providers_unique {res : Resolution} (h : r.resolve request = .ok res) :
    ∃ k p, LastPass r request k p (.ok res) ∧
      (∀ n ∈ res.graph.nodes, ∃ data selection,
        RecordedFrom r (r.situation request p) n data selection ∧
          ∀ c, n.Provides c ↔
            c ∈ selection.capabilityIds (r.rules.reviseMetadata data).id.module) ∧
      res.graph.nodes.Pairwise fun n n' => ∀ c, ¬ (n.Provides c ∧ n'.Provides c) := by
  obtain ⟨k, p, hlast⟩ := exists_lastPass h
  obtain ⟨hcomplete, hgraph⟩ := Situation.complete_of_lastPass hlast
  obtain ⟨-, -, ⟨redirects, hredirects, hempty⟩, -⟩ := pass_ok hlast.result
  have hshape := (r.situation request p).shape_traverse
  refine ⟨k, p, hlast, ?_, ?_⟩
  · intro n hn
    rw [hgraph, Situation.nodes_graph hshape] at hn
    obtain ⟨⟨m, node⟩, he, rfl⟩ := List.mem_map.1 hn
    obtain ⟨st, v, data, hsettled⟩ := hcomplete.settled_of_mem_selectedNodes he
    obtain ⟨original, selection, hrecorded, -⟩ :=
      exists_recordedFrom hlast.reaches.comesFrom hsettled
    exact ⟨original, selection, hrecorded, fun c => hrecorded.provides_iff_mem_capabilityIds⟩
  · rw [hgraph, Situation.nodes_graph hshape, List.pairwise_map]
    have hnodup := hshape.nodup.sublist
      (r.situation request p).traverse.map_fst_selectedNodes_sublist
    refine (List.pairwise_map.1 hnodup).imp_of_mem ?_
    rintro ⟨m, node⟩ ⟨m', node'⟩ he he' hne c ⟨hc, hc'⟩
    -- both would be collected as providers
    obtain ⟨providers, hproviders, hm⟩ :=
      Walk.lists_providers_iff.2 ⟨node, he, List.mem_map.2 hc⟩
    obtain ⟨providers', hproviders', hm'⟩ :=
      Walk.lists_providers_iff.2 ⟨node', he', List.mem_map.2 hc'⟩
    obtain rfl := Option.some.inj (hproviders.symm.trans hproviders')
    have hsize := size_lt_two_of_capabilityRedirects hredirects hempty hproviders
    exact hne (Table.eq_of_size_lt_two hsize hm hm')

/-- Two modules provide one capability, and a rule prefers the second one. -/
def rivalsResolver : Resolver Empty where
  provider := Provider.ofData
    [.double ⟨"org", "a", "1.0"⟩ ⟨"org", "shared"⟩ {} {},
      .double ⟨"org", "b", "1.0"⟩ ⟨"org", "shared"⟩ {} { dependencies := [.on ⟨"org", "c", "1.0"⟩] },
      .single ⟨"org", "c", "1.0"⟩ []]
  rules := { capabilityRules := [{ capability := ⟨"org", "shared"⟩, prefer := ⟨"org", "b"⟩ }] }

def rivalsRequest : ResolveRequest where
  root := ⟨"org", "root", "1.0"⟩
  dependencies :=
    [{ Dependency.on ⟨"org", "a", "1.0"⟩ with capabilities := [⟨"org", "shared"⟩] },
      { Dependency.on ⟨"org", "b", "1.0"⟩ with capabilities := [⟨"org", "shared"⟩] }]

theorem resolve_providers_unique_rivals :
    ∃ res, rivalsResolver.resolve rivalsRequest = .ok res ∧
      ∃ k p, LastPass rivalsResolver rivalsRequest k p (.ok res) ∧
        (∀ n ∈ res.graph.nodes, ∃ data selection,
          RecordedFrom rivalsResolver (rivalsResolver.situation rivalsRequest p) n data selection ∧
            ∀ c, n.Provides c ↔
              c ∈ selection.capabilityIds (rivalsResolver.rules.reviseMetadata data).id.module) ∧
        res.graph.nodes.Pairwise fun n n' => ∀ c, ¬ (n.Provides c ∧ n'.Provides c) := by
  have hok : (rivalsResolver.resolve rivalsRequest).toOption.isSome = true := by decide +kernel
  cases h : rivalsResolver.resolve rivalsRequest with
  | error e => simp [h, Except.toOption] at hok
  | ok res => exact ⟨res, rfl, resolve_providers_unique h⟩

end Resolver

end VariantGraph
