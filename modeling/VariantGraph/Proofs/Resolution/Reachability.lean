import VariantGraph.Proofs.Graph.Path
import VariantGraph.Proofs.Resolution.Complete
import VariantGraph.Proofs.Resolution.History

/-!
# Which reached modules depend on nothing that is left

A module enters a walk because a dependency on it is recorded. When another variant is selected for
a node later in the walk, dependencies of the first one are withdrawn, but the modules that they
brought in stay. Such modules are stranded, with all that only they bring in.

Main statements: `Situation.rooted_iff_not_stranded` says that a reached module can be reached from
the root along recorded dependencies unless it is stranded, `Situation.Withdrawn.reselected` that
dependencies are withdrawn only by a change of variants, and `Resolver.resolve_reaches_iff` what
this means for the graph and the errors of a resolution.
-/

namespace VariantGraph

open Relation (ReflTransGen)

namespace Resolution.Situation

variable {s : Situation} {m n : ModuleId}

/-! ## Stranded modules -/

/-- Recorded dependencies lead from the root to a module when the walk ends. -/
def Rooted (s : Situation) (m : ModuleId) : Prop := ReflTransGen (s.traverse.Links false) s.root m

/-- A dependency is recorded during the walk, but not when it ends. -/
def Withdrawn (s : Situation) (m n : ModuleId) : Prop :=
  (∃ i ≤ s.visitBound, (s.stage i).Links false m n) ∧ ¬ s.traverse.Links false m n

/-- A module to which only dependencies have led that were withdrawn, or those of such modules. -/
inductive Stranded (s : Situation) : ModuleId → Prop
  | withdrawn {m n : ModuleId} (h : s.Withdrawn m n) (hn : ¬ s.Rooted n) : Stranded s n
  | next {m n : ModuleId} (h : Stranded s m) (hlink : s.traverse.Links false m n)
      (hn : ¬ s.Rooted n) : Stranded s n

theorem Stranded.not_rooted (h : s.Stranded m) : ¬ s.Rooted m := by
  cases h with
  | withdrawn _ hn => exact hn
  | next _ _ hn => exact hn

/-- The end of a recorded dependency of a module that is rooted or stranded is so itself. -/
theorem rooted_or_stranded_of_links (hm : s.Rooted m ∨ s.Stranded m)
    (hlink : s.traverse.Links false m n) : s.Rooted n ∨ s.Stranded n := by
  by_cases hn : s.Rooted n
  · exact .inl hn
  · rcases hm with hroot | hstranded
    · exact .inl (ReflTransGen.tail hroot hlink)
    · exact .inr (hstranded.next hlink hn)

/-- Every module that is reached up to some stage is rooted or stranded when the walk ends. -/
theorem rooted_or_stranded_of_mem_order (i : Nat) (hi : i ≤ s.visitBound)
    (hm : m ∈ (s.stage i).order) : s.Rooted m ∨ s.Stranded m := by
  induction i generalizing m with
  | zero => exact absurd hm List.not_mem_nil
  | succ i ih =>
    have hbefore : ∀ {x}, x ∈ (s.stage i).order → s.Rooted x ∨ s.Stranded x :=
      fun hx => ih (Nat.le_of_succ_le hi) hx
    by_cases hold : m ∈ (s.stage i).order
    · exact hbefore hold
    · obtain ⟨a, ha, hlink⟩ := exists_links_of_mem_order hm hold
      -- the dependency that has brought the module in may be withdrawn by the end
      by_cases hkept : s.traverse.Links false a m
      · refine rooted_or_stranded_of_links ?_ hkept
        rcases ha with rfl | ha
        · exact .inl .refl
        · exact hbefore ha
      · by_cases hroot : s.Rooted m
        · exact .inl hroot
        · exact .inr (.withdrawn ⟨⟨i + 1, hi, hlink⟩, hkept⟩ hroot)

/-- Recorded dependencies lead from the root to a reached module unless it is stranded. -/
theorem rooted_iff_not_stranded (hm : m ∈ s.traverse.order) : s.Rooted m ↔ ¬ s.Stranded m := by
  constructor
  · exact fun hroot hstranded => hstranded.not_rooted hroot
  · intro hnot
    rcases rooted_or_stranded_of_mem_order s.visitBound le_rfl hm with hroot | hstranded
    · exact hroot
    · exact absurd hstranded hnot

/-- A dependency is withdrawn only when something else is selected for the node that had it. -/
theorem Withdrawn.reselected (h : s.Withdrawn m n) : s.Reselected m := by
  obtain ⟨⟨i, hi, k, e, he, rfl, rfl, hk⟩, hgone⟩ := h
  obtain ⟨j, hj, ⟨st, d, hv, hmem⟩, -⟩ := get?_table_stage_iff.1 he
  by_contra hsame
  obtain ⟨st', hst', hd, e', hmem', htarget⟩ :=
    hv.exists_mem_written (hj.trans_le hi) (fun hout => hsame ⟨j, st, d, hout⟩) hmem
  exact hgone ⟨k, e', (upToDate_traverse hst').written hd hmem', rfl, htarget, hk⟩

/-- A withdrawn dependency has led to the root or to a module that stays reached. -/
theorem Withdrawn.target (h : s.Withdrawn m n) : n = s.root ∨ n ∈ s.traverse.order := by
  obtain ⟨⟨i, hi, hlink⟩, -⟩ := h
  obtain ⟨-, st, hst⟩ := (invariant_stage s i).wired.of_links hlink
  obtain ⟨st', hst', -⟩ := exists_growsTo_stage hi hst
  by_cases hroot : n = s.root
  · exact .inl hroot
  · exact .inr (s.shape_traverse.mem_order.2 ⟨hroot, st', hst'⟩)

/-- Behind a stranded module there is a withdrawn dependency on a module that no others lead to. -/
theorem Stranded.exists_withdrawn (h : s.Stranded m) : ∃ a b, s.Withdrawn a b ∧ ¬ s.Rooted b := by
  induction h with
  | withdrawn h hn => exact ⟨_, _, h, hn⟩
  | next _ _ _ ih => exact ih

/-- All reached modules are rooted if those are on which a dependency was withdrawn. -/
theorem forall_rooted_iff : (∀ m ∈ s.traverse.order, s.Rooted m) ↔
    ∀ a b, s.Withdrawn a b → s.Rooted b := by
  constructor
  · intro h a b hgone
    rcases hgone.target with rfl | hb
    · exact .refl
    · exact h b hb
  · intro h m hm
    rw [rooted_iff_not_stranded hm]
    intro hstranded
    obtain ⟨a, b, hgone, hnot⟩ := hstranded.exists_withdrawn
    exact hnot (h a b hgone)

/-! ## The graph of a complete pass -/

/-- In the graph of a complete pass the same modules can be reached from the root. -/
theorem Complete.reaches_graph_iff (h : s.Complete) :
    ReflTransGen (s.graph s.traverse).DependsOn s.root m ↔ s.Rooted m := by
  have hlinks : ∀ {a b}, (s.graph s.traverse).DependsOn a b ↔
      a ∈ (s.graph s.traverse).modules ∧ b ∈ (s.graph s.traverse).modules ∧
        s.traverse.Links false a b :=
    fun {a b} => Graph.dependsOn_iff_links.trans (links_graph s.shape_traverse s.wired_traverse)
  have hnode : ∀ {a}, (∃ t, s.traverse.nodes.get? a = some t) →
      a ∈ (s.graph s.traverse).modules := by
    intro a ha
    rw [h.mem_modules_graph]
    by_cases hroot : a = s.root
    · exact .inl hroot
    · exact .inr (s.shape_traverse.mem_order.2 ⟨hroot, ha⟩)
  constructor
  · exact ReflTransGen.mono (fun a b hab => (hlinks.1 hab).2.2) _ _
  · refine ReflTransGen.mono ?_ _ _
    intro a b hab
    obtain ⟨ha, hb⟩ := s.wired_traverse.of_links hab
    exact hlinks.2 ⟨hnode ha, hnode hb, hab⟩

theorem hasSources_graph (s : Situation) : (s.graph s.traverse).HasSources := by
  intro e he
  have hmodules : ∀ (g : Graph) (l : List Graph.Edge),
      (∀ e ∈ g.edges, e.source ∈ g.modules) →
      ∀ e ∈ (l.foldl Graph.addEdge g).edges, e.source ∈ (l.foldl Graph.addEdge g).modules := by
    intro g l hg e he
    rw [Graph.modules_foldl_addEdge]
    rcases Graph.mem_edges_foldl_addEdge he with hold | ⟨-, hs, -⟩
    · exact hg e hold
    · exact hs
  refine hmodules _ _ ?_ e he
  rw [foldl_addNode_eq s.shape_traverse]
  intro e' he'
  exact absurd he' List.not_mem_nil

end Resolution.Situation

/-! ## The module that an error names -/

/-- The module that an error of a stable pass names. -/
def ResolutionError.module? {ε : Type} : ResolutionError ε → Option ModuleId
  | .version e => some e.module
  | .selection e => some e.module.module
  | .moduleNotFound id _ => some id.module
  | _ => none

namespace Resolution

variable {ε : Type}

/-- A failure at a module names it, a failed selection when the cached data carry their coordinates.
-/
theorem Situation.module?_of_failureAt? {s : Situation} {m : ModuleId} {e : ResolutionError ε}
    (hid : ∀ e', e = .selection e' →
      ∀ {id data}, s.cache.module? id = some (some data) → data.id = id)
    (hm : m ∈ s.traverse.order) (h : s.failureAt? s.traverse m = some e) : e.module? = some m := by
  obtain ⟨-, st, hst⟩ := s.shape_traverse.mem_order.1 hm
  have hout := (Situation.upToDate_traverse hst).outcome
  unfold failureAt? at h
  split at h
  · next e' hverdict =>
    obtain rfl := Option.some.inj h
    exact congrArg some (VersionChoice.module_of_select hverdict)
  · split at h
    · next e' hfailed =>
      obtain rfl := Option.some.inj h
      rw [hfailed] at hout
      obtain ⟨v, -, ⟨-, hmissing⟩ | ⟨data, hdata, hselected⟩⟩ :=
        Situation.exists_of_outcome?_eq_some hout.symm
      · cases hmissing
      · unfold outcomeOf at hselected
        split at hselected
        · cases hselected
        · next e'' hsel =>
          obtain rfl := Outcome.failed.inj hselected
          have hmodule := Selection.module_of_selectShared hsel
          rw [hid _ rfl hdata] at hmodule
          show some e'.module.module = some m
          rw [hmodule, Coordinates.module_withVersion]
    · next id hmissing =>
      obtain rfl := Option.some.inj h
      rw [hmissing] at hout
      obtain ⟨v, -, ⟨-, hfound⟩ | ⟨data, -, hselected⟩⟩ :=
        Situation.exists_of_outcome?_eq_some hout.symm
      · obtain rfl := Outcome.missing.inj hfound
        rfl
      · unfold outcomeOf at hselected
        split at hselected <;> cases hselected
    · simp at h

/-- A capability that cannot be settled names no single module. -/
theorem module?_of_settleCapability {rules : Rules} {c : CapabilityId} {providers : Providers}
    {e : ResolutionError ε} (h : settleCapability rules c providers = .error e) :
    e.module? = none := by
  unfold settleCapability at h
  split at h
  · cases h
  · split at h
    · obtain rfl := Except.error.inj h
      rfl
    · cases h

/-- A conflict of capabilities names no single module. -/
theorem module?_of_capabilityRedirects {rules : Rules} {w : Walk} {e : ResolutionError ε}
    (h : capabilityRedirects rules w = .error e) : e.module? = none := by
  unfold capabilityRedirects at h
  cases hl : (w.providers.toList.mapM fun c => settleCapability rules c.1 c.2 :
      Except (ResolutionError ε) _) with
  | error e' =>
    rw [hl] at h
    obtain rfl : e' = e := Except.error.inj h
    obtain ⟨c, -, hfail⟩ := exists_of_mapM_eq_error hl
    exact module?_of_settleCapability hfail
  | ok redirects =>
    rw [hl] at h
    cases h

end Resolution

/-! ## Resolutions -/

namespace Resolver

open Resolution

variable {ε : Type} {r : Resolver ε} {request : ResolveRequest}

/-- An error that names a module comes from a failure in a stable last pass. -/
theorem exists_lastPass_of_error {e : ResolutionError ε} {m : ModuleId}
    (h : r.resolve request = .error e) (hm : e.module? = some m) :
    ∃ k p, LastPass r request k p (.error e) ∧
      (r.situation request p).isStable (r.situation request p).traverse = true ∧
      ∃ x ∈ (r.situation request p).traverse.order,
        (r.situation request p).failureAt? (r.situation request p).traverse x = some e := by
  rcases r.resolve_cases request with hc | hc | ⟨k, p, hlast⟩
  · rw [h, Except.error.injEq] at hc
    subst hc
    cases hm
  · rw [h, Except.error.injEq] at hc
    subst hc
    cases hm
  · rw [h] at hlast
    refine ⟨k, p, hlast, ?_⟩
    rcases pass_error hlast.result with ⟨e', rfl⟩ | ⟨hstable, hfail | ⟨-, hconflict⟩⟩
    · cases hm
    · exact ⟨hstable, List.exists_of_findSome?_eq_some hfail⟩
    · rw [module?_of_capabilityRedirects hconflict] at hm
      cases hm

/-- A node of the graph can be reached from the root, and a path to it is found, unless it is
stranded in the last pass. So can the module that an error is about, which is the one that it names
unless an unfaithful provider has answered data of another one or a rule has changed their
coordinates. All modules that a pass reaches can be reached from the root if those can on which a
dependency was withdrawn, and dependencies are withdrawn only where the variant changes. -/
theorem resolve_reaches_iff (r : Resolver ε) (request : ResolveRequest) :
    (∀ res, r.resolve request = .ok res → ∃ k p, LastPass r request k p (.ok res) ∧
      ∀ n ∈ res.graph.nodes,
        (ReflTransGen res.graph.DependsOn res.graph.root.module n.module ↔
          ¬ (r.situation request p).Stranded n.module) ∧
        ∀ key, res.graph.nodeOfKey? key = some n →
          ((res.graph.findPath? key).isSome ↔ ¬ (r.situation request p).Stranded n.module)) ∧
    (∀ e m, r.resolve request = .error e → e.module? = some m →
      ∃ k p, LastPass r request k p (.error e) ∧
        (r.situation request p).isStable (r.situation request p).traverse = true ∧ ∃ x,
          (r.situation request p).failureAt? (r.situation request p).traverse x = some e ∧
            (((∃ e', e = .selection e') → r.provider.Faithful ∧ r.rules.KeepsIds) → x = m) ∧
              ((r.situation request p).Rooted x ↔ ¬ (r.situation request p).Stranded x)) ∧
    ∀ p, ((∀ m ∈ (r.situation request p).traverse.order, (r.situation request p).Rooted m) ↔
        ∀ a b, (r.situation request p).Withdrawn a b → (r.situation request p).Rooted b) ∧
      ∀ a b, (r.situation request p).Withdrawn a b → (r.situation request p).Reselected a := by
  refine ⟨?_, ?_, fun p => ⟨Situation.forall_rooted_iff, fun a b h => h.reselected⟩⟩
  · intro res h
    obtain ⟨k, p, hlast⟩ := exists_lastPass h
    obtain ⟨hcomplete, hgraph⟩ := Situation.complete_of_lastPass hlast
    refine ⟨k, p, hlast, ?_⟩
    generalize r.situation request p = s at hcomplete hgraph
    rw [hgraph]
    intro n hn
    have hroot : (s.graph s.traverse).root.module = s.root := by
      rw [Situation.root_graph s.shape_traverse]
      rfl
    have horder : n.module ∈ s.traverse.order := by
      have hmodule : n.module ∈ (s.graph s.traverse).nodes.map Graph.Node.module :=
        List.mem_map_of_mem hn
      rw [Situation.nodes_graph s.shape_traverse, List.map_map] at hmodule
      exact s.traverse.map_fst_selectedNodes_sublist.subset hmodule
    have hreach : ReflTransGen (s.graph s.traverse).DependsOn (s.graph s.traverse).root.module
        n.module ↔ ¬ s.Stranded n.module := by
      rw [hroot, hcomplete.reaches_graph_iff, Situation.rooted_iff_not_stranded horder]
    refine ⟨hreach, ?_⟩
    intro key hkey
    rw [Graph.isSome_findPath?_iff s.hasSources_graph hkey, hreach]
  · intro e m h hm
    obtain ⟨k, p, hlast, hstable, x, hx, hfailure⟩ := exists_lastPass_of_error h hm
    refine ⟨k, p, hlast, hstable, x, hfailure, ?_, Situation.rooted_iff_not_stranded hx⟩
    intro hp
    have hnamed : e.module? = some x :=
      Situation.module?_of_failureAt?
        (fun e' he _ _ hd =>
          hlast.reaches.comesFrom.id_eq (hp ⟨e', he⟩).1 (hp ⟨e', he⟩).2 hd) hx hfailure
    rw [hm, Option.some.injEq] at hnamed
    exact hnamed.symm

/-- The first variant of `a` brings in `c`, but `b` needs the other one. -/
def reselectingResolver : Resolver Empty where
  provider := Provider.ofData
    [.double ⟨"org", "a", "1.0"⟩ ⟨"org", "extra"⟩ { dependencies := [.on ⟨"org", "c", "1.0"⟩] } {},
      .single ⟨"org", "b", "1.0"⟩
        [{ Dependency.on ⟨"org", "a", "1.0"⟩ with capabilities := [⟨"org", "extra"⟩] }],
      .single ⟨"org", "c", "1.0"⟩ []]
  schema := Schema.withDisambiguation Table.empty "kind" (.prefer (.string "main"))
  rules := ({} : Rules).force ⟨"org", "c"⟩ "1.0"

def reselectingRequest : ResolveRequest where
  root := ⟨"org", "root", "1.0"⟩
  dependencies := [.on ⟨"org", "a", "1.0"⟩, .on ⟨"org", "b", "1.0"⟩]

/-- A stranded module is a node of the graph, because its version is forced. -/
theorem resolve_reaches_iff_reselecting :
    ∃ res, reselectingResolver.resolve reselectingRequest = .ok res ∧
      ∃ k p, LastPass reselectingResolver reselectingRequest k p (.ok res) ∧
        ∃ n ∈ res.graph.nodes,
          ¬ ReflTransGen res.graph.DependsOn res.graph.root.module n.module ∧
            (reselectingResolver.situation reselectingRequest p).Stranded n.module := by
  have hgraph : ((reselectingResolver.resolve reselectingRequest).toOption.any fun res =>
      res.graph.nodes.any (fun n => n.module == ⟨"org", "c"⟩) &&
        res.graph.edges.all (fun e => e.target != ⟨"org", "c"⟩) &&
          res.graph.root.module == ⟨"org", "root"⟩) = true := by
    decide +kernel
  cases h : reselectingResolver.resolve reselectingRequest with
  | error e => simp [h, Except.toOption] at hgraph
  | ok res =>
    simp only [h, Except.toOption, Option.any_some, Bool.and_eq_true, List.any_eq_true,
      List.all_eq_true, beq_iff_eq, bne_iff_ne] at hgraph
    obtain ⟨⟨⟨n, hn, hname⟩, hedges⟩, hroot⟩ := hgraph
    obtain ⟨k, p, hlast, hreach⟩ :=
      (resolve_reaches_iff reselectingResolver reselectingRequest).1 res h
    have hnot : ¬ ReflTransGen res.graph.DependsOn res.graph.root.module n.module := by
      intro hpath
      rcases ReflTransGen.cases_tail hpath with heq | ⟨a, -, hlink⟩
      · rw [hname, hroot] at heq
        simp at heq
      · obtain ⟨e, he, -, htarget, -⟩ := Graph.dependsOn_iff_links.1 hlink
        exact hedges e he (htarget.trans hname)
    refine ⟨res, rfl, k, p, hlast, n, hn, hnot, ?_⟩
    by_contra hstranded
    exact hnot ((hreach n hn).1.2 hstranded)

end Resolver

end VariantGraph
