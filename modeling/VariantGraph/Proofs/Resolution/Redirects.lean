import VariantGraph.Proofs.Resolution.Capabilities
import VariantGraph.Proofs.Resolution.Precedence

/-!
# Redirects between the providers of a capability

A stable pass without failures redirects the modules that provide a capability to the one that a
rule prefers. A module is redirected in every pass after the one in which it lost a capability. Each
request is redirected in one step: it never leads to the loser that it names, but where the winner
of one capability has lost another one, it leads to that winner all the same.

Main statements: `Resolution.exists_redirect_iff` says who is redirected by a walk,
`Resolver.Reaches.exists_redirect_iff` who is in a pass,
`Resolver.Reaches.exists_redirect_target_iff` which edges lead to such a module.
-/

namespace VariantGraph

open Resolution

/-- A module version that publishes one variant with some capabilities besides the implicit one. -/
def ModuleData.providing (id : Coordinates) (capabilities : List CapabilityId)
    (dependencies : List Dependency) : ModuleData where
  id := id
  variants :=
    [{ name := "api"
       attributes := Table.empty
       capabilities :=
         Capability.implicit id.module id.version ::
           capabilities.map fun c => ⟨c.group, c.name, none⟩
       source := .here { dependencies := dependencies } }]

namespace Resolution

/-! ## Losing a capability -/

namespace Walk

/-- A module has a selected node that provides a capability. -/
def Provides (w : Walk) (c : CapabilityId) (m : ModuleId) : Prop :=
  ∃ node, (m, node) ∈ w.selectedNodes ∧ c ∈ node.capabilities.map Capability.id

/-- A module provides a capability together with the one that the rule for it prefers. -/
def Outranked (w : Walk) (rules : Rules) (m : ModuleId) (d : Redirect) : Prop :=
  ∃ c rule, rules.capabilityRule? c = some rule ∧ d = ⟨rule.prefer, rule.description⟩ ∧
    m ≠ rule.prefer ∧ w.Provides c m ∧ w.Provides c rule.prefer

theorem Outranked.ne_winner {w : Walk} {rules : Rules} {m : ModuleId} {d : Redirect}
    (h : w.Outranked rules m d) : m ≠ d.winner := by
  obtain ⟨c, rule, -, rfl, hne, -⟩ := h
  exact hne

end Walk

variable {ε : Type} {rules : Rules} {w : Walk} {m : ModuleId} {d : Redirect}
  {t : Table ModuleId Redirect}

/-- A capability that is settled redirects all its providers but the preferred one, which is one of
them. -/
theorem mem_of_settleCapability_iff {c : CapabilityId} {providers : Providers}
    {l : List (ModuleId × Redirect)}
    (h : (settleCapability rules c providers : Except (ResolutionError ε) _) = .ok l) :
    (m, d) ∈ l ↔ ∃ rule, rules.capabilityRule? c = some rule ∧
      d = ⟨rule.prefer, rule.description⟩ ∧ m ≠ rule.prefer ∧ m ∈ providers.keys ∧
        rule.prefer ∈ providers.keys := by
  unfold settleCapability at h
  split at h
  · next hsize =>
    -- a single provider has nobody to lose against
    obtain rfl := Except.ok.inj h
    refine iff_of_false List.not_mem_nil ?_
    rintro ⟨rule, -, -, hne, hm, hprefer⟩
    exact hne (Table.eq_of_size_lt_two hsize hm hprefer)
  · split at h
    · cases h
    · next rule hrule =>
      obtain rfl := Except.ok.inj h
      obtain ⟨hrule, hcontains⟩ := Option.filter_eq_some_iff.1 hrule
      have hprefer : rule.prefer ∈ providers.keys :=
        Table.mem_keys_iff.2 (Option.isSome_iff_exists.1 hcontains)
      simp only [hrule, Option.some.injEq, exists_eq_left', List.mem_map, List.mem_filter,
        bne_iff_ne, Prod.mk.injEq]
      constructor
      · rintro ⟨m', ⟨hm, hne⟩, rfl, rfl⟩
        exact ⟨rfl, hne, hm, hprefer⟩
      · rintro ⟨rfl, hne, hm, -⟩
        exact ⟨m, ⟨hm, hne⟩, rfl, rfl⟩

/-- The redirects of a walk are those of the modules that lose a capability. -/
theorem exists_ofList_of_capabilityRedirects
    (h : capabilityRedirects (ε := ε) rules w = .ok t) :
    ∃ l, Table.ofList l = t ∧ ∀ m d, (m, d) ∈ l ↔ w.Outranked rules m d := by
  unfold capabilityRedirects at h
  cases hl : (w.providers.toList.mapM fun e => settleCapability rules e.1 e.2 :
      Except (ResolutionError ε) _) with
  | error e =>
    rw [hl] at h
    cases h
  | ok l =>
    rw [hl] at h
    refine ⟨l.flatten, Except.ok.inj h, fun m d => ?_⟩
    rw [List.mem_flatten]
    constructor
    · rintro ⟨settled, hsettled, hmem⟩
      obtain ⟨⟨c, providers⟩, he, hok⟩ :=
        exists_of_mem_of_forall₂ (mapM_eq_ok_iff.1 hl).flip hsettled
      have hproviders := Table.mem_toList_iff.1 he
      obtain ⟨rule, hrule, hd, hne, hm, hprefer⟩ := (mem_of_settleCapability_iff hok).1 hmem
      exact ⟨c, rule, hrule, hd, hne, Walk.lists_providers_iff.1 ⟨providers, hproviders, hm⟩,
        Walk.lists_providers_iff.1 ⟨providers, hproviders, hprefer⟩⟩
    · rintro ⟨c, rule, hrule, hd, hne, hm, hprefer⟩
      obtain ⟨providers, hproviders, hm⟩ := Walk.lists_providers_iff.2 hm
      obtain ⟨providers', hproviders', hprefer⟩ := Walk.lists_providers_iff.2 hprefer
      obtain rfl := Option.some.inj (hproviders.symm.trans hproviders')
      obtain ⟨settled, hsettled, hok⟩ :=
        exists_of_mapM_eq_ok hl _ (Table.mem_toList_iff.2 hproviders)
      exact ⟨settled, hsettled,
        (mem_of_settleCapability_iff hok).2 ⟨rule, hrule, hd, hne, hm, hprefer⟩⟩

theorem outranked_of_get? (h : capabilityRedirects (ε := ε) rules w = .ok t)
    (hd : t.get? m = some d) : w.Outranked rules m d := by
  obtain ⟨l, rfl, hl⟩ := exists_ofList_of_capabilityRedirects h
  exact (hl m d).1 (Table.mem_of_get?_ofList hd)

theorem exists_redirect_iff (h : capabilityRedirects (ε := ε) rules w = .ok t) :
    (∃ d, t.get? m = some d) ↔ ∃ d, w.Outranked rules m d := by
  obtain ⟨l, rfl, hl⟩ := exists_ofList_of_capabilityRedirects h
  rw [Table.exists_get?_ofList_iff]
  exact exists_congr (hl m)

/-! ## Requests that are redirected -/

namespace Situation

variable {s : Situation} {c : VersionConstraint}

theorem underRules_of_get?_eq_some (h : s.redirects.get? (s.rules.apply m c).module = some d) :
    s.underRules m c =
      { module := d.winner
        constraint :=
          { VersionConstraint.any with forSubgraph := (s.rules.apply m c).constraint.forSubgraph }
        substitution := some d.description } := by
  simp only [underRules, h]

theorem underRules_of_get?_eq_none (h : s.redirects.get? (s.rules.apply m c).module = none) :
    s.underRules m c = s.rules.apply m c := by
  simp only [underRules, h]

/-- A request leads to a module that is redirected exactly if it was redirected to it. -/
theorem exists_redirect_underRules_iff :
    (∃ d, s.redirects.get? (s.underRules m c).module = some d) ↔
      ∃ d d', s.redirects.get? (s.rules.apply m c).module = some d ∧
        s.redirects.get? d.winner = some d' := by
  cases h : s.redirects.get? (s.rules.apply m c).module with
  | none => simp [underRules_of_get?_eq_none h, h]
  | some d => simp [underRules_of_get?_eq_some h]

end Situation

/-- What the rules made of the request that an edge was recorded for. -/
def Edge.ruled (e : Edge) : RuledRequest where
  module := e.target
  constraint := e.request.constraint
  substitution := e.substitution
  pinned := e.request.pinned

namespace Situation

variable {s : Situation} {n : Nat} {e : Edge}

/-- Some declarations of a node ask for a module: a dependency that is followed, or a constraint. -/
def Asks (s : Situation) (st : NodeState) (d : Declarations) (e : Edge) (m : ModuleId)
    (c : VersionConstraint) : Prop :=
  (e.request.isConstraint = false ∧ ∃ dep ∈ d.dependencies, s.isLeftOut st dep = false ∧
      dep.force = e.request.forced ∧ dep.module = m ∧ dep.constraint = c) ∨
    e.request.isConstraint = true ∧ e.request.forced = false ∧
      ∃ con ∈ d.constraints, con.module = m ∧ con.constraint = c

/-- Before a stage an edge was recorded for a declaration that asks for a module. -/
structure RecordedFor (s : Situation) (n : Nat) (e : Edge) (m : ModuleId) (c : VersionConstraint) :
    Prop where
  declared : ∃ i < n, ∃ st d, s.Visits i e.source st d ∧ s.Asks st d e m c ∧
    e.request.inherited = st.inherited.get? e.target
  ruled : e.ruled = s.underRules m c

/-- Every edge was recorded for a declaration. -/
theorem exists_recordedFor (he : e ∈ (s.stage n).table.edges) : ∃ m c, s.RecordedFor n e m c := by
  obtain ⟨k, hk⟩ := EdgeTable.mem_edges_iff.1 he
  obtain ⟨i, hi, ⟨st, d, hv, hmem⟩, -⟩ := get?_table_stage_iff.1 hk
  have hsource := of_mem_written hmem
  have hv : s.Visits i e.source st d := hsource.2.1 ▸ hv
  rcases mem_written_iff.1 hmem with ⟨rd, hrd, -, rfl⟩ | ⟨rc, hrc, -, -, rfl⟩
  · obtain ⟨hget, hout, hruled⟩ := mem_followed_iff.1 hrd
    refine ⟨rd.declared.module, rd.declared.constraint, ⟨i, hi, st, d, hv, .inl ?_, rfl⟩, hruled⟩
    exact ⟨rfl, rd.declared, List.mem_of_getElem? hget, hout, rfl, rfl, rfl⟩
  · obtain ⟨con, hget, hruled⟩ := mem_ruledConstraints_iff.1 hrc
    refine ⟨con.module, con.constraint, ⟨i, hi, st, d, hv, .inr ?_, rfl⟩, hruled⟩
    exact ⟨rfl, rfl, con, List.mem_of_getElem? hget, rfl, rfl⟩

theorem RecordedFor.target {c : VersionConstraint} (h : s.RecordedFor n e m c) :
    e.target = (s.underRules m c).module :=
  congrArg RuledRequest.module h.ruled

end Situation

end Resolution

namespace Resolver

variable {ε : Type} {r : Resolver ε} {request : ResolveRequest} {k n : Nat} {p : Progress}
  {m : ModuleId} {d : Redirect}

/-! ## Redirects over several passes -/

/-- With some progress the next pass is stable and without failures, and a module loses a capability
in it. -/
structure Loses (r : Resolver ε) (request : ResolveRequest) (p : Progress) (m : ModuleId)
    (d : Redirect) : Prop where
  stable : (r.situation request p).isStable (r.situation request p).traverse = true
  sound : (r.situation request p).failure? (ε := ε) (r.situation request p).traverse = none
  outranked : (r.situation request p).traverse.Outranked r.rules m d

/-- One of the first passes took a capability from a module. -/
def Lost (r : Resolver ε) (request : ResolveRequest) (k : Nat) (m : ModuleId) (d : Redirect) :
    Prop :=
  ∃ j < k, ∃ q, Reaches r request j q ∧ r.Loses request q m d

theorem Lost.succ (h : r.Lost request k m d) : r.Lost request (k + 1) m d := by
  obtain ⟨j, hj, q, hq⟩ := h
  exact ⟨j, Nat.lt_succ_of_lt hj, q, hq⟩

/-- What a pass after which a resolution goes on does to the redirects: nothing, unless it was
stable and without failures. -/
theorem redirects_of_pass {p' : Progress} {number : Nat}
    (h : r.pass request p number = (p', .again)) :
    let s := r.situation request p
    s.isStable s.traverse = false ∧ p'.redirects = p.redirects ∨
      s.isStable s.traverse = true ∧ s.failure? (ε := ε) s.traverse = none ∧
        ∃ t, capabilityRedirects (ε := ε) r.rules s.traverse = .ok t ∧
          p'.redirects = p.redirects.merge t := by
  dsimp only
  cases hstable : (r.situation request p).isStable (r.situation request p).traverse with
  | false =>
    rw [pass_of_not_isStable hstable] at h
    unfold fetchNeeded at h
    dsimp only at h
    split at h
    · cases h
    · cases h
      exact .inl ⟨rfl, rfl⟩
  | true =>
    rw [pass_of_isStable hstable] at h
    unfold conclude at h
    split at h
    · cases h
    · next hnone =>
      split at h
      · cases h
      · next t ht =>
        split at h
        · cases h
        · cases h
          exact .inr ⟨rfl, hnone, t, ht, rfl⟩

/-- A redirect comes from an earlier pass in which the module lost a capability. -/
theorem Reaches.lost_of_get? (h : Reaches r request k p) (hd : p.redirects.get? m = some d) :
    r.Lost request k m d := by
  induction h with
  | start => cases hd
  | @pass k q p hq hpass ih =>
    rcases redirects_of_pass hpass with ⟨-, hsame⟩ | ⟨hstable, hsound, t, ht, hmerge⟩
    · rw [hsame] at hd
      exact (ih hd).succ
    · rw [hmerge, Table.get?_merge, Option.or_eq_some_iff] at hd
      rcases hd with hnew | ⟨-, hold⟩
      · exact ⟨k, Nat.lt_succ_self k, q, hq, hstable, hsound, outranked_of_get? ht hnew⟩
      · exact (ih hold).succ

/-- The modules that are redirected in a pass are those that lost a capability before. -/
theorem Reaches.exists_redirect_iff (h : Reaches r request k p) :
    (∃ d, p.redirects.get? m = some d) ↔ ∃ d, r.Lost request k m d := by
  refine ⟨fun ⟨d, hd⟩ => ⟨d, h.lost_of_get? hd⟩, ?_⟩
  rintro ⟨d, j, hj, q, hq, hloses⟩
  induction h with
  | start => exact absurd hj (Nat.not_lt_zero j)
  | @pass k q' p hq' hpass ih =>
    rcases Nat.lt_succ_iff_lt_or_eq.1 hj with hlt | rfl
    · rcases redirects_of_pass hpass with ⟨-, hsame⟩ | ⟨-, -, t, -, hmerge⟩
      · rw [hsame]
        exact ih hlt
      · rw [hmerge]
        exact Table.exists_get?_merge_iff.2 (.inr (ih hlt))
    · obtain rfl := hq.unique hq'
      rcases redirects_of_pass hpass with ⟨hunstable, -⟩ | ⟨-, -, t, ht, hmerge⟩
      · rw [hloses.stable] at hunstable
        cases hunstable
      · rw [hmerge]
        refine Table.exists_get?_merge_iff.2 (.inl ?_)
        exact (Resolution.exists_redirect_iff ht).2 ⟨d, hloses.outranked⟩

/-- Every edge that a pass records was recorded for a declaration. If that asks, under the rules,
for a module that lost a capability, then the edge leads to the winner instead, which is another
module. The edge leads to a module that lost a capability exactly if the winner itself has lost
another one. -/
theorem Reaches.exists_redirect_target_iff (h : Reaches r request k p) {e : Edge}
    (he : e ∈ ((r.situation request p).stage n).table.edges) :
    (∃ m c, (r.situation request p).RecordedFor n e m c) ∧
      ∀ m c, (r.situation request p).RecordedFor n e m c →
        (∀ d, p.redirects.get? (r.rules.apply m c).module = some d →
          e.target = d.winner ∧ e.target ≠ (r.rules.apply m c).module ∧
            r.Lost request k (r.rules.apply m c).module d) ∧
        ((∃ d, p.redirects.get? e.target = some d) ↔
          ∃ d d', p.redirects.get? (r.rules.apply m c).module = some d ∧
            r.Lost request k d.winner d') := by
  refine ⟨Situation.exists_recordedFor he, fun m c hfor => ?_⟩
  have hfollow : ∀ d, p.redirects.get? (r.rules.apply m c).module = some d →
      e.target = d.winner := by
    intro d hd
    rw [hfor.target, Situation.underRules_of_get?_eq_some (s := r.situation request p) hd]
  constructor
  · intro d hd
    obtain ⟨j, -, q, -, hloses⟩ := h.lost_of_get? hd
    have hne : e.target ≠ (r.rules.apply m c).module := by
      rw [hfollow d hd]
      exact hloses.outranked.ne_winner.symm
    exact ⟨hfollow d hd, hne, h.lost_of_get? hd⟩
  · constructor
    · intro hkey
      rw [hfor.target] at hkey
      obtain ⟨d, d', hd, hd'⟩ := Situation.exists_redirect_underRules_iff.1 hkey
      exact ⟨d, d', hd, h.lost_of_get? hd'⟩
    · rintro ⟨d, d', hd, hlost⟩
      rw [hfollow d hd]
      exact h.exists_redirect_iff.2 ⟨d', hlost⟩

/-- The winner of the capability `x` loses the capability `y`. -/
def chainedResolver : Resolver Empty where
  provider := Provider.ofData
    [.providing ⟨"org", "a", "1.0"⟩ [⟨"org", "x"⟩] [],
      .providing ⟨"org", "b", "1.0"⟩ [⟨"org", "x"⟩, ⟨"org", "y"⟩] [],
      .providing ⟨"org", "c", "1.0"⟩ [⟨"org", "y"⟩] []]
  rules :=
    { capabilityRules :=
        [{ capability := ⟨"org", "x"⟩, prefer := ⟨"org", "b"⟩ },
          { capability := ⟨"org", "y"⟩, prefer := ⟨"org", "c"⟩ }] }

def chainedRequest : ResolveRequest where
  root := ⟨"org", "root", "1.0"⟩
  dependencies :=
    [.on ⟨"org", "a", "1.0"⟩, .on ⟨"org", "b", "1.0"⟩, .on ⟨"org", "c", "1.0"⟩]

/-- What the pass of the sample after the redirects starts with. -/
def chainedProgress : Progress :=
  (chainedResolver.pass chainedRequest (chainedResolver.pass chainedRequest {} 1).1 2).1

/-- The first edge that this pass records leads to `b`, which has lost `y`. -/
theorem exists_redirect_target_iff_chained :
    Reaches chainedResolver chainedRequest 2 chainedProgress ∧
      ∃ e ∈ ((chainedResolver.situation chainedRequest chainedProgress).stage 1).table.edges,
        e.target = ⟨"org", "b"⟩ ∧ (∃ d, chainedProgress.redirects.get? e.target = some d) ∧
          ∃ m c d d', (chainedResolver.situation chainedRequest chainedProgress).RecordedFor 1 e m c ∧
            chainedProgress.redirects.get? (chainedResolver.rules.apply m c).module = some d ∧
              chainedResolver.Lost chainedRequest 2 d.winner d' := by
  have hreaches : Reaches chainedResolver chainedRequest 2 chainedProgress :=
    (Reaches.start.next (by decide +kernel)).next (by decide +kernel)
  have hcheck : (((chainedResolver.situation chainedRequest chainedProgress).stage 1).table.edges.any
      fun e => e.target == ⟨"org", "b"⟩ && (chainedProgress.redirects.get? e.target).isSome)
        = true := by
    decide +kernel
  obtain ⟨e, he, htarget⟩ := List.any_eq_true.1 hcheck
  rw [Bool.and_eq_true, beq_iff_eq, Option.isSome_iff_exists] at htarget
  obtain ⟨⟨m, c, hfor⟩, hiff⟩ := hreaches.exists_redirect_target_iff he
  obtain ⟨d, d', hd, hlost⟩ := (hiff m c hfor).2.1 htarget.2
  exact ⟨hreaches, e, he, htarget.1, htarget.2, m, c, d, d', hfor, hd, hlost⟩

end Resolver

end VariantGraph
