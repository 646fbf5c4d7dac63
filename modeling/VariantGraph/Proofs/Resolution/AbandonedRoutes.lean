import VariantGraph.Proofs.Resolution.Agreement
import VariantGraph.Proofs.Resolution.Routes

/-!
# Routes that a walk has given up

A walk takes a route when it visits the nodes on it one after the other, each after the one before
has led to it. A node excludes what all routes that were taken to it exclude. When another variant
is selected for a node on the way, a route that was taken may not be there any more in the end, and
what it has let through stays let through.

Main statements: `Situation.excludes_stage_iff` characterises what a node excludes by the routes
taken to it, `Situation.excludes_iff_of_forall_route_bars` does so for modules that all present
routes exclude.
-/

namespace VariantGraph.Resolution.Situation

variable {s : Situation} {o : Origin} {i k : Nat} {m n p : ModuleId} {st t : NodeState}
  {d : Declarations} {dep : Dependency} {w : Walk} {route : List Dependency}

/-! ## One expansion -/

/-- A module stays excluded at a node if all dependencies on it that an expansion follows exclude the
module. -/
theorem excludes_expand (hne : o.state.excludeSets ≠ [])
    (hold : ∀ old, w.nodes.get? n = some old → old.excludes m = true)
    (hdeps : ∀ dep ∈ d.dependencies, s.isLeftOut o.state dep = false → s.dependencyTarget dep = n →
      (o.state.excludes m || dep.bars m) = true)
    (ht : (s.expand o d w).nodes.get? n = some t) : t.excludes m = true := by
  revert t
  refine expand_induction (P := fun w' => ∀ {t}, w'.nodes.get? n = some t → t.excludes m = true)
    (fun _ _ hw => hw) ?_ (fun ht => hold _ ht)
  intro w' hw' rd hrd _ t ht
  rw [arriveAlong, Walk.get?_nodes_arrive] at ht
  split at ht
  · next heq =>
    obtain rfl := Option.some.inj ht
    obtain ⟨hget, hout, -⟩ := mem_followed_iff.1 hrd
    have htarget := (dependencyTarget_of_mem_followed hrd).trans heq.symm
    have hincoming : excludesBelow o.state rd.declared ≠ [] := by simpa [excludesBelow] using hne
    rw [NodeState.excludes_after hincoming, all_excludesBelow]
    exact ⟨fun old h => hw' (heq ▸ h), hdeps _ (List.mem_of_getElem? hget) hout htarget⟩
  · exact hw' ht

/-! ## Routes that are taken -/

/-- Before a stage a walk has taken a route to a module: it has visited the nodes on the route in
their order, and each dependency of the route was followed at its visit. -/
inductive Taken (s : Situation) : Nat → List Dependency → ModuleId → Prop
  | root {k : Nat} : s.Taken k [] s.root
  | follow {i k : Nat} {route : List Dependency} {p : ModuleId} {t : NodeState} {d : Declarations}
      {dep : Dependency} (before : s.Taken i route p) (visits : s.Visits i p t d) (earlier : i < k)
      (declared : dep ∈ d.dependencies) (kept : s.isLeftOut t dep = false)
      (away : s.dependencyTarget dep ≠ s.root) :
      s.Taken k (route ++ [dep]) (s.dependencyTarget dep)

theorem Taken.succ (h : s.Taken k route n) : s.Taken (k + 1) route n := by
  cases h with
  | root => exact .root
  | follow before visits earlier declared kept away =>
    exact .follow before visits (Nat.lt_succ_of_lt earlier) declared kept away

/-- What a node excludes at a stage, every route taken to it excludes. -/
theorem Taken.bars (h : s.Taken k route n) (hst : (s.stage k).nodes.get? n = some st)
    (hm : st.excludes m = true) : Bars route m := by
  induction h generalizing st with
  | root =>
    rw [(invariant_stage s _).shape.root, Option.some.injEq] at hst
    rw [← hst, NodeState.excludes_root] at hm
    cases hm
  | @follow i k route p t d dep before visits earlier declared kept away ih =>
    -- the target serves the visited node from the visit on
    obtain ⟨w, -, -, -, hstage⟩ := visits.stage_succ
    have hne := ((invariant_stage s i).shape.nonempty visits.node).2
    obtain ⟨j, hj⟩ := List.mem_iff_getElem?.1 declared
    obtain ⟨t₁, ht₁, hserves⟩ := serves_expand (o := s.origin p t) hne (w.trim p d)
      (followed_of_getElem? hj kept) away
    rw [← hstage] at ht₁
    obtain ⟨t₂, ht₂, hgrow⟩ := exists_growsTo_stage (Nat.succ_le_of_lt earlier) ht₁
    obtain rfl := Option.some.inj (hst.symm.trans ht₂)
    have hall := hserves.excludes (hgrow.excludes hm)
    rw [all_excludesBelow, Bool.or_eq_true] at hall
    rw [bars_concat_iff]
    exact hall.imp (ih visits.node) id

/-- What every route excludes that was taken to a node, the node excludes. -/
theorem excludes_of_forall_taken (h : ∀ route, s.Taken k route n → Bars route m)
    (hst : (s.stage k).nodes.get? n = some st) : st.excludes m = true := by
  have hroot : n ≠ s.root := by
    rintro rfl
    exact not_bars_nil (h [] .root)
  induction k generalizing n st with
  | zero => simp [stage, run, Walk.start, hroot] at hst
  | succ k ih =>
    have hearlier : ∀ {old}, (s.stage k).nodes.get? n = some old → old.excludes m = true :=
      fun hold => ih (fun route htaken => h route htaken.succ) hold hroot
    by_cases hvisits : ∃ p t d, s.Visits k p t d
    · obtain ⟨p, t, d, hv⟩ := hvisits
      obtain ⟨w, hnodes, -, -, hstage⟩ := hv.stage_succ
      have hne := ((invariant_stage s k).shape.nonempty hv.node).2
      rw [hstage] at hst
      refine excludes_expand (o := s.origin p t) (w := w.trim p d) hne ?_ ?_ hst
      · intro old hold
        have hold : w.nodes.get? n = some old := hold
        rw [hnodes] at hold
        exact hearlier hold
      · rintro dep hdep hout rfl
        rw [Bool.or_eq_true, or_iff_not_imp_right]
        intro hnot
        -- every route to the visited node goes on to the target
        have hbars : ∀ route, s.Taken k route p → Bars route m := by
          intro route htaken
          have hnext := h _ (.follow htaken hv (Nat.lt_succ_self k) hdep hout hroot)
          rw [bars_concat_iff] at hnext
          exact hnext.resolve_right hnot
        refine ih hbars hv.node ?_
        rintro rfl
        exact not_bars_nil (hbars [] .root)
    · push Not at hvisits
      rw [(stage_succ_of_not_visits hvisits).1] at hst
      exact hearlier hst

/-- At every stage a node excludes what all routes exclude that were taken to it. -/
theorem excludes_stage_iff (hst : (s.stage k).nodes.get? n = some st) :
    st.excludes m = true ↔ ∀ route, s.Taken k route n → Bars route m :=
  ⟨fun hm _ htaken => htaken.bars hst hm, fun h => excludes_of_forall_taken h hst⟩

/-! ## Routes that are abandoned -/

/-- A route is abandoned when a walk has taken it and it is not there any more in the end. -/
def Abandoned (s : Situation) (route : List Dependency) (n : ModuleId) : Prop :=
  s.Taken s.visitBound route n ∧ ¬ s.Route route n

/-- Nothing else is ever selected for the root. -/
theorem Outdated.ne_root (h : s.Outdated i p t d) : p ≠ s.root := by
  rintro rfl
  obtain ⟨t', -, hne⟩ := h.differs
  simp [outcome?] at hne

theorem Taken.eq_root_or_exists_target (h : s.Taken k route n) :
    n = s.root ∨ ∃ dep ∈ route, s.dependencyTarget dep = n := by
  cases h with
  | root => exact .inl rfl
  | @follow _ _ _ _ _ _ dep =>
    exact .inr ⟨dep, List.mem_append_right _ (List.mem_singleton_self dep), rfl⟩

/-- A route that was taken is there in the end, unless something else is selected for a node on it. -/
theorem Taken.route_or_reselected (h : s.Taken k route n) (hk : k ≤ s.visitBound) :
    s.Route route n ∨ ∃ dep ∈ route, s.Reselected (s.dependencyTarget dep) := by
  induction h with
  | root => exact .inl .root
  | @follow i k route p t d dep before visits earlier declared kept away ih =>
    have hi := lt_of_lt_of_le earlier hk
    rcases ih hi.le with hroute | ⟨dep', hdep', hreselected⟩
    · by_cases houtdated : s.Outdated i p t d
      · rcases before.eq_root_or_exists_target with hroot | ⟨dep', hdep', rfl⟩
        · exact absurd hroot houtdated.ne_root
        · exact .inr ⟨dep', List.mem_append_left _ hdep', i, t, d, houtdated⟩
      · obtain ⟨t', ht', hgrow, hd⟩ := visits.exists_declared? hi houtdated
        have hkept : s.isLeftOut t' dep = false := by
          rw [Bool.eq_false_iff] at kept ⊢
          exact fun hleft => kept (isLeftOut_of_growsTo hgrow hleft)
        exact .inl (.follow hroute (declares_traverse_iff.2 ⟨ht', hd⟩) declared hkept)
    · exact .inr ⟨dep', List.mem_append_left _ hdep', hreselected⟩

/-- A recorded dependency was not excluded when it was recorded, so it is not excluded now. -/
theorem excludes_eq_false_of_links (hst : s.traverse.nodes.get? n = some st)
    (hlink : s.traverse.Links false n m) : st.excludes m = false := by
  obtain ⟨slot, e, he, rfl, rfl, hkind⟩ := hlink
  obtain ⟨i, hi, ⟨t, d, hv, hmem⟩, -⟩ := get?_table_stage_iff.1 he
  obtain ⟨t', ht', hgrow⟩ := exists_growsTo_stage (Nat.le_of_lt hi) hv.node
  obtain rfl := Option.some.inj (hst.symm.trans ht')
  rcases mem_written_iff.1 hmem with ⟨rd, hrd, -, rfl⟩ | ⟨rc, -, -, hslot, -⟩
  · have hout := (mem_followed_iff.1 hrd).2.1
    rw [isLeftOut, dependencyTarget_of_mem_followed hrd, Bool.or_eq_false_iff] at hout
    rw [Bool.eq_false_iff]
    exact fun hm => Bool.eq_false_iff.1 hout.2 (hgrow.excludes hm)
  · rw [hslot] at hkind
    cases hkind

/-- A node excludes a module that all routes to it exclude unless an abandoned route to it does not,
and then no dependency on the module is recorded for it. -/
theorem excludes_iff_of_forall_route_bars (hst : s.traverse.nodes.get? n = some st)
    (h : ∀ route, s.Route route n → Bars route m) :
    (st.excludes m = true ↔ ∀ route, s.Abandoned route n → Bars route m) ∧
      (s.traverse.Links false n m → ∃ route, s.Abandoned route n ∧ ¬ Bars route m ∧
        ∃ dep ∈ route, s.Reselected (s.dependencyTarget dep)) := by
  have hiff : st.excludes m = true ↔ ∀ route, s.Abandoned route n → Bars route m := by
    rw [excludes_stage_iff hst]
    constructor
    · exact fun hall route habandoned => hall route habandoned.1
    · intro hall route htaken
      by_cases hroute : s.Route route n
      · exact h route hroute
      · exact hall route ⟨htaken, hroute⟩
  refine ⟨hiff, ?_⟩
  intro hlink
  have hnot : ¬ ∀ route, s.Abandoned route n → Bars route m := by
    rw [← hiff, excludes_eq_false_of_links hst hlink]
    exact Bool.false_ne_true
  push Not at hnot
  obtain ⟨route, habandoned, hbars⟩ := hnot
  exact ⟨route, habandoned, hbars,
    (habandoned.1.route_or_reselected le_rfl).resolve_left habandoned.2⟩

/-- The variant of `a` that was selected first has a dependency on `n`, the one that `b` asks for has
none. -/
def abandoning : Situation :=
  ofData
    ⟨⟨"org", "root", "1.0"⟩, Table.empty, [.on ⟨"org", "a", "1.0"⟩, .on ⟨"org", "b", "1.0"⟩], []⟩
    (Schema.withDisambiguation Table.empty "kind" (.prefer (.string "main")))
    [.double ⟨"org", "a", "1.0"⟩ ⟨"org", "extra"⟩ { dependencies := [.on ⟨"org", "n", "1.0"⟩] } {},
      .single ⟨"org", "b", "1.0"⟩
        [{ Dependency.on ⟨"org", "a", "1.0"⟩ with capabilities := [⟨"org", "extra"⟩] },
          { Dependency.on ⟨"org", "n", "1.0"⟩ with
            excludes := OrderedSet.ofElements [⟨some "org", some "m"⟩] }],
      .single ⟨"org", "n", "1.0"⟩ [.on ⟨"org", "m", "1.0"⟩],
      .single ⟨"org", "m", "1.0"⟩ []]

/-- All routes to `n` go through `b` and exclude `m` when the walk ends; `n` does not exclude it, and
its dependency on `m` is recorded, because the route through `a` has let it through. -/
theorem excludes_iff_of_forall_route_bars_abandoning :
    let n : ModuleId := ⟨"org", "n"⟩
    let m : ModuleId := ⟨"org", "m"⟩
    (∀ route, abandoning.Route route n → Bars route m) ∧
      ∃ st, abandoning.traverse.nodes.get? n = some st ∧ st.excludes m = false ∧
        abandoning.traverse.Links false n m ∧ ∃ route, abandoning.Abandoned route n ∧
          ¬ Bars route m ∧ ∃ dep ∈ route, abandoning.Reselected (abandoning.dependencyTarget dep) := by
  intro n m
  have hbars : ∀ e ∈ abandoning.traverse.nodes.toList, ∀ d ∈ abandoning.declared? e.1 e.2,
      ∀ dep ∈ d.dependencies, abandoning.isLeftOut e.2 dep = false →
        abandoning.dependencyTarget dep = n → dep.bars m = true := by
    decide +kernel
  have hroutes : ∀ route, abandoning.Route route n → Bars route m := by
    intro route hroute
    refine hroute.bars_of_forall_declares (by decide) ?_
    intro p st d hdeclares
    obtain ⟨hst, hd⟩ := declares_traverse_iff.1 hdeclares
    exact hbars (p, st) (Table.mem_toList_iff.2 hst) d hd
  have hdep : ((abandoning.traverse.nodes.get? n).any fun st =>
      (abandoning.declared? n st).any fun d => d.dependencies.any fun dep =>
        !abandoning.isLeftOut st dep && abandoning.dependencyTarget dep == m) = true := by
    decide +kernel
  obtain ⟨st, hst, hdep⟩ := (Option.any_eq_true _ _).1 hdep
  obtain ⟨d, hd, hdep⟩ := (Option.any_eq_true _ _).1 hdep
  obtain ⟨dep, hmem, hdep⟩ := List.any_eq_true.1 hdep
  rw [Bool.and_eq_true, Bool.not_eq_true', beq_iff_eq] at hdep
  have hlink := links_of_mem_dependencies (declares_traverse_iff.2 ⟨hst, hd⟩) hmem hdep.1
  rw [hdep.2] at hlink
  exact ⟨hroutes, st, hst, excludes_eq_false_of_links hst hlink, hlink,
    (excludes_iff_of_forall_route_bars hst hroutes).2 hlink⟩

end VariantGraph.Resolution.Situation
