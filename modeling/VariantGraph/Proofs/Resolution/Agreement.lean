import VariantGraph.Proofs.Resolution.History
import VariantGraph.Proofs.Resolution.Inheritance

/-!
# What all paths pass down

A node inherits the constraint for a module that every visit has passed down which followed a
dependency on the node. Visits that are overtaken count as well: a node that was visited with another
selection, with a constraint that it does not inherit any more, or without a dependency that is
followed now has passed down something else, and nothing is passed down a second time where it was
lost once.

Main statements: `Situation.inherited_eq_some_iff_agreed` characterises what a node inherits by the
history of the walk, `Situation.inherited_eq_some_iff_of_allPassDown` the nodes for which all present
dependencies pass down one constraint.
-/

namespace VariantGraph.Resolution.Situation

variable {s : Situation} {o : Origin} {i k : Nat} {m n p : ModuleId} {st t t' : NodeState}
  {d : Declarations} {w : Walk} {c : VersionConstraint}

/-! ## One expansion -/

theorem leadsTo_iff_mem_followed : s.LeadsTo st d n ↔
    ∃ rd ∈ s.followed st d.dependencies, rd.ruled.module = n := by
  constructor
  · rintro ⟨dep, hdep, hout, rfl⟩
    obtain ⟨i, hi⟩ := List.mem_iff_getElem?.1 hdep
    exact ⟨_, followed_of_getElem? hi hout, rfl⟩
  · rintro ⟨rd, hrd, rfl⟩
    obtain ⟨hget, hout, hruled⟩ := mem_followed_iff.1 hrd
    exact ⟨rd.declared, List.mem_of_getElem? hget, hout, by rw [hruled]; rfl⟩

/-- A node without a dependency on a module leaves its state alone. -/
theorem get?_nodes_expand_of_not_leadsTo (h : ¬ s.LeadsTo o.state d n) (w : Walk) :
    (s.expand o d w).nodes.get? n = w.nodes.get? n := by
  refine expand_induction (P := fun w' => w'.nodes.get? n = w.nodes.get? n) (fun _ _ hw => hw) ?_ rfl
  intro w' hw' rd hrd _
  have hne : n ≠ rd.ruled.module := fun heq =>
    h (leadsTo_iff_mem_followed.2 ⟨rd, hrd, heq.symm⟩)
  rw [arriveAlong, Walk.get?_nodes_arrive, if_neg hne, hw']

/-- What a module inherits after the expansion of a node with a dependency on it: what it inherited
before, if it was reached, and the node passes down. -/
theorem get?_inherited_expand (hne : o.state.excludeSets ≠ []) (hroot : n ≠ s.root)
    (h : s.LeadsTo o.state d n) (ht : (s.expand o d w).nodes.get? n = some t) :
    t.inherited.get? m = some c ↔
      (∀ old, w.nodes.get? n = some old → old.inherited.get? m = some c) ∧
        (s.below o d).get? m = some c := by
  constructor
  · intro hc
    obtain ⟨rd, hrd, rfl⟩ := leadsTo_iff_mem_followed.1 h
    obtain ⟨t', ht', hserves⟩ := serves_expand hne w hrd hroot
    obtain rfl := Option.some.inj (ht.symm.trans ht')
    refine ⟨?_, hserves.inherited hc⟩
    intro old hold
    obtain ⟨t', ht', hgrow⟩ := (growsTo_expand s o d w).node hold
    obtain rfl := Option.some.inj (ht.symm.trans ht')
    exact hgrow.inherited hc
  · rintro ⟨hold, hbelow⟩
    -- kept by every arrival, because all of them pass down the same
    revert t
    refine expand_induction (P := fun w' => ∀ {t}, w'.nodes.get? n = some t →
      t.inherited.get? m = some c) (fun _ _ hw => hw) ?_ (fun ht => hold _ ht)
    intro w' hw' rd _ _ t ht
    rw [arriveAlong, Walk.get?_nodes_arrive] at ht
    split at ht
    · next heq =>
      obtain rfl := Option.some.inj ht
      exact NodeState.get?_inherited_after.2 ⟨fun old h => hw' (heq ▸ h), hbelow⟩
    · exact hw' ht

/-! ## The history of a node -/

/-- At a stage a node is visited that has a dependency on a module. -/
structure Feeds (s : Situation) (i : Nat) (p n : ModuleId) (t : NodeState) (d : Declarations) :
    Prop where
  visits : s.Visits i p t d
  leads : s.LeadsTo t d n

/-- All visits before a stage that follow a dependency on a node pass down a constraint. -/
def Agreed (s : Situation) (k : Nat) (n m : ModuleId) (c : VersionConstraint) : Prop :=
  ∀ i, i < k → ∀ p t d, s.Feeds i p n t d → (s.below (s.origin p t) d).get? m = some c

theorem agreed_succ_iff : s.Agreed (k + 1) n m c ↔ s.Agreed k n m c ∧
    ∀ p t d, s.Feeds k p n t d → (s.below (s.origin p t) d).get? m = some c := by
  constructor
  · intro h
    exact ⟨fun i hi => h i (Nat.lt_succ_of_lt hi), h k (Nat.lt_succ_self k)⟩
  · rintro ⟨hbefore, hlast⟩ i hi
    rcases Nat.lt_succ_iff_lt_or_eq.1 hi with hlt | rfl
    · exact hbefore i hlt
    · exact hlast

/-- After a visit that follows a dependency on a module, the module is reached. -/
theorem Feeds.exists_node (h : s.Feeds i p n t d) (hroot : n ≠ s.root) (hi : i < k) :
    ∃ t', (s.stage k).nodes.get? n = some t' := by
  obtain ⟨w, -, -, -, hstage⟩ := h.visits.stage_succ
  obtain ⟨rd, hrd, rfl⟩ := leadsTo_iff_mem_followed.1 h.leads
  have hne := ((invariant_stage s i).shape.nonempty h.visits.node).2
  obtain ⟨t₁, ht₁, -⟩ := serves_expand (o := s.origin p t) hne (w.trim p d) hrd hroot
  rw [← hstage] at ht₁
  obtain ⟨t₂, ht₂, -⟩ := exists_growsTo_stage (Nat.succ_le_of_lt hi) ht₁
  exact ⟨t₂, ht₂⟩

/-- A visit that follows a dependency on a module leaves it with what the module inherited before, if
it was reached, and the visited node passes down. -/
theorem Feeds.inherited_iff (h : s.Feeds k p n t d) (hroot : n ≠ s.root)
    (hst : (s.stage (k + 1)).nodes.get? n = some st) : st.inherited.get? m = some c ↔
      (∀ old, (s.stage k).nodes.get? n = some old → old.inherited.get? m = some c) ∧
        (s.below (s.origin p t) d).get? m = some c := by
  obtain ⟨w, hnodes, -, -, hstage⟩ := h.visits.stage_succ
  have hne := ((invariant_stage s k).shape.nonempty h.visits.node).2
  rw [hstage] at hst
  rw [← hnodes]
  exact get?_inherited_expand (o := s.origin p t) (w := w.trim p d) hne hroot h.leads hst

theorem get?_nodes_stage_succ_of_not_feeds (h : ∀ p t d, ¬ s.Feeds k p n t d) :
    (s.stage (k + 1)).nodes.get? n = (s.stage k).nodes.get? n := by
  by_cases hvisits : ∃ p t d, s.Visits k p t d
  · obtain ⟨p, t, d, hv⟩ := hvisits
    obtain ⟨w, hnodes, -, -, hstage⟩ := hv.stage_succ
    have hleads : ¬ s.LeadsTo t d n := fun hleads => h p t d ⟨hv, hleads⟩
    rw [hstage, ← hnodes]
    exact get?_nodes_expand_of_not_leadsTo (o := s.origin p t) hleads (w.trim p d)
  · push Not at hvisits
    rw [(stage_succ_of_not_visits hvisits).1]

/-- At every stage a node inherits what all visits before have passed down to it. -/
theorem inherited_stage_iff (hroot : n ≠ s.root) (hst : (s.stage k).nodes.get? n = some st) :
    st.inherited.get? m = some c ↔ s.Agreed k n m c := by
  induction k generalizing st with
  | zero => simp [stage, run, Walk.start, hroot] at hst
  | succ k ih =>
    rw [agreed_succ_iff]
    by_cases hfeeds : ∃ p t d, s.Feeds k p n t d
    · obtain ⟨p, t, d, hfeed⟩ := hfeeds
      rw [hfeed.inherited_iff hroot hst]
      refine and_congr ?_ ⟨?_, fun h => h p t d hfeed⟩
      · cases hold : (s.stage k).nodes.get? n with
        | some old => simpa using ih hold
        | none =>
          -- nothing was passed down to a node that is not reached yet
          refine iff_of_true (fun old h => by cases h) ?_
          intro i hi p' t' d' hfeed'
          obtain ⟨t'', ht''⟩ := hfeed'.exists_node hroot hi
          rw [hold] at ht''
          cases ht''
      · intro hbelow p' t' d' hfeed'
        obtain ⟨rfl, rfl, rfl⟩ := hfeed.visits.unique hfeed'.visits
        exact hbelow
    · push Not at hfeeds
      rw [and_iff_left fun p t d hfeed => absurd hfeed (hfeeds p t d)]
      exact ih (get?_nodes_stage_succ_of_not_feeds hfeeds ▸ hst)

/-- When a walk ends, a node inherits what all visits have passed down to it. -/
theorem inherited_eq_some_iff_agreed (hroot : n ≠ s.root)
    (hst : s.traverse.nodes.get? n = some st) :
    st.inherited.get? m = some c ↔ s.Agreed s.visitBound n m c :=
  inherited_stage_iff hroot hst

/-! ## Grown nodes -/

theorem find?_filter_of_find? {α : Type} {f g : α → Bool} {l : List α} {a : α}
    (h : l.find? f = some a) (ha : g a = true) : (l.filter g).find? f = some a := by
  obtain ⟨hf, before, after, rfl, hbefore⟩ := List.find?_eq_some_iff_append.1 h
  refine List.find?_eq_some_iff_append.2 ⟨hf, before.filter g, after.filter g, ?_, ?_⟩
  · rw [List.filter_append, List.filter_cons_of_pos ha]
  · exact fun b hb => hbefore b (List.mem_of_mem_filter hb)

/-- What is followed at a state is what is followed at a grown one and was not left out before. -/
theorem filter_followed (hgrow : t.GrowsTo t') (l : List Dependency) :
    ((s.followed t' l).filter fun rd => !s.isLeftOut t rd.declared) = s.followed t l := by
  unfold followed
  rw [List.filter_filterMap]
  refine List.filterMap_congr fun e _ => ?_
  show Option.filter _ (if s.isLeftOut t' e.1 = true then none else _)
    = if s.isLeftOut t e.1 = true then none else _
  by_cases hleft : s.isLeftOut t e.1 = true
  · rw [if_pos hleft]
    split
    · rfl
    · simp [hleft]
  · have hleft' : ¬ s.isLeftOut t' e.1 = true := fun h => hleft (isLeftOut_of_growsTo hgrow h)
    rw [if_neg hleft, if_neg hleft']
    simp [hleft]

theorem find?_ruledRequests (f : RuledRequest → Bool) : (s.ruledRequests st d).find? f
    = (((s.followed st d.dependencies).find? (f ∘ RuledDependency.ruled)).map
        RuledDependency.ruled).or
      (((s.ruledConstraints d.constraints).map RuledConstraint.ruled).find? f) := by
  rw [ruledRequests, List.find?_append, List.find?_map]

/-- A grown node with the same declarations demands something else only by a dependency that was
left out before. -/
theorem exists_readmitted (hgrow : t.GrowsTo t') (hc : s.binding? t' d m = some c)
    (hne : s.binding? t d m ≠ some c) : ∃ dep ∈ d.dependencies,
      s.Demands dep.module dep.constraint m c ∧ s.isLeftOut t dep = true ∧
        s.isLeftOut t' dep = false := by
  obtain ⟨r, hr, rfl⟩ := Option.map_eq_some_iff.1 hc
  have hnot : (s.ruledRequests t d).find? (isBinding m) ≠ some r := fun h =>
    hne (by rw [binding?, h]; rfl)
  rw [find?_ruledRequests, Option.or_eq_some_iff] at hr
  rw [find?_ruledRequests, ← filter_followed hgrow] at hnot
  rcases hr with hdep | ⟨hnone, hconstraint⟩
  · obtain ⟨rd, hrd, rfl⟩ := Option.map_eq_some_iff.1 hdep
    obtain ⟨hget, hout, hruled⟩ := mem_followed_iff.1 (List.mem_of_find?_eq_some hrd)
    have hbinding : isBinding m rd.ruled = true :=
      List.find?_some (p := isBinding m ∘ RuledDependency.ruled) hrd
    cases hleft : s.isLeftOut t rd.declared with
    | true =>
      rw [hruled] at hbinding ⊢
      exact ⟨rd.declared, List.mem_of_getElem? hget, demands_of_isBinding hbinding, hleft, hout⟩
    | false =>
      refine absurd ?_ hnot
      rw [find?_filter_of_find? hrd (by simp [hleft])]
      rfl
  · -- no dependency demands anything, neither now nor before
    refine absurd ?_ hnot
    have hnone' : ((s.followed t' d.dependencies).filter fun rd =>
        !s.isLeftOut t rd.declared).find? (isBinding m ∘ RuledDependency.ruled) = none := by
      rw [Option.map_eq_none_iff, List.find?_eq_none] at hnone
      exact List.find?_eq_none.2 fun rd hrd => hnone rd (List.mem_of_mem_filter hrd)
    rw [hnone', hconstraint]
    rfl

/-! ## Visits that are overtaken -/

/-- A visit is overtaken, and the visited node passes down the constraint `c` for a module only since
then: something else is selected for the node, it has lost another constraint for the module that it
inherited, or a dependency that demands `c` was left out and is followed when the walk ends. -/
inductive Overtaken (s : Situation) (i : Nat) (p : ModuleId) (t : NodeState) (d : Declarations)
    (m : ModuleId) (c : VersionConstraint) : Prop where
  | reselected (outdated : s.Outdated i p t d)
  | released {t' : NodeState} {other : VersionConstraint}
      (reached : s.traverse.nodes.get? p = some t') (before : t.inherited.get? m = some other)
      (other_ne : other ≠ c) (after : t'.inherited.get? m = none)
  | readmitted {t' : NodeState} {dep : Dependency} (reached : s.traverse.nodes.get? p = some t')
      (declared : dep ∈ d.dependencies) (demands : s.Demands dep.module dep.constraint m c)
      (before : s.isLeftOut t dep = true) (after : s.isLeftOut t' dep = false)

/-- An overtaken visit has passed down to a node, for a module, something else than `c`. -/
structure Strays (s : Situation) (i : Nat) (p n : ModuleId) (t : NodeState) (d : Declarations)
    (m : ModuleId) (c : VersionConstraint) : Prop where
  feeds : s.Feeds i p n t d
  before : i < s.visitBound
  differs : (s.below (s.origin p t) d).get? m ≠ some c
  overtaken : s.Overtaken i p t d m c

/-- When a walk ends, all nodes with a dependency on a node pass down a constraint for a module. -/
def AllPassDown (s : Situation) (n m : ModuleId) (c : VersionConstraint) : Prop :=
  ∀ p t d, s.Declares s.traverse p t d → s.LeadsTo t d n →
    (s.below (s.origin p t) d).get? m = some c

theorem allPassDown_iff : s.AllPassDown n m c ↔
    ∀ e ∈ s.traverse.nodes.toList, ∀ d ∈ s.declared? e.1 e.2, s.LeadsTo e.2 d n →
      (s.below (s.origin e.1 e.2) d).get? m = some c := by
  constructor
  · rintro h ⟨p, t⟩ he d hd hleads
    exact h p t d (declares_traverse_iff.2 ⟨Table.mem_toList_iff.1 he, hd⟩) hleads
  · intro h p t d hdeclares hleads
    obtain ⟨ht, hd⟩ := declares_traverse_iff.1 hdeclares
    exact h (p, t) (Table.mem_toList_iff.2 ht) d hd hleads

instance : Decidable (s.AllPassDown n m c) := decidable_of_iff _ allPassDown_iff.symm

theorem LeadsTo.mono (h : s.LeadsTo t d n) (hgrow : t.GrowsTo t') : s.LeadsTo t' d n := by
  obtain ⟨dep, hdep, hout, htarget⟩ := h
  refine ⟨dep, hdep, Bool.eq_false_iff.2 fun hleft => ?_, htarget⟩
  exact Bool.eq_false_iff.1 hout (isLeftOut_of_growsTo hgrow hleft)

/-- A visit that has passed down something else than the node does when the walk ends is
overtaken. -/
theorem Feeds.overtaken (h : s.Feeds i p n t d) (hi : i < s.visitBound)
    (hall : s.AllPassDown n m c) (hne : (s.below (s.origin p t) d).get? m ≠ some c) :
    s.Overtaken i p t d m c := by
  by_cases houtdated : s.Outdated i p t d
  · exact .reselected houtdated
  · obtain ⟨t', ht', hgrow, hd⟩ := h.visits.exists_declared? hi houtdated
    have hbelow := hall p t' d (declares_traverse_iff.2 ⟨ht', hd⟩) (h.leads.mono hgrow)
    rw [get?_below] at hbelow hne
    cases hold : t.inherited.get? m with
    | some other =>
      have hother : other ≠ c := by simpa [origin, hold] using hne
      cases hnew : t'.inherited.get? m with
      | none => exact .released ht' hold hother hnew
      | some c' =>
        -- what is inherited still is what was inherited before
        have hsame := hgrow.inherited hnew
        rw [hold, Option.some.injEq] at hsame
        subst hsame
        exact absurd (by simpa [origin, hnew] using hbelow) hother
    | none =>
      have hnone := hgrow.inherited_eq_none hold
      have hbinding : s.binding? t' d m = some c := by simpa [origin, hnone] using hbelow
      have hbinding' : s.binding? t d m ≠ some c := by simpa [origin, hold] using hne
      obtain ⟨dep, hdep, hdemands, hbefore, hafter⟩ := exists_readmitted hgrow hbinding hbinding'
      exact .readmitted ht' hdep hdemands hbefore hafter

/-- The requests that a node declares carry what the node inherits for their modules. -/
theorem inherited_of_mem_written (h : s.Declares s.traverse n st d) {slot : Slot} {e : Edge}
    (he : (slot, e) ∈ s.written (s.origin n st) d) :
    s.traverse.table.get? slot = some e ∧ e.request.inherited = st.inherited.get? e.target := by
  obtain ⟨hst, hd⟩ := declares_traverse_iff.1 h
  refine ⟨(upToDate_traverse hst).written hd he, ?_⟩
  rcases mem_written_iff.1 he with ⟨rd, -, -, rfl⟩ | ⟨rc, -, -, -, rfl⟩
  · rfl
  · rfl

/-- If all nodes with a dependency on a node pass down one constraint for a module when the walk
ends, then the node inherits it, and its requests for the module carry it, unless a visit that is
overtaken has passed down something else. -/
theorem inherited_eq_some_iff_of_allPassDown (hroot : n ≠ s.root)
    (hst : s.traverse.nodes.get? n = some st) (hall : s.AllPassDown n m c) :
    (st.inherited.get? m = some c ↔ ∀ i p t d, ¬ s.Strays i p n t d m c) ∧
      ∀ d, s.Declares s.traverse n st d → ∀ slot e, (slot, e) ∈ s.written (s.origin n st) d →
        e.target = m → s.traverse.table.get? slot = some e ∧
          e.request.inherited = st.inherited.get? m := by
  refine ⟨?_, ?_⟩
  · rw [inherited_eq_some_iff_agreed hroot hst]
    constructor
    · intro h i p t d hstrays
      exact hstrays.differs (h i hstrays.before p t d hstrays.feeds)
    · intro h i hi p t d hfeeds
      by_contra hne
      exact h i p t d ⟨hfeeds, hi, hne, hfeeds.overtaken hi hall hne⟩
  · rintro d hd slot e he rfl
    exact inherited_of_mem_written hd he

/-- The variant of `a` that was selected first has a dependency on `n`, the one that `b` asks for has
none. -/
def overtaken : Situation :=
  ofData
    ⟨⟨"org", "root", "1.0"⟩, Table.empty, [.on ⟨"org", "a", "1.0"⟩, .on ⟨"org", "b", "1.0"⟩], []⟩
    (Schema.withDisambiguation Table.empty "kind" (.prefer (.string "main")))
    [.double ⟨"org", "a", "1.0"⟩ ⟨"org", "extra"⟩ { dependencies := [.on ⟨"org", "n", "1.0"⟩] } {},
      .single ⟨"org", "b", "1.0"⟩
        [{ Dependency.on ⟨"org", "a", "1.0"⟩ with capabilities := [⟨"org", "extra"⟩] },
          .on ⟨"org", "n", "1.0"⟩]
        [{ module := ⟨"org", "m"⟩, constraint := { required := some "1.0", forSubgraph := true } }],
      .single ⟨"org", "n", "1.0"⟩ [.on ⟨"org", "m", "2.0"⟩],
      .single ⟨"org", "m", "2.0"⟩ []]

/-- Only `b` has a dependency on `n` when the walk ends, and it passes down its constraint; `n` does
not inherit it, because the visit of `a` with the other variant has passed down nothing. -/
theorem inherited_eq_some_iff_of_allPassDown_overtaken :
    let c : VersionConstraint := { required := some "1.0", forSubgraph := true }
    let n : ModuleId := ⟨"org", "n"⟩
    let m : ModuleId := ⟨"org", "m"⟩
    n ≠ overtaken.root ∧ overtaken.AllPassDown n m c ∧
      ∃ st, overtaken.traverse.nodes.get? n = some st ∧ st.inherited.get? m = none ∧
        ∃ i p t d, overtaken.Strays i p n t d m c := by
  intro c n m
  have hroot : n ≠ overtaken.root := by decide
  have hall : overtaken.AllPassDown n m c := by decide +kernel
  have hinherited : ((overtaken.traverse.nodes.get? n).any fun st =>
      st.inherited.get? m == none) = true := by
    decide +kernel
  obtain ⟨st, hst, hnone⟩ := (Option.any_eq_true _ _).1 hinherited
  rw [beq_iff_eq] at hnone
  have hiff := (inherited_eq_some_iff_of_allPassDown hroot hst hall).1
  refine ⟨hroot, hall, st, hst, hnone, ?_⟩
  by_contra hstrays
  push Not at hstrays
  rw [hiff.2 hstrays] at hnone
  cases hnone

end VariantGraph.Resolution.Situation
