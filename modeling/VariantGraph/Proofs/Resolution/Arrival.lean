import VariantGraph.Proofs.Resolution.EdgeTable
import VariantGraph.Proofs.Resolution.Merging
import VariantGraph.Resolution.Traversal

/-!
# Arriving at nodes

What one arrival and what the expansion of one node do to a walk. Nodes, selections and queue only
grow: a node whose state changes is queued, and a selection is withdrawn only with a new request.

Main statements: `Walk.get?_nodes_arrive` and `Walk.growsTo_arrive` describe one arrival,
`Situation.table_expand` the edges that an expansion writes, `Situation.growsTo_expand` and
`Situation.serves_expand` what it does to the nodes.
-/

namespace VariantGraph.Resolution

namespace Walk

/-! ## One arrival -/

section Arrive

variable (w : Walk) (m : ModuleId) (excludes : List ExcludeSet) (passedDown : Inherited)
  (ask : VariantRequest)

@[simp] theorem table_arrive : (w.arrive m excludes passedDown ask).table = w.table := by
  unfold arrive
  split <;> rfl

@[simp] theorem get?_nodes_arrive (x : ModuleId) :
    (w.arrive m excludes passedDown ask).nodes.get? x
      = if x = m then some (NodeState.after (w.nodes.get? m) excludes passedDown ask)
        else w.nodes.get? x := by
  unfold arrive
  cases h : w.nodes.get? m with
  | none => simp [discover, NodeState.after]
  | some node => simp [rejoin, NodeState.after]

theorem queue_arrive : (w.arrive m excludes passedDown ask).queue
    = if w.nodes.get? m = some (NodeState.after (w.nodes.get? m) excludes passedDown ask)
      then w.queue else w.queue ++ [m] := by
  unfold arrive
  cases h : w.nodes.get? m with
  | none => simp [discover]
  | some node =>
    simp only [rejoin, NodeState.after, Option.some.injEq, NodeState.changes_iff, ne_comm]
    exact ite_not _ _ _

theorem mem_queue_arrive {x : ModuleId} (h : x ∈ (w.arrive m excludes passedDown ask).queue) :
    x = m ∨ x ∈ w.queue := by
  rw [queue_arrive] at h
  split at h
  · exact .inr h
  · rcases List.mem_append.1 h with hx | hx
    · exact .inr hx
    · exact .inl (List.mem_singleton.1 hx)

/-- An arrival withdraws a selection exactly when it brings a new request to a known node. -/
theorem get?_outcomes_arrive (x : ModuleId) :
    (w.arrive m excludes passedDown ask).outcomes.get? x
      = if x = m ∧ ∃ node, w.nodes.get? m = some node ∧ ask ∉ node.asks then none
        else w.outcomes.get? x := by
  unfold arrive
  cases h : w.nodes.get? m with
  | none => simp [discover]
  | some node =>
    by_cases ha : ask ∈ node.asks
    · simp [rejoin, ha]
    · simp [rejoin, ha]

end Arrive

/-! ## Growing walks -/

/-- A walk `w` and the same walk `w'` after some arrivals. -/
structure GrowsTo (w w' : Walk) : Prop where
  node : ∀ {m st}, w.nodes.get? m = some st →
    ∃ st', w'.nodes.get? m = some st' ∧ st.GrowsTo st'
  queued : ∀ {m}, m ∈ w.queue → m ∈ w'.queue
  /-- A node whose state changes is queued. -/
  changed : ∀ {m}, w'.nodes.get? m ≠ w.nodes.get? m → m ∈ w'.queue
  /-- A node whose selection changes is queued. -/
  withdrawn : ∀ {m}, w'.outcomes.get? m ≠ w.outcomes.get? m → m ∈ w'.queue
  /-- A selection that stands was made for the requests that the node still has. -/
  outcome : ∀ {m o st st'}, w'.outcomes.get? m = some o → w.nodes.get? m = some st →
    w'.nodes.get? m = some st' → w.outcomes.get? m = some o ∧ st'.asks = st.asks
  /-- Nothing is selected for a node that is discovered. -/
  discovered : ∀ {m o}, w'.outcomes.get? m = some o → w.outcomes.get? m = some o

namespace GrowsTo

theorem refl (w : Walk) : w.GrowsTo w where
  node h := ⟨_, h, NodeState.GrowsTo.refl _⟩
  queued := id
  changed h := absurd rfl h
  withdrawn h := absurd rfl h
  outcome ho hst hst' := by
    rw [hst] at hst'
    cases hst'
    exact ⟨ho, rfl⟩
  discovered := id

theorem trans {w₁ w₂ w₃ : Walk} (h : w₁.GrowsTo w₂) (h' : w₂.GrowsTo w₃) : w₁.GrowsTo w₃ where
  node {m st} hst := by
    obtain ⟨st₂, hst₂, hg⟩ := h.node hst
    obtain ⟨st₃, hst₃, hg'⟩ := h'.node hst₂
    exact ⟨st₃, hst₃, hg.trans hg'⟩
  queued hm := h'.queued (h.queued hm)
  changed {m} hne := by
    by_cases heq : w₃.nodes.get? m = w₂.nodes.get? m
    · rw [heq] at hne
      exact h'.queued (h.changed hne)
    · exact h'.changed heq
  withdrawn {m} hne := by
    by_cases heq : w₃.outcomes.get? m = w₂.outcomes.get? m
    · rw [heq] at hne
      exact h'.queued (h.withdrawn hne)
    · exact h'.withdrawn heq
  outcome {m o st st'} ho hst hst' := by
    obtain ⟨st₂, hst₂, -⟩ := h.node hst
    obtain ⟨ho₂, hasks⟩ := h'.outcome ho hst₂ hst'
    obtain ⟨ho₁, hasks₂⟩ := h.outcome ho₂ hst hst₂
    exact ⟨ho₁, hasks.trans hasks₂⟩
  discovered ho := h.discovered (h'.discovered ho)

/-- A node stays a node. -/
theorem exists_node {w w' : Walk} (h : w.GrowsTo w') {m : ModuleId}
    (hm : ∃ t, w.nodes.get? m = some t) : ∃ t, w'.nodes.get? m = some t := by
  obtain ⟨t, ht⟩ := hm
  obtain ⟨t', ht', -⟩ := h.node ht
  exact ⟨t', ht'⟩

/-- A node that is not queued afterwards has kept its state. -/
theorem get?_nodes {w w' : Walk} (h : w.GrowsTo w') {m : ModuleId} (hm : m ∉ w'.queue) :
    w'.nodes.get? m = w.nodes.get? m :=
  Decidable.byContradiction fun hne => hm (h.changed hne)

/-- A node that is not queued afterwards has kept its selection. -/
theorem get?_outcomes {w w' : Walk} (h : w.GrowsTo w') {m : ModuleId} (hm : m ∉ w'.queue) :
    w'.outcomes.get? m = w.outcomes.get? m :=
  Decidable.byContradiction fun hne => hm (h.withdrawn hne)

end GrowsTo

theorem growsTo_arrive (w : Walk) (m : ModuleId) (excludes : List ExcludeSet)
    (passedDown : Inherited) (ask : VariantRequest) :
    w.GrowsTo (w.arrive m excludes passedDown ask) where
  node {x st} hst := by
    rw [get?_nodes_arrive]
    by_cases hx : x = m
    · subst hx
      rw [hst]
      exact ⟨_, if_pos rfl, NodeState.growsTo_after st⟩
    · exact ⟨st, by rw [if_neg hx, hst], NodeState.GrowsTo.refl st⟩
  queued {x} hx := by
    rw [queue_arrive]
    split
    · exact hx
    · exact List.mem_append_left _ hx
  changed {x} hne := by
    rw [get?_nodes_arrive] at hne
    by_cases hx : x = m
    · subst hx
      rw [if_pos rfl] at hne
      rw [queue_arrive, if_neg hne.symm]
      simp
    · rw [if_neg hx] at hne
      exact absurd rfl hne
  withdrawn {x} hne := by
    rw [get?_outcomes_arrive] at hne
    split at hne
    · next h =>
      obtain ⟨rfl, node, hnode, hask⟩ := h
      -- the new request changes the state
      have hst : w.nodes.get? x ≠ some (NodeState.after (w.nodes.get? x) excludes passedDown ask) := by
        intro heq
        rw [hnode, Option.some.injEq] at heq
        have hmem := NodeState.mem_asks_ask node ask
        rw [← NodeState.asks_merge _ excludes passedDown] at hmem
        exact hask (heq ▸ hmem)
      rw [queue_arrive, if_neg hst]
      simp
    · exact absurd rfl hne
  outcome {x o st st'} ho hst hst' := by
    rw [get?_outcomes_arrive] at ho
    rw [get?_nodes_arrive] at hst'
    split at ho
    · simp at ho
    · next hno =>
      refine ⟨ho, ?_⟩
      by_cases hx : x = m
      · subst hx
        have hask : ask ∈ st.asks := Decidable.byContradiction fun ha => hno ⟨rfl, st, hst, ha⟩
        rw [if_pos rfl, hst, Option.some.injEq] at hst'
        rw [← hst', NodeState.after, NodeState.asks_merge, NodeState.ask_eq_self_iff.2 hask]
      · rw [if_neg hx, hst, Option.some.injEq] at hst'
        rw [hst']
  discovered {x o} ho := by
    rw [get?_outcomes_arrive] at ho
    split at ho
    · simp at ho
    · exact ho

/-- Recording edges touches neither nodes nor selections nor the queue. -/
theorem growsTo_withTable (w : Walk) (t : EdgeTable) : w.GrowsTo { w with table := t } :=
  let r := GrowsTo.refl w
  ⟨r.node, r.queued, r.changed, r.withdrawn, r.outcome, r.discovered⟩

end Walk

/-! ## Expanding a node -/

namespace Situation

/-- The slot and the edge of a followed dependency. -/
def dependencySlot (o : Origin) (d : RuledDependency) : Slot × Edge :=
  (⟨o.module, false, d.index⟩, dependencyEdge o d)

/-- The slot and the edge of a dependency constraint. -/
def constraintSlot (o : Origin) (c : RuledConstraint) : Slot × Edge :=
  (⟨o.module, true, c.index⟩, constraintEdge o c)

/-- All that the expansion of a node writes: the edges of the dependencies that are not excluded and
of the constraints that are not on the root. -/
def written (s : Situation) (o : Origin) (d : Declarations) : List (Slot × Edge) :=
  (s.followed o.state d.dependencies).map (dependencySlot o) ++
    ((s.ruledConstraints d.constraints).filter fun c => c.ruled.module != s.root).map
      (constraintSlot o)

/-- The constraints that an expansion passes down. -/
def below (s : Situation) (o : Origin) (d : Declarations) : Inherited :=
  passedDown o.state.inherited
    ((s.followed o.state d.dependencies).map RuledDependency.ruled ++
      (s.ruledConstraints d.constraints).map RuledConstraint.ruled)

/-- The arrival along a followed dependency. -/
def arriveAlong (s : Situation) (o : Origin) (d : Declarations) (w : Walk) (rd : RuledDependency) :
    Walk :=
  w.arrive rd.ruled.module (excludesBelow o.state rd.declared) (s.below o d) (s.askOf rd.declared)

variable {s : Situation} {o : Origin} {d : Declarations}

theorem table_foldl_follow (b : Inherited) (l : List RuledDependency) (w : Walk) :
    (l.foldl (s.follow o b) w).table = w.table.recordAll (l.map (dependencySlot o)) := by
  induction l generalizing w with
  | nil => rfl
  | cons rd rest ih =>
    have hfollow : (s.follow o b w rd).table
        = w.table.record ⟨o.module, false, rd.index⟩ (dependencyEdge o rd) := by
      unfold follow
      dsimp only
      split
      · rfl
      · rw [Walk.table_arrive]
        rfl
    rw [List.foldl_cons, ih, hfollow]
    rfl

theorem foldl_recordConstraint (l : List RuledConstraint) (w : Walk) :
    l.foldl (s.recordConstraint o) w
      = let kept := l.filter fun c => c.ruled.module != s.root
        { w with table := w.table.recordAll (kept.map (constraintSlot o)) } := by
  induction l generalizing w with
  | nil => rfl
  | cons c rest ih =>
    rw [List.foldl_cons, ih]
    by_cases hc : c.ruled.module = s.root
    · simp [recordConstraint, hc]
    · simp [recordConstraint, hc, Walk.record, EdgeTable.recordAll, constraintSlot]

theorem expand_eq (s : Situation) (o : Origin) (d : Declarations) (w : Walk) :
    s.expand o d w
      = { (s.followed o.state d.dependencies).foldl (s.follow o (s.below o d)) w with
          table := w.table.recordAll (s.written o d) } := by
  unfold expand
  dsimp only
  rw [foldl_recordConstraint, table_foldl_follow, written, EdgeTable.recordAll_append]
  rfl

/-- The edges after an expansion. -/
theorem table_expand (s : Situation) (o : Origin) (d : Declarations) (w : Walk) :
    (s.expand o d w).table = w.table.recordAll (s.written o d) := by
  rw [expand_eq]

/-- What every arrival keeps and what does not depend on the edges, an expansion keeps. -/
theorem expand_induction {P : Walk → Prop} (htable : ∀ w t, P w → P { w with table := t })
    (harrive : ∀ w, P w → ∀ rd ∈ s.followed o.state d.dependencies, rd.ruled.module ≠ s.root →
      P (s.arriveAlong o d w rd))
    {w : Walk} (h : P w) : P (s.expand o d w) := by
  rw [expand_eq]
  refine htable _ _ ?_
  have hfold : ∀ (l : List RuledDependency) (w : Walk),
      (∀ rd ∈ l, rd ∈ s.followed o.state d.dependencies) → P w →
      P (l.foldl (s.follow o (s.below o d)) w) := by
    intro l
    induction l with
    | nil => exact fun _ _ hw => hw
    | cons rd rest ih =>
      intro w hl hw
      refine ih _ (fun x hx => hl x (List.mem_cons_of_mem _ hx)) ?_
      unfold follow
      dsimp only
      split
      · exact htable _ _ hw
      · next hne => exact harrive _ (htable _ _ hw) rd (hl rd List.mem_cons_self) hne
  exact hfold _ w (fun _ hx => hx) h

theorem growsTo_expand (s : Situation) (o : Origin) (d : Declarations) (w : Walk) :
    w.GrowsTo (s.expand o d w) :=
  expand_induction (P := fun w' => w.GrowsTo w') (fun _ _ h => h.trans (Walk.growsTo_withTable _ _))
    (fun _ h _ _ _ => h.trans (Walk.growsTo_arrive _ _ _ _ _)) (Walk.GrowsTo.refl w)

theorem growsTo_follow (b : Inherited) (w : Walk) (rd : RuledDependency) :
    w.GrowsTo (s.follow o b w rd) := by
  unfold follow
  dsimp only
  split
  · exact Walk.growsTo_withTable _ _
  · exact (Walk.growsTo_withTable _ _).trans (Walk.growsTo_arrive _ _ _ _ _)

theorem growsTo_foldl_follow (b : Inherited) (l : List RuledDependency) (w : Walk) :
    w.GrowsTo (l.foldl (s.follow o b) w) := by
  induction l generalizing w with
  | nil => exact Walk.GrowsTo.refl w
  | cons rd rest ih => exact (growsTo_follow b w rd).trans (ih _)

/-- After an expansion the targets of all followed dependencies other than the root are nodes, and
they serve what the expanded node passes on. -/
theorem serves_expand (hne : o.state.excludeSets ≠ []) (w : Walk) {rd : RuledDependency}
    (hrd : rd ∈ s.followed o.state d.dependencies) (hroot : rd.ruled.module ≠ s.root) :
    ∃ t, (s.expand o d w).nodes.get? rd.ruled.module = some t ∧
      t.Serves (excludesBelow o.state rd.declared) (s.below o d) (s.askOf rd.declared) := by
  rw [expand_eq]
  dsimp only
  generalize s.followed o.state d.dependencies = l at hrd
  induction l generalizing w with
  | nil => simp at hrd
  | cons x rest ih =>
    rcases List.mem_cons.1 hrd with rfl | hmem
    · -- served at its own arrival, and by all later states
      have hincoming : excludesBelow o.state rd.declared ≠ [] := by simpa [excludesBelow] using hne
      obtain ⟨t₀, ht₀, hserves⟩ : ∃ t₀,
          (s.follow o (s.below o d) w rd).nodes.get? rd.ruled.module = some t₀ ∧
            t₀.Serves (excludesBelow o.state rd.declared) (s.below o d) (s.askOf rd.declared) := by
        unfold follow
        dsimp only
        rw [if_neg hroot, Walk.get?_nodes_arrive, if_pos rfl]
        exact ⟨_, rfl, NodeState.serves_after _ hincoming⟩
      obtain ⟨t, ht, hgrow⟩ := (growsTo_foldl_follow (s.below o d) rest _).node ht₀
      exact ⟨t, ht, hserves.mono hgrow⟩
    · exact ih _ hmem

end Situation

end VariantGraph.Resolution
