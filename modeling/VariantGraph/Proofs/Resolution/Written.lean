import VariantGraph.Proofs.Resolution.Arrival

/-!
# What an expansion writes

An expansion writes one edge for each dependency that is not excluded at the node and for each
constraint that is not on the root, each into the slot of its place among the declarations.

Main statements: `Situation.mem_written_iff` lists the edges, `Situation.nodup_slots_written` says
that no slot is written twice.
-/

namespace VariantGraph.Resolution.Situation

variable {s : Situation} {o : Origin} {d : Declarations}

/-- The module that a dependency leads to after the rules. -/
def dependencyTarget (s : Situation) (d : Dependency) : ModuleId :=
  (s.underRules d.module d.constraint).module

/-- The module that a dependency constraint is on after the rules. -/
def constraintTarget (s : Situation) (c : DependencyConstraint) : ModuleId :=
  (s.underRules c.module c.constraint).module

/-- Whether a dependency is left out at a node: every path to the node excludes the declared module,
or the one that the rules put in its place. -/
def isLeftOut (s : Situation) (st : NodeState) (d : Dependency) : Bool :=
  st.excludes d.module || st.excludes (s.dependencyTarget d)

theorem mem_followed_iff {st : NodeState} {l : List Dependency} {rd : RuledDependency} :
    rd ∈ s.followed st l ↔ l[rd.index]? = some rd.declared ∧ s.isLeftOut st rd.declared = false ∧
      rd.ruled = s.underRules rd.declared.module rd.declared.constraint := by
  unfold followed
  rw [List.mem_filterMap]
  constructor
  · rintro ⟨⟨dep, i⟩, hmem, hrd⟩
    dsimp only at hrd
    split at hrd
    · simp at hrd
    · next hout =>
      obtain rfl := Option.some.inj hrd
      exact ⟨List.mem_zipIdx_iff_getElem?.1 hmem, Bool.eq_false_iff.2 hout, rfl⟩
  · rintro ⟨hget, hout, hruled⟩
    refine ⟨(rd.declared, rd.index), List.mem_zipIdx_iff_getElem?.2 hget, ?_⟩
    have hkept : ¬ (st.excludes rd.declared.module ||
        st.excludes (s.underRules rd.declared.module rd.declared.constraint).module) = true :=
      Bool.eq_false_iff.1 hout
    dsimp only
    rw [if_neg hkept, ← hruled]

/-- A followed dependency leads to the module of its ruled form. -/
theorem dependencyTarget_of_mem_followed {st : NodeState} {l : List Dependency}
    {rd : RuledDependency} (h : rd ∈ s.followed st l) :
    s.dependencyTarget rd.declared = rd.ruled.module := by
  rw [(mem_followed_iff.1 h).2.2]
  rfl

theorem mem_ruledConstraints_iff {l : List DependencyConstraint} {rc : RuledConstraint} :
    rc ∈ s.ruledConstraints l ↔
      ∃ c, l[rc.index]? = some c ∧ rc.ruled = s.underRules c.module c.constraint := by
  unfold ruledConstraints
  rw [List.mem_map]
  constructor
  · rintro ⟨⟨c, i⟩, hmem, rfl⟩
    exact ⟨c, List.mem_zipIdx_iff_getElem?.1 hmem, rfl⟩
  · rintro ⟨c, hget, hruled⟩
    refine ⟨(c, rc.index), List.mem_zipIdx_iff_getElem?.2 hget, ?_⟩
    dsimp only
    rw [← hruled]

/-- The ruled form of a dependency that is followed. -/
theorem followed_of_getElem? {st : NodeState} {l : List Dependency} {i : Nat} {dep : Dependency}
    (hget : l[i]? = some dep) (hout : s.isLeftOut st dep = false) :
    (⟨i, dep, s.underRules dep.module dep.constraint⟩ : RuledDependency) ∈ s.followed st l :=
  mem_followed_iff.2 ⟨hget, hout, rfl⟩

theorem mem_written_iff {k : Slot} {e : Edge} : (k, e) ∈ s.written o d ↔
    (∃ rd ∈ s.followed o.state d.dependencies,
      k = ⟨o.module, false, rd.index⟩ ∧ e = dependencyEdge o rd) ∨
    ∃ rc ∈ s.ruledConstraints d.constraints, rc.ruled.module ≠ s.root ∧
      k = ⟨o.module, true, rc.index⟩ ∧ e = constraintEdge o rc := by
  unfold written dependencySlot constraintSlot
  rw [List.mem_append, List.mem_map, List.mem_map]
  refine or_congr (exists_congr fun rd => and_congr_right fun _ => ?_) ⟨?_, ?_⟩
  · rw [Prod.mk.injEq, eq_comm (b := k), eq_comm (b := e)]
  · rintro ⟨rc, hrc, heq⟩
    obtain ⟨hmem, hne⟩ := List.mem_filter.1 hrc
    obtain ⟨rfl, rfl⟩ := Prod.mk.inj heq
    exact ⟨rc, hmem, by simpa using hne, rfl, rfl⟩
  · rintro ⟨rc, hrc, hne, rfl, rfl⟩
    exact ⟨rc, List.mem_filter.2 ⟨hrc, by simpa using hne⟩, rfl⟩

/-- Everything that an expansion writes comes from the expanded node and stays within its
declarations. -/
theorem of_mem_written {k : Slot} {e : Edge} (h : (k, e) ∈ s.written o d) :
    k.source = o.module ∧ e.source = o.module ∧ e.request.isConstraint = k.isConstraint ∧
      EdgeTable.isCurrent o.module d.dependencies.length d.constraints.length k = true := by
  rcases mem_written_iff.1 h with ⟨rd, hrd, rfl, rfl⟩ | ⟨rc, hrc, -, rfl, rfl⟩
  · have hlt := (List.getElem?_eq_some_iff.1 (mem_followed_iff.1 hrd).1).1
    exact ⟨rfl, rfl, rfl, by simp [EdgeTable.isCurrent, hlt]⟩
  · obtain ⟨c, hget, -⟩ := mem_ruledConstraints_iff.1 hrc
    have hlt := (List.getElem?_eq_some_iff.1 hget).1
    exact ⟨rfl, rfl, rfl, by simp [EdgeTable.isCurrent, hlt]⟩

/-- The places of a list are distinct. -/
theorem pairwise_snd_zipIdx {α : Type} (l : List α) :
    l.zipIdx.Pairwise fun a b => a.2 ≠ b.2 := by
  have hnd : (l.zipIdx.map Prod.snd).Nodup := by
    rw [List.zipIdx_map_snd]
    exact List.nodup_range'
  exact List.pairwise_map.1 hnd

theorem pairwise_index_followed (s : Situation) (st : NodeState) (l : List Dependency) :
    (s.followed st l).Pairwise fun a b => a.index ≠ b.index := by
  unfold followed
  refine List.Pairwise.filterMap _ ?_ (pairwise_snd_zipIdx l)
  intro a b hne x hx y hy
  dsimp only at hx hy
  split at hx
  · simp at hx
  · split at hy
    · simp at hy
    · obtain rfl := Option.some.inj hx
      obtain rfl := Option.some.inj hy
      exact hne

theorem pairwise_index_ruledConstraints (s : Situation) (l : List DependencyConstraint) :
    (s.ruledConstraints l).Pairwise fun a b => a.index ≠ b.index := by
  unfold ruledConstraints
  exact List.pairwise_map.2 (pairwise_snd_zipIdx l)

/-- No slot is written twice. -/
theorem nodup_slots_written (s : Situation) (o : Origin) (d : Declarations) :
    ((s.written o d).map (·.1)).Nodup := by
  rw [written, List.map_append, List.map_map, List.map_map, List.nodup_append]
  refine ⟨?_, ?_, ?_⟩
  · refine List.pairwise_map.2 ((pairwise_index_followed s o.state d.dependencies).imp ?_)
    intro a b hne heq
    exact hne (congrArg Slot.index heq)
  · refine List.pairwise_map.2 (((pairwise_index_ruledConstraints s d.constraints).filter _).imp ?_)
    intro a b hne heq
    exact hne (congrArg Slot.index heq)
  · -- dependencies and constraints have slots of different kinds
    rintro x hx y hy rfl
    obtain ⟨rd, -, hrd⟩ := List.mem_map.1 hx
    obtain ⟨rc, -, hrc⟩ := List.mem_map.1 hy
    have hkind := congrArg Slot.isConstraint (hrd.trans hrc.symm)
    exact Bool.noConfusion hkind

/-- The edge that an expansion leaves in a slot that it writes. -/
theorem get?_table_expand_of_mem {k : Slot} {e : Edge} (h : (k, e) ∈ s.written o d) (w : Walk) :
    (s.expand o d w).table.get? k = some e := by
  rw [table_expand]
  exact EdgeTable.get?_recordAll_of_mem (nodup_slots_written s o d) h w.table

/-- A slot that an expansion does not write keeps its edge. -/
theorem get?_table_expand_of_not_mem {k : Slot} (h : ∀ e, (k, e) ∉ s.written o d) (w : Walk) :
    (s.expand o d w).table.get? k = w.table.get? k := by
  rw [table_expand]
  exact EdgeTable.get?_recordAll_of_not_mem h w.table

/-- The slots of other nodes keep their edges. -/
theorem get?_table_expand_of_ne {k : Slot} (h : k.source ≠ o.module) (w : Walk) :
    (s.expand o d w).table.get? k = w.table.get? k :=
  get?_table_expand_of_not_mem (fun _ he => h (of_mem_written he).1) w

end VariantGraph.Resolution.Situation
