import VariantGraph.Proofs.Resolution.NodeState
import VariantGraph.Proofs.Table

/-!
# Merging the paths to a node

A merge leaves what the node and the other paths agree on, and it reports whether that is less than
before. Exclude sets are only added behind those that are there, so the report, which is made up
while they are added, is right when the list has become longer; a path that excludes nothing takes
the place of sets none of which is empty. Merging the same paths again changes nothing, since their
sets are there already.

Main statements: `setsChange_iff`, `mergeSets_mergeSets` and, for a whole state,
`NodeState.merge_meet`.
-/

namespace VariantGraph.Resolution

variable {sets incoming : List ExcludeSet} {set x : ExcludeSet}

/-! ## Exclude sets -/

theorem mem_normalize (h : set ∈ normalize sets) : set = Table.empty ∨ set ∈ sets := by
  unfold normalize at h
  split at h
  · exact .inl (List.mem_singleton.1 h)
  · exact .inr (OrderedSet.mem_elements_ofElements.1 h)

theorem nodup_normalize (sets : List ExcludeSet) : (normalize sets).Nodup := by
  unfold normalize
  split
  · exact List.nodup_singleton _
  · exact Table.nodup_keys _

theorem nodup_addSet (h : sets.Nodup) (set : ExcludeSet) : (addSet sets set).Nodup := by
  unfold addSet
  split
  · exact h
  · next hc =>
    have hnot : set ∉ sets := fun hmem => hc (List.contains_iff_mem.2 hmem)
    rw [List.nodup_append]
    refine ⟨h, List.nodup_singleton set, ?_⟩
    rintro x hx y hy rfl
    obtain rfl := List.mem_singleton.1 hy
    exact hnot hx

theorem prefix_addSet (sets : List ExcludeSet) (set : ExcludeSet) : sets <+: addSet sets set := by
  unfold addSet
  split
  · exact List.prefix_rfl
  · exact List.prefix_append _ _

theorem mem_addSet : x ∈ addSet sets set ↔ x = set ∨ x ∈ sets := by
  unfold addSet
  split
  · next hc =>
    have hmem : set ∈ sets := List.contains_iff_mem.1 hc
    constructor
    · exact .inr
    · rintro (rfl | hx)
      · exact hmem
      · exact hx
  · rw [List.mem_append, List.mem_singleton, or_comm]

theorem addSet_eq_self_iff : addSet sets set = sets ↔ set ∈ sets := by
  constructor
  · intro h
    rw [← h]
    exact mem_addSet.2 (.inl rfl)
  · intro h
    rw [addSet, if_pos (List.contains_iff_mem.2 h)]

theorem nodup_foldl_addSet (h : sets.Nodup) (incoming : List ExcludeSet) :
    (incoming.foldl addSet sets).Nodup := by
  induction incoming generalizing sets with
  | nil => exact h
  | cons set rest ih => exact ih (nodup_addSet h set)

theorem prefix_foldl_addSet (sets incoming : List ExcludeSet) :
    sets <+: incoming.foldl addSet sets := by
  induction incoming generalizing sets with
  | nil => exact List.prefix_rfl
  | cons set rest ih => exact (prefix_addSet sets set).trans (ih _)

theorem mem_foldl_addSet : x ∈ incoming.foldl addSet sets ↔ x ∈ incoming ∨ x ∈ sets := by
  induction incoming generalizing sets with
  | nil => simp
  | cons set rest ih =>
    rw [List.foldl_cons, ih, mem_addSet, List.mem_cons]
    exact or_left_comm.trans or_assoc.symm

theorem foldl_addSet_eq_self (h : ∀ s ∈ incoming, s ∈ sets) : incoming.foldl addSet sets = sets := by
  induction incoming with
  | nil => rfl
  | cons set rest ih =>
    obtain ⟨hset, hrest⟩ := List.forall_mem_cons.1 h
    rw [List.foldl_cons, addSet_eq_self_iff.2 hset, ih hrest]

theorem nodup_mergeSets (h : sets.Nodup) (incoming : List ExcludeSet) :
    (mergeSets sets incoming).Nodup := by
  unfold mergeSets
  split
  · exact h
  · split
    · exact List.nodup_singleton _
    · exact nodup_foldl_addSet h incoming

theorem mem_mergeSets (h : x ∈ mergeSets sets incoming) :
    x = Table.empty ∨ x ∈ incoming ∨ x ∈ sets := by
  unfold mergeSets at h
  split at h
  · exact .inr (.inr h)
  · split at h
    · exact .inl (List.mem_singleton.1 h)
    · exact .inr (mem_foldl_addSet.1 h)

/-- Merging the same sets again changes nothing. -/
theorem mergeSets_mergeSets (sets incoming : List ExcludeSet) :
    mergeSets (mergeSets sets incoming) incoming = mergeSets sets incoming := by
  by_cases hold : sets.any Table.isEmpty
  · rw [mergeSets, mergeSets, if_pos hold, if_pos hold]
  · by_cases hempty : incoming.any Table.isEmpty
    · have hmerged : mergeSets sets incoming = [Table.empty] := by
        rw [mergeSets, if_neg hold, if_pos hempty]
      rw [hmerged]
      rfl
    · have hmerged : mergeSets sets incoming = incoming.foldl addSet sets := by
        rw [mergeSets, if_neg hold, if_neg hempty]
      have hfull : ¬ (incoming.foldl addSet sets).any Table.isEmpty := by
        intro h
        obtain ⟨s, hs, he⟩ := List.any_eq_true.1 h
        rcases mem_foldl_addSet.1 hs with hs | hs
        · exact hempty (List.any_eq_true.2 ⟨s, hs, he⟩)
        · exact hold (List.any_eq_true.2 ⟨s, hs, he⟩)
      rw [hmerged, mergeSets, if_neg hfull, if_neg hempty]
      exact foldl_addSet_eq_self fun s hs => mem_foldl_addSet.2 (.inl hs)

/-! ## Reported changes -/

/-- While sets are added, a change is noted as soon as one was not there. -/
theorem snd_foldl_addSetNoting_iff {r : List ExcludeSet × Bool} :
    (incoming.foldl addSetNoting r).2 = true ↔ r.2 = true ∨ incoming.foldl addSet r.1 ≠ r.1 := by
  induction incoming generalizing r with
  | nil => simp
  | cons set rest ih =>
    rw [List.foldl_cons, List.foldl_cons, ih]
    by_cases hset : set ∈ r.1
    · have hnoted : addSetNoting r set = r := by
        simp [addSetNoting, addSet_eq_self_iff.2 hset, hset]
      rw [hnoted, addSet_eq_self_iff.2 hset]
    · have hnoted : (addSetNoting r set).2 = true := by simp [addSetNoting, hset]
      -- the set that was added stays
      have hne : rest.foldl addSet (addSet r.1 set) ≠ r.1 := by
        intro heq
        have hmem : set ∈ rest.foldl addSet (addSet r.1 set) :=
          mem_foldl_addSet.2 (.inr (mem_addSet.2 (.inl rfl)))
        exact hset (heq ▸ hmem)
      exact iff_of_true (.inl hnoted) (.inr hne)

theorem setsChange_iff : setsChange sets incoming = true ↔ mergeSets sets incoming ≠ sets := by
  unfold setsChange mergeSets
  by_cases hold : sets.any Table.isEmpty
  · simp [hold]
  · rw [if_neg hold, if_neg hold]
    by_cases hempty : incoming.any Table.isEmpty
    · have hne : [Table.empty] ≠ sets := by
        rintro rfl
        exact hold rfl
      simp [hempty, hne]
    · rw [if_neg hempty, if_neg hempty, snd_foldl_addSetNoting_iff]
      simp

namespace NodeState

variable {n : NodeState} {passedDown : Inherited}

/-- A merge reports a change exactly when it changes the state. -/
theorem mergeChanges_iff :
    n.mergeChanges incoming passedDown = true ↔ n.merge incoming passedDown ≠ n := by
  have hmerge : n.merge incoming passedDown = n ↔
      mergeSets n.excludeSets incoming = n.excludeSets ∧
        (n.merge incoming passedDown).inherited = n.inherited := by
    constructor
    · intro h
      exact ⟨congrArg excludeSets h, congrArg inherited h⟩
    · rintro ⟨hsets, hinherited⟩
      obtain ⟨oldSets, oldInherited, asks⟩ := n
      exact congrArg₂ (NodeState.mk · · asks) hsets hinherited
  have hsize : (n.merge incoming passedDown).inherited.size = n.inherited.size ↔
      (n.merge incoming passedDown).inherited = n.inherited :=
    ⟨fun h => Table.filter_eq_self_of_size (Nat.le_of_eq h.symm), congrArg Table.size⟩
  unfold mergeChanges
  rw [Bool.or_eq_true, setsChange_iff, bne_iff_ne, Ne, Ne, Ne, hsize, hmerge]
  exact Decidable.not_and_iff_not_or_not.symm

/-- When a path arrives, a change is reported or the request is new exactly when the state of the
node changes. -/
theorem changes_iff {ask : VariantRequest} :
    ((n.ask ask).mergeChanges incoming passedDown || !n.asks.contains ask) = true ↔
      (n.ask ask).merge incoming passedDown ≠ n := by
  by_cases hask : ask ∈ n.asks
  · have hself : n.ask ask = n := ask_eq_self_iff.2 hask
    rw [hself, ← mergeChanges_iff, List.contains_iff_mem.2 hask, Bool.not_true, Bool.or_false]
  · have hne : (n.ask ask).merge incoming passedDown ≠ n := by
      intro heq
      have hmem := mem_asks_ask n ask
      rw [← asks_merge _ incoming passedDown, heq] at hmem
      exact hask hmem
    exact iff_of_true (by simp [hask]) hne

/-- Merging the same paths again changes nothing. -/
theorem merge_merge (n : NodeState) (incoming : List ExcludeSet) (passedDown : Inherited) :
    (n.merge incoming passedDown).merge incoming passedDown = n.merge incoming passedDown := by
  have hinherited : ((n.merge incoming passedDown).merge incoming passedDown).inherited
      = (n.merge incoming passedDown).inherited := by
    refine Table.ext_get? fun m => ?_
    rw [get?_inherited_merge, get?_inherited_merge, Option.filter_filter]
    simp
  exact congrArg₂ (NodeState.mk · · n.asks) (mergeSets_mergeSets n.excludeSets incoming) hinherited

theorem excludes_merge_iff {m : ModuleId} : (n.merge incoming passedDown).excludes m = true ↔
    n.excludes m = true ∧
      ∀ s ∈ incoming, ∃ r ∈ OrderedSet.elements s, r.admits m = true := by
  rw [excludes_merge, Bool.and_eq_true, List.all_eq_true]
  simp only [ExcludeSet.admits_iff]

/-- Normalising keeps the modules that every set excludes. -/
theorem forall_mem_normalize_iff (h : sets ≠ []) {m : ModuleId} :
    (∀ s ∈ normalize sets, ∃ r ∈ OrderedSet.elements s, r.admits m = true) ↔
      ∀ s ∈ sets, ∃ r ∈ OrderedSet.elements s, r.admits m = true := by
  have hall := excludes_normalize h m
  rw [Bool.eq_iff_iff, List.all_eq_true, List.all_eq_true] at hall
  simpa only [ExcludeSet.admits_iff] using hall

/-- After a merge a node excludes a module if it did before and every incoming set does, and it
inherits a constraint if it did before and the other paths pass down the same one. A change is
reported exactly when there is one, and merging the same paths again makes none. -/
theorem merge_meet (n : NodeState) (incoming : List ExcludeSet) (passedDown : Inherited) :
    (∀ m, (n.merge incoming passedDown).excludes m = true ↔ n.excludes m = true ∧
        ∀ s ∈ incoming, ∃ r ∈ OrderedSet.elements s, r.admits m = true) ∧
      (∀ m c, (n.merge incoming passedDown).inherited.get? m = some c ↔
        n.inherited.get? m = some c ∧ passedDown.get? m = some c) ∧
      (n.mergeChanges incoming passedDown = true ↔ n.merge incoming passedDown ≠ n) ∧
      ((n.merge incoming passedDown).merge incoming passedDown = n.merge incoming passedDown ∧
        (n.merge incoming passedDown).mergeChanges incoming passedDown = false) ∧
      ∀ sets : List ExcludeSet, sets ≠ [] → ∀ m,
        ((∀ s ∈ normalize sets, ∃ r ∈ OrderedSet.elements s, r.admits m = true) ↔
          ∀ s ∈ sets, ∃ r ∈ OrderedSet.elements s, r.admits m = true) := by
  refine ⟨fun _ => excludes_merge_iff, fun _ _ => inherited_merge_iff, mergeChanges_iff, ?_,
    fun _ hne _ => forall_mem_normalize_iff hne⟩
  have hagain := merge_merge n incoming passedDown
  refine ⟨hagain, ?_⟩
  rw [← Bool.not_eq_true, mergeChanges_iff]
  exact not_not_intro hagain

/-- The rules of two paths: one excludes a module, the other one its whole group. -/
def sidings : List ExcludeSet :=
  [OrderedSet.ofElements [⟨some "org", some "lib"⟩], OrderedSet.ofElements [⟨some "org", none⟩]]

/-- A node that the first path has reached. -/
def sided : NodeState := ⟨sidings.take 1, Table.empty, [{}]⟩

/-- The second path arrives: what both exclude stays excluded. -/
theorem merge_meet_sided :
    sided.mergeChanges sidings Table.empty = true ∧ sided.merge sidings Table.empty ≠ sided ∧
      (sided.merge sidings Table.empty).excludes ⟨"org", "lib"⟩ = true ∧
      ¬ (sided.merge sidings Table.empty).excludes ⟨"org", "core"⟩ = true ∧
      sidings ≠ [] ∧ ∀ s ∈ normalize sidings,
        ∃ r ∈ OrderedSet.elements s, r.admits ⟨"org", "lib"⟩ = true := by
  obtain ⟨hexcludes, -, hchanges, -, hnormalize⟩ := merge_meet sided sidings Table.empty
  have hreported : sided.mergeChanges sidings Table.empty = true := by decide +kernel
  have hne : sidings ≠ [] := List.cons_ne_nil _ _
  refine ⟨hreported, hchanges.1 hreported, (hexcludes _).2 (by decide +kernel), ?_, hne,
    (hnormalize _ hne _).2 (by decide +kernel)⟩
  rw [hexcludes]
  decide +kernel

end NodeState

end VariantGraph.Resolution
