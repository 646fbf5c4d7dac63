import Mathlib.Logic.ExistsUnique
import VariantGraph.Proofs.Resolution.EdgeTable

/-!
# The calls on an edge table

A table of edges comes from the empty one by calls that record an edge in a slot or truncate the
slots of a node. Whatever the calls are, each position is that of one slot and holds the edge that
was last recorded there; truncating takes away the slots that a node no longer has, and the other
edges close ranks.

Main statements: `EdgeTable.get?_ofCalls_iff` says which edge a slot holds after some calls,
`EdgeTable.truncated_truncate` what truncating does, `EdgeTable.ofCalls_consistent` all of it.
-/

namespace VariantGraph.Resolution.EdgeTable

/-- A call that changes a table. -/
inductive Call where
  | record (slot : Slot) (edge : Edge)
  | truncate (m : ModuleId) (dependencies constraints : Nat)

namespace Call

/-- A table after a call. -/
def apply (t : EdgeTable) : Call → EdgeTable
  | record slot edge => t.record slot edge
  | truncate m dependencies constraints => t.truncate m dependencies constraints

/-- A call does not touch a slot: it records another one, or it truncates and the slot is not one of
that node from the given index on. -/
def Spares (k : Slot) : Call → Prop
  | record slot _ => k ≠ slot
  | truncate m dependencies constraints =>
    ¬ (k.source = m ∧ (if k.isConstraint then constraints else dependencies) ≤ k.index)

end Call

/-- The table after some calls on the empty one. -/
def ofCalls (calls : List Call) : EdgeTable := calls.foldl Call.apply empty

/-- The edge that was last recorded in a slot: no later call touches the slot. -/
def LastRecorded (calls : List Call) (k : Slot) (e : Edge) : Prop :=
  ∃ before after, calls = before ++ Call.record k e :: after ∧ ∀ call ∈ after, call.Spares k

variable {t t' : EdgeTable} {m : ModuleId} {d c : Nat} {k : Slot} {e : Edge} {call : Call}
  {calls : List Call}

/-! ## The edge in a slot -/

theorem isCurrent_iff : isCurrent m d c k = true ↔
    ¬ (k.source = m ∧ (if k.isConstraint then c else d) ≤ k.index) := by
  rw [isCurrent, Bool.or_eq_true, bne_iff_ne, decide_eq_true_eq, ← Nat.not_le]
  exact Decidable.not_and_iff_not_or_not.symm

theorem get?_apply_iff : (call.apply t).get? k = some e ↔
    call = .record k e ∨ call.Spares k ∧ t.get? k = some e := by
  cases call with
  | record slot edge =>
    rw [Call.apply, get?_record, Call.Spares]
    by_cases hk : k = slot
    · subst hk
      simp
    · have hne : ¬ slot = k := fun h => hk h.symm
      simp [hk, hne]
  | truncate m d c =>
    rw [Call.apply, get?_truncate, Call.Spares, ← isCurrent_iff]
    cases isCurrent m d c k <;> simp

theorem not_lastRecorded_nil : ¬ LastRecorded [] k e := by
  rintro ⟨before, after, h, -⟩
  simp at h

theorem lastRecorded_cons_iff : LastRecorded (call :: calls) k e ↔
    (call = .record k e ∧ ∀ x ∈ calls, x.Spares k) ∨ LastRecorded calls k e := by
  constructor
  · rintro ⟨before, after, h, hspares⟩
    cases before with
    | nil =>
      obtain ⟨rfl, rfl⟩ := List.cons.inj h
      exact .inl ⟨rfl, hspares⟩
    | cons first before =>
      obtain ⟨-, rfl⟩ := List.cons.inj h
      exact .inr ⟨before, after, rfl, hspares⟩
  · rintro (⟨rfl, hspares⟩ | ⟨before, after, rfl, hspares⟩)
    · exact ⟨[], calls, rfl, hspares⟩
    · exact ⟨call :: before, after, rfl, hspares⟩

/-- After some calls a slot holds the edge that they recorded last, or the one that it held before
if they all spare it. -/
theorem get?_foldl_apply_iff : (calls.foldl Call.apply t).get? k = some e ↔
    LastRecorded calls k e ∨ (∀ x ∈ calls, x.Spares k) ∧ t.get? k = some e := by
  induction calls generalizing t with
  | nil => simp [not_lastRecorded_nil]
  | cons call calls ih =>
    rw [List.foldl_cons, ih, get?_apply_iff, lastRecorded_cons_iff, List.forall_mem_cons]
    constructor
    · rintro (hlast | ⟨hspares, rfl | ⟨hcall, hold⟩⟩)
      · exact .inl (.inr hlast)
      · exact .inl (.inl ⟨rfl, hspares⟩)
      · exact .inr ⟨⟨hcall, hspares⟩, hold⟩
    · rintro ((⟨rfl, hspares⟩ | hlast) | ⟨⟨hcall, hspares⟩, hold⟩)
      · exact .inr ⟨hspares, .inl rfl⟩
      · exact .inl hlast
      · exact .inr ⟨hspares, .inr ⟨hcall, hold⟩⟩

/-- A slot holds the edge that was last recorded for it. -/
theorem get?_ofCalls_iff : (ofCalls calls).get? k = some e ↔ LastRecorded calls k e := by
  rw [ofCalls, get?_foldl_apply_iff]
  simp

/-! ## Truncated tables -/

/-- The table `t'` is what `t` becomes when a node has so many dependencies and constraints: its
slots from these indices on are gone, all other slots keep their edges, and these keep their order. -/
structure Truncated (t t' : EdgeTable) (m : ModuleId) (dependencies constraints : Nat) : Prop where
  slots : ∀ k, (∃ j, t'.positions.get? k = some j) ↔ (∃ i, t.positions.get? k = some i) ∧
    ¬ (k.source = m ∧ (if k.isConstraint then constraints else dependencies) ≤ k.index)
  edges : ∀ {k i j}, t.positions.get? k = some i → t'.positions.get? k = some j →
    t'.edges[j]? = t.edges[i]?
  order : ∀ {k k' i i' j j'}, t.positions.get? k = some i → t.positions.get? k' = some i' →
    t'.positions.get? k = some j → t'.positions.get? k' = some j' → (i < i' ↔ j < j')

theorem truncated_truncate (t : EdgeTable) (m : ModuleId) (d c : Nat) :
    Truncated t (t.truncate m d c) m d c where
  slots k := by
    rw [← isCurrent_iff]
    constructor
    · rintro ⟨j, hj⟩
      obtain ⟨i, hi, hcurrent, -⟩ := positions_truncate_iff.1 hj
      exact ⟨⟨i, hi⟩, hcurrent⟩
    · rintro ⟨⟨i, hi⟩, hcurrent⟩
      exact ⟨_, positions_truncate_iff.2 ⟨i, hi, hcurrent, rfl⟩⟩
  edges {k i j} hi hj := by
    obtain ⟨i', hi', hcurrent, rfl⟩ := positions_truncate_iff.1 hj
    obtain rfl : i = i' := Option.some.inj (hi.symm.trans hi')
    exact getElem?_truncate hi hcurrent
  order {k k' i i' j j'} hi hi' hj hj' := by
    obtain ⟨x, hx, hcurrent, rfl⟩ := positions_truncate_iff.1 hj
    obtain ⟨x', hx', hcurrent', rfl⟩ := positions_truncate_iff.1 hj'
    obtain rfl : i = x := Option.some.inj (hi.symm.trans hx)
    obtain rfl : i' = x' := Option.some.inj (hi'.symm.trans hx')
    have hstays : Table.contains (t.stale m d c) i = false := by
      rw [contains_stale hi, hcurrent, Bool.not_true]
    have hstays' : Table.contains (t.stale m d c) i' = false := by
      rw [contains_stale hi', hcurrent', Bool.not_true]
    constructor
    · exact shifted_lt_shifted hstays
    · intro hlt
      rcases Nat.lt_trichotomy i i' with hless | rfl | hgreater
      · exact hless
      · exact absurd hlt (Nat.lt_irrefl _)
      · exact absurd (shifted_lt_shifted hstays' hgreater) (Nat.lt_asymm hlt)

/-- After any calls on the empty table, the positions of the edges are those of the slots in use, each
of one slot, and hold the edges that were last recorded there. Truncating takes away the slots of a
node from the given indices on, with their edges, and keeps all others in their order. -/
theorem ofCalls_consistent (calls : List Call) :
    (∀ k i, (ofCalls calls).positions.get? k = some i → i < (ofCalls calls).edges.length) ∧
      (∀ i < (ofCalls calls).edges.length, ∃! k, (ofCalls calls).positions.get? k = some i) ∧
      (∀ k e, (∃ i, (ofCalls calls).positions.get? k = some i ∧
        (ofCalls calls).edges[i]? = some e) ↔ LastRecorded calls k e) ∧
      ∀ m d c, Truncated (ofCalls calls) ((ofCalls calls).truncate m d c) m d c := by
  have hnumbering := (ofCalls calls).numbering
  refine ⟨fun _ _ hi => hnumbering.lt hi, ?_, ?_, truncated_truncate _⟩
  · intro i hi
    obtain ⟨k, hk⟩ := hnumbering.exists_key hi
    exact ⟨k, hk, fun _ hk' => hnumbering.injective hk' hk⟩
  · intro k e
    rw [← get?_ofCalls_iff, get?_eq_some_iff]

/-- The calls for three modules of which the first one loses its second dependency, after which the
second one is expanded again. -/
def shrinking : List Call :=
  let edge (source target : ModuleId) : Edge :=
    ⟨source, target, { requestedBy := "x", constraint := VersionConstraint.require "1.0" }, none⟩
  let a : ModuleId := ⟨"org", "a"⟩
  let b : ModuleId := ⟨"org", "b"⟩
  let c : ModuleId := ⟨"org", "c"⟩
  [.record ⟨a, false, 0⟩ (edge a b), .record ⟨a, false, 1⟩ (edge a c),
    .record ⟨b, false, 0⟩ (edge b c), .truncate a 1 0, .record ⟨b, false, 0⟩ (edge b a)]

theorem ofCalls_consistent_shrinking :
    (ofCalls shrinking).positions.get? ⟨⟨"org", "b"⟩, false, 0⟩ = some 1 ∧
      1 < (ofCalls shrinking).edges.length ∧
      (∃! k, (ofCalls shrinking).positions.get? k = some 1) ∧
      ((ofCalls shrinking).edges.map fun e => (e.source.name, e.target.name))
        = [("a", "b"), ("b", "a")] := by
  obtain ⟨hlt, hunique, -, -⟩ := ofCalls_consistent shrinking
  have hposition : (ofCalls shrinking).positions.get? ⟨⟨"org", "b"⟩, false, 0⟩ = some 1 := by
    decide +kernel
  have hbelow := hlt _ _ hposition
  exact ⟨hposition, hbelow, hunique 1 hbelow, by decide +kernel⟩

end VariantGraph.Resolution.EdgeTable
