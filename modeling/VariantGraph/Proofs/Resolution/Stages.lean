import VariantGraph.Proofs.Resolution.Arrival

/-!
# The stages of a walk

A walk goes from stage to stage by visiting the first queued node. A visit has a uniform
description: it settles the outcome of the node, drops the slots beyond its declarations and expands
it. What the node declares is a function of its state, and so is its outcome.

Main statements: `Situation.visit_eq` gives that description, `Situation.stage_succ` and
`Situation.stage_induction` reduce statements on stages to one visit.
-/

namespace VariantGraph.Resolution

namespace Situation

/-! ## What a node declares -/

/-- The data of the chosen version of a module, if it was fetched and exists. -/
def data? (s : Situation) (m : ModuleId) : Option ModuleData :=
  (s.selections.get? m).bind fun v => (s.cache.module? (m.withVersion v.version)).join

/-- What comes of a module with some variant requests. Nothing comes of the root, of a module
without a chosen version, and of one that was not fetched yet. -/
def outcome? (s : Situation) (m : ModuleId) (asks : List VariantRequest) : Option Outcome :=
  if m = s.root then none
  else
    (s.selections.get? m).bind fun v =>
      (s.cache.module? (m.withVersion v.version)).map fun
        | none => .missing (m.withVersion v.version)
        | some data => outcomeOf s.schema data asks

/-- What a node of some state declares, if it is the root or a variant is selected for it. -/
def declared? (s : Situation) (m : ModuleId) (st : NodeState) : Option Declarations :=
  if m = s.root then some ⟨s.request.dependencies, s.request.constraints⟩
  else
    match s.data? m, s.outcome? m st.asks with
    | some data, some (.selected node) => some (declarations data node st.asks)
    | _, _ => none

/-- The coordinates of a node, for messages. -/
def label (s : Situation) (m : ModuleId) : String :=
  if m = s.root then s.request.root.text
  else
    match s.selections.get? m with
    | some v => (m.withVersion v.version).text
    | none => m.text

/-- A node of some state as the source of its edges. -/
def origin (s : Situation) (m : ModuleId) (st : NodeState) : Origin := ⟨m, s.label m, st⟩

theorem outcome?_of_data? {s : Situation} {m : ModuleId} {data : ModuleData} (hm : m ≠ s.root)
    (h : s.data? m = some data) (asks : List VariantRequest) :
    s.outcome? m asks = some (outcomeOf s.schema data asks) := by
  obtain ⟨v, hv, hdata⟩ := Option.bind_eq_some_iff.1 h
  have hcache := Option.join_eq_some_iff.1 hdata
  simp [outcome?, hm, hv, hcache]

/-- What comes of a module is decided by what was fetched for its chosen version. -/
theorem exists_of_outcome?_eq_some {s : Situation} {m : ModuleId} {asks : List VariantRequest}
    {o : Outcome} (h : s.outcome? m asks = some o) : ∃ v, s.selections.get? m = some v ∧
      ((s.cache.module? (m.withVersion v.version) = some none ∧
          o = .missing (m.withVersion v.version)) ∨
        ∃ data, s.cache.module? (m.withVersion v.version) = some (some data) ∧
          o = outcomeOf s.schema data asks) := by
  unfold outcome? at h
  split at h
  · simp at h
  · obtain ⟨v, hv, hcached⟩ := Option.bind_eq_some_iff.1 h
    obtain ⟨found, hfound, hout⟩ := Option.map_eq_some_iff.1 hcached
    cases found with
    | none => exact ⟨v, hv, .inl ⟨hfound, hout.symm⟩⟩
    | some data => exact ⟨v, hv, .inr ⟨data, hfound, hout.symm⟩⟩

theorem declared?_root {s : Situation} (st : NodeState) :
    s.declared? s.root st = some ⟨s.request.dependencies, s.request.constraints⟩ := by
  simp [declared?]

/-- A node other than the root declares what its selected variant declares. -/
theorem declared?_eq_some_iff {s : Situation} {m : ModuleId} {st : NodeState} {d : Declarations}
    (hm : m ≠ s.root) : s.declared? m st = some d ↔
      ∃ data node, s.data? m = some data ∧ s.outcome? m st.asks = some (.selected node) ∧
        declarations data node st.asks = d := by
  unfold declared?
  rw [if_neg hm]
  constructor
  · intro h
    split at h
    · next data node hdata hout => exact ⟨data, node, hdata, hout, Option.some.inj h⟩
    · simp at h
  · rintro ⟨data, node, hdata, hout, rfl⟩
    simp [hdata, hout]

end Situation

/-! ## A visit -/

namespace Walk

/-- Records what comes of a node, if anything does. -/
def settle (w : Walk) (m : ModuleId) : Option Outcome → Walk
  | none => w
  | some o => { w with outcomes := w.outcomes.insert m o }

/-- Drops the slots of a node beyond its declarations. -/
def trim (w : Walk) (m : ModuleId) (d : Declarations) : Walk :=
  { w with table := w.table.truncate m d.dependencies.length d.constraints.length }

section Settle

variable (w : Walk) (m : ModuleId) (o : Option Outcome)

@[simp] theorem nodes_settle : (w.settle m o).nodes = w.nodes := by cases o <;> rfl

@[simp] theorem order_settle : (w.settle m o).order = w.order := by cases o <;> rfl

@[simp] theorem queue_settle : (w.settle m o).queue = w.queue := by cases o <;> rfl

@[simp] theorem table_settle : (w.settle m o).table = w.table := by cases o <;> rfl

theorem get?_outcomes_settle (x : ModuleId) :
    (w.settle m o).outcomes.get? x
      = if x = m then o.or (w.outcomes.get? m) else w.outcomes.get? x := by
  cases o with
  | none =>
    by_cases hx : x = m
    · simp [settle, hx]
    · simp [settle, hx]
  | some o =>
    by_cases hx : x = m
    · simp [settle, hx]
    · simp [settle, hx]

end Settle

end Walk

namespace Situation

/-- The visit of a node whose state is known and whose recorded outcome, if there is one, is the one
of its present requests. -/
theorem visit_eq {s : Situation} {m : ModuleId} {w : Walk} {st : NodeState}
    (hst : w.nodes.get? m = some st)
    (hout : ∀ o, w.outcomes.get? m = some o → s.outcome? m st.asks = some o)
    (hroot : m = s.root → ∀ {k e}, w.table.get? k = some e → k.source ≠ s.root) :
    s.visit m w =
      match s.declared? m st with
      | none => w.settle m (s.outcome? m st.asks)
      | some d => s.expand (s.origin m st) d ((w.settle m (s.outcome? m st.asks)).trim m d) := by
  by_cases hm : m = s.root
  · subst hm
    have hno : s.outcome? s.root st.asks = none := by simp [outcome?]
    have htrim : ∀ d c, w.table.truncate s.root d c = w.table :=
      EdgeTable.truncate_eq_self fun hk => hroot rfl hk
    rw [visit_root, visitRoot, hst, declared?_root, hno]
    simp [Walk.settle, Walk.trim, htrim, origin, label]
  · unfold visit
    rw [if_neg hm]
    cases hv : s.selections.get? m with
    | none => simp [declared?, outcome?, data?, hm, hv, Walk.settle]
    | some v =>
      dsimp only
      cases hc : s.cache.module? (m.withVersion v.version) with
      | none => simp [declared?, outcome?, data?, hm, hv, hc, Walk.settle]
      | some found =>
        cases found with
        | none => simp [declared?, outcome?, data?, hm, hv, hc, Walk.settle]
        | some data =>
          have hdata : s.data? m = some data := by simp [data?, hv, hc]
          have houtcome := outcome?_of_data? hm hdata st.asks
          -- the recorded outcome, if there is one, is what selecting anew gives
          have hgetD : (w.outcomes.get? m).getD (outcomeOf s.schema data st.asks)
              = outcomeOf s.schema data st.asks := by
            cases ho : w.outcomes.get? m with
            | none => rfl
            | some o =>
              have heq := hout o ho
              rw [houtcome, Option.some.injEq] at heq
              rw [heq]
              rfl
          rw [hst]
          simp only [visitData, hgetD, declared?, if_neg hm, hdata, houtcome]
          cases outcomeOf s.schema data st.asks with
          | selected node => simp [Walk.settle, Walk.trim, origin, label, hm, hv]
          | missing id => rfl
          | failed e => rfl

/-! ## Stages -/

/-- Visits the first queued node. -/
def step (s : Situation) (w : Walk) : Walk :=
  match w.queue with
  | [] => w
  | m :: rest => s.visit m { w with queue := rest }

/-- The walk after a number of visits. -/
def stage (s : Situation) (n : Nat) : Walk := s.run n (Walk.start s.root)

theorem run_succ (s : Situation) (n : Nat) (w : Walk) : s.run (n + 1) w = s.run n (s.step w) := by
  rw [run, step]
  cases hq : w.queue with
  | nil =>
    cases n with
    | zero => rfl
    | succ n => simp [run, hq]
  | cons m rest => rfl

theorem run_succ' (s : Situation) (n : Nat) (w : Walk) : s.run (n + 1) w = s.step (s.run n w) := by
  induction n generalizing w with
  | zero => rw [run_succ]; rfl
  | succ n ih => rw [run_succ, ih, ← run_succ]

theorem stage_succ (s : Situation) (n : Nat) : s.stage (n + 1) = s.step (s.stage n) :=
  run_succ' s n _

theorem traverse_eq_stage (s : Situation) : s.traverse = s.stage s.visitBound := rfl

/-- What holds at the start and is kept by every step holds at every stage. -/
theorem stage_induction {s : Situation} {P : Walk → Prop} (start : P (Walk.start s.root))
    (step : ∀ w, P w → P (s.step w)) (n : Nat) : P (s.stage n) := by
  induction n with
  | zero => exact start
  | succ n ih =>
    rw [stage_succ]
    exact step _ ih

end Situation

end VariantGraph.Resolution
