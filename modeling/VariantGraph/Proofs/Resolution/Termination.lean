import Mathlib.Algebra.GroupWithZero.Nat
import Mathlib.Algebra.Order.BigOperators.Group.List
import Mathlib.Algebra.Order.Group.Nat
import Mathlib.Data.List.ReduceOption
import VariantGraph.Proofs.Resolution.Invariant
import VariantGraph.Proofs.Resolution.Reserve
import VariantGraph.Proofs.Selection

/-!
# Every walk ends

The states of the nodes of a walk are made from what the request and the fetched module data
declare, and every visit but those that discovery or a change of state has caused is the last one of
its node. The potential of a walk counts the queued visits and those that can still be caused. A
visit lowers it, and at the start it does not exceed the number of visits at which walks are cut off.

Main statements: `Situation.queue_traverse` says that no walk is cut off,
`Situation.upToDate_traverse` that all nodes are up to date when it ends, `Situation.exists_ends_iff`
that the loop which visits queued nodes ends without any bound.
-/

namespace VariantGraph.Resolution.Situation

/-! ## What a walk can come across -/

/-- The hops to the modules at which fetched variants are available. -/
def knownHops (s : Situation) : List Dependency :=
  (s.knownVariants.filterMap Variant.availableAt?).map fun target => hop target []

/-- The modules that a walk can reach. -/
def knownTargets (s : Situation) : List ModuleId :=
  (s.knownDependencies ++ s.knownHops).map s.dependencyTarget

/-- What the states of the nodes of a walk are made of. A hop repeats the request of some dependency,
without the name of a variant. -/
def stock (s : Situation) : Stock where
  asks := s.knownDependencies.map s.askOf ++
    s.knownDependencies.map fun d => s.askOf { d with targetVariant := none }
  rules := ExcludeRule.all :: s.knownDependencies.flatMap fun d => OrderedSet.elements d.excludes
  constrained := s.knownTargets ++ s.knownConstraints.map s.constraintTarget

/-- Declarations that the counts of a walk take into account. -/
structure Familiar (s : Situation) (d : Declarations) : Prop where
  target : ∀ dep ∈ d.dependencies, s.dependencyTarget dep ∈ s.knownTargets
  ask : ∀ dep ∈ d.dependencies, s.askOf dep ∈ s.stock.asks
  rules : ∀ dep ∈ d.dependencies, ∀ r ∈ OrderedSet.elements dep.effectiveExcludes, r ∈ s.stock.rules
  constraint : ∀ c ∈ d.constraints, s.constraintTarget c ∈ s.stock.constrained

theorem mem_fetchedData_of_data? {s : Situation} {m : ModuleId} {data : ModuleData}
    (h : s.data? m = some data) : data ∈ s.fetchedData := by
  obtain ⟨v, -, hdata⟩ := Option.bind_eq_some_iff.1 h
  have hvalue := Table.mem_values_of_get? (Option.join_eq_some_iff.1 hdata)
  exact List.reduceOption_mem_iff.2 hvalue

theorem mem_elements_effectiveExcludes {dep : Dependency} {r : ExcludeRule}
    (h : r ∈ OrderedSet.elements dep.effectiveExcludes) :
    r = ExcludeRule.all ∨ r ∈ OrderedSet.elements dep.excludes := by
  unfold Dependency.effectiveExcludes at h
  split at h
  · exact .inr h
  · exact .inl (List.mem_singleton.1 h)

theorem familiar_of_known {s : Situation} {d : Declarations}
    (hdep : ∀ dep ∈ d.dependencies, dep ∈ s.knownDependencies)
    (hcon : ∀ c ∈ d.constraints, c ∈ s.knownConstraints) : s.Familiar d where
  target dep h := List.mem_map_of_mem (List.mem_append_left _ (hdep dep h))
  ask dep h := List.mem_append_left _ (List.mem_map_of_mem (hdep dep h))
  rules dep h r hr := by
    rcases mem_elements_effectiveExcludes hr with rfl | hr
    · exact List.mem_cons_self
    · exact List.mem_cons_of_mem _ (List.mem_flatMap.2 ⟨dep, hdep dep h, hr⟩)
  constraint c h := List.mem_append_right _ (List.mem_map_of_mem (hcon c h))

/-- Asking once more for what a dependency asks, without the name of a variant. -/
theorem askOf_hop {s : Situation} {dep : Dependency} {asks : List VariantRequest}
    {target : Coordinates} {a : VariantRequest} (hhead : asks.head? = some a)
    (ha : a = s.askOf dep ∨ a = s.askOf { dep with targetVariant := none }) :
    s.askOf (hop target asks) = s.askOf { dep with targetVariant := none } := by
  have hmerge := Table.merge_merge_self s.request.attributes dep.attributes
  rcases ha with rfl | rfl
  · simp [askOf, hop, hhead, hmerge]
  · simp [askOf, hop, hhead, hmerge]

theorem familiar_hop {s : Situation} {target : Coordinates}
    (htarget : hop target [] ∈ s.knownHops) {asks : List VariantRequest} (hne : asks ≠ [])
    (hasks : ∀ r ∈ asks, r ∈ s.stock.asks) : s.Familiar ⟨[hop target asks], []⟩ := by
  obtain ⟨a, rest, rfl⟩ := List.exists_cons_of_ne_nil hne
  constructor
  · intro dep hdep
    obtain rfl := List.mem_singleton.1 hdep
    -- the request of a hop does not change where it leads
    have hsame : s.dependencyTarget (hop target (a :: rest)) = s.dependencyTarget (hop target []) :=
      rfl
    rw [hsame]
    exact List.mem_map_of_mem (List.mem_append_right _ htarget)
  · intro dep hdep
    obtain rfl := List.mem_singleton.1 hdep
    rcases List.mem_append.1 (hasks a List.mem_cons_self) with ha | ha
    · obtain ⟨known, hknown, rfl⟩ := List.mem_map.1 ha
      rw [askOf_hop rfl (.inl rfl)]
      exact List.mem_append_right _ (List.mem_map.2 ⟨known, hknown, rfl⟩)
    · obtain ⟨known, hknown, rfl⟩ := List.mem_map.1 ha
      rw [askOf_hop rfl (.inr rfl)]
      exact List.mem_append_right _ (List.mem_map.2 ⟨known, hknown, rfl⟩)
  · intro dep hdep r hr
    obtain rfl := List.mem_singleton.1 hdep
    rcases mem_elements_effectiveExcludes hr with rfl | hr
    · exact List.mem_cons_self
    · simp [hop, OrderedSet.elements, Table.keys, Table.empty] at hr
  · intro c hc
    exact absurd hc List.not_mem_nil

/-- What a selected variant declares is taken into account. -/
theorem familiar_declarations {s : Situation} {data : ModuleData} (hdata : data ∈ s.fetchedData)
    {node : SelectedNode} {asks : List VariantRequest} (hne : asks ≠ [])
    (hasks : ∀ r ∈ asks, r ∈ s.stock.asks)
    (hnode : outcomeOf s.schema data asks = .selected node) :
    s.Familiar (declarations data node asks) := by
  have hknown : ∀ {v}, v ∈ data.variants → v ∈ s.knownVariants :=
    fun hv => List.mem_flatMap.2 ⟨data, hdata, hv⟩
  unfold declarations
  cases havail : node.availableAt with
  | some target =>
    refine familiar_hop ?_ hne hasks
    -- only a selected variant is available elsewhere
    unfold outcomeOf at hnode
    split at hnode
    · next sel hsel =>
      obtain rfl := Outcome.selected.inj hnode
      cases sel with
      | artifacts files => simp [SelectedNode.ofSelection] at havail
      | variant v =>
        have hv := hknown (Selection.mem_variants_of_selectShared hsel)
        exact List.mem_map.2 ⟨target, List.mem_filterMap.2 ⟨v, hv, havail⟩, rfl⟩
    · cases hnode
  | none =>
    dsimp only
    split
    · next v hv =>
      obtain ⟨name, -, hname⟩ := Option.bind_eq_some_iff.1 hv
      have hmem := hknown (ModuleData.name_of_variant? hname).2
      refine familiar_of_known ?_ ?_
      · intro dep hdep
        exact List.mem_append_right _ (List.mem_flatMap.2 ⟨v, hmem, hdep⟩)
      · intro c hc
        exact List.mem_append_right _ (List.mem_flatMap.2 ⟨v, hmem, hc⟩)
    · refine familiar_of_known ?_ ?_
      · intro dep hdep
        exact absurd hdep List.not_mem_nil
      · intro c hc
        exact absurd hc List.not_mem_nil

/-- Whatever a node declares is taken into account. -/
theorem familiar_of_declared? {s : Situation} {m : ModuleId} {st : NodeState} {d : Declarations}
    (h : s.declared? m st = some d) (hne : st.asks ≠ [])
    (hasks : m ≠ s.root → ∀ r ∈ st.asks, r ∈ s.stock.asks) : s.Familiar d := by
  by_cases hm : m = s.root
  · subst hm
    rw [declared?_root, Option.some.injEq] at h
    subst h
    exact familiar_of_known (fun _ => List.mem_append_left _) fun _ => List.mem_append_left _
  · obtain ⟨data, node, hdata, hout, rfl⟩ := (declared?_eq_some_iff hm).1 h
    rw [outcome?_of_data? hm hdata, Option.some.injEq] at hout
    exact familiar_declarations (mem_fetchedData_of_data? hdata) hne (hasks hm) hout

/-! ## Nodes stay within the stock -/

/-- The nodes of a walk other than the root are modules that can be reached, and their states are
made from the stock. -/
def Confined (s : Situation) (w : Walk) : Prop :=
  ∀ {m st}, w.nodes.get? m = some st → m ≠ s.root → m ∈ s.knownTargets ∧ st.Within s.stock

theorem confined_start (s : Situation) : s.Confined (Walk.start s.root) := by
  intro m st hst hm
  simp [Walk.start, hm] at hst

theorem mem_keys_passedDown {inherited : Inherited} {requests : List RuledRequest} {m : ModuleId}
    (h : m ∈ (passedDown inherited requests).keys) :
    m ∈ inherited.keys ∨ ∃ r ∈ requests, r.module = m := by
  unfold passedDown at h
  induction requests generalizing inherited with
  | nil => exact .inl h
  | cons r rest ih =>
    rcases ih h with hm | ⟨r', hr', hm⟩
    · dsimp only at hm
      split at hm
      · obtain ⟨c, hc⟩ := Table.mem_keys_iff.1 hm
        rw [Table.get?_insertIfNew] at hc
        by_cases hmr : m = r.module
        · exact .inr ⟨r, List.mem_cons_self, hmr.symm⟩
        · rw [if_neg hmr] at hc
          exact .inl (Table.mem_keys_iff.2 ⟨c, hc⟩)
      · exact .inl hm
    · exact .inr ⟨r', List.mem_cons_of_mem _ hr', hm⟩

/-- What the paths to a node have brought is made from the stock. -/
structure PathsWithin (s : Situation) (st : NodeState) : Prop where
  rules : ∀ set ∈ st.excludeSets, ∀ r ∈ OrderedSet.elements set, r ∈ s.stock.rules
  constrained : ∀ m ∈ st.inherited.keys, m ∈ s.stock.constrained

theorem Confined.pathsWithin {s : Situation} {w : Walk} (h : s.Confined w) (hs : s.Shape w)
    {m : ModuleId} {st : NodeState} (hst : w.nodes.get? m = some st) : s.PathsWithin st := by
  by_cases hm : m = s.root
  · rw [hm, hs.root, Option.some.injEq] at hst
    subst hst
    constructor
    · intro set hset r hr
      obtain rfl := List.mem_singleton.1 hset
      exact absurd hr List.not_mem_nil
    · intro x hx
      exact absurd hx List.not_mem_nil
  · exact ⟨(h hst hm).2.rules, (h hst hm).2.constrained⟩

section Expansion

variable {s : Situation} {o : Origin} {d : Declarations} (hd : s.Familiar d)
  (hp : s.PathsWithin o.state)

include hd in
theorem Familiar.module_mem {st : NodeState} {rd : RuledDependency}
    (hrd : rd ∈ s.followed st d.dependencies) :
    rd.declared ∈ d.dependencies ∧ rd.ruled.module ∈ s.knownTargets := by
  obtain ⟨hget, -, hruled⟩ := mem_followed_iff.1 hrd
  have hmem := List.mem_of_getElem? hget
  rw [hruled]
  exact ⟨hmem, hd.target _ hmem⟩

include hd hp

theorem rules_excludesBelow {dep : Dependency} (hdep : dep ∈ d.dependencies) :
    ∀ set ∈ excludesBelow o.state dep, ∀ r ∈ OrderedSet.elements set, r ∈ s.stock.rules := by
  intro set hset r hr
  obtain ⟨old, hold, rfl⟩ := List.mem_map.1 hset
  rcases OrderedSet.mem_elements_union.1 hr with hr | hr
  · exact hp.rules old hold r hr
  · exact hd.rules dep hdep r hr

theorem keys_below : ∀ m ∈ (s.below o d).keys, m ∈ s.stock.constrained := by
  intro m hm
  rcases mem_keys_passedDown hm with hm | ⟨r, hr, rfl⟩
  · exact hp.constrained m hm
  · rcases List.mem_append.1 hr with hr | hr
    · obtain ⟨rd, hrd, rfl⟩ := List.mem_map.1 hr
      exact List.mem_append_left _ (hd.module_mem hrd).2
    · obtain ⟨rc, hrc, rfl⟩ := List.mem_map.1 hr
      obtain ⟨c, hget, hruled⟩ := mem_ruledConstraints_iff.1 hrc
      rw [hruled]
      exact hd.constraint c (List.mem_of_getElem? hget)

/-- The state that an arrival along a followed dependency leaves is made from the stock. -/
theorem within_arriveAlong {w : Walk} (hw : s.Confined w) {rd : RuledDependency}
    (hrd : rd ∈ s.followed o.state d.dependencies) (hne : rd.ruled.module ≠ s.root) :
    (NodeState.after (w.nodes.get? rd.ruled.module) (excludesBelow o.state rd.declared)
      (s.below o d) (s.askOf rd.declared)).Within s.stock := by
  obtain ⟨hdep, -⟩ := hd.module_mem hrd
  refine NodeState.within_after ?_ (rules_excludesBelow hd hp hdep) (keys_below hd hp)
    (hd.ask _ hdep)
  intro n hn
  exact (hw hn hne).2

theorem confined_arriveAlong {w : Walk} (hw : s.Confined w) {rd : RuledDependency}
    (hrd : rd ∈ s.followed o.state d.dependencies) (hne : rd.ruled.module ≠ s.root) :
    s.Confined (s.arriveAlong o d w rd) := by
  intro m st hst hm
  rw [arriveAlong, Walk.get?_nodes_arrive] at hst
  by_cases hmr : m = rd.ruled.module
  · rw [if_pos hmr, Option.some.injEq] at hst
    rw [hmr, ← hst]
    exact ⟨(hd.module_mem hrd).2, within_arriveAlong hd hp hw hrd hne⟩
  · rw [if_neg hmr] at hst
    exact hw hst hm

end Expansion

/-! ## The potential of a walk -/

/-- The changes of state that are left to a module, its discovery included. -/
def room (s : Situation) (w : Walk) (m : ModuleId) : Nat :=
  match w.nodes.get? m with
  | none => s.stock.size + 1
  | some st => st.reserve s.stock

/-- The queued visits and those that can still be caused. -/
def potential (s : Situation) (w : Walk) : Nat :=
  w.queue.length + (s.knownTargets.map (s.room w)).sum

theorem potential_congr {s : Situation} {w w' : Walk} (hnodes : w'.nodes = w.nodes)
    (hqueue : w'.queue = w.queue) : s.potential w' = s.potential w := by
  unfold potential
  have hroom : s.room w' = s.room w := by
    funext m
    rw [room, room, hnodes]
  rw [hqueue, hroom]

/-- A path that changes the state of its target uses up its room. -/
theorem room_arriveAlong_lt {s : Situation} {o : Origin} {d : Declarations} (hd : s.Familiar d)
    (hp : s.PathsWithin o.state) {w : Walk} (hw : s.Confined w) {rd : RuledDependency}
    (hrd : rd ∈ s.followed o.state d.dependencies) (hne : rd.ruled.module ≠ s.root)
    (hchange : w.nodes.get? rd.ruled.module ≠
      some (NodeState.after (w.nodes.get? rd.ruled.module) (excludesBelow o.state rd.declared)
        (s.below o d) (s.askOf rd.declared))) :
    s.room (s.arriveAlong o d w rd) rd.ruled.module < s.room w rd.ruled.module := by
  have hwithin := within_arriveAlong hd hp hw hrd hne
  have hdep := (hd.module_mem hrd).1
  unfold room
  rw [arriveAlong, Walk.get?_nodes_arrive, if_pos rfl]
  cases hst : w.nodes.get? rd.ruled.module with
  | none =>
    rw [hst] at hwithin
    exact Nat.lt_succ_of_le (NodeState.reserve_after_none_le hwithin)
  | some st =>
    rw [hst] at hchange
    refine NodeState.reserve_after_lt (hw hst hne).2 (rules_excludesBelow hd hp hdep)
      (hd.ask _ hdep) ?_
    intro heq
    rw [heq] at hchange
    exact hchange rfl

/-- An arrival causes a visit only in exchange for room. -/
theorem potential_arriveAlong_le {s : Situation} {o : Origin} {d : Declarations}
    (hd : s.Familiar d) (hp : s.PathsWithin o.state) {w : Walk} (hw : s.Confined w)
    {rd : RuledDependency} (hrd : rd ∈ s.followed o.state d.dependencies)
    (hne : rd.ruled.module ≠ s.root) : s.potential (s.arriveAlong o d w rd) ≤ s.potential w := by
  have hother : ∀ m, m ≠ rd.ruled.module → s.room (s.arriveAlong o d w rd) m = s.room w m := by
    intro m hm
    rw [room, room, arriveAlong, Walk.get?_nodes_arrive, if_neg hm]
  have hlt := room_arriveAlong_lt hd hp hw hrd hne
  unfold potential
  rw [arriveAlong, Walk.queue_arrive, ← arriveAlong]
  by_cases hsame : w.nodes.get? rd.ruled.module
      = some (NodeState.after (w.nodes.get? rd.ruled.module) (excludesBelow o.state rd.declared)
        (s.below o d) (s.askOf rd.declared))
  · rw [if_pos hsame]
    have hroom : s.room (s.arriveAlong o d w rd) = s.room w := by
      funext m
      by_cases hm : m = rd.ruled.module
      · rw [room, room, hm, arriveAlong, Walk.get?_nodes_arrive, if_pos rfl, ← hsame]
      · exact hother m hm
    rw [hroom]
  · rw [if_neg hsame, List.length_append, List.length_singleton]
    -- the queue gets longer by one, and the room of the target smaller
    have hsum : (s.knownTargets.map (s.room (s.arriveAlong o d w rd))).sum
        < (s.knownTargets.map (s.room w)).sum := by
      refine List.sum_lt_sum _ _ ?_ ⟨_, (hd.module_mem hrd).2, hlt hsame⟩
      intro m _
      by_cases hm : m = rd.ruled.module
      · rw [hm]
        exact (hlt hsame).le
      · exact (hother m hm).le
    omega

theorem expand_confined {s : Situation} {o : Origin} {d : Declarations} (hd : s.Familiar d)
    (hp : s.PathsWithin o.state) {w : Walk} (hw : s.Confined w) :
    s.Confined (s.expand o d w) ∧ s.potential (s.expand o d w) ≤ s.potential w := by
  refine expand_induction (P := fun w' => s.Confined w' ∧ s.potential w' ≤ s.potential w)
    ?_ ?_ ⟨hw, le_rfl⟩
  · rintro w' t ⟨hconf, hle⟩
    exact ⟨hconf, (potential_congr rfl rfl).le.trans hle⟩
  · rintro w' ⟨hconf, hle⟩ rd hrd hne
    exact ⟨confined_arriveAlong hd hp hconf hrd hne,
      (potential_arriveAlong_le hd hp hconf hrd hne).trans hle⟩

/-- A visit lowers the potential. -/
theorem visit_confined {s : Situation} {w : Walk} (h : s.Invariant w) (hw : s.Confined w)
    {m : ModuleId} {rest : List ModuleId} (hq : w.queue = m :: rest) :
    s.Confined (s.visit m { w with queue := rest }) ∧
      s.potential (s.visit m { w with queue := rest }) < s.potential w := by
  obtain ⟨st, hst⟩ := h.shape.queued (hq ▸ List.mem_cons_self : m ∈ w.queue)
  rw [h.visit_eq hq hst]
  have hpop : s.potential { w with queue := rest } < s.potential w := by
    unfold potential
    rw [hq, List.length_cons]
    exact Nat.add_lt_add_right (Nat.lt_succ_self _) _
  generalize hw₁ : ({ w with queue := rest } : Walk).settle m (s.outcome? m st.asks) = w₁
  have hnodes : w₁.nodes = w.nodes := by rw [← hw₁, Walk.nodes_settle]
  have hqueue : w₁.queue = ({ w with queue := rest } : Walk).queue := by
    rw [← hw₁, Walk.queue_settle]
  have hconf : s.Confined w₁ := by
    intro x t hx
    rw [hnodes] at hx
    exact hw hx
  have hpot : s.potential w₁ < s.potential w :=
    lt_of_eq_of_lt (potential_congr (w := { w with queue := rest }) hnodes hqueue) hpop
  cases hd : s.declared? m st with
  | none => exact ⟨hconf, hpot⟩
  | some d =>
    have hfam : s.Familiar d :=
      familiar_of_declared? hd (h.shape.nonempty hst).1 fun hm => (hw hst hm).2.asks
    have htrim : s.Confined (w₁.trim m d) := hconf
    obtain ⟨hc, hle⟩ := expand_confined (o := s.origin m st) hfam (hw.pathsWithin h.shape hst) htrim
    exact ⟨hc, lt_of_le_of_lt hle hpot⟩

/-! ## Enough visits -/

/-- As many visits as the potential suffice. -/
theorem queue_run {s : Situation} (n : Nat) {w : Walk} (h : s.Invariant w) (hw : s.Confined w)
    (hn : s.potential w ≤ n) : (s.run n w).queue = [] := by
  -- each visit lowers the potential, so one visit less suffices for the walk after it
  induction n generalizing w with
  | zero =>
    have hlen : w.queue.length = 0 := by
      unfold potential at hn
      omega
    exact List.length_eq_zero_iff.1 hlen
  | succ n ih =>
    rw [run_succ]
    cases hq : w.queue with
    | nil =>
      have hself : s.step w = w := by simp [step, hq]
      rw [hself]
      cases n with
      | zero => exact hq
      | succ n => simp [run, hq]
    | cons m rest =>
      have hvisit : s.step w = s.visit m { w with queue := rest } := by simp [step, hq]
      obtain ⟨hconf, hlt⟩ := visit_confined h hw hq
      rw [← hvisit] at hconf hlt
      exact ih h.step hconf (by omega)

theorem length_knownTargets (s : Situation) :
    s.knownTargets.length ≤ s.knownDependencies.length + s.knownVariants.length := by
  have hle := List.length_filterMap_le Variant.availableAt? s.knownVariants
  unfold knownTargets knownHops
  rw [List.length_map, List.length_append, List.length_map]
  omega

theorem length_rules_stock (s : Situation) : s.stock.rules.length = s.ruleCount := by
  have hfold : ∀ (l : List Dependency) (n : Nat),
      (l.map fun d => d.excludes.size).foldl (· + ·) n
        = n + (l.flatMap fun d => OrderedSet.elements d.excludes).length := by
    intro l
    induction l with
    | nil => exact fun n => rfl
    | cons d rest ih =>
      intro n
      have hsize : (OrderedSet.elements d.excludes).length = d.excludes.size := List.length_map _
      rw [List.map_cons, List.foldl_cons, ih, List.flatMap_cons, List.length_append, hsize]
      omega
  unfold ruleCount
  rw [hfold, Nat.add_comm]
  rfl

theorem size_stock_le (s : Situation) :
    s.stock.size + 1 ≤ Nat.pow 2 s.ruleCount + 3 *
      (s.knownDependencies.length + s.knownVariants.length + s.knownConstraints.length + 2) := by
  have htargets := s.length_knownTargets
  have hasks : s.stock.asks.length = s.knownDependencies.length + s.knownDependencies.length := by
    simp [stock]
  have hcon : s.stock.constrained.length = s.knownTargets.length + s.knownConstraints.length := by
    simp [stock]
  have hpow : Nat.pow 2 s.ruleCount = 2 ^ s.ruleCount := rfl
  rw [Stock.size, length_rules_stock, hasks, hcon, hpow]
  omega

/-- At the start the potential is within the bound on the number of visits. -/
theorem potential_start_le (s : Situation) : s.potential (Walk.start s.root) ≤ s.visitBound := by
  have hroom : ∀ m ∈ s.knownTargets, s.room (Walk.start s.root) m ≤ s.stock.size + 1 := by
    intro m _
    unfold room
    by_cases hm : m = s.root
    · have hroot : NodeState.root.reserve s.stock = s.stock.asks.length - 1 := by
        simp [NodeState.reserve, NodeState.setReserve, NodeState.root, Table.isEmpty, Table.empty,
          Table.size]
      rw [hm, (shape_start s).root]
      dsimp only
      have hpow := Nat.two_pow_pos s.stock.rules.length
      rw [hroot, Stock.size]
      omega
    · simp [Walk.start, hm]
  have hsum : (s.knownTargets.map (s.room (Walk.start s.root))).sum
      ≤ s.knownTargets.length * (s.stock.size + 1) := by
    have hle := List.sum_le_card_nsmul (s.knownTargets.map (s.room (Walk.start s.root)))
      (s.stock.size + 1) ?_
    · simpa using hle
    · intro x hx
      obtain ⟨m, hm, rfl⟩ := List.mem_map.1 hx
      exact hroom m hm
  have hbound := Nat.mul_le_mul (Nat.le_succ_of_le s.length_knownTargets) s.size_stock_le
  unfold potential visitBound
  exact Nat.add_le_add le_rfl (hsum.trans hbound)

/-! ## The end of a walk -/

/-- No walk is cut off: when it ends, nothing is queued. -/
theorem queue_traverse (s : Situation) : s.traverse.queue = [] :=
  queue_run s.visitBound (invariant_start s) (confined_start s) s.potential_start_le

theorem shape_traverse (s : Situation) : s.Shape s.traverse := (invariant_stage s s.visitBound).shape

theorem wired_traverse (s : Situation) : s.Wired s.traverse := (invariant_stage s s.visitBound).wired

/-- When a walk ends, all its nodes are up to date. -/
theorem upToDate_traverse {s : Situation} {m : ModuleId} {st : NodeState}
    (hst : s.traverse.nodes.get? m = some st) : s.UpToDate s.traverse m st := by
  have hq := s.queue_traverse
  rw [traverse_eq_stage] at hst hq ⊢
  exact upToDate_of_queue_eq_nil hq hst

/-! ## The loop without a bound -/

/-- As long as a node is queued, the first one is visited, however often it takes: from the walk `w`
on that ends after some number of visits and leaves the walk `w'`. -/
inductive Ends (s : Situation) : Nat → Walk → Walk → Prop
  | done {w : Walk} (empty : w.queue = []) : s.Ends 0 w w
  | visit {n : Nat} {w w' : Walk} {m : ModuleId} {rest : List ModuleId}
      (front : w.queue = m :: rest) (next : s.Ends n (s.visit m { w with queue := rest }) w') :
      s.Ends (n + 1) w w'

theorem Ends.unique {s : Situation} {n k : Nat} {w w₁ w₂ : Walk} (h : s.Ends n w w₁)
    (h' : s.Ends k w w₂) : k = n ∧ w₂ = w₁ := by
  induction h generalizing k with
  | done empty =>
    cases h' with
    | done => exact ⟨rfl, rfl⟩
    | visit front => simp [empty] at front
  | visit front next ih =>
    cases h' with
    | done empty => simp [empty] at front
    | visit front' next' =>
      rw [front, List.cons.injEq] at front'
      obtain ⟨rfl, rfl⟩ := front'
      obtain ⟨rfl, rfl⟩ := ih next'
      exact ⟨rfl, rfl⟩

/-- Where a bounded number of visits leaves nothing queued, the loop ends within it. -/
theorem exists_ends_run {s : Situation} (n : Nat) {w : Walk} (h : (s.run n w).queue = []) :
    ∃ k ≤ n, s.Ends k w (s.run n w) := by
  induction n generalizing w with
  | zero => exact ⟨0, le_rfl, .done h⟩
  | succ n ih =>
    rw [run] at h ⊢
    cases hq : w.queue with
    | nil => exact ⟨0, Nat.zero_le _, .done hq⟩
    | cons m rest =>
      rw [hq] at h
      obtain ⟨k, hk, hends⟩ := ih h
      exact ⟨k + 1, Nat.succ_le_succ hk, .visit hq hends⟩

/-- The loop ends for every request, all rules, selections, fetched data and redirects, within the
bound, and with the walk that the bounded number of visits gives. -/
theorem exists_ends_iff (s : Situation) : ∃ n ≤ s.visitBound, ∀ k w,
    s.Ends k (Walk.start s.root) w ↔ k = n ∧ w = s.traverse := by
  obtain ⟨n, hn, hends⟩ := exists_ends_run s.visitBound s.queue_traverse
  refine ⟨n, hn, fun k w => ⟨fun h => hends.unique h, ?_⟩⟩
  rintro ⟨rfl, rfl⟩
  exact hends

end VariantGraph.Resolution.Situation
