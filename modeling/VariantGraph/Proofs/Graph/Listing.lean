import VariantGraph.Graph.Tree
import VariantGraph.Proofs.Graph.Search

/-!
# The dependency tree

The tree lists the edges below the root, and below an edge those of the module that it leads to. The
modules on the way down from the root are not followed again, and neither is anything that a limit
on the depth cuts off. Whether a module is on the way down does not depend on the limit, so a limit
takes lines away and changes none.

Main statements: `Graph.Lists.cut` for what a limit does to a run of the listing,
`Graph.Lists.exists_leadsTo` for what is listed without one, `Graph.tree_cut` joins both for the
text of the tree.
-/

namespace VariantGraph.Graph

open Relation (ReflTransGen)

/-! ## The run of a listing -/

/-- A line of the tree with the edges that lead down to it from the root, its own edge first. -/
structure Line where
  way : List Edge
  entry : TreeEntry

/-- The number of levels between the root and a line. -/
def Line.depth (l : Line) : Nat := l.way.length

/-- A line is that of a dependency on a module. -/
def Line.LeadsTo (l : Line) (m : ModuleId) : Prop :=
  ∃ e above, l.way = e :: above ∧ e.isConstraint = false ∧ e.target = m

/-- The modules that are passed on the way down to the lines below some edges. -/
def passed (g : Graph) (way : List Edge) : List ModuleId := g.root.module :: way.map Edge.target

/-- The line of an edge. -/
def lineOf (g : Graph) (way : List Edge) (indent : String) (isLast : Bool) (e : Edge) : Line :=
  ⟨e :: way, ⟨way.length + 1, indent, isLast, g.edgeLabel e⟩⟩

/-- Listing some edges of one parent in turn, with the edges in `way` leading down to the parent,
gives lines. -/
inductive Lists (g : Graph) (limit : Option Nat) :
    List Edge → String → List Edge → List Line → Prop
  | nil {way : List Edge} {indent : String} : Lists g limit way indent [] []
  | followed {way rest : List Edge} {indent : String} {e : Edge} {below after : List Line}
      (hdependency : e.isConstraint = false) (hlimit : ∀ d ∈ limit, way.length + 1 < d)
      (hnew : e.target ∉ g.passed way)
      (hbelow : Lists g limit (e :: way) (TreeEntry.childIndent indent rest.isEmpty)
        (g.edgesFrom e.target) below)
      (hrest : Lists g limit way indent rest after) :
      Lists g limit way indent (e :: rest) (g.lineOf way indent rest.isEmpty e :: (below ++ after))
  | left {way rest : List Edge} {indent : String} {e : Edge} {after : List Line}
      (hleft : e.isConstraint = true ∨ (∃ d ∈ limit, d ≤ way.length + 1) ∨ e.target ∈ g.passed way)
      (hrest : Lists g limit way indent rest after) :
      Lists g limit way indent (e :: rest) (g.lineOf way indent rest.isEmpty e :: after)

variable {g : Graph} {limit : Option Nat} {way edges : List Edge} {indent : String}
  {lines lines' : List Line} {d : Nat} {e : Edge} {m : ModuleId}

/-- An edge that is followed is not left. -/
theorem not_left_of_followed (hdependency : e.isConstraint = false)
    (hlimit : ∀ d ∈ limit, way.length + 1 < d) (hnew : e.target ∉ g.passed way) :
    ¬ (e.isConstraint = true ∨ (∃ d ∈ limit, d ≤ way.length + 1) ∨ e.target ∈ g.passed way) := by
  rintro (hconstraint | ⟨d, hd, hle⟩ | hpassed)
  · rw [hdependency] at hconstraint
    cases hconstraint
  · exact absurd (hlimit d hd) (by omega)
  · exact hnew hpassed

/-- A listing has one result. -/
theorem Lists.unique (h : g.Lists limit way indent edges lines)
    (h' : g.Lists limit way indent edges lines') : lines' = lines := by
  induction h generalizing lines' with
  | nil =>
    cases h'
    rfl
  | followed hdependency hlimit hnew _ _ ihbelow ihrest =>
    cases h' with
    | followed _ _ _ hbelow hrest => rw [ihbelow hbelow, ihrest hrest]
    | left hleft => exact absurd hleft (not_left_of_followed hdependency hlimit hnew)
  | left hleft _ ih =>
    cases h' with
    | followed hdependency hlimit hnew =>
      exact absurd hleft (not_left_of_followed hdependency hlimit hnew)
    | left _ hrest => rw [ih hrest]

/-! ## The listing of a graph -/

theorem atLimit_eq_false_iff {depth : Nat} :
    atLimit limit depth = false ↔ ∀ d ∈ limit, depth < d := by
  cases limit <;> simp [atLimit]

/-- The listing ends with the entries of the tree. The modules that are still to be visited are
those that are not on the way down. -/
theorem exists_lists_entriesBelow (hg : g.WellFormed) (limit : Option Nat)
    {unvisited : List ModuleId} (hnodup : unvisited.Nodup) {way : List Edge} {indent : String}
    {depth : Nat} {edges : List Edge}
    (hvisited : ∀ m ∈ g.modules, m ∈ unvisited ↔ m ∉ g.passed way)
    (hedges : ∀ e ∈ edges, e ∈ g.edges) (hdepth : depth = way.length + 1) :
    ∃ lines, g.Lists limit way indent edges lines ∧
      lines.map Line.entry = g.entriesBelow limit unvisited indent depth edges := by
  fun_induction entriesBelow g limit unvisited indent depth edges generalizing way with
  | case1 => exact ⟨[], .nil, rfl⟩
  | case2 unvisited indent depth e rest isLast ihbelow ihrest =>
    subst hdepth
    obtain ⟨he, hrestEdges⟩ := List.forall_mem_cons.1 hedges
    obtain ⟨after, hafter, hafterEntries⟩ := ihrest hnodup hvisited hrestEdges rfl
    have hfollowed : (e.isConstraint = false ∧ atLimit limit (way.length + 1) = false ∧
        e.target ∈ unvisited) ↔ e.isConstraint = false ∧ (∀ d ∈ limit, way.length + 1 < d) ∧
          e.target ∉ g.passed way := by
      rw [atLimit_eq_false_iff, hvisited e.target (hg.target e he)]
    split
    · next h =>
      obtain ⟨hdependency, hlimit, hnew⟩ := hfollowed.1 h
      have hbelowVisited : ∀ m ∈ g.modules,
          m ∈ unvisited.erase e.target ↔ m ∉ g.passed (e :: way) := by
        intro m hm
        rw [hnodup.mem_erase_iff, hvisited m hm, passed, passed, List.map_cons]
        simp only [List.mem_cons, not_or]
        exact and_left_comm
      obtain ⟨below, hbelow, hbelowEntries⟩ := ihbelow h (hnodup.erase e.target) hbelowVisited
        (fun d hd => (List.mem_filter.1 hd).1) rfl
      refine ⟨_, .followed hdependency hlimit hnew hbelow hafter, ?_⟩
      rw [List.map_cons, List.map_append, hbelowEntries, hafterEntries]
      rfl
    · next h =>
      refine ⟨_, .left ?_ hafter, ?_⟩
      · rw [hfollowed] at h
        by_contra hnone
        push Not at hnone
        exact h ⟨Bool.eq_false_iff.2 hnone.1, hnone.2⟩
      · rw [List.map_cons, hafterEntries]
        rfl

theorem exists_lists_treeEntries (hg : g.WellFormed) (limit : Option Nat) : ∃ lines,
    g.Lists limit [] "" (g.edgesFrom g.root.module) lines ∧
      lines.map Line.entry = g.treeEntries limit := by
  refine exists_lists_entriesBelow hg limit (hg.nodup.erase _) (fun m hm => ?_)
    (fun e he => (List.mem_filter.1 he).1) rfl
  rw [hg.nodup.mem_erase_iff, and_iff_left hm]
  simp [passed]

/-! ## Cutting the tree -/

/-- What is listed lies below the way that leads down to it. -/
theorem Lists.length_lt_depth (h : g.Lists limit way indent edges lines) :
    ∀ l ∈ lines, way.length < l.depth := by
  induction h with
  | nil => exact List.forall_mem_nil _
  | followed _ _ _ _ _ ihbelow ihrest =>
    refine List.forall_mem_cons.2 ⟨Nat.lt_succ_self _, fun l hl => ?_⟩
    rcases List.mem_append.1 hl with hl | hl
    · exact Nat.lt_of_succ_lt (ihbelow l hl)
    · exact ihrest l hl
  | left _ _ ih => exact List.forall_mem_cons.2 ⟨Nat.lt_succ_self _, ih⟩

theorem filter_lineOf_cons (hd : way.length < d) (isLast : Bool) (rest : List Line) :
    ((g.lineOf way indent isLast e :: rest).filter fun l => l.depth ≤ d) =
      g.lineOf way indent isLast e :: rest.filter fun l => l.depth ≤ d :=
  List.filter_cons_of_pos (decide_eq_true hd)

/-- With a limit the same lines are listed, but for those below it. -/
theorem Lists.cut (h : g.Lists none way indent edges lines) (hd : way.length < d) :
    g.Lists (some d) way indent edges (lines.filter fun l => l.depth ≤ d) := by
  induction h with
  | nil => exact .nil
  | @followed way rest indent e below after hdependency _ hnew hbelow _ ihbelow ihrest =>
    rw [filter_lineOf_cons hd, List.filter_append]
    by_cases hfar : way.length + 1 < d
    · refine .followed hdependency ?_ hnew (ihbelow hfar) (ihrest hd)
      simpa using hfar
    · have hcut : (below.filter fun l => l.depth ≤ d) = [] := by
        refine List.filter_eq_nil_iff.2 fun l hl => ?_
        have hbelow := hbelow.length_lt_depth l hl
        rw [List.length_cons] at hbelow
        simp only [decide_eq_true_eq]
        omega
      rw [hcut, List.nil_append]
      exact .left (.inr (.inl ⟨d, rfl, Nat.le_of_not_lt hfar⟩)) (ihrest hd)
  | left hleft _ ih =>
    rw [filter_lineOf_cons hd]
    refine .left (hleft.imp_right (Or.imp_left ?_)) (ih hd)
    rintro ⟨d, hd, -⟩
    cases hd

/-! ## What is listed -/

theorem exists_edge_of_dependsOn {n : ModuleId} (h : g.DependsOn m n) :
    ∃ e ∈ g.edgesFrom m, e.isConstraint = false ∧ e.target = n := by
  obtain ⟨e, he, hsource, htarget, hdependency⟩ := dependsOn_iff_links.1 h
  exact ⟨e, List.mem_filter.2 ⟨he, by simpa using hsource⟩, hdependency, htarget⟩

/-- Without a limit there is a line for every module to which dependencies lead from a listed edge,
apart from the modules on the way down. -/
theorem Lists.exists_leadsTo (h : g.Lists none way indent edges lines) (he : e ∈ edges)
    (hdependency : e.isConstraint = false)
    (hreach : ReflTransGen (fun a b => a ∉ g.passed way ∧ g.DependsOn a b) e.target m) :
    ∃ l ∈ lines, l.LeadsTo m := by
  induction h generalizing e with
  | nil => cases he
  | @followed way rest indent e' below after _ _ _ _ _ ihbelow ihrest =>
    rcases List.mem_cons.1 he with rfl | he
    · by_cases htarget : e.target = m
      · exact ⟨_, List.mem_cons_self, e, way, rfl, hdependency, htarget⟩
      -- the way on from the target need not come back to it, so it is listed below the edge
      · obtain ⟨n, ⟨-, hn⟩, hrest⟩ := exists_step_avoiding hreach htarget
        obtain ⟨next, hnext, hnextDependency, rfl⟩ := exists_edge_of_dependsOn hn
        have hbelow : ReflTransGen (fun a b => a ∉ g.passed (e :: way) ∧ g.DependsOn a b)
            next.target m := by
          refine ReflTransGen.mono ?_ _ _ hrest
          rintro a b ⟨hne, hpassed, hab⟩
          rw [passed, List.mem_cons, not_or] at hpassed
          rw [passed, List.map_cons, List.mem_cons, List.mem_cons, not_or, not_or]
          exact ⟨⟨hpassed.1, hne, hpassed.2⟩, hab⟩
        obtain ⟨l, hl, hleads⟩ := ihbelow hnext hnextDependency hbelow
        exact ⟨l, List.mem_cons_of_mem _ (List.mem_append_left _ hl), hleads⟩
    · obtain ⟨l, hl, hleads⟩ := ihrest he hdependency hreach
      exact ⟨l, List.mem_cons_of_mem _ (List.mem_append_right _ hl), hleads⟩
  | @left way rest indent e' after hleft _ ih =>
    rcases List.mem_cons.1 he with rfl | he
    · refine ⟨_, List.mem_cons_self, e, way, rfl, hdependency, ?_⟩
      rcases hleft with hconstraint | ⟨d, hd, -⟩ | hpassed
      · rw [hdependency] at hconstraint
        cases hconstraint
      · cases hd
      · rcases ReflTransGen.cases_head hreach with rfl | ⟨n, ⟨hnot, -⟩, -⟩
        · rfl
        · exact absurd hpassed hnot
    · obtain ⟨l, hl, hleads⟩ := ih he hdependency hreach
      exact ⟨l, List.mem_cons_of_mem _ hl, hleads⟩

/-- Without a limit there is a line for every module that the root depends on. -/
theorem exists_leadsTo_of_reaches (h : g.Lists none [] "" (g.edgesFrom g.root.module) lines)
    (hne : m ≠ g.root.module) (hreach : ReflTransGen g.DependsOn g.root.module m) :
    ∃ l ∈ lines, l.LeadsTo m := by
  obtain ⟨n, hn, hrest⟩ := exists_step_avoiding hreach hne.symm
  obtain ⟨e, he, hdependency, rfl⟩ := exists_edge_of_dependsOn hn
  refine h.exists_leadsTo he hdependency (ReflTransGen.mono ?_ _ _ hrest)
  rintro a b ⟨hne, hab⟩
  exact ⟨by simpa [passed] using hne, hab⟩

/-! ## The text of the tree -/

/-- The text of a tree with some lines below that of the root. -/
def drawing (g : Graph) (lines : List Line) : String :=
  g.root.id.text ++ "\n" ++ String.join (lines.map fun l => l.entry.text)

theorem tree_of_lists (hg : g.WellFormed)
    (h : g.Lists limit [] "" (g.edgesFrom g.root.module) lines) :
    g.tree limit = g.drawing lines := by
  obtain ⟨lines', hlines', hentries⟩ := exists_lists_treeEntries hg limit
  obtain rfl := h.unique hlines'
  rw [tree, drawing, ← hentries, List.map_map]
  rfl

/-- In a graph that was built, the listing of the tree ends without a limit. With a limit it gives
the lines that are not deeper, and no others. Every module that the root depends on has a line. -/
theorem tree_cut (h : g.Built) : ∃ lines,
    (∀ r, g.Lists none [] "" (g.edgesFrom g.root.module) r ↔ r = lines) ∧
      g.tree none = g.drawing lines ∧
      (∀ d, 1 ≤ d →
        (∀ r, g.Lists (some d) [] "" (g.edgesFrom g.root.module) r ↔
          r = lines.filter fun l => l.depth ≤ d) ∧
        g.tree (some d) = g.drawing (lines.filter fun l => l.depth ≤ d)) ∧
      ∀ m, ReflTransGen g.DependsOn g.root.module m →
        m = g.root.module ∨ ∃ l ∈ lines, l.LeadsTo m := by
  have hg := h.wellFormed
  obtain ⟨lines, hlines, -⟩ := exists_lists_treeEntries hg none
  refine ⟨lines, fun r => ⟨hlines.unique, fun heq => heq ▸ hlines⟩, tree_of_lists hg hlines, ?_, ?_⟩
  · intro d hd
    have hcut := hlines.cut (d := d) hd
    exact ⟨fun r => ⟨hcut.unique, fun heq => heq ▸ hcut⟩, tree_of_lists hg hcut⟩
  · intro m hreach
    by_cases hroot : m = g.root.module
    · exact .inl hroot
    · exact .inr (exists_leadsTo_of_reaches hlines hroot hreach)

/-- Below the root there are two dependencies, on `app` itself and on `a`, and a constraint. -/
theorem lists_circular :
    circular.Lists (some 1) [] "" (circular.edgesFrom circular.root.module)
      [circular.lineOf [] "" false (namedEdge false "app" "app"),
        circular.lineOf [] "" false (namedEdge false "app" "a"),
        circular.lineOf [] "" true (namedEdge true "app" "c")] := by
  have hedges : circular.edgesFrom circular.root.module =
      [namedEdge false "app" "app", namedEdge false "app" "a", namedEdge true "app" "c"] := by
    decide +kernel
  have hlimit : ∃ d ∈ some 1, d ≤ ([] : List Edge).length + 1 := ⟨1, rfl, Nat.le_refl 1⟩
  rw [hedges]
  exact .left (.inr (.inl hlimit)) (.left (.inr (.inl hlimit)) (.left (.inr (.inl hlimit)) .nil))

/-- A limit of one level leaves out the line of `d`. -/
theorem tree_cut_circular : circular.Built ∧ 1 ≤ 1 ∧
    circular.tree (some 1) =
      "org:app:1.0\n├── org:app:1.0\n├── org:a:1.0\n└── org:c:1.0 (c)\n" ∧
    ReflTransGen circular.DependsOn circular.root.module (namedNode "d").module ∧
    ∃ lines, circular.tree none = circular.drawing lines ∧
      circular.tree (some 1) = circular.drawing (lines.filter fun l => l.depth ≤ 1) ∧
      ∃ l ∈ lines, l.LeadsTo (namedNode "d").module ∧ 1 < l.depth := by
  have hreaches : ReflTransGen circular.DependsOn circular.root.module (namedNode "d").module := by
    have hsteps : circular.DependsOn ⟨"org", "app"⟩ ⟨"org", "a"⟩ ∧
        circular.DependsOn ⟨"org", "a"⟩ ⟨"org", "b"⟩ ∧
          circular.DependsOn ⟨"org", "b"⟩ ⟨"org", "d"⟩ := by
      simp only [DependsOn]
      decide +kernel
    exact ((ReflTransGen.single hsteps.1).tail hsteps.2.1).tail hsteps.2.2
  obtain ⟨lines, hlines, hnone, hlimit, hreached⟩ := tree_cut built_circular
  obtain ⟨hcut, hone⟩ := hlimit 1 (Nat.le_refl 1)
  have hfirst := (hcut _).1 lists_circular
  obtain ⟨l, hl, hleads⟩ := (hreached _ hreaches).resolve_left (by decide)
  refine ⟨built_circular, Nat.le_refl 1, ?_, hreaches, lines, hnone, hone, l, hl, hleads, ?_⟩
  · rw [hone, ← hfirst]
    decide +kernel
  · by_contra hshallow
    have hmem : l ∈ lines.filter fun l => l.depth ≤ 1 :=
      List.mem_filter.2 ⟨hl, by simpa using hshallow⟩
    obtain ⟨e, above, hway, -, htarget⟩ := hleads
    rw [← hfirst] at hmem
    simp only [List.mem_cons, List.not_mem_nil, or_false] at hmem
    rcases hmem with rfl | rfl | rfl <;> cases hway <;> exact absurd htarget (by decide)

end VariantGraph.Graph
