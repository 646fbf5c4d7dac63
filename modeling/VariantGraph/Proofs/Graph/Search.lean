import Mathlib.Data.List.Chain
import VariantGraph.Proofs.Graph.Building
import VariantGraph.Proofs.Graph.Path

/-!
# The search for a path

A search tries modules one after the other. It does not enter a module that is on the path which it
follows, and takes a module off the path again when nothing is found behind it, so the same module
may be entered many times. It ends nevertheless, because no path is longer than the graph is large,
and what it finds is a path along dependencies without repetitions.

Main statements: `Graph.tries_pathFrom` runs the search, `Graph.walks_pathFrom` describes what it
finds, `Graph.findPath?_sound_complete` joins both for a key.
-/

namespace VariantGraph.Graph

open Relation (ReflTransGen)

variable {g : Graph} {target current m n : ModuleId} {unvisited visited p q rest l : List ModuleId}
  {r r' : Option (List ModuleId)}

/-! ## The run of a search -/

/-- Trying some modules in turn, with `visited` on the path, ends with a path to the target or with
none. -/
inductive Tries (g : Graph) (target : ModuleId) :
    List ModuleId → List ModuleId → Option (List ModuleId) → Prop
  | exhausted {visited : List ModuleId} : Tries g target visited [] none
  | arrived {visited rest : List ModuleId} : Tries g target visited (target :: rest) (some [target])
  | barred {visited rest : List ModuleId} {m : ModuleId} {r : Option (List ModuleId)}
      (hne : m ≠ target) (hm : m ∈ visited) (hrest : Tries g target visited rest r) :
      Tries g target visited (m :: rest) r
  | entered {visited rest p : List ModuleId} {m : ModuleId} (hne : m ≠ target) (hm : m ∉ visited)
      (hbelow : Tries g target (m :: visited) (g.dependencyTargets m) (some p)) :
      Tries g target visited (m :: rest) (some (m :: p))
  | left {visited rest : List ModuleId} {m : ModuleId} {r : Option (List ModuleId)}
      (hne : m ≠ target) (hm : m ∉ visited)
      (hbelow : Tries g target (m :: visited) (g.dependencyTargets m) none)
      (hrest : Tries g target visited rest r) : Tries g target visited (m :: rest) r

/-- A search has one result. -/
theorem Tries.unique (h : g.Tries target visited l r) (h' : g.Tries target visited l r') :
    r' = r := by
  induction h generalizing r' with
  | exhausted =>
    cases h'
    rfl
  | arrived =>
    cases h' with
    | arrived => rfl
    | barred hne | entered hne | left hne => exact absurd rfl hne
  | barred hne hm _ ih =>
    cases h' with
    | arrived => exact absurd rfl hne
    | barred _ _ hrest => exact ih hrest
    | entered _ hm' | left _ hm' => exact absurd hm hm'
  | entered hne hm _ ih =>
    cases h' with
    | arrived => exact absurd rfl hne
    | barred _ hm' => exact absurd hm' hm
    | entered _ _ hbelow => rw [Option.some.inj (ih hbelow)]
    | left _ _ hbelow => cases ih hbelow
  | left hne hm _ _ ihbelow ihrest =>
    cases h' with
    | arrived => exact absurd rfl hne
    | barred _ hm' => exact absurd hm' hm
    | entered _ _ hbelow => cases ihbelow hbelow
    | left _ _ _ hrest => exact ihrest hrest

/-- The other modules are tried when nothing is found behind the first one. -/
theorem Tries.cons (h : g.Tries target visited [m] r) (hrest : g.Tries target visited rest r') :
    g.Tries target visited (m :: rest) (r <|> r') := by
  cases h with
  | arrived => exact .arrived
  | barred hne hm hnil =>
    cases hnil
    exact .barred hne hm hrest
  | entered hne hm hbelow => exact .entered hne hm hbelow
  | left hne hm hbelow hnil =>
    cases hnil
    exact .left hne hm hbelow hrest

theorem tries_findSome? {f : ModuleId → Option (List ModuleId)}
    (h : ∀ m ∈ l, g.Tries target visited [m] (f m)) :
    g.Tries target visited l (l.findSome? f) := by
  induction l with
  | nil => exact .exhausted
  | cons m rest ih =>
    obtain ⟨hm, hrest⟩ := List.forall_mem_cons.1 h
    have hcons := hm.cons (ih hrest)
    rw [List.findSome?_cons]
    cases hf : f m with
    | none => rwa [hf] at hcons
    | some p => rwa [hf] at hcons

/-- The search from a node ends. The induction is on the modules that are not on the path. -/
theorem tries_pathFrom (hg : g.WellFormed) (hnodup : unvisited.Nodup)
    (hvisited : ∀ m ∈ g.modules, m ∈ unvisited ↔ m ∉ visited) (hcurrent : current ∈ g.modules) :
    g.Tries target visited [current] (g.pathFrom target unvisited current) := by
  fun_induction pathFrom g target unvisited current generalizing visited with
  | case1 => exact .arrived
  | case2 unvisited current hne hmem ih =>
    have hout : current ∉ visited := (hvisited current hcurrent).1 hmem
    have hrest : ∀ m ∈ g.modules, m ∈ unvisited.erase current ↔ m ∉ current :: visited := by
      intro m hm
      rw [hnodup.mem_erase_iff, hvisited m hm, List.mem_cons, not_or]
    have hbelow : g.Tries target (current :: visited) (g.dependencyTargets current)
        ((g.dependencyTargets current).findSome? fun next =>
          g.pathFrom target (unvisited.erase current) next) := by
      refine tries_findSome? fun next hnext => ih next (hnodup.erase current) hrest ?_
      obtain ⟨e, he, -, rfl, -⟩ := dependsOn_iff_links.1 hnext
      exact hg.target e he
    cases hfound : (g.dependencyTargets current).findSome? fun next =>
        g.pathFrom target (unvisited.erase current) next with
    | none =>
      rw [hfound] at hbelow
      exact .left hne hout hbelow .exhausted
    | some p =>
      rw [hfound] at hbelow
      exact .entered hne hout hbelow
  | case3 unvisited current hne hmem =>
    have hin : current ∈ visited := not_not.1 (mt (hvisited current hcurrent).2 hmem)
    exact .barred hne hin .exhausted

/-! ## What is found -/

/-- A path along dependencies that enters no module twice, and only modules not yet visited before
the last one. -/
structure Walks (g : Graph) (unvisited p : List ModuleId) (m target : ModuleId) : Prop where
  head : p.head? = some m
  last : p.getLast? = some target
  nodup : p.Nodup
  chain : p.IsChain g.DependsOn
  within : ∀ x ∈ p, x = target ∨ x ∈ unvisited

theorem Walks.cons (h : g.Walks (unvisited.erase m) p n target) (hnodup : unvisited.Nodup)
    (hm : m ∈ unvisited) (hne : m ≠ target) (hstep : g.DependsOn m n) :
    g.Walks unvisited (m :: p) m target where
  head := rfl
  last := by
    rw [List.getLast?_cons, h.last]
    rfl
  nodup := by
    refine List.nodup_cons.2 ⟨fun hmem => ?_, h.nodup⟩
    rcases h.within m hmem with rfl | hrest
    · exact hne rfl
    · exact hnodup.not_mem_erase hrest
  chain := by
    refine List.isChain_cons.2 ⟨fun x hx => ?_, h.chain⟩
    obtain rfl : n = x := Option.some.inj (h.head.symm.trans hx)
    exact hstep
  within x hx := by
    rcases List.mem_cons.1 hx with rfl | hx
    · exact .inr hm
    · exact (h.within x hx).imp_right List.mem_of_mem_erase

theorem walks_pathFrom (hnodup : unvisited.Nodup)
    (h : g.pathFrom target unvisited current = some p) : g.Walks unvisited p current target := by
  fun_induction pathFrom g target unvisited current generalizing p with
  | case1 =>
    obtain rfl := Option.some.inj h
    exact ⟨rfl, rfl, List.nodup_singleton _, List.isChain_singleton _, by simp⟩
  | case2 unvisited current hne hmem ih =>
    obtain ⟨q, hq, rfl⟩ := Option.map_eq_some_iff.1 h
    obtain ⟨next, hnext, hfound⟩ := List.exists_of_findSome?_eq_some hq
    exact (ih next (hnodup.erase current) hfound).cons hnodup hmem hne hnext
  | case3 => simp at h

/-! ## The nodes of a path -/

/-- The nodes of some modules, in their order. -/
theorem map_module_filterMap_find? (h : ∀ m ∈ p, m ∈ g.modules) :
    (p.filterMap g.find?).map Node.module = p := by
  induction p with
  | nil => rfl
  | cons m rest ih =>
    obtain ⟨hm, hrest⟩ := List.forall_mem_cons.1 h
    obtain ⟨a, ha⟩ := exists_find?_of_mem hm
    rw [List.filterMap_cons_some ha, List.map_cons, ih hrest, (mem_of_find? ha).2]

/-- A path along dependencies from one node of a graph to another, without repetitions. -/
structure IsPath (g : Graph) (path : List Node) (source target : Node) : Prop where
  nodes : ∀ n ∈ path, n ∈ g.allNodes
  head : path.head? = some source
  last : path.getLast? = some target
  nodup : (path.map Node.module).Nodup
  chain : path.IsChain fun a b => g.DependsOn a.module b.module

/-- The nodes on a path between the modules of two nodes. -/
theorem Walks.isPath (hg : g.modules.Nodup) {a b : Node} (ha : a ∈ g.allNodes)
    (hb : b ∈ g.allNodes) (h : g.Walks g.modules p a.module b.module) :
    g.IsPath (p.filterMap g.find?) a b := by
  have hnodes : ∀ n ∈ p.filterMap g.find?, n ∈ g.allNodes := by
    intro n hn
    obtain ⟨m, -, hm⟩ := List.mem_filterMap.1 hn
    exact (mem_of_find? hm).1
  have hmodules : (p.filterMap g.find?).map Node.module = p := by
    refine map_module_filterMap_find? fun m hm => ?_
    rcases h.within m hm with rfl | hmem
    · exact List.mem_map_of_mem hb
    · exact hmem
  refine ⟨hnodes, ?_, ?_, ?_, ?_⟩
  · have hhead := h.head
    rw [← hmodules, List.head?_map] at hhead
    obtain ⟨n, hn, hmodule⟩ := Option.map_eq_some_iff.1 hhead
    rw [hn, eq_of_module_eq hg (hnodes n (List.mem_of_mem_head? hn)) ha hmodule]
  · have hlast := h.last
    rw [← hmodules, List.getLast?_map] at hlast
    obtain ⟨n, hn, hmodule⟩ := Option.map_eq_some_iff.1 hlast
    rw [hn, eq_of_module_eq hg (hnodes n (List.mem_of_mem_getLast? hn)) hb hmodule]
  · rw [hmodules]
    exact h.nodup
  · rw [← List.isChain_map, hmodules]
    exact h.chain

/-! ## Paths to a key -/

theorem isPath_of_findPath? (hg : g.WellFormed) {key : String} {t : Node}
    (ht : g.nodeOfKey? key = some t) {path : List Node} (h : g.findPath? key = some path) :
    g.IsPath path g.root t := by
  unfold findPath? at h
  rw [ht, Option.bind_some, Option.map_eq_some_iff] at h
  obtain ⟨p, hp, rfl⟩ := h
  exact (walks_pathFrom hg.nodup hp).isPath hg.nodup List.mem_cons_self (mem_of_nodeOfKey? ht)

/-- In a graph that was built, the search for a node that a key names ends, with a path exactly when
dependencies lead from the root to the node. The path starts at the root, follows dependencies,
repeats no node and ends at the node. -/
theorem findPath?_sound_complete (h : g.Built) {key : String} {t : Node}
    (ht : g.nodeOfKey? key = some t) :
    (∃ r, (∀ r', g.Tries t.module [] [g.root.module] r' ↔ r' = r) ∧
        g.findPath? key = r.map fun p => p.filterMap g.find?) ∧
      ((g.findPath? key).isSome ↔ ReflTransGen g.DependsOn g.root.module t.module) ∧
      ∀ path, g.findPath? key = some path → g.IsPath path g.root t := by
  have hg := h.wellFormed
  refine ⟨?_, isSome_findPath?_iff hg.source ht, fun path => isPath_of_findPath? hg ht⟩
  have hruns : g.Tries t.module [] [g.root.module] (g.pathFrom t.module g.modules g.root.module) :=
    tries_pathFrom hg hg.nodup (by simp) List.mem_cons_self
  refine ⟨_, fun r' => ⟨hruns.unique, fun heq => heq ▸ hruns⟩, ?_⟩
  rw [findPath?, ht, Option.bind_some]

def namedNode (name : String) : Node := { id := ⟨"org", name, "1.0"⟩ }

def namedEdge (isConstraint : Bool) (source target : String) : Edge :=
  ⟨⟨"org", source⟩, ⟨"org", target⟩, .require "1.0", isConstraint, []⟩

/-- Five modules before the root is chosen. `app` depends on itself and on `a`, from which
dependencies lead round in circles and to `d`, while `c` is only constrained. -/
def circularUnrooted : Graph :=
  [namedEdge false "app" "app", namedEdge false "app" "a", namedEdge true "a" "c",
    namedEdge false "a" "b", namedEdge true "a" "b", namedEdge false "b" "a",
    namedEdge false "b" "app", namedEdge true "app" "c", namedEdge false "b" "d",
    namedEdge true "d" "c"].foldl addEdge
      ((["app", "b", "c", "d"].map namedNode).foldl addNode (ofRoot (namedNode "a")))

def circular : Graph :=
  { circularUnrooted with
    root := namedNode "app"
    nodes := ["a", "b", "c", "d"].map namedNode }

theorem built_circular : circular.Built := by
  have hunrooted : circularUnrooted.Built :=
    built_foldl_addEdge (built_foldl_addNode (.ofRoot _) _) _
  exact hunrooted.setRoot (by decide +kernel)

theorem findPath?_sound_complete_circular :
    circular.Built ∧ (∃ t, circular.nodeOfKey? "org:d" = some t ∧
      ∃ path, circular.findPath? "org:d" = some path ∧
        path.map (fun n => n.id.name) = ["app", "a", "b", "d"] ∧
        circular.IsPath path circular.root t) ∧
      ∃ t, circular.nodeOfKey? "c" = some t ∧ circular.findPath? "c" = none ∧
        ¬ ReflTransGen circular.DependsOn circular.root.module t.module := by
  have hd : circular.nodeOfKey? "org:d" = some (namedNode "d") := by decide +kernel
  have hc : circular.nodeOfKey? "c" = some (namedNode "c") := by decide +kernel
  have hnone : circular.findPath? "c" = none := by decide +kernel
  have hpath : circular.findPath? "org:d" = some (["app", "a", "b", "d"].map namedNode) := by
    decide +kernel
  refine ⟨built_circular, ⟨_, hd, _, hpath, rfl, ?_⟩, _, hc, hnone, ?_⟩
  · exact (findPath?_sound_complete built_circular hd).2.2 _ hpath
  · rw [← (findPath?_sound_complete built_circular hc).2.1, hnone]
    simp

end VariantGraph.Graph
