import Mathlib.Logic.Relation
import VariantGraph.Proofs.Graph

/-!
# Paths are found

A path that visits a module twice can be shortened, so a search that takes the modules on its path
out of those it may enter misses nothing.

Main statement: `Graph.isSome_findPath?_iff`.
-/

namespace VariantGraph.Graph

open Relation (ReflTransGen)

/-- Some step from the start of a path leads to a path that does not come back to the start. -/
theorem exists_step_avoiding {α : Type} {R : α → α → Prop} {a t : α} (h : ReflTransGen R a t)
    (hne : a ≠ t) : ∃ b, R a b ∧ ReflTransGen (fun x y => x ≠ a ∧ R x y) b t := by
  -- along the path: either the rest of it avoids the start or it comes back once more
  have hsplit : ∀ x, ReflTransGen R x t → ReflTransGen (fun x y => x ≠ a ∧ R x y) x t ∨
      ∃ b, R a b ∧ ReflTransGen (fun x y => x ≠ a ∧ R x y) b t := by
    intro x hx
    induction hx using ReflTransGen.head_induction_on with
    | refl => exact .inl .refl
    | @head x y hxy _ ih =>
      rcases ih with hrest | hstep
      · by_cases hxa : x = a
        · exact .inr ⟨y, hxa ▸ hxy, hrest⟩
        · exact .inl (hrest.head ⟨hxa, hxy⟩)
      · exact .inr hstep
  rcases hsplit a h with havoid | hstep
  · rcases ReflTransGen.cases_head havoid with rfl | ⟨b, hb, -⟩
    · exact absurd rfl hne
    · exact absurd rfl hb.1
  · exact hstep

variable {g : Graph} {target current : ModuleId} {unvisited : List ModuleId}

theorem reaches_of_pathFrom {p : List ModuleId}
    (h : g.pathFrom target unvisited current = some p) : ReflTransGen g.DependsOn current target := by
  fun_induction pathFrom g target unvisited current generalizing p with
  | case1 => exact .refl
  | case2 unvisited current _ _ ih =>
    obtain ⟨q, hq, rfl⟩ := Option.map_eq_some_iff.1 h
    obtain ⟨next, hmem, hnext⟩ := List.exists_of_findSome?_eq_some hq
    exact (ih next hnext).head hmem
  | case3 => simp at h

/-- The search finds a path if there is one that enters only modules not yet visited. -/
theorem isSome_pathFrom
    (h : ReflTransGen (fun m n => m ∈ unvisited ∧ g.DependsOn m n) current target) :
    (g.pathFrom target unvisited current).isSome := by
  fun_induction pathFrom g target unvisited current with
  | case1 => rfl
  | case2 unvisited current hne hmem ih =>
    obtain ⟨next, ⟨-, hnext⟩, hrest⟩ := exists_step_avoiding h hne
    have hrest' : ReflTransGen (fun m n => m ∈ unvisited.erase current ∧ g.DependsOn m n)
        next target := by
      refine ReflTransGen.mono ?_ _ _ hrest
      rintro m n ⟨hm, hmu, hmn⟩
      exact ⟨(List.mem_erase_of_ne hm).2 hmu, hmn⟩
    have hsome := ih next hrest'
    rw [Option.isSome_map, List.findSome?_isSome_iff]
    exact ⟨next, hnext, hsome⟩
  | case3 unvisited current hne hmem =>
    rcases ReflTransGen.cases_head h with rfl | ⟨next, hnext, -⟩
    · exact absurd rfl hne
    · exact absurd hnext.1 hmem

/-- Every edge of a graph starts at a node. -/
def HasSources (g : Graph) : Prop := ∀ e ∈ g.edges, e.source ∈ g.modules

/-- A path to a node is found exactly when dependencies lead from the root to it. -/
theorem isSome_findPath?_iff (hg : g.HasSources) {key : String} {n : Node}
    (hn : g.nodeOfKey? key = some n) :
    (g.findPath? key).isSome ↔ ReflTransGen g.DependsOn g.root.module n.module := by
  unfold findPath?
  rw [hn, Option.bind_some, Option.isSome_map]
  constructor
  · intro h
    obtain ⟨p, hp⟩ := Option.isSome_iff_exists.1 h
    exact reaches_of_pathFrom hp
  · intro h
    refine isSome_pathFrom (ReflTransGen.mono ?_ _ _ h)
    intro a b hab
    obtain ⟨e, he, rfl, -, -⟩ := dependsOn_iff_links.1 hab
    exact ⟨hg e he, hab⟩

end VariantGraph.Graph
