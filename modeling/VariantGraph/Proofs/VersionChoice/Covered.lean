import Mathlib.Data.List.Forall2
import VariantGraph.VersionChoice

/-!
# Covered requests take no part

A request that an ancestor's constraint for the subgraph covers is satisfied by whatever the
ancestor's own request resolves to. Which versions it asks for itself has no influence on the choice,
neither on the version nor on what a failure tells; only what it rejects counts.

Main statement: `VersionChoice.select_eq_of_rewords`.
-/

namespace VariantGraph

namespace VersionChoice

/-- A request and the same request for other versions, which is allowed if an ancestor covers it and
its edge does not force the version. A request that a rule pins may be reworded as well. -/
inductive Rewords : VersionRequest → VersionRequest → Prop
  | same (r : VersionRequest) : Rewords r r
  | covered {r : VersionRequest} {c : VersionConstraint} (hinherited : r.inherited ≠ none)
      (hforced : r.forced = false) (hrejects : c.rejects = r.constraint.rejects) :
      Rewords r { r with constraint := c }

variable {α : Type} {r r' : VersionRequest} {requests requests' : List VersionRequest}

/-! ## What a reworded request keeps -/

namespace Rewords

theorem inherited_eq (h : Rewords r r') : r.inherited = r'.inherited := by
  cases h <;> rfl

theorem pinned_eq (h : Rewords r r') : r.pinned = r'.pinned := by
  cases h <;> rfl

theorem rejects_eq (h : Rewords r r') : r.constraint.rejects = r'.constraint.rejects := by
  cases h with
  | same => rfl
  | covered _ _ hrejects => exact hrejects.symm

/-- A request that no ancestor covers is not reworded. -/
theorem guard_eq (h : Rewords r r') :
    Option.guard (fun r => r.inherited.isNone) r = Option.guard (fun r => r.inherited.isNone) r' := by
  cases h with
  | same => rfl
  | covered hinherited _ _ => simp [Option.guard, hinherited]

end Rewords

/-! ## What a choice reads of its requests -/

section Requests

variable (h : List.Forall₂ Rewords requests requests')

include h

theorem flatMap_eq_of_rewords {f : VersionRequest → List α}
    (hf : ∀ {r r'}, Rewords r r' → f r = f r') : requests.flatMap f = requests'.flatMap f := by
  have hrel := List.rel_flatMap (P := (· = ·)) h fun r r' hr =>
    List.forall₂_eq_eq_eq ▸ hf hr
  rwa [List.forall₂_eq_eq_eq] at hrel

theorem filterMap_eq_of_rewords {f : VersionRequest → Option α}
    (hf : ∀ {r r'}, Rewords r r' → f r = f r') : requests.filterMap f = requests'.filterMap f := by
  rw [List.filterMap_eq_flatMap_toList, List.filterMap_eq_flatMap_toList]
  exact flatMap_eq_of_rewords h fun hr => congrArg Option.toList (hf hr)

theorem uncovered_eq_of_rewords : uncovered requests = uncovered requests' := by
  unfold uncovered
  rw [← List.filterMap_eq_filter]
  exact filterMap_eq_of_rewords h Rewords.guard_eq

theorem participating_eq_of_rewords : participating requests = participating requests' := by
  unfold participating
  rw [uncovered_eq_of_rewords h, filterMap_eq_of_rewords h Rewords.inherited_eq]

theorem rejected_eq_of_rewords : rejected requests = rejected requests' := by
  unfold rejected
  refine congrArg (fun l => (OrderedSet.ofElements l).elements) (flatMap_eq_of_rewords h fun hr => ?_)
  rw [hr.rejects_eq, hr.inherited_eq]

theorem strictRequests_eq_of_rewords : strictRequests requests = strictRequests requests' := by
  unfold strictRequests
  rw [uncovered_eq_of_rewords h]

theorem forcedByEdges_eq_of_rewords : forcedByEdges requests = forcedByEdges requests' :=
  filterMap_eq_of_rewords h fun hr => by
    cases hr with
    | same => rfl
    | covered _ hforced _ => simp only [hforced, Bool.false_eq_true, if_false]

theorem pinnedByRules_eq_of_rewords : pinnedByRules requests = pinnedByRules requests' :=
  filterMap_eq_of_rewords h fun hr => by rw [hr.pinned_eq]

theorem compared_eq_of_rewords (m : ModuleId) (listing : Option (List String)) :
    compared m requests listing = compared m requests' listing := by
  have hrejected : isRejected requests = isRejected requests' := by
    unfold isRejected
    rw [rejected_eq_of_rewords h]
  unfold compared
  rw [participating_eq_of_rewords h, hrejected, rejected_eq_of_rewords h,
    strictRequests_eq_of_rewords h]

end Requests

/-- The versions that covered requests ask for do not influence a choice: neither the version nor
its cause, and neither the kind of a failure nor what its message lists. -/
theorem select_eq_of_rewords (m : ModuleId) (forced : Option String)
    (listing : Option (List String)) (h : List.Forall₂ Rewords requests requests') :
    select m requests forced listing = select m requests' forced listing := by
  unfold select
  rw [forcedByEdges_eq_of_rewords h, pinnedByRules_eq_of_rewords h, compared_eq_of_rewords h]

/-- Two strict requests that contradict each other, and one below an ancestor that is strict about
the first version. -/
def disputedRequests (covered : VersionConstraint) : List VersionRequest :=
  [{ requestedBy := "org:a:1.0", constraint := .strictly "1.0" },
   { requestedBy := "org:c:1.0", constraint := covered, inherited := some (.strictly "1.0") },
   { requestedBy := "org:b:1.0", constraint := .strictly "2.0" }]

theorem select_eq_of_rewords_disputed :
    let requests := disputedRequests { required := some "1.5", rejects := ["0.9"] }
    let requests' := disputedRequests
      { preferred := some "3.+", strict := some "7.7", rejects := ["0.9"], forSubgraph := true }
    let outcome := Except.error
      (.conflict ⟨"org", "m"⟩ "2.0" [{ requestedBy := "org:a:1.0", constraint := .strictly "1.0" },
        { requestedBy := "org:b:1.0", constraint := .strictly "2.0" }])
    List.Forall₂ Rewords requests requests' ∧ requests ≠ requests' ∧
      select ⟨"org", "m"⟩ requests none none = outcome ∧
      select ⟨"org", "m"⟩ requests' none none = outcome := by
  intro requests requests' outcome
  have hrewords : List.Forall₂ Rewords requests requests' :=
    .cons (.same _) (.cons (.covered (by decide) rfl rfl) (.cons (.same _) .nil))
  have hselect : select ⟨"org", "m"⟩ requests none none = outcome := by decide +kernel
  exact ⟨hrewords, by decide, hselect,
    (select_eq_of_rewords ⟨"org", "m"⟩ none none hrewords).symm.trans hselect⟩

end VersionChoice

end VariantGraph
