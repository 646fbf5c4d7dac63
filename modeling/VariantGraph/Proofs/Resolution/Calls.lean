import VariantGraph.Proofs.Resolution.Batches
import VariantGraph.Proofs.Resolution.Complete
import VariantGraph.Proofs.Resolution.Fixpoint

/-!
# The calls of a resolution

The cache of a resolution accounts for its calls: it has an answer to each of them, also if the
answer is that there is no such module version, and no other answers. What a pass needs is what it
does not find there. So no call is made twice, whatever the provider answers, and also if the
resolution fails.

Main statement: `Resolver.calls_run`.
-/

namespace VariantGraph

open Resolution

namespace Resolution

variable {ε : Type}

/-! ## Answered calls -/

/-- Whether the answer to a call is known. That a module version does not exist is an answer. -/
def Cache.Answers (c : Cache) : Provider.Call → Prop
  | .fetch id => ∃ found, c.module? id = some found
  | .versions m => ∃ versions, c.listing? m = some versions

theorem Cache.isFetched_iff {c : Cache} {id : Coordinates} :
    c.isFetched id = true ↔ c.Answers (.fetch id) :=
  Option.isSome_iff_exists

theorem Cache.not_answers_empty (call : Provider.Call) : ¬ ({} : Cache).Answers call := by
  cases call with
  | fetch id => simp [Answers, module?]
  | versions m => simp [Answers, listing?]

/-- A batch that does not fail adds the answers to its calls. -/
theorem Fetched.answers_iff {p : Provider ε} {rules : Rules} {modules : List Coordinates}
    {listings : List ModuleId} {c c' : Cache} (h : Fetched p rules modules listings c (.ok c'))
    (call : Provider.Call) :
    c'.Answers call ↔ c.Answers call ∨ call ∈ batchCalls modules listings := by
  cases h with
  | ok hmodule hotherModule hlisting hotherListing =>
    cases call with
    | fetch id =>
      rw [mem_batchCalls_fetch]
      by_cases hid : id ∈ modules
      · obtain ⟨data, -, hfound⟩ := hmodule id hid
        simp only [hid, or_true, iff_true]
        exact ⟨_, hfound⟩
      · simp only [Cache.Answers, hotherModule id hid, hid, or_false]
    | versions m =>
      rw [mem_batchCalls_versions]
      by_cases hm : m ∈ listings
      · obtain ⟨versions, -, hfound⟩ := hlisting m hm
        simp only [hm, or_true, iff_true]
        exact ⟨_, hfound⟩
      · simp only [Cache.Answers, hotherListing m hm, hm, or_false]

/-! ## Needed calls -/

namespace Situation

variable {s : Situation}

/-- What a pass needs to know: the module data of the version that is selected for a reached module,
or, where none can be selected without it, the listing. -/
inductive Needs (s : Situation) : Provider.Call → Prop
  | fetch {m : ModuleId} {v : SelectedVersion} (reached : m ∈ s.traverse.order)
      (selected : s.verdict s.traverse m = .ok (.selected v)) :
      Needs s (.fetch (m.withVersion v.version))
  | versions {m : ModuleId} (reached : m ∈ s.traverse.order)
      (undecided : s.verdict s.traverse m = .ok .needsListing) : Needs s (.versions m)

/-- The calls that a pass makes. -/
def neededCalls (s : Situation) : List Provider.Call :=
  batchCalls (s.neededModules s.traverse) (s.neededListings s.traverse)

theorem get?_newSelections_eq_some {m : ModuleId} {v : SelectedVersion} :
    (s.newSelections s.traverse).get? m = some v ↔
      m ∈ s.traverse.order ∧ s.verdict s.traverse m = .ok (.selected v) := by
  rw [newSelections, Table.get?_ofList_filterMap, Option.ite_none_right_eq_some, chosen?_eq_some]

theorem mem_neededModules_iff {id : Coordinates} : id ∈ s.neededModules s.traverse ↔
    s.Needs (.fetch id) ∧ ¬ s.cache.Answers (.fetch id) := by
  rw [neededModules, List.mem_filter, Bool.not_eq_true', ← Bool.not_eq_true, Cache.isFetched_iff]
  refine and_congr_left fun _ => ?_
  constructor
  · intro h
    obtain ⟨⟨m, v⟩, hmem, rfl⟩ := List.mem_map.1 h
    obtain ⟨hreached, hselected⟩ := get?_newSelections_eq_some.1 (Table.mem_toList_iff.1 hmem)
    exact .fetch hreached hselected
  · intro h
    cases h with
    | fetch hreached hselected =>
      have hget := get?_newSelections_eq_some.2 ⟨hreached, hselected⟩
      exact List.mem_map.2 ⟨_, Table.mem_toList_iff.2 hget, rfl⟩

theorem mem_neededListings_iff {m : ModuleId} : m ∈ s.neededListings s.traverse ↔
    s.Needs (.versions m) ∧ ¬ s.cache.Answers (.versions m) := by
  have hlisting : (s.cache.listing? m).isNone = true ↔ ¬ s.cache.Answers (.versions m) := by
    rw [Option.isNone_iff_eq_none, Option.eq_none_iff_forall_ne_some]
    exact not_exists.symm
  rw [neededListings, List.mem_filter, Bool.and_eq_true, hlisting, ← and_assoc]
  refine and_congr_left fun _ => ?_
  constructor
  · rintro ⟨hreached, hverdict⟩
    split at hverdict
    · next hundecided => exact .versions hreached hundecided
    · cases hverdict
  · intro h
    cases h with
    | versions hreached hundecided => exact ⟨hreached, by rw [hundecided]⟩

/-- A pass makes the calls that it needs and whose answers it does not know. -/
theorem mem_neededCalls_iff {call : Provider.Call} :
    call ∈ s.neededCalls ↔ s.Needs call ∧ ¬ s.cache.Answers call := by
  cases call with
  | fetch id => exact mem_batchCalls_fetch.trans mem_neededModules_iff
  | versions m => exact mem_batchCalls_versions.trans mem_neededListings_iff

/-- Two modules have no version in common, and the walk lists a module once. -/
theorem nodup_neededCalls (s : Situation) : s.neededCalls.Nodup := by
  have hmodules : (s.neededModules s.traverse).Nodup := by
    have hkeys := (s.newSelections s.traverse).nodup_keys
    rw [Table.keys, List.Nodup, List.pairwise_map] at hkeys
    refine List.Nodup.filter _ (List.pairwise_map.2 (hkeys.imp ?_))
    intro a b hne heq
    exact hne (congrArg Coordinates.module heq)
  have hlistings : (s.neededListings s.traverse).Nodup := s.shape_traverse.nodup.filter _
  refine List.nodup_append.2 ⟨hmodules.map ?_, hlistings.map ?_, ?_⟩
  · intro id id' h
    exact Provider.Call.fetch.inj h
  · intro m m' h
    exact Provider.Call.versions.inj h
  · intro call hfetch call' hversions
    obtain ⟨id, -, rfl⟩ := List.mem_map.1 hfetch
    obtain ⟨m, -, rfl⟩ := List.mem_map.1 hversions
    exact Provider.Call.noConfusion

/-- A stable pass makes no calls. -/
theorem neededCalls_of_isStable (h : s.isStable s.traverse = true) : s.neededCalls = [] := by
  obtain ⟨-, hmodules, hlistings⟩ := isStable_iff.1 h
  rw [neededCalls, hmodules, hlistings]
  rfl

end Situation

/-! ## The account of the calls -/

/-- The cache has the answers to the calls that have been made, and no call was made twice. -/
structure Progress.Accounts (p : Progress) : Prop where
  nodup : p.calls.Nodup
  mem_iff : ∀ call, call ∈ p.calls ↔ p.cache.Answers call

theorem Progress.accounts_start : ({} : Progress).Accounts where
  nodup := List.nodup_nil
  mem_iff call := by simp [Cache.not_answers_empty]

end Resolution

namespace Resolver

variable {ε : Type} {r : Resolver ε} {request : ResolveRequest} {p p' : Progress} {k : Nat}

/-- A pass adds the calls that it needs, also if it is the last one. -/
theorem calls_pass (r : Resolver ε) (request : ResolveRequest) (p : Progress) (number : Nat) :
    (r.pass request p number).1.calls = p.calls ++ (r.situation request p).neededCalls := by
  cases h : (r.situation request p).isStable (r.situation request p).traverse with
  | true =>
    rw [Situation.neededCalls_of_isStable h, List.append_nil, pass_of_isStable h]
    exact (r.conclude_fst _ _ p number).1
  | false =>
    rw [pass_of_not_isStable h, fetchNeeded]
    dsimp only
    split <;> rfl

/-- A pass that goes on knows the answers to its calls. -/
theorem answers_of_pass_again (h : r.pass request p k = (p', .again)) (call : Provider.Call) :
    p'.cache.Answers call ↔
      p.cache.Answers call ∨ call ∈ (r.situation request p).neededCalls := by
  cases hstable : (r.situation request p).isStable (r.situation request p).traverse with
  | true =>
    have hcache :=
      (r.conclude_fst (r.situation request p) (r.situation request p).traverse p k).2
    rw [pass_of_isStable hstable] at h
    rw [h] at hcache
    rw [Situation.neededCalls_of_isStable hstable, hcache]
    simp
  | false =>
    have hfetched := Batch.fetched_store r.provider r.rules
      ((r.situation request p).neededModules (r.situation request p).traverse)
      ((r.situation request p).neededListings (r.situation request p).traverse) p.cache
    rw [pass_of_not_isStable hstable] at h
    unfold fetchNeeded at h
    dsimp only at h
    split at h
    · cases h
    · next cache hstore =>
      cases h
      rw [hstore] at hfetched
      exact hfetched.answers_iff call

/-- What a pass needs and does not know, no earlier pass has asked for. -/
theorem nodup_calls_pass (r : Resolver ε) (request : ResolveRequest) (h : p.Accounts)
    (number : Nat) : (r.pass request p number).1.calls.Nodup := by
  rw [calls_pass]
  refine List.nodup_append.2 ⟨h.nodup, Situation.nodup_neededCalls _, ?_⟩
  rintro call hmade call' hneeded rfl
  obtain ⟨-, hunknown⟩ := Situation.mem_neededCalls_iff.1 hneeded
  exact hunknown ((h.mem_iff call).1 hmade)

/-- A pass that goes on keeps the account. -/
theorem Accounts.pass (h : p.Accounts) (hpass : r.pass request p k = (p', .again)) :
    p'.Accounts := by
  have hcalls := r.calls_pass request p k
  have hnodup := nodup_calls_pass r request h k
  rw [hpass] at hcalls hnodup
  refine ⟨hnodup, fun call => ?_⟩
  rw [hcalls, List.mem_append, h.mem_iff, answers_of_pass_again hpass]

/-! ## Resolutions -/

/-- A resolution runs a pass, after a number of others, with some progress. -/
inductive Runs (r : Resolver ε) (request : ResolveRequest) : Nat → Progress → Prop
  | first (uncancelled : r.cancelled [] = false) (bound : 0 < r.maxPasses) : Runs r request 0 {}
  | next {k : Nat} {p p' : Progress} (h : Runs r request k p)
      (again : r.pass request p (k + 1) = (p', .again))
      (uncancelled : r.cancelled p'.calls = false) (bound : k + 1 < r.maxPasses) :
      Runs r request (k + 1) p'

/-- A pass that a resolution runs needs a call, and none of the passes before it has made it. -/
structure Makes (r : Resolver ε) (request : ResolveRequest) (k : Nat) (p : Progress)
    (call : Provider.Call) : Prop where
  runs : Runs r request k p
  needed : (r.situation request p).Needs call
  notMade : call ∉ p.calls

theorem makes_of_mem_neededCalls {call : Provider.Call} (h : Runs r request k p)
    (hp : p.Accounts) (hcall : call ∈ (r.situation request p).neededCalls) :
    Makes r request k p call := by
  obtain ⟨hneeded, hunknown⟩ := Situation.mem_neededCalls_iff.1 hcall
  exact ⟨h, hneeded, fun hmade => hunknown ((hp.mem_iff call).1 hmade)⟩

/-- With the account kept so far, the rest of a resolution makes no call twice, and a pass needs
each call that it adds. -/
theorem calls_loop (r : Resolver ε) (request : ResolveRequest) {left : Nat} (hp : p.Accounts)
    (hleft : left + k = r.maxPasses)
    (hruns : r.cancelled p.calls = false → k < r.maxPasses → Runs r request k p) :
    (r.loop request left p).2.Nodup ∧ ∀ call ∈ (r.loop request left p).2,
      call ∈ p.calls ∨ ∃ k' p', Makes r request k' p' call := by
  -- The passes that are left start from any progress that keeps the account.
  induction left generalizing k p with
  | zero =>
    unfold loop
    split <;> exact ⟨hp.nodup, fun _ => .inl⟩
  | succ left ih =>
    cases hcancelled : r.cancelled p.calls with
    | true =>
      rw [loop_of_cancelled hcancelled]
      exact ⟨hp.nodup, fun _ => .inl⟩
    | false =>
      have hrun : Runs r request k p := hruns hcancelled (by omega)
      have hadded : ∀ call ∈ (r.pass request p (k + 1)).1.calls,
          call ∈ p.calls ∨ ∃ k' p', Makes r request k' p' call := by
        intro call hcall
        rw [calls_pass, List.mem_append] at hcall
        exact hcall.imp_right fun h => ⟨k, p, makes_of_mem_neededCalls hrun hp h⟩
      have hnodup := nodup_calls_pass r request hp (k + 1)
      have hnumber : r.maxPasses - left = k + 1 := by omega
      rw [loop_succ hcancelled, hnumber]
      cases hpass : r.pass request p (k + 1) with
      | mk p' step =>
        rw [hpass] at hadded hnodup
        cases step with
        | done result => exact ⟨hnodup, hadded⟩
        | again =>
          obtain ⟨hrest, hmade⟩ := ih (Accounts.pass hp hpass) (by omega)
            fun huncancelled hbound => hrun.next hpass huncancelled hbound
          refine ⟨hrest, fun call hcall => ?_⟩
          exact (hmade call hcall).elim (hadded call) .inr

/-- However a resolution ends, it has made no call twice. A pass that it ran has needed each of
them: it has reached the module, and the choice among its requests has selected the version whose
data are fetched, or could not do without the listing. -/
theorem calls_run (r : Resolver ε) (request : ResolveRequest) :
    (r.run request).2.Nodup ∧
      ∀ call ∈ (r.run request).2, ∃ k p, Makes r request k p call := by
  obtain ⟨hnodup, hmade⟩ := calls_loop r request Progress.accounts_start (Nat.add_zero _)
    fun huncancelled hbound => .first huncancelled hbound
  refine ⟨hnodup, fun call hcall => ?_⟩
  exact (hmade call hcall).resolve_left List.not_mem_nil

/-- The second version that is selected does not exist. -/
def flippingResolver : Resolver Empty where
  provider := Provider.ofData
    [.single ⟨"org", "a", "1.0"⟩ [], .single ⟨"org", "b", "1.0"⟩ [.on ⟨"org", "a", "2.0"⟩]]

theorem calls_run_flipping :
    flippingResolver.resolve divergingRequest =
        .error (.moduleNotFound ⟨"org", "a", "2.0"⟩ ["org:root:1.0", "org:b:1.0"]) ∧
      (flippingResolver.run divergingRequest).2 = [.fetch ⟨"org", "a", "1.0"⟩,
        .fetch ⟨"org", "b", "1.0"⟩, .fetch ⟨"org", "a", "2.0"⟩] ∧
      (flippingResolver.run divergingRequest).2.Nodup ∧
      ∃ k p, Makes flippingResolver divergingRequest k p (.fetch ⟨"org", "a", "2.0"⟩) := by
  have hcalls : (flippingResolver.run divergingRequest).2 = [.fetch ⟨"org", "a", "1.0"⟩,
      .fetch ⟨"org", "b", "1.0"⟩, .fetch ⟨"org", "a", "2.0"⟩] := by
    decide +kernel
  obtain ⟨hnodup, hmade⟩ := calls_run flippingResolver divergingRequest
  exact ⟨by decide +kernel, hcalls, hnodup, hmade _ (hcalls ▸ by decide)⟩

end Resolver

end VariantGraph
