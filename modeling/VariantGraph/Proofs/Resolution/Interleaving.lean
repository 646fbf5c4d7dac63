import Mathlib.Logic.Relation
import VariantGraph.Proofs.Resolution.Batches
import VariantGraph.Proofs.Resolution.Fixpoint

/-!
# Fetches that are answered in any order

The calls of a batch are made at the same time, so many at once as there are jobs. They may be made,
answered and collected in any order. A resolution has the same result whatever these orders are: the
graph, the conflicts and the number of passes, or the error.

Main statements: `Provider.completes_iff` says in which orders a batch can be completed,
`Resolver.resolve_of_completes` that none of them shows in what a batch or a resolution leads to.
-/

namespace VariantGraph

open Resolution

variable {ε : Type}

/-! ## Batches under way -/

namespace Resolution

/-- A batch of calls under way. -/
structure Flight (ε : Type) where
  /-- The calls that have not been made yet. -/
  waiting : List Provider.Call := []
  /-- The calls that have been made and not been answered. -/
  pending : List Provider.Call := []
  /-- The answers that have not been collected yet. -/
  answered : List (Completion ε) := []
  /-- The collected answers in their order. -/
  collected : List (Completion ε) := []
  /-- The calls in the order in which they have been made. -/
  made : List Provider.Call := []

/-- A step of a batch. A call is made if fewer than the number of jobs are pending, and one can
always be pending. -/
inductive Flight.Step (p : Provider ε) (jobs : Nat) : Flight ε → Flight ε → Prop
  | make {f : Flight ε} {c : Provider.Call} {before after : List Provider.Call}
      (waiting : f.waiting = before ++ c :: after) (room : f.pending.length < max jobs 1) :
      Step p jobs f { f with
        waiting := before ++ after, pending := c :: f.pending, made := f.made ++ [c] }
  | answer {f : Flight ε} {c : Provider.Call} {before after : List Provider.Call}
      (pending : f.pending = before ++ c :: after) :
      Step p jobs f { f with
        pending := before ++ after, answered := p.answer c :: f.answered }
  | collect {f : Flight ε} {a : Completion ε} {before after : List (Completion ε)}
      (answered : f.answered = before ++ a :: after) :
      Step p jobs f { f with
        answered := before ++ after, collected := f.collected ++ [a] }

/-- The answers of a batch, those to come included. -/
def Flight.answers (p : Provider ε) (f : Flight ε) : List (Completion ε) :=
  f.collected ++ (f.answered ++ (f.pending ++ f.waiting).map p.answer)

theorem perm_middle_append {α : Type} {l before after : List α} {a : α}
    (h : l = before ++ a :: after) (rest : List α) :
    (l ++ rest).Perm (a :: (before ++ after ++ rest)) := by
  rw [h, List.append_assoc, List.append_assoc, List.cons_append]
  exact List.perm_middle

/-- A step moves a call or an answer to another place, and loses and adds none. -/
theorem Flight.Step.perm {p : Provider ε} {jobs : Nat} {f f' : Flight ε} (h : Step p jobs f f') :
    (f.waiting ++ f.made).Perm (f'.waiting ++ f'.made) ∧ (f.answers p).Perm (f'.answers p) := by
  cases h with
  | @make c before after hwaiting hroom =>
    constructor
    · refine (perm_middle_append hwaiting f.made).trans ?_
      rw [← List.append_assoc]
      exact (List.perm_append_singleton c _).symm
    · refine .append_left f.collected (.append_left f.answered (.map p.answer ?_))
      rw [hwaiting, List.cons_append, ← List.append_assoc, ← List.append_assoc]
      exact List.perm_middle
  | @answer c before after hpending =>
    refine ⟨.refl _, .append_left f.collected ?_⟩
    have hcall := (perm_middle_append hpending f.waiting).map p.answer
    exact (hcall.append_left f.answered).trans List.perm_middle
  | @collect a before after hanswered =>
    refine ⟨.refl _, ?_⟩
    unfold answers
    rw [List.append_assoc, List.singleton_append]
    exact .append_left f.collected (perm_middle_append hanswered _)

end Resolution

/-- In the course of a batch some calls are made, in their order, and some answers collected, in
theirs, and none are left. -/
def Provider.Completes (p : Provider ε) (jobs : Nat) (calls made : List Provider.Call)
    (collected : List (Completion ε)) : Prop :=
  Relation.ReflTransGen (Flight.Step p jobs) { waiting := calls }
    { collected := collected, made := made }

namespace Resolution.Flight

variable {p : Provider ε} {jobs : Nat}

/-- What a step keeps, a batch keeps. -/
theorem perm_of_steps {f f' : Flight ε} (h : Relation.ReflTransGen (Step p jobs) f f') :
    (f.waiting ++ f.made).Perm (f'.waiting ++ f'.made) ∧ (f.answers p).Perm (f'.answers p) := by
  induction h with
  | refl => exact ⟨.refl _, .refl _⟩
  | tail _ hstep ih => exact ⟨ih.1.trans hstep.perm.1, ih.2.trans hstep.perm.2⟩

/-- Calls can be made in any order, each one answered before the next one is made. -/
theorem steps_of_made {made waiting : List Provider.Call} (h : made.Perm waiting)
    (answered : List (Completion ε)) (earlier : List Provider.Call) :
    Relation.ReflTransGen (Step p jobs)
      { waiting := waiting, answered := answered, made := earlier }
      { answered := (made.map p.answer).reverse ++ answered, made := earlier ++ made } := by
  induction made generalizing waiting answered earlier with
  | nil =>
    obtain rfl := h.nil_eq
    rw [List.append_nil]
    exact .refl
  | cons c rest ih =>
    obtain ⟨before, after, rfl⟩ := List.append_of_mem (h.mem_iff.1 List.mem_cons_self)
    have hrest : rest.Perm (before ++ after) := (h.trans List.perm_middle).cons_inv
    have hmake : Step p jobs
        { waiting := before ++ c :: after, answered := answered, made := earlier }
        { waiting := before ++ after, pending := [c], answered := answered,
          made := earlier ++ [c] } :=
      .make rfl (by simp)
    have hanswer : Step p jobs
        { waiting := before ++ after, pending := [c], answered := answered,
          made := earlier ++ [c] }
        { waiting := before ++ after, answered := p.answer c :: answered,
          made := earlier ++ [c] } :=
      @Step.answer ε p jobs _ c [] [] rfl
    have hsteps := ih hrest (p.answer c :: answered) (earlier ++ [c])
    rw [List.append_assoc, List.singleton_append] at hsteps
    rw [List.map_cons, List.reverse_cons, List.append_assoc, List.singleton_append]
    exact .head hmake (.head hanswer hsteps)

/-- Answers can be collected in any order. -/
theorem steps_of_collected {collected answered : List (Completion ε)}
    (h : collected.Perm answered) (earlier : List (Completion ε)) (made : List Provider.Call) :
    Relation.ReflTransGen (Step p jobs)
      { answered := answered, collected := earlier, made := made }
      { collected := earlier ++ collected, made := made } := by
  induction collected generalizing answered earlier with
  | nil =>
    obtain rfl := h.nil_eq
    rw [List.append_nil]
  | cons a rest ih =>
    obtain ⟨before, after, rfl⟩ := List.append_of_mem (h.mem_iff.1 List.mem_cons_self)
    have hrest : rest.Perm (before ++ after) := (h.trans List.perm_middle).cons_inv
    have hcollect : Step p jobs
        { answered := before ++ a :: after, collected := earlier, made := made }
        { answered := before ++ after, collected := earlier ++ [a], made := made } :=
      .collect rfl
    have hsteps := ih hrest (earlier ++ [a])
    rw [List.append_assoc, List.singleton_append] at hsteps
    exact .head hcollect hsteps

end Resolution.Flight

/-- Whatever the number of jobs, the calls of a batch can be made in any order and their answers
collected in any other. -/
theorem Provider.completes_iff {p : Provider ε} {jobs : Nat} {calls made : List Provider.Call}
    {collected : List (Completion ε)} : p.Completes jobs calls made collected ↔
      made.Perm calls ∧ collected.Perm (calls.map p.answer) := by
  constructor
  · intro h
    obtain ⟨hmade, hanswers⟩ := Flight.perm_of_steps h
    simp only [Flight.answers, List.nil_append, List.append_nil, List.map_nil] at hmade hanswers
    exact ⟨hmade.symm, hanswers.symm⟩
  · rintro ⟨hmade, hcollected⟩
    refine (Flight.steps_of_made hmade [] []).trans ?_
    refine Flight.steps_of_collected ?_ [] made
    rw [List.append_nil]
    exact hcollected.trans (((hmade.map p.answer).symm).trans (List.reverse_perm _).symm)

/-- The orders in which a batch is completed do not show in what is gathered. -/
theorem Provider.Completes.gather_eq {p : Provider ε} {jobs : Nat} {modules : List Coordinates}
    {listings : List ModuleId} {made : List Provider.Call} {collected : List (Completion ε)}
    (h : p.Completes jobs (batchCalls modules listings) made collected) :
    gather collected = gather (completions p modules listings) := by
  obtain ⟨-, hcollected⟩ := completes_iff.1 h
  have hanswers : ∀ a ∈ collected, a ∈ Set.range p.answer := by
    intro a ha
    obtain ⟨c, -, rfl⟩ := List.mem_map.1 (hcollected.mem_iff.1 ha)
    exact ⟨c, rfl⟩
  obtain ⟨order, rfl⟩ : collected ∈ Set.range (List.map p.answer) := by
    rw [Set.range_list_map]
    exact hanswers
  rw [completions_eq_map_answer]
  exact gather_answers_of_perm ((List.map_perm_map_iff p.answer_injective).1 hcollected) p

/-! ## Resolutions -/

namespace Resolver

variable {r : Resolver ε} {jobs : Nat} {request : ResolveRequest}

/-- Takes over the versions that a walk chose and what a batch collected. -/
def takeOver (r : Resolver ε) (s : Situation) (w : Walk) (p : Progress)
    (made : List Provider.Call) (collected : List (Completion ε)) : Progress × Step ε :=
  let p := { p with
    selections := s.newSelections w
    calls := p.calls ++ made }
  match (gather collected).store r.rules p.cache with
  | .error e => (p, .done (.error (.provider e)))
  | .ok cache => ({ p with cache := cache }, .again)

/-- A pass with some progress can lead to some other progress, depending on the order in which the
calls of its batch are made and answered. -/
inductive Passes (r : Resolver ε) (jobs : Nat) (request : ResolveRequest) (p : Progress)
    (number : Nat) : Progress × Step ε → Prop
  | stable (h : (r.situation request p).isStable (r.situation request p).traverse = true) :
      Passes r jobs request p number
        (r.conclude (r.situation request p) (r.situation request p).traverse p number)
  | fetching {made : List Provider.Call} {collected : List (Completion ε)}
      (h : (r.situation request p).isStable (r.situation request p).traverse = false)
      (completes : r.provider.Completes jobs
        (batchCalls ((r.situation request p).neededModules (r.situation request p).traverse)
          ((r.situation request p).neededListings (r.situation request p).traverse))
        made collected) :
      Passes r jobs request p number
        (r.takeOver (r.situation request p) (r.situation request p).traverse p made collected)

/-- With a number of passes left and some progress a resolution can end with a result, after some
calls. -/
inductive EndsWith (r : Resolver ε) (jobs : Nat) (request : ResolveRequest) :
    Nat → Progress → Except (ResolutionError ε) Resolution → List Provider.Call → Prop
  | cancelled {left : Nat} {p : Progress} (h : r.cancelled p.calls = true) :
      EndsWith r jobs request left p (.error .cancelled) p.calls
  | unstable {p : Progress} (h : r.cancelled p.calls = false) :
      EndsWith r jobs request 0 p (.error (.unstable r.maxPasses)) p.calls
  | done {left : Nat} {p p' : Progress} {result : Except (ResolutionError ε) Resolution}
      (h : r.cancelled p.calls = false)
      (pass : Passes r jobs request p (r.maxPasses - left) (p', .done result)) :
      EndsWith r jobs request (left + 1) p result p'.calls
  | again {left : Nat} {p p' : Progress} {result : Except (ResolutionError ε) Resolution}
      {calls : List Provider.Call} (h : r.cancelled p.calls = false)
      (pass : Passes r jobs request p (r.maxPasses - left) (p', .again))
      (rest : EndsWith r jobs request left p' result calls) :
      EndsWith r jobs request (left + 1) p result calls

/-- A resolution can have a result after some calls, for some orders in which its batches are
completed. -/
def Resolves (r : Resolver ε) (jobs : Nat) (request : ResolveRequest)
    (result : Except (ResolutionError ε) Resolution) (calls : List Provider.Call) : Prop :=
  r.EndsWith jobs request r.maxPasses {} result calls

/-- Whether a resolution is cancelled depends on the calls that have been made, and not on their
order. -/
def CancelsByCalls (r : Resolver ε) : Prop :=
  ∀ calls calls', calls.Perm calls' → r.cancelled calls = r.cancelled calls'

/-! ### The result of a resolution -/

theorem fetchNeeded_eq_takeOver (r : Resolver ε) (s : Situation) (w : Walk) (p : Progress) :
    r.fetchNeeded s w p = r.takeOver s w p (batchCalls (s.neededModules w) (s.neededListings w))
      (completions r.provider (s.neededModules w) (s.neededListings w)) := rfl

/-- The pass of a resolution is one that it can make. -/
theorem passes_pass (r : Resolver ε) (jobs : Nat) (request : ResolveRequest) (p : Progress)
    (number : Nat) : r.Passes jobs request p number (r.pass request p number) := by
  cases h : (r.situation request p).isStable (r.situation request p).traverse with
  | true =>
    rw [pass_of_isStable h]
    exact .stable h
  | false =>
    rw [pass_of_not_isStable h, fetchNeeded_eq_takeOver, completions_eq_map_answer]
    exact .fetching h (Provider.completes_iff.2 ⟨List.Perm.refl _, List.Perm.refl _⟩)

/-- The way in which a resolution is run is one in which it can end. -/
theorem endsWith_loop (r : Resolver ε) (jobs : Nat) (request : ResolveRequest) (left : Nat)
    (p : Progress) : r.EndsWith jobs request left p (r.loop request left p).1
      (r.loop request left p).2 := by
  induction left generalizing p with
  | zero =>
    unfold loop
    split
    · next h => exact .cancelled h
    · next h => exact .unstable (Bool.eq_false_iff.2 h)
  | succ left ih =>
    unfold loop
    split
    · next h => exact .cancelled h
    · next h =>
      have hpass := r.passes_pass jobs request p (r.maxPasses - left)
      dsimp only
      generalize r.pass request p (r.maxPasses - left) = x at hpass
      obtain ⟨p', step⟩ := x
      cases step with
      | done result => exact .done (Bool.eq_false_iff.2 h) hpass
      | again => exact .again (Bool.eq_false_iff.2 h) hpass (ih p')

/-- Progress that has been made with other calls. -/
def withCalls (p : Progress) (calls : List Provider.Call) : Progress := { p with calls := calls }

theorem conclude_withCalls (r : Resolver ε) (s : Situation) (w : Walk) (p : Progress)
    (number : Nat) (calls : List Provider.Call) :
    r.conclude s w (withCalls p calls) number =
      (withCalls (r.conclude s w p number).1 calls, (r.conclude s w p number).2) := by
  unfold conclude
  split
  · rfl
  · split
    · rfl
    · split <;> rfl

theorem takeOver_withCalls (r : Resolver ε) (s : Situation) (w : Walk) (p : Progress)
    (calls made made' : List Provider.Call) {collected collected' : List (Completion ε)}
    (h : gather collected = gather collected') :
    r.takeOver s w (withCalls p calls) made' collected' =
      (withCalls (r.takeOver s w p made collected).1 (calls ++ made'),
        (r.takeOver s w p made collected).2) := by
  unfold takeOver
  rw [h]
  simp only [withCalls]
  split <;> rfl

theorem calls_takeOver (r : Resolver ε) (s : Situation) (w : Walk) (p : Progress)
    (made : List Provider.Call) (collected : List (Completion ε)) :
    (r.takeOver s w p made collected).1.calls = p.calls ++ made := by
  unfold takeOver
  dsimp only
  split <;> rfl

theorem takeOver_of_error {s : Situation} {w : Walk} {p : Progress} {made : List Provider.Call}
    {collected : List (Completion ε)} {e : ε}
    (h : (gather collected).store r.rules p.cache = .error e) :
    r.takeOver s w p made collected =
      ({ p with selections := s.newSelections w, calls := p.calls ++ made },
        .done (.error (.provider e))) := by
  unfold takeOver
  dsimp only
  rw [h]

/-- Up to the order of the calls a pass leads to what the pass of a resolution leads to. -/
theorem Passes.pass_withCalls {p : Progress} {number : Nat} {x : Progress × Step ε}
    (h : r.Passes jobs request p number x) {calls : List Provider.Call}
    (hcalls : p.calls.Perm calls) : ∃ calls', x.1.calls.Perm calls' ∧
      r.pass request (withCalls p calls) number = (withCalls x.1 calls', x.2) := by
  cases h with
  | stable hstable =>
    refine ⟨calls, ?_, ?_⟩
    · rw [(r.conclude_fst _ _ p number).1]
      exact hcalls
    · rw [pass_of_isStable (p := withCalls p calls) hstable]
      exact r.conclude_withCalls _ _ p number calls
  | @fetching made collected hstable hcompletes =>
    obtain ⟨hmade, -⟩ := Provider.completes_iff.1 hcompletes
    refine ⟨calls ++ batchCalls
      ((r.situation request p).neededModules (r.situation request p).traverse)
      ((r.situation request p).neededListings (r.situation request p).traverse), ?_, ?_⟩
    · rw [calls_takeOver]
      exact hcalls.append hmade
    · rw [pass_of_not_isStable (p := withCalls p calls) hstable, fetchNeeded_eq_takeOver]
      exact r.takeOver_withCalls _ _ p calls made _ hcompletes.gather_eq

/-- However its batches are completed, a resolution ends as it does in the order of keys. -/
theorem EndsWith.loop_withCalls (hcancel : r.CancelsByCalls) {left : Nat} {p : Progress}
    {result : Except (ResolutionError ε) Resolution} {made : List Provider.Call}
    (h : r.EndsWith jobs request left p result made) {calls : List Provider.Call}
    (hcalls : p.calls.Perm calls) : ∃ calls', made.Perm calls' ∧
      r.loop request left (withCalls p calls) = (result, calls') := by
  -- Each pass may reorder its calls, so those made before it are known up to their order only.
  induction h generalizing calls with
  | cancelled h =>
    rw [hcancel _ _ hcalls] at h
    exact ⟨calls, hcalls, loop_of_cancelled h⟩
  | unstable h =>
    rw [hcancel _ _ hcalls] at h
    exact ⟨calls, hcalls, loop_zero h⟩
  | done h hpass =>
    rw [hcancel _ _ hcalls] at h
    obtain ⟨calls', hcalls', heq⟩ := hpass.pass_withCalls hcalls
    refine ⟨calls', hcalls', ?_⟩
    rw [loop_succ h, heq]
    rfl
  | again h hpass _ ih =>
    rw [hcancel _ _ hcalls] at h
    obtain ⟨calls', hcalls', heq⟩ := hpass.pass_withCalls hcalls
    obtain ⟨calls'', hmade, hloop⟩ := ih hcalls'
    refine ⟨calls'', hmade, ?_⟩
    rw [loop_succ h, heq]
    exact hloop

/-- A resolver whose resolutions are not cancelled. -/
def uncancelled (r : Resolver ε) : Resolver ε := { r with cancelled := fun _ => false }

theorem situation_uncancelled (r : Resolver ε) (request : ResolveRequest) (p : Progress) :
    r.uncancelled.situation request p = r.situation request p := rfl

theorem conclude_uncancelled (r : Resolver ε) (s : Situation) (w : Walk) (p : Progress)
    (number : Nat) : r.uncancelled.conclude s w p number = r.conclude s w p number := rfl

theorem takeOver_uncancelled (r : Resolver ε) (s : Situation) (w : Walk) (p : Progress)
    (made : List Provider.Call) (collected : List (Completion ε)) :
    r.uncancelled.takeOver s w p made collected = r.takeOver s w p made collected := rfl

theorem Passes.uncancelled {p : Progress} {number : Nat} {x : Progress × Step ε}
    (h : r.Passes jobs request p number x) : r.uncancelled.Passes jobs request p number x := by
  cases h with
  | stable hstable =>
    rw [← situation_uncancelled] at hstable ⊢
    rw [← conclude_uncancelled]
    exact .stable hstable
  | fetching hstable hcompletes =>
    rw [← situation_uncancelled] at hstable hcompletes ⊢
    rw [← takeOver_uncancelled]
    exact .fetching hstable hcompletes

/-- Cancelling a resolution is all that can keep it from ending as it does otherwise. -/
theorem EndsWith.uncancelled {left : Nat} {p : Progress}
    {result : Except (ResolutionError ε) Resolution} {made : List Provider.Call}
    (h : r.EndsWith jobs request left p result made) :
    result = .error .cancelled ∨ r.uncancelled.EndsWith jobs request left p result made := by
  induction h with
  | cancelled _ => exact .inl rfl
  | unstable _ => exact .inr (.unstable rfl)
  | done _ hpass => exact .inr (.done rfl hpass.uncancelled)
  | again _ hpass _ ih => exact ih.imp_right fun hrest => .again rfl hpass.uncancelled hrest

/-- However its batches are completed, a resolution has the result that it has in the order of
keys, and it makes the same calls. -/
theorem Resolves.eq_resolve (hcancel : r.CancelsByCalls)
    {result : Except (ResolutionError ε) Resolution} {calls : List Provider.Call}
    (h : r.Resolves jobs request result calls) :
    result = r.resolve request ∧ calls.Perm (r.run request).2 := by
  obtain ⟨calls', hcalls', hloop⟩ := EndsWith.loop_withCalls hcancel h (List.Perm.refl _)
  have hrun : r.run request = (result, calls') := hloop
  exact ⟨(congrArg Prod.fst hrun).symm, hrun ▸ hcalls'⟩

/-- The orders in which the calls of a batch are made and answered show neither in the cache or the
failure that it leads to, nor in the result of a resolution that is not cancelled, nor, if it does
not depend on them whether a resolution is cancelled, in any result. -/
theorem resolve_of_completes (r : Resolver ε) (jobs : Nat) :
    (∀ modules listings made collected,
      r.provider.Completes jobs (batchCalls modules listings) made collected →
        gather collected = gather (completions r.provider modules listings) ∧
        ∀ c, Fetched r.provider r.rules modules listings c ((gather collected).store r.rules c)) ∧
    (∀ request result calls, r.Resolves jobs request result calls →
      result = .error .cancelled ∨ result = r.uncancelled.resolve request) ∧
    (r.CancelsByCalls → ∀ request,
      (∃ result calls, r.Resolves jobs request result calls) ∧
      ∀ result calls, r.Resolves jobs request result calls →
        result = r.resolve request ∧ calls.Perm (r.run request).2) := by
  refine ⟨?_, ?_, ?_⟩
  · intro modules listings made collected h
    refine ⟨h.gather_eq, fun c => ?_⟩
    rw [h.gather_eq]
    exact Batch.fetched_store r.provider r.rules modules listings c
  · intro request result calls h
    refine (EndsWith.uncancelled h).imp_right fun hends => ?_
    exact (Resolves.eq_resolve (fun _ _ _ => rfl) hends).1
  · intro hcancel request
    refine ⟨⟨_, _, r.endsWith_loop jobs request r.maxPasses {}⟩, ?_⟩
    intro result calls h
    exact h.eq_resolve hcancel

/-- Its provider cannot be reached. -/
def failingResolver : Resolver String where
  provider := { fetch := fun id => .error id.text, versions := fun m => .error m.text }

/-- The calls for both modules, the second one first. -/
def reversedCalls : List Provider.Call := [.fetch ⟨"org", "b", "1.0"⟩, .fetch ⟨"org", "a", "1.0"⟩]

/-- The second module fails first, and still the failure of the first one is the error. -/
theorem resolve_of_completes_reversed :
    gather (reversedCalls.map failingResolver.provider.answer) =
        gather (completions failingResolver.provider
          [⟨"org", "a", "1.0"⟩, ⟨"org", "b", "1.0"⟩] []) ∧
      failingResolver.Resolves 2 divergingRequest (.error (.provider "org:a:1.0")) reversedCalls ∧
      failingResolver.resolve divergingRequest = .error (.provider "org:a:1.0") := by
  have hcompletes : failingResolver.provider.Completes 2
      (batchCalls [⟨"org", "a", "1.0"⟩, ⟨"org", "b", "1.0"⟩] []) reversedCalls
      (reversedCalls.map failingResolver.provider.answer) := by
    have hperm : reversedCalls.Perm (batchCalls [⟨"org", "a", "1.0"⟩, ⟨"org", "b", "1.0"⟩] []) :=
      List.Perm.swap _ _ _
    exact Provider.completes_iff.2 ⟨hperm, hperm.map _⟩
  have hmodules : (failingResolver.situation divergingRequest {}).neededModules
      (failingResolver.situation divergingRequest {}).traverse =
        [⟨"org", "a", "1.0"⟩, ⟨"org", "b", "1.0"⟩] := by
    decide +kernel
  have hlistings : (failingResolver.situation divergingRequest {}).neededListings
      (failingResolver.situation divergingRequest {}).traverse = [] := by
    decide +kernel
  have hends : failingResolver.Resolves 2 divergingRequest (.error (.provider "org:a:1.0"))
      reversedCalls := by
    have hunstable : (failingResolver.situation divergingRequest {}).isStable
        (failingResolver.situation divergingRequest {}).traverse = false := by
      decide +kernel
    have hpass : failingResolver.Passes 2 divergingRequest {} 1 _ :=
      .fetching hunstable (hmodules.symm ▸ hlistings.symm ▸ hcompletes)
    have hstore : (gather (reversedCalls.map failingResolver.provider.answer)).store
        failingResolver.rules {} = .error "org:a:1.0" := rfl
    rw [takeOver_of_error hstore] at hpass
    exact @EndsWith.done _ failingResolver 2 divergingRequest 63 {} _ _ rfl hpass
  obtain ⟨hbatch, -, hresolution⟩ := resolve_of_completes failingResolver 2
  obtain ⟨-, hsame⟩ := hresolution (fun _ _ _ => rfl) divergingRequest
  exact ⟨(hbatch _ _ _ _ hcompletes).1, hends, (hsame _ _ hends).1.symm⟩

end Resolver

end VariantGraph
