import VariantGraph.Proofs.Resolution.Fetching

/-!
# The passes of a resolution

A resolution that neither is cancelled nor runs out of passes ends with the result of its last pass.
Such a pass was stable, unless it is the provider that failed.

Main statements: `Resolver.resolve_cases` finds the last pass of a resolution and
`Resolver.LastPass.unique` says that there is one only, `Resolver.pass_ok` and `Resolver.pass_error`
say how a pass can end a resolution.
-/

namespace VariantGraph

open Resolution

namespace Resolver

variable {ε : Type} {r : Resolver ε} {request : ResolveRequest}

/-! ## Progress -/

/-- After a number of passes a resolution goes on with some progress. -/
inductive Reaches (r : Resolver ε) (request : ResolveRequest) : Nat → Progress → Prop
  | start : Reaches r request 0 {}
  | pass {k : Nat} {p p' : Progress} (h : Reaches r request k p)
      (hpass : r.pass request p (k + 1) = (p', .again)) : Reaches r request (k + 1) p'

instance (s : Step ε) : Decidable (s = .again) :=
  match s with
  | .done _ => isFalse fun h => Step.noConfusion rfl (heq_of_eq h)
  | .again => isTrue rfl

theorem Reaches.next {k : Nat} {p : Progress} (h : Reaches r request k p)
    (hagain : (r.pass request p (k + 1)).2 = .again) :
    Reaches r request (k + 1) (r.pass request p (k + 1)).1 :=
  h.pass (Prod.ext rfl hagain)

/-- With some progress, made in a number of passes, the next pass ends a resolution with a result. -/
structure LastPass (r : Resolver ε) (request : ResolveRequest) (k : Nat) (p : Progress)
    (result : Except (ResolutionError ε) Resolution) : Prop where
  reaches : Reaches r request k p
  result : (r.pass request p (k + 1)).2 = .done result

theorem pass_of_isStable {p : Progress}
    (h : (r.situation request p).isStable (r.situation request p).traverse = true) (number : Nat) :
    r.pass request p number =
      r.conclude (r.situation request p) (r.situation request p).traverse p number :=
  if_pos h

theorem pass_of_not_isStable {p : Progress}
    (h : (r.situation request p).isStable (r.situation request p).traverse = false)
    (number : Nat) : r.pass request p number =
      r.fetchNeeded (r.situation request p) (r.situation request p).traverse p :=
  if_neg (Bool.eq_false_iff.1 h)

/-- Only redirects are found where a pass needs nothing more. -/
theorem conclude_fst (r : Resolver ε) (s : Situation) (w : Walk) (p : Progress) (number : Nat) :
    (r.conclude s w p number).1.calls = p.calls ∧ (r.conclude s w p number).1.cache = p.cache := by
  unfold conclude
  split
  · exact ⟨rfl, rfl⟩
  · split
    · exact ⟨rfl, rfl⟩
    · split <;> exact ⟨rfl, rfl⟩

theorem loop_of_cancelled {left : Nat} {p : Progress} (h : r.cancelled p.calls = true) :
    r.loop request left p = (.error .cancelled, p.calls) := by
  unfold loop
  exact if_pos h

theorem loop_zero {p : Progress} (h : r.cancelled p.calls = false) :
    r.loop request 0 p = (.error (.unstable r.maxPasses), p.calls) := by
  unfold loop
  exact if_neg (Bool.eq_false_iff.1 h)

theorem loop_succ {left : Nat} {p : Progress} (h : r.cancelled p.calls = false) :
    r.loop request (left + 1) p =
      match r.pass request p (r.maxPasses - left) with
      | (p, .done result) => (result, p.calls)
      | (p, .again) => r.loop request left p := by
  conv => lhs; unfold loop
  exact if_neg (Bool.eq_false_iff.1 h)

theorem loop_cases {n k : Nat} {p : Progress} (h : Reaches r request k p)
    (hn : n + k = r.maxPasses) :
    (r.loop request n p).1 = .error .cancelled ∨
      (r.loop request n p).1 = .error (.unstable r.maxPasses) ∨
      ∃ k' p', LastPass r request k' p' (r.loop request n p).1 := by
  induction n generalizing k p with
  | zero =>
    unfold loop
    split
    · exact .inl rfl
    · exact .inr (.inl rfl)
  | succ n ih =>
    unfold loop
    split
    · exact .inl rfl
    · have hnumber : r.maxPasses - n = k + 1 := by omega
      dsimp only
      rw [hnumber]
      cases hpass : r.pass request p (k + 1) with
      | mk p' step =>
        cases step with
        | done result => exact .inr (.inr ⟨k, p, h, by rw [hpass]⟩)
        | again => exact ih (h.pass hpass) (by omega)

/-- A resolution is cancelled, or it gives up, or its result is the one of its last pass. -/
theorem resolve_cases (r : Resolver ε) (request : ResolveRequest) :
    r.resolve request = .error .cancelled ∨ r.resolve request = .error (.unstable r.maxPasses) ∨
      ∃ k p, LastPass r request k p (r.resolve request) :=
  loop_cases .start (Nat.add_zero _)

/-- A resolution that succeeds has a last pass. -/
theorem exists_lastPass {res : Resolution} (h : r.resolve request = .ok res) :
    ∃ k p, LastPass r request k p (.ok res) := by
  rcases r.resolve_cases request with hc | hc | ⟨k, p, hlast⟩
  · rw [h] at hc
    cases hc
  · rw [h] at hc
    cases hc
  · rw [h] at hlast
    exact ⟨k, p, hlast⟩

/-- The progress after a number of passes is unique. -/
theorem Reaches.unique {k : Nat} {p p' : Progress} (h : Reaches r request k p)
    (h' : Reaches r request k p') : p' = p := by
  induction h generalizing p' with
  | start =>
    cases h'
    rfl
  | pass _ hpass ih =>
    cases h' with
    | pass h' hpass' =>
      obtain rfl := ih h'
      rw [hpass] at hpass'
      exact (congrArg Prod.fst hpass').symm

/-- A resolution that has made more passes has gone on after each of the earlier ones. -/
theorem Reaches.again {k n : Nat} {p p' : Progress} (h : Reaches r request n p') (hk : k < n)
    (hp : Reaches r request k p) : (r.pass request p (k + 1)).2 = .again := by
  induction h with
  | start => exact absurd hk (Nat.not_lt_zero k)
  | @pass n q q' hq hpass ih =>
    rcases Nat.lt_succ_iff_lt_or_eq.1 hk with hlt | rfl
    · exact ih hlt
    · obtain rfl := hp.unique hq
      rw [hpass]

/-- The progress after which a resolution does not go on is the one of its last pass. -/
theorem LastPass.eq_of_reaches {k n : Nat} {p q : Progress}
    {result : Except (ResolutionError ε) Resolution} (h : LastPass r request k p result)
    (hq : Reaches r request n q) (hdone : (r.pass request q (n + 1)).2 ≠ .again) :
    k = n ∧ p = q := by
  -- whichever pass comes first, the resolution would have gone on after it
  rcases Nat.lt_trichotomy k n with hlt | rfl | hlt
  · have hagain := hq.again hlt h.reaches
    rw [h.result] at hagain
    cases hagain
  · exact ⟨rfl, hq.unique h.reaches⟩
  · exact absurd (h.reaches.again hlt hq) hdone

/-- A resolution has one last pass. -/
theorem LastPass.unique {k k' : Nat} {p p' : Progress}
    {result result' : Except (ResolutionError ε) Resolution} (h : LastPass r request k p result)
    (h' : LastPass r request k' p' result') : k = k' ∧ p = p' := by
  refine h.eq_of_reaches h'.reaches ?_
  intro hagain
  rw [h'.result] at hagain
  cases hagain

/-- Whatever a resolution remembers is what its provider answered. -/
theorem Reaches.comesFrom {k : Nat} {p : Progress} (h : Reaches r request k p) :
    p.cache.ComesFrom r.provider r.rules := by
  induction h with
  | start => exact comesFrom_empty _ _
  | @pass k p p' _ hpass ih =>
    unfold Resolver.pass at hpass
    dsimp only at hpass
    split at hpass
    · -- a stable pass that goes on keeps the cache
      unfold conclude at hpass
      split at hpass
      · simp at hpass
      · split at hpass
        · simp at hpass
        · split at hpass
          · simp at hpass
          · obtain ⟨rfl, -⟩ := Prod.mk.inj hpass
            exact ih
    · unfold fetchNeeded at hpass
      dsimp only at hpass
      split at hpass
      · simp at hpass
      · next cache hstore =>
        obtain ⟨rfl, -⟩ := Prod.mk.inj hpass
        exact Batch.comesFrom_store (comesFrom_gather _ _ _) ih hstore

/-! ## How a pass ends a resolution -/

/-- A pass that ends a resolution with a graph was stable and found no failure and no redirect. -/
theorem pass_ok {p : Progress} {number : Nat} {res : Resolution}
    (h : (r.pass request p number).2 = .done (.ok res)) :
    let s := r.situation request p
    s.isStable s.traverse = true ∧ s.failure? (ε := ε) s.traverse = none ∧
      (∃ redirects, capabilityRedirects (ε := ε) r.rules s.traverse = .ok redirects ∧
        redirects.isEmpty = true) ∧
      res = ⟨s.graph s.traverse, ConflictReport.ofGraph (s.graph s.traverse), number⟩ := by
  dsimp only
  unfold pass at h
  dsimp only at h
  split at h
  · next hstable =>
    unfold conclude at h
    split at h
    · simp at h
    · next hnone =>
      split at h
      · simp at h
      · next redirects hred =>
        split at h
        · next hempty =>
          simp only [Step.done.injEq, Except.ok.injEq] at h
          exact ⟨hstable, hnone, ⟨redirects, hred, hempty⟩, h.symm⟩
        · simp at h
  · unfold fetchNeeded at h
    dsimp only at h
    split at h <;> simp at h

/-- A pass that ends a resolution with an error was stable, unless the provider failed. -/
theorem pass_error {p : Progress} {number : Nat} {e : ResolutionError ε}
    (h : (r.pass request p number).2 = .done (.error e)) :
    let s := r.situation request p
    (∃ e', e = .provider e') ∨ s.isStable s.traverse = true ∧
      (s.failure? s.traverse = some e ∨
        s.failure? (ε := ε) s.traverse = none ∧ capabilityRedirects r.rules s.traverse = .error e) := by
  dsimp only
  unfold pass at h
  dsimp only at h
  split at h
  · next hstable =>
    refine .inr ⟨hstable, ?_⟩
    unfold conclude at h
    split at h
    · next e' he' =>
      simp only [Step.done.injEq, Except.error.injEq] at h
      exact .inl (h ▸ he')
    · next hnone =>
      split at h
      · next e' hred =>
        simp only [Step.done.injEq, Except.error.injEq] at h
        exact .inr ⟨hnone, h ▸ hred⟩
      · split at h
        · simp at h
        · simp at h
  · unfold fetchNeeded at h
    dsimp only at h
    split at h
    · next e' _ =>
      simp only [Step.done.injEq, Except.error.injEq] at h
      exact .inl ⟨e', h.symm⟩
    · simp at h

end Resolver

end VariantGraph
