import VariantGraph.Proofs.Resolution.Reachability
import VariantGraph.Proofs.Resolution.Redirects
import VariantGraph.Proofs.VersionChoice.Comparison

/-!
# When the winner of a capability gets no version

A request that is redirected to the winner of a capability says nothing about its version, and with
the loser its declarations leave the graph. If no other request asks for a version of the winner,
none can be chosen, and the resolution ends with an error that names neither a version that was
requested nor one that was rejected.

Main statements: `VersionChoice.select_eq_unsatisfied_nil_iff` says when a choice fails with nothing
requested, `Situation.versionless_requestsFor_iff` when the recorded requests for a module ask for
no version, `Resolver.Reaches.lastPass_unsatisfied_winner_iff` when a pass ends so for a winner.
-/

namespace VariantGraph

theorem VersionConstraint.requestedVersion_eq_none_iff {c : VersionConstraint} :
    c.requestedVersion = none ↔ (c.required <|> c.strict) = none ∧ c.preferred = none := by
  unfold requestedVersion
  cases c.strict <;> cases c.required <;> simp

namespace VersionChoice

variable {m : ModuleId} {requests : List VersionRequest} {forced : Option String}
  {listing : Option (List String)} {rejects : List String}

/-! ## Requests without a version -/

/-- No request says which version: none forces one, none is pinned, and no constraint that takes
part in the comparison asks for one. -/
structure Versionless (requests : List VersionRequest) : Prop where
  forced : ∀ r ∈ requests, r.forced = true → r.constraint.requestedVersion = none
  pinned : ∀ r ∈ requests, r.pinned = none
  compared : ∀ c, Participates requests c → c.requestedVersion = none

theorem deciding_eq_nil_iff : deciding requests = [] ↔
    (∀ r ∈ requests, r.forced = true → r.constraint.requestedVersion = none) ∧
      ∀ r ∈ requests, r.pinned = none := by
  have hforced : forcedByEdges requests = [] ↔
      ∀ r ∈ requests, r.forced = true → r.constraint.requestedVersion = none := by
    unfold forcedByEdges
    rw [List.filterMap_eq_nil_iff]
    refine forall₂_congr fun r _ => ?_
    cases r.forced <;> simp
  have hpinned : pinnedByRules requests = [] ↔ ∀ r ∈ requests, r.pinned = none := by
    unfold pinnedByRules
    rw [List.filterMap_eq_nil_iff]
    exact forall₂_congr fun r _ => Option.map_eq_none_iff
  rw [← hforced, ← hpinned]
  unfold deciding
  split
  · next hnil => exact (and_iff_right hnil).symm
  · next hne => exact iff_of_false hne fun h => hne h.1

theorem requested_participating_eq_nil_iff : requested (participating requests) = [] ↔
    ∀ c, Participates requests c → c.requestedVersion = none := by
  rw [List.eq_nil_iff_forall_not_mem]
  simp only [mem_requested_iff]
  constructor
  · intro h
    -- nobody demands a version, so that a preferred one would be proposed
    have hhard : ∀ c, Participates requests c → (c.required <|> c.strict) = none := by
      intro c hc
      cases htext : c.required <|> c.strict with
      | none => rfl
      | some text => exact absurd ⟨c, hc, .inl htext⟩ (h text)
    intro c hc
    refine VersionConstraint.requestedVersion_eq_none_iff.2 ⟨hhard c hc, ?_⟩
    cases htext : c.preferred with
    | none => rfl
    | some text => exact absurd ⟨c, hc, .inr ⟨hhard, htext⟩⟩ (h text)
  · rintro h text ⟨c, hc, htext⟩
    obtain ⟨hhard, hsoft⟩ := VersionConstraint.requestedVersion_eq_none_iff.1 (h c hc)
    rw [hhard, hsoft] at htext
    rcases htext with htext | ⟨-, htext⟩
    · cases htext
    · cases htext

theorem compared_eq_unsatisfied_nil_iff :
    compared m requests listing = .error (.unsatisfied m [] rejects) ↔
      requested (participating requests) = [] ∧ rejects = rejected requests := by
  constructor
  · intro h
    unfold compared at h
    dsimp only at h
    split at h
    · cases h
    · split at h
      · injection h with h
        injection h with _ htexts hrejects
        exact ⟨htexts, hrejects.symm⟩
      · split at h
        · cases h
        · cases h
  · rintro ⟨htexts, rfl⟩
    unfold compared
    rw [htexts]
    rfl

/-- A choice fails with nothing requested exactly if nothing says which version. -/
theorem select_eq_unsatisfied_nil_iff :
    select m requests forced listing = .error (.unsatisfied m [] rejects) ↔
      forced = none ∧ Versionless requests ∧ rejects = rejected requests := by
  constructor
  · intro h
    cases forced with
    | some text =>
      -- what is forced is requested
      have hsettle : settle m text .forced listing = .error (.unsatisfied m [] rejects) := h
      cases hs : settled? listing text with
      | some v =>
        rw [settle_of_settled? m .forced hs] at hsettle
        cases hsettle
      | none =>
        rcases settle_of_settled?_eq_none m .forced hs with ⟨-, hout⟩ | ⟨-, hout⟩
        · rw [hsettle] at hout
          cases hout
        · rw [hsettle] at hout
          cases hout
    | none =>
      by_cases hnil : deciding requests = []
      · rw [select_of_deciding_eq_nil m listing hnil] at h
        obtain ⟨htexts, hrejects⟩ := compared_eq_unsatisfied_nil_iff.1 h
        obtain ⟨hforced, hpinned⟩ := deciding_eq_nil_iff.1 hnil
        exact ⟨rfl, ⟨hforced, hpinned, requested_participating_eq_nil_iff.1 htexts⟩, hrejects⟩
      · rcases select_cases_of_deciding m listing hnil with
          ⟨s, -, hout⟩ | ⟨-, ⟨-, hout⟩ | ⟨-, text, hout⟩⟩
        · rw [h] at hout
          cases hout
        · rw [h] at hout
          cases hout
        · rw [h] at hout
          cases hout
  · rintro ⟨rfl, ⟨hforced, hpinned, hcompared⟩, rfl⟩
    rw [select_eq_compared m listing hforced hpinned]
    exact compared_eq_unsatisfied_nil_iff.2 ⟨requested_participating_eq_nil_iff.2 hcompared, rfl⟩

end VersionChoice

open Resolution VersionChoice

namespace Resolution.Situation

variable {ε : Type} {s : Situation} {w : Walk} {m : ModuleId}

/-! ## The recorded requests for a module -/

/-- The last walk asks for no version of a module, but for requests that were redirected to it: the
others are not pinned, and force and compare no version; and if ancestors cover all requests, then
their constraints ask for no version either. -/
structure Unversioned (s : Situation) (m : ModuleId) : Prop where
  kept : ∀ e ∈ s.traverse.table.edges, e.target = m → ∀ a c, s.RecordedFor s.visitBound e a c →
    s.redirects.get? (s.rules.apply a c).module = none →
      (s.rules.apply a c).pinned = none ∧
        (e.request.forced = true ∨ e.request.inherited = none →
          (s.rules.apply a c).constraint.requestedVersion = none)
  covered : (∀ e ∈ s.traverse.table.edges, e.target = m → e.request.inherited ≠ none) →
    ∀ e ∈ s.traverse.table.edges, e.target = m → ∀ c, e.request.inherited = some c →
      c.requestedVersion = none

/-- A redirected request is not pinned and asks for no version. -/
theorem versionless_of_redirected {a : ModuleId} {c : VersionConstraint} {d : Redirect}
    (h : s.redirects.get? (s.rules.apply a c).module = some d) :
    (s.underRules a c).pinned = none ∧ (s.underRules a c).constraint.requestedVersion = none := by
  rw [underRules_of_get?_eq_some h]
  exact ⟨rfl, rfl⟩

/-- A request that was not redirected keeps what the rules made of it. -/
theorem RecordedFor.ruled_of_not_redirected {n : Nat} {e : Edge} {a : ModuleId}
    {c : VersionConstraint} (h : s.RecordedFor n e a c)
    (hnone : s.redirects.get? (s.rules.apply a c).module = none) : e.ruled = s.rules.apply a c := by
  rw [h.ruled, underRules_of_get?_eq_none hnone]

theorem versionless_requestsFor_iff :
    Versionless (s.traverse.table.requestsFor m) ↔ s.Unversioned m := by
  constructor
  · rintro ⟨hforced, hpinned, hcompared⟩
    refine ⟨fun e he htarget a c hfor hnone => ?_, fun hall e he htarget c hc => ?_⟩
    · have hmem := EdgeTable.mem_requestsFor_iff.2 ⟨e, he, htarget, rfl⟩
      rw [← hfor.ruled_of_not_redirected hnone]
      refine ⟨hpinned _ hmem, ?_⟩
      rintro (h | h)
      · exact hforced _ hmem h
      · exact hcompared _ (.inl ⟨_, hmem, h, rfl⟩)
    · refine hcompared c (.inr ⟨?_, _, EdgeTable.mem_requestsFor_iff.2 ⟨e, he, htarget, rfl⟩, hc⟩)
      intro q hq
      obtain ⟨e', he', htarget', rfl⟩ := EdgeTable.mem_requestsFor_iff.1 hq
      exact hall e' he' htarget'
  · rintro ⟨hkept, hcovered⟩
    -- what an edge says about the version
    have hedge : ∀ e ∈ s.traverse.table.edges, e.target = m → e.request.pinned = none ∧
        (e.request.forced = true ∨ e.request.inherited = none →
          e.request.constraint.requestedVersion = none) := by
      intro e he htarget
      rw [traverse_eq_stage] at he
      obtain ⟨a, c, hfor⟩ := exists_recordedFor he
      cases hd : s.redirects.get? (s.rules.apply a c).module with
      | none =>
        have hruled := hfor.ruled_of_not_redirected hd
        have h := hkept e he htarget a c hfor hd
        rw [← hruled] at h
        exact h
      | some d =>
        obtain ⟨hpinned, hversion⟩ := versionless_of_redirected hd
        rw [← hfor.ruled] at hpinned hversion
        exact ⟨hpinned, fun _ => hversion⟩
    refine ⟨fun q hq hforced => ?_, fun q hq => ?_, fun c hc => ?_⟩
    · obtain ⟨e, he, htarget, rfl⟩ := EdgeTable.mem_requestsFor_iff.1 hq
      exact (hedge e he htarget).2 (.inl hforced)
    · obtain ⟨e, he, htarget, rfl⟩ := EdgeTable.mem_requestsFor_iff.1 hq
      exact (hedge e he htarget).1
    · rcases hc with ⟨q, hq, hnone, rfl⟩ | ⟨hall, q, hq, hc⟩
      · obtain ⟨e, he, htarget, rfl⟩ := EdgeTable.mem_requestsFor_iff.1 hq
        exact (hedge e he htarget).2 (.inr hnone)
      · obtain ⟨e, he, htarget, rfl⟩ := EdgeTable.mem_requestsFor_iff.1 hq
        refine hcovered (fun e' he' htarget' => ?_) e he htarget c hc
        exact hall _ (EdgeTable.mem_requestsFor_iff.2 ⟨e', he', htarget', rfl⟩)

/-! ## The first failure -/

/-- A module was reached, and no module before it has failed. -/
def ReachedSoundly (ε : Type) (s : Situation) (w : Walk) (m : ModuleId) : Prop :=
  ∃ before after, w.order = before ++ m :: after ∧ ∀ x ∈ before, s.failureAt? (ε := ε) w x = none

theorem failureAt?_eq_version_iff {e : VersionError} :
    s.failureAt? (ε := ε) w m = some (.version e) ↔ s.verdict w m = .error e := by
  unfold failureAt?
  cases s.verdict w m with
  | error e' => simp
  | ok decision =>
    refine iff_of_false ?_ fun h => nomatch h
    dsimp only
    split
    · simp
    · simp
    · simp

/-- The first failure of a walk concerns the version of `m` exactly if `m` was reached, the choice
of its version fails, and no module before it has failed. -/
theorem failure?_eq_version_iff {e : VersionError} (he : e.module = m) :
    s.failure? (ε := ε) w = some (.version e) ↔
      s.ReachedSoundly ε w m ∧ s.verdict w m = .error e := by
  unfold failure?
  rw [List.findSome?_eq_some_iff]
  constructor
  · rintro ⟨before, x, after, horder, hx, hbefore⟩
    have hverdict := failureAt?_eq_version_iff.1 hx
    obtain rfl : m = x := by
      rw [← he]
      exact module_of_select hverdict
    exact ⟨⟨before, after, horder, hbefore⟩, hverdict⟩
  · rintro ⟨⟨before, after, horder, hbefore⟩, hverdict⟩
    exact ⟨before, m, after, horder, failureAt?_eq_version_iff.2 hverdict, hbefore⟩

end Resolution.Situation

namespace Resolver

variable {ε : Type} {r : Resolver ε} {request : ResolveRequest} {k : Nat} {p : Progress}
  {m : ModuleId} {d : Redirect}

/-- The next pass ends a resolution for want of a version exactly if it is stable and this is its
first failure. -/
theorem Reaches.lastPass_version_iff (h : Reaches r request k p) {e : VersionError} :
    LastPass r request k p (.error (.version e)) ↔
      (r.situation request p).isStable (r.situation request p).traverse = true ∧
        (r.situation request p).failure? (ε := ε) (r.situation request p).traverse
          = some (.version e) := by
  constructor
  · intro hlast
    rcases pass_error hlast.result with ⟨e', he⟩ | ⟨hstable, hfail | ⟨-, hconflict⟩⟩
    · cases he
    · exact ⟨hstable, hfail⟩
    · cases module?_of_capabilityRedirects hconflict
  · rintro ⟨hstable, hfail⟩
    refine ⟨h, ?_⟩
    rw [pass_of_isStable hstable, conclude, hfail]

/-- The winner of a capability has been selected in an earlier pass, together with the loser. A
later pass ends the resolution because nothing is requested of the winner exactly if the pass is
stable, no module before the winner fails, no rule forces a version of it, and apart from the
redirected requests, which carry no version any more, none asks for one. -/
theorem Reaches.lastPass_unsatisfied_winner_iff (h : Reaches r request k p)
    (hd : p.redirects.get? m = some d) (rejects : List String) :
    r.Lost request k m d ∧
      (LastPass r request k p (.error (.version (.unsatisfied d.winner [] rejects))) ↔
        (r.situation request p).isStable (r.situation request p).traverse = true ∧
          (r.situation request p).ReachedSoundly ε (r.situation request p).traverse d.winner ∧
          r.rules.forcedVersion? d.winner = none ∧ (r.situation request p).Unversioned d.winner ∧
          rejects = rejected ((r.situation request p).traverse.table.requestsFor d.winner)) := by
  refine ⟨h.lost_of_get? hd, ?_⟩
  rw [h.lastPass_version_iff, Situation.failure?_eq_version_iff (m := d.winner) rfl,
    Situation.verdict, select_eq_unsatisfied_nil_iff, Situation.versionless_requestsFor_iff]
  exact Iff.rfl

/-- The only request for a version of the winner `w` is that of the loser `l`. -/
def subtreeResolver : Resolver Empty where
  provider := Provider.ofData
    [.providing ⟨"org", "l", "1.0"⟩ [⟨"org", "shared"⟩] [.on ⟨"org", "w", "1.0"⟩],
      .providing ⟨"org", "w", "1.0"⟩ [⟨"org", "shared"⟩] []]
  rules := { capabilityRules := [{ capability := ⟨"org", "shared"⟩, prefer := ⟨"org", "w"⟩ }] }

def subtreeRequest : ResolveRequest where
  root := ⟨"org", "root", "1.0"⟩
  dependencies := [.on ⟨"org", "l", "1.0"⟩]

/-- What the last pass of the sample starts with. -/
def subtreeProgress : Progress :=
  let p := (subtreeResolver.pass subtreeRequest {} 1).1
  let p := (subtreeResolver.pass subtreeRequest p 2).1
  let p := (subtreeResolver.pass subtreeRequest p 3).1
  (subtreeResolver.pass subtreeRequest p 4).1

/-- The resolution of the sample ends because nothing is requested of `w`. -/
theorem lastPass_unsatisfied_winner_iff_subtree :
    LastPass subtreeResolver subtreeRequest 4 subtreeProgress
        (.error (.version (.unsatisfied ⟨"org", "w"⟩ [] []))) ∧
      ∃ d, subtreeProgress.redirects.get? ⟨"org", "l"⟩ = some d ∧ d.winner = ⟨"org", "w"⟩ ∧
        subtreeResolver.Lost subtreeRequest 4 ⟨"org", "l"⟩ d ∧
          (subtreeResolver.situation subtreeRequest subtreeProgress).Unversioned d.winner := by
  have hreaches : Reaches subtreeResolver subtreeRequest 4 subtreeProgress :=
    (((Reaches.start.next (by decide +kernel)).next (by decide +kernel)).next
      (by decide +kernel)).next (by decide +kernel)
  have hlast : LastPass subtreeResolver subtreeRequest 4 subtreeProgress
      (.error (.version (.unsatisfied ⟨"org", "w"⟩ [] []))) :=
    hreaches.lastPass_version_iff.2 (by decide +kernel)
  have hredirect : subtreeProgress.redirects.get? ⟨"org", "l"⟩
      = some ⟨⟨"org", "w"⟩, "org:w selected for capability org:shared"⟩ := by
    decide +kernel
  obtain ⟨hlost, hiff⟩ := hreaches.lastPass_unsatisfied_winner_iff hredirect []
  obtain ⟨-, -, -, hunversioned, -⟩ := hiff.1 hlast
  exact ⟨hlast, _, hredirect, rfl, hlost, hunversioned⟩

end Resolver

end VariantGraph
