import VariantGraph.Proofs.Resolution.History
import VariantGraph.Proofs.Resolution.Nodes
import VariantGraph.Proofs.VersionChoice.Settling

/-!
# Forced versions and pins over a whole resolution

A version that the rules force is selected for its module, whatever is requested. Without one it is
the highest of those that dependencies force, and without these the highest of those that rules pin.
An edge into the module then says so, and does not speak of a comparison. Rules may pin requests for
one module to different versions; ready-made version rules do not. The node has the selected version
if the data that were fetched for it carry it after the rules on metadata.

The reasons are attached when the graph is built, from the versions that the last pass was given;
that pass chooses them again from the edges that it has recorded, so both speak of one decision.

Main statement: `Resolver.resolve_precedence`.
-/

namespace VariantGraph

open Resolution VersionChoice Version

/-! ## The reasons of an edge -/

/-- The reasons that a comparison of requests gives. -/
def SelectionReason.ComesOfComparison : SelectionReason → Prop
  | .byRequest | .byAncestor | .byConstraint => True
  | .forced | .selectedByRule _ => False

theorem SelectionReason.comesOfComparison_ofRequest_iff {r : VersionRequest} {v : SelectedVersion} :
    (SelectionReason.ofRequest r v).ComesOfComparison ↔ v.cause = .compared := by
  obtain ⟨version, cause⟩ := v
  cases cause with
  | forced => simp [ofRequest, ComesOfComparison]
  | rule description => simp [ofRequest, ComesOfComparison]
  | compared =>
    unfold ofRequest
    dsimp only
    refine iff_of_true ?_ rfl
    split
    · trivial
    · split <;> trivial

/-- An edge has a reason, and none that a comparison gives. -/
structure Graph.Edge.DecidedBy (e : Graph.Edge) (reason : SelectionReason) : Prop where
  mem : reason ∈ e.reasons
  notCompared : ∀ other ∈ e.reasons, ¬ other.ComesOfComparison

namespace Resolution

namespace EdgeTable

theorem mem_requestsFor_iff {t : EdgeTable} {m : ModuleId} {q : VersionRequest} :
    q ∈ t.requestsFor m ↔ ∃ e ∈ t.edges, e.target = m ∧ e.request = q := by
  unfold requestsFor
  rw [List.mem_map]
  simp only [List.mem_filter, beq_iff_eq, and_assoc]

end EdgeTable

namespace Situation

variable {s : Situation} {w : Walk} {m : ModuleId} {e : Edge} {pin : Pin}

theorem mem_reasonsOf_iff {v : SelectedVersion} (hv : s.selections.get? e.target = some v)
    {reason : SelectionReason} : reason ∈ s.reasonsOf e ↔
      (∃ description, e.substitution = some description ∧ .selectedByRule description = reason) ∨
        reason = .ofRequest e.request v := by
  unfold reasonsOf
  rw [hv]
  dsimp only
  split
  · next hcontains =>
    simp only [List.mem_map, Option.mem_toList]
    constructor
    · exact .inl
    · rintro (h | rfl)
      · exact h
      · simpa using hcontains
  · simp only [List.mem_append, List.mem_map, Option.mem_toList, List.mem_singleton]

/-- An edge into a module whose version was chosen without a comparison says so. -/
theorem decidedBy_graphEdge {v : SelectedVersion} (hv : s.selections.get? e.target = some v)
    (hcause : v.cause ≠ .compared) :
    (s.graphEdge e).DecidedBy (.ofRequest e.request v) := by
  refine ⟨(mem_reasonsOf_iff hv).2 (.inr rfl), ?_⟩
  intro other hother
  rcases (mem_reasonsOf_iff hv).1 hother with ⟨description, -, rfl⟩ | rfl
  · exact id
  · exact mt SelectionReason.comesOfComparison_ofRequest_iff.1 hcause

/-- Every edge of the graph was recorded. -/
theorem exists_of_mem_edges_graph (h : s.Shape w) {d : Graph.Edge} (hd : d ∈ (s.graph w).edges) :
    ∃ e ∈ w.table.edges, s.graphEdge e = d := by
  rw [graph, foldl_addNode_eq h] at hd
  rcases Graph.mem_edges_foldl_addEdge hd with hold | ⟨hmem, -, -⟩
  · exact absurd hold List.not_mem_nil
  · exact List.mem_map.1 hmem

/-- All edges into such a module have the reason that its version gives to every request. -/
theorem decidedBy_of_mem_edgesTo (h : s.Shape w) {v : SelectedVersion}
    (hv : s.selections.get? m = some v) (hcause : v.cause ≠ .compared) {reason : SelectionReason}
    (hreason : ∀ q, SelectionReason.ofRequest q v = reason) :
    ∀ d ∈ (s.graph w).edgesTo m, d.DecidedBy reason := by
  intro d hd
  obtain ⟨hmem, htarget⟩ := List.mem_filter.1 hd
  obtain ⟨e, -, rfl⟩ := exists_of_mem_edges_graph h hmem
  obtain rfl : e.target = m := beq_iff_eq.1 htarget
  exact hreason e.request ▸ decidedBy_graphEdge hv hcause

/-! ## What recorded edges force and pin -/

/-- A dependency that the last walk recorded forces a version of a module. -/
def ForcedByEdge (s : Situation) (m : ModuleId) (text : String) : Prop :=
  ∃ e ∈ s.traverse.table.edges, e.target = m ∧ e.request.isConstraint = false ∧
    e.request.forced = true ∧ e.request.constraint.requestedVersion = some text

/-- A rule has pinned the version that a recorded edge requests of a module. -/
def PinnedByRule (s : Situation) (m : ModuleId) (pin : Pin) : Prop :=
  ∃ e ∈ s.traverse.table.edges, e.target = m ∧ e.request.pinned = some pin

/-- What dependencies force for a module. -/
def forcedTexts (s : Situation) (m : ModuleId) : Set String := {text | s.ForcedByEdge m text}

/-- What rules pin a module to. -/
def pinnedTexts (s : Situation) (m : ModuleId) : Set String :=
  {text | ∃ pin, s.PinnedByRule m pin ∧ pin.version = text}

/-- A recorded edge was written when its source was visited. -/
theorem exists_writes_of_mem_edges (h : e ∈ s.traverse.table.edges) : ∃ n k, s.Writes n k e := by
  obtain ⟨k, hk⟩ := EdgeTable.mem_edges_iff.1 h
  rw [traverse_eq_stage, get?_table_stage_iff] at hk
  obtain ⟨n, -, hwrites, -⟩ := hk
  exact ⟨n, k, hwrites⟩

/-- Only dependencies force versions. -/
theorem isConstraint_of_forced (h : e ∈ s.traverse.table.edges) (hforced : e.request.forced = true) :
    e.request.isConstraint = false := by
  obtain ⟨n, k, st, d, -, hmem⟩ := exists_writes_of_mem_edges h
  rcases mem_written_iff.1 hmem with ⟨rd, -, -, rfl⟩ | ⟨rc, -, -, -, rfl⟩
  · rfl
  · cases hforced

/-- What pins a request is what the rules pin it to after the substitutions, unless the request was
redirected. -/
theorem exists_pin?_of_underRules {c : VersionConstraint}
    (h : (s.underRules m c).pinned = some pin) :
    ∃ c', s.rules.pin? (s.underRules m c).module c' = some pin := by
  unfold underRules at h ⊢
  dsimp only at h ⊢
  split at h
  · exact ⟨_, h⟩
  · cases h

theorem exists_pin?_of_pinned (h : e ∈ s.traverse.table.edges) (hpin : e.request.pinned = some pin) :
    ∃ c, s.rules.pin? e.target c = some pin := by
  obtain ⟨n, k, st, d, -, hmem⟩ := exists_writes_of_mem_edges h
  rcases mem_written_iff.1 hmem with ⟨rd, hrd, -, rfl⟩ | ⟨rc, hrc, -, -, rfl⟩
  · obtain ⟨-, -, hruled⟩ := mem_followed_iff.1 hrd
    have hpin : rd.ruled.pinned = some pin := hpin
    show ∃ c, s.rules.pin? rd.ruled.module c = some pin
    rw [hruled] at hpin ⊢
    exact exists_pin?_of_underRules hpin
  · obtain ⟨c, -, hruled⟩ := mem_ruledConstraints_iff.1 hrc
    have hpin : rc.ruled.pinned = some pin := hpin
    show ∃ c, s.rules.pin? rc.ruled.module c = some pin
    rw [hruled] at hpin ⊢
    exact exists_pin?_of_underRules hpin

/-- Ready-made version rules pin all requests for a module alike. -/
theorem PinnedByRule.eq_of_versionRules {l : List VersionRule}
    (hl : s.rules.versionRules = l.map VersionRule.rule) {other : Pin} (h : s.PinnedByRule m pin)
    (hother : s.PinnedByRule m other) : other = pin := by
  obtain ⟨e, he, rfl, hpin⟩ := h
  obtain ⟨e', he', htarget, hpin'⟩ := hother
  obtain ⟨c, hc⟩ := exists_pin?_of_pinned he hpin
  obtain ⟨c', hc'⟩ := exists_pin?_of_pinned he' hpin'
  rw [Rules.pin?_of_versionRules hl] at hc hc'
  rw [htarget, hc] at hc'
  exact (Option.some.inj hc').symm

theorem mem_forcedByEdges_requestsFor_iff {v : SelectedVersion} :
    v ∈ forcedByEdges (s.traverse.table.requestsFor m) ↔
      v.cause = .forced ∧ s.ForcedByEdge m v.version := by
  rw [mem_forcedByEdges_iff]
  refine and_congr_right fun _ => ?_
  constructor
  · rintro ⟨q, hq, hforced, hversion⟩
    obtain ⟨e, he, htarget, rfl⟩ := EdgeTable.mem_requestsFor_iff.1 hq
    exact ⟨e, he, htarget, isConstraint_of_forced he hforced, hforced, hversion⟩
  · rintro ⟨e, he, htarget, -, hforced, hversion⟩
    exact ⟨e.request, EdgeTable.mem_requestsFor_iff.2 ⟨e, he, htarget, rfl⟩, hforced, hversion⟩

theorem ForcedByEdge.mem {text : String} (h : s.ForcedByEdge m text) :
    (⟨text, .forced⟩ : SelectedVersion) ∈ forcedByEdges (s.traverse.table.requestsFor m) :=
  mem_forcedByEdges_requestsFor_iff.2 ⟨rfl, h⟩

theorem mem_pinnedByRules_requestsFor_iff {v : SelectedVersion} :
    v ∈ pinnedByRules (s.traverse.table.requestsFor m) ↔
      ∃ pin, s.PinnedByRule m pin ∧ v = ⟨pin.version, .rule pin.description⟩ := by
  rw [mem_pinnedByRules_iff]
  constructor
  · rintro ⟨q, hq, pin, hpin, rfl⟩
    obtain ⟨e, he, htarget, rfl⟩ := EdgeTable.mem_requestsFor_iff.1 hq
    exact ⟨pin, ⟨e, he, htarget, hpin⟩, rfl⟩
  · rintro ⟨pin, ⟨e, he, htarget, hpin⟩, rfl⟩
    exact ⟨e.request, EdgeTable.mem_requestsFor_iff.2 ⟨e, he, htarget, rfl⟩, pin, hpin, rfl⟩

theorem PinnedByRule.mem (h : s.PinnedByRule m pin) :
    (⟨pin.version, .rule pin.description⟩ : SelectedVersion)
      ∈ pinnedByRules (s.traverse.table.requestsFor m) :=
  mem_pinnedByRules_requestsFor_iff.2 ⟨pin, h, rfl⟩

/-! ## What decides the version of a module -/

/-- A version that the rules force is settled and chosen. -/
theorem settled_of_forcedVersion? {v : SelectedVersion} {text : String}
    (hforced : s.rules.forcedVersion? m = some text) (h : s.verdict w m = .ok (.selected v)) :
    settled? (s.cache.listing? m) text = some v.version ∧ v.cause = .forced := by
  unfold verdict select at h
  rw [hforced] at h
  exact settle_eq_selected_iff.1 h

/-- Without such a version one of those is chosen that edges force, or else that rules pin. -/
theorem keeps_of_forcedVersion?_eq_none {v : SelectedVersion}
    (hforced : s.rules.forcedVersion? m = none) (hne : deciding (w.table.requestsFor m) ≠ [])
    (h : s.verdict w m = .ok (.selected v)) :
    Keeps (s.cache.listing? m) (deciding (w.table.requestsFor m)) v := by
  unfold verdict at h
  rw [hforced] at h
  exact keeps_of_select hne h

theorem deciding_of_forcedByEdge {text : String} (h : s.ForcedByEdge m text) :
    deciding (s.traverse.table.requestsFor m) = forcedByEdges (s.traverse.table.requestsFor m) :=
  if_neg (List.ne_nil_of_mem h.mem)

theorem deciding_of_not_forcedByEdge (h : ∀ text, ¬ s.ForcedByEdge m text) :
    deciding (s.traverse.table.requestsFor m) = pinnedByRules (s.traverse.table.requestsFor m) := by
  refine if_pos (List.eq_nil_iff_forall_not_mem.2 fun v hv => ?_)
  exact h v.version (mem_forcedByEdges_requestsFor_iff.1 hv).2

theorem setOf_version_forcedByEdges :
    {text | ∃ f ∈ forcedByEdges (s.traverse.table.requestsFor m), f.version = text}
      = s.forcedTexts m := by
  ext text
  constructor
  · rintro ⟨f, hf, rfl⟩
    exact (mem_forcedByEdges_requestsFor_iff.1 hf).2
  · exact fun htext => ⟨⟨text, .forced⟩, ForcedByEdge.mem htext, rfl⟩

theorem setOf_version_pinnedByRules :
    {text | ∃ f ∈ pinnedByRules (s.traverse.table.requestsFor m), f.version = text}
      = s.pinnedTexts m := by
  ext text
  constructor
  · rintro ⟨f, hf, rfl⟩
    obtain ⟨pin, hpin, rfl⟩ := mem_pinnedByRules_requestsFor_iff.1 hf
    exact ⟨pin, hpin, rfl⟩
  · rintro ⟨pin, hpin, rfl⟩
    exact ⟨_, hpin.mem, rfl⟩

end Situation

end Resolution

namespace Resolver

variable {ε : Type} {r : Resolver ε} {request : ResolveRequest} {s : Situation} {m : ModuleId}

/-- The versions of a module, if the provider knows them. -/
def listing? (r : Resolver ε) (m : ModuleId) : Option (List String) :=
  (r.provider.versions m).toOption

/-- What settles with a listing that was fetched settles with what the provider knows. -/
theorem settled?_listing?_of_comesFrom {c : Cache} (hc : c.ComesFrom r.provider r.rules)
    {text v : String} (h : settled? (c.listing? m) text = some v) :
    settled? (r.listing? m) text = some v := by
  unfold settled? at h ⊢
  split at h
  · next hdynamic =>
    rw [if_pos hdynamic]
    obtain ⟨versions, hversions, hbest⟩ := Option.bind_eq_some_iff.1 h
    rw [listing?, hc.listing hversions]
    exact hbest
  · next hdynamic =>
    rw [if_neg hdynamic]
    exact h

/-- What decides the version `v` of a node without a comparison, and what its edges tell of it. -/
structure Precedence (r : Resolver ε) (s : Situation) (g : Graph) (n : Graph.Node)
    (v : SelectedVersion) : Prop where
  selection : s.selections.get? n.module = some v
  /-- The node has the version of the data that were fetched for the selected one. -/
  carried : ∃ data, r.provider.fetch (n.module.withVersion v.version) = .ok (some data) ∧
    n.id.version = (r.rules.reviseMetadata data).id.version
  own : r.provider.Faithful → r.rules.KeepsIds → n.id.version = v.version
  rules : ∀ {text}, r.rules.forcedVersion? n.module = some text →
    settled? (r.listing? n.module) text = some v.version ∧
      ∀ d ∈ g.edgesTo n.module, d.DecidedBy .forced
  edges : r.rules.forcedVersion? n.module = none → (∃ text, s.ForcedByEdge n.module text) →
    v.version ∈ settlements (r.listing? n.module) (s.forcedTexts n.module) ∧
      (OneMarker (settlements (r.listing? n.module) (s.forcedTexts n.module)) →
        IsHighest (settlements (r.listing? n.module) (s.forcedTexts n.module)) v.version) ∧
      ∀ d ∈ g.edgesTo n.module, d.DecidedBy .forced
  pins : r.rules.forcedVersion? n.module = none → (∀ text, ¬ s.ForcedByEdge n.module text) →
    (∃ pin, s.PinnedByRule n.module pin) →
      v.version ∈ settlements (r.listing? n.module) (s.pinnedTexts n.module) ∧
      (OneMarker (settlements (r.listing? n.module) (s.pinnedTexts n.module)) →
        IsHighest (settlements (r.listing? n.module) (s.pinnedTexts n.module)) v.version) ∧
      ∃ pin, s.PinnedByRule n.module pin ∧
        settled? (r.listing? n.module) pin.version = some v.version ∧
        ∀ d ∈ g.edgesTo n.module, d.DecidedBy (.selectedByRule pin.description)
  /-- A pin without another one for the module decides. -/
  pin : r.rules.forcedVersion? n.module = none → (∀ text, ¬ s.ForcedByEdge n.module text) →
    ∀ {pin}, s.PinnedByRule n.module pin → (∀ other, s.PinnedByRule n.module other → other = pin) →
      settled? (r.listing? n.module) pin.version = some v.version ∧
      ∀ d ∈ g.edgesTo n.module, d.DecidedBy (.selectedByRule pin.description)
  /-- Ready-made version rules pin a module once. -/
  alike : ∀ {l : List VersionRule}, r.rules.versionRules = l.map VersionRule.rule →
    ∀ {pin}, s.PinnedByRule n.module pin → ∀ other, s.PinnedByRule n.module other → other = pin

/-- Texts that have settled settle to the same versions with what the provider knows. -/
theorem settlements_listing?_eq (hc : s.cache.ComesFrom r.provider r.rules) {texts : Set String}
    (hsettled : ∀ text ∈ texts, ∃ v, settled? (s.cache.listing? m) text = some v) :
    settlements (r.listing? m) texts = settlements (s.cache.listing? m) texts := by
  ext v
  refine exists_congr fun text => and_congr_right fun htext => ⟨fun hv => ?_, ?_⟩
  · obtain ⟨v', hv'⟩ := hsettled text htext
    have hsame := hv.symm.trans (settled?_listing?_of_comesFrom hc hv')
    rw [hv', hsame]
  · exact settled?_listing?_of_comesFrom hc

section Settled

variable {st : NodeState} {v : SelectedVersion} {data : ModuleData} {node : SelectedNode}

/-- In the last walk the highest version that edges force or rules pin is selected, if the rules
force none. -/
theorem exists_deciding_of_settled (hc : s.cache.ComesFrom r.provider r.rules)
    (h : s.Settled s.traverse m st v data node) (hforced : s.rules.forcedVersion? m = none)
    {l : List SelectedVersion} (hl : deciding (s.traverse.table.requestsFor m) = l)
    (hne : l ≠ []) {texts : Set String} (htexts : {text | ∃ f ∈ l, f.version = text} = texts) :
    (OneMarker (settlements (r.listing? m) texts) →
      IsHighest (settlements (r.listing? m) texts) v.version) ∧
      ∃ f ∈ l, settled? (r.listing? m) f.version = some v.version ∧ v.cause = f.cause := by
  subst hl htexts
  have hkeeps := Situation.keeps_of_forcedVersion?_eq_none hforced hne h.verdict
  have hhighest := hkeeps.highest
  rw [setOf_mem_settledVersions] at hhighest
  obtain ⟨f, hf, hv, hcause⟩ := hkeeps.origin
  rw [settlements_listing?_eq hc]
  · exact ⟨hhighest, f, hf, settled?_listing?_of_comesFrom hc hv, hcause⟩
  · rintro text ⟨f', hf', rfl⟩
    exact hkeeps.settled f' hf'

theorem edges_of_settled (hc : s.cache.ComesFrom r.provider r.rules)
    (h : s.Settled s.traverse m st v data node) (hforced : s.rules.forcedVersion? m = none)
    {text : String} (htext : s.ForcedByEdge m text) :
    (OneMarker (settlements (r.listing? m) (s.forcedTexts m)) →
      IsHighest (settlements (r.listing? m) (s.forcedTexts m)) v.version) ∧
      v.version ∈ settlements (r.listing? m) (s.forcedTexts m) ∧ v.cause = .forced := by
  obtain ⟨hhighest, f, hf, hversion, hcause⟩ := exists_deciding_of_settled hc h hforced
    (Situation.deciding_of_forcedByEdge htext) (List.ne_nil_of_mem htext.mem)
    Situation.setOf_version_forcedByEdges
  obtain ⟨hcauseForced, hedge⟩ := Situation.mem_forcedByEdges_requestsFor_iff.1 hf
  exact ⟨hhighest, ⟨f.version, hedge, hversion⟩, hcause.trans hcauseForced⟩

theorem exists_pin_of_settled (hc : s.cache.ComesFrom r.provider r.rules)
    (h : s.Settled s.traverse m st v data node) (hforced : s.rules.forcedVersion? m = none)
    (hedges : ∀ text, ¬ s.ForcedByEdge m text) {pin : Pin} (hpin : s.PinnedByRule m pin) :
    (OneMarker (settlements (r.listing? m) (s.pinnedTexts m)) →
      IsHighest (settlements (r.listing? m) (s.pinnedTexts m)) v.version) ∧
      ∃ kept, s.PinnedByRule m kept ∧ settled? (r.listing? m) kept.version = some v.version ∧
        v.cause = .rule kept.description := by
  obtain ⟨hhighest, f, hf, hversion, hcause⟩ := exists_deciding_of_settled hc h hforced
    (Situation.deciding_of_not_forcedByEdge hedges) (List.ne_nil_of_mem hpin.mem)
    Situation.setOf_version_pinnedByRules
  obtain ⟨kept, hkept, rfl⟩ := Situation.mem_pinnedByRules_requestsFor_iff.1 hf
  exact ⟨hhighest, kept, hkept, hversion, hcause⟩

end Settled

/-- The node of a settled module has the version that takes precedence. -/
theorem exists_precedence {p : Progress} (hcomplete : (r.situation request p).Complete)
    (hcache : p.cache.ComesFrom r.provider r.rules) {n : Graph.Node}
    (hn : n ∈ ((r.situation request p).graph (r.situation request p).traverse).nodes) :
    ∃ v, Precedence r (r.situation request p)
      ((r.situation request p).graph (r.situation request p).traverse) n v := by
  have hshape := (r.situation request p).shape_traverse
  rw [Situation.nodes_graph hshape] at hn
  obtain ⟨⟨m, node⟩, hmem, rfl⟩ := List.mem_map.1 hn
  obtain ⟨st, v, data, hsettled⟩ := hcomplete.settled_of_mem_selectedNodes hmem
  obtain ⟨original, selection, hrecorded, -⟩ := exists_recordedFrom hcache hsettled
  obtain ⟨v', hv, hfetch⟩ := hrecorded.fetched
  obtain rfl : v = v' := Option.some.inj (hsettled.selection.symm.trans hv)
  obtain ⟨version, cause⟩ := v
  refine ⟨⟨version, cause⟩, hv, ⟨original, hfetch, hrecorded.version_eq⟩, ?_, ?_, ?_, ?_, ?_, ?_⟩
  · intro hp hr
    rw [hrecorded.version_eq, hr.id_reviseMetadata, hp _ _ hfetch]
    rfl
  · intro text hforced
    obtain ⟨hversion, rfl⟩ := Situation.settled_of_forcedVersion? hforced hsettled.verdict
    exact ⟨settled?_listing?_of_comesFrom hcache hversion,
      Situation.decidedBy_of_mem_edgesTo hshape hv (by simp) fun _ => rfl⟩
  · rintro hforced ⟨text, htext⟩
    obtain ⟨hhighest, hversion, rfl⟩ := edges_of_settled hcache hsettled hforced htext
    exact ⟨hversion, hhighest,
      Situation.decidedBy_of_mem_edgesTo hshape hv (by simp) fun _ => rfl⟩
  · rintro hforced hedges ⟨pin, hpin⟩
    obtain ⟨hhighest, kept, hkept, hversion, rfl⟩ :=
      exists_pin_of_settled hcache hsettled hforced hedges hpin
    exact ⟨⟨kept.version, ⟨kept, hkept, rfl⟩, hversion⟩, hhighest, kept, hkept, hversion,
      Situation.decidedBy_of_mem_edgesTo hshape hv (by simp) fun _ => rfl⟩
  · intro hforced hedges pin hpin honly
    obtain ⟨-, kept, hkept, hversion, rfl⟩ :=
      exists_pin_of_settled hcache hsettled hforced hedges hpin
    obtain rfl := honly kept hkept
    exact ⟨hversion, Situation.decidedBy_of_mem_edgesTo hshape hv (by simp) fun _ => rfl⟩
  · exact fun hl _ hpin _ hother => hpin.eq_of_versionRules hl hother

/-- In a resolution that succeeds forced versions and pins take precedence over what is requested,
at every node. -/
theorem resolve_precedence {res : Resolution} (h : r.resolve request = .ok res) :
    ∃ k p, LastPass r request k p (.ok res) ∧ ∀ n ∈ res.graph.nodes,
      ∃ v, Precedence r (r.situation request p) res.graph n v := by
  obtain ⟨k, p, hlast⟩ := exists_lastPass h
  obtain ⟨hcomplete, hgraph⟩ := Situation.complete_of_lastPass hlast
  refine ⟨k, p, hlast, ?_⟩
  rw [hgraph]
  exact fun n hn => exists_precedence hcomplete hlast.reaches.comesFrom hn

/-- The rules force `forced` and pin every module. Two dependencies force versions of `edged`, one
of them by a selector, and nothing is forced of `pinned`. -/
def layeredResolver : Resolver Empty where
  provider := Provider.ofData
    [.single ⟨"org", "a", "1.0"⟩
        [{ Dependency.on ⟨"org", "edged", "1.+"⟩ with force := true }],
      .single ⟨"org", "forced", "1.2"⟩ [], .single ⟨"org", "forced", "2.0"⟩ [],
      .single ⟨"org", "edged", "1.1"⟩ [], .single ⟨"org", "edged", "1.5"⟩ [],
      .single ⟨"org", "edged", "2.0"⟩ [],
      .single ⟨"org", "pinned", "1.4"⟩ [], .single ⟨"org", "pinned", "2.0"⟩ []]
  rules :=
    { ({} : Rules).force ⟨"org", "forced"⟩ "1.+" with
      versionRules := [VersionRule.rule ⟨⟨"org", "forced"⟩, "2.0", none⟩,
        VersionRule.rule ⟨⟨"org", "edged"⟩, "2.0", none⟩,
        VersionRule.rule ⟨⟨"org", "pinned"⟩, "1.+", none⟩] }

def layeredRequest : ResolveRequest where
  root := ⟨"org", "root", "1.0"⟩
  dependencies :=
    [{ Dependency.on ⟨"org", "forced", "2.0"⟩ with force := true },
      { Dependency.on ⟨"org", "edged", "1.1"⟩ with force := true },
      { Dependency.on ⟨"org", "pinned", "2.0"⟩ with constraint := .strictly "2.0" },
      .on ⟨"org", "a", "1.0"⟩]

theorem resolve_precedence_layered :
    ∃ res, layeredResolver.resolve layeredRequest = .ok res ∧
      res.graph.nodes.map Graph.Node.id = [⟨"org", "forced", "1.2"⟩, ⟨"org", "edged", "1.5"⟩,
        ⟨"org", "pinned", "1.4"⟩, ⟨"org", "a", "1.0"⟩] ∧
      ∃ k p, LastPass layeredResolver layeredRequest k p (.ok res) ∧ ∀ n ∈ res.graph.nodes,
        ∃ v, Precedence layeredResolver (layeredResolver.situation layeredRequest p) res.graph n v := by
  have hok : (layeredResolver.resolve layeredRequest).toOption.map
      (fun res => res.graph.nodes.map Graph.Node.id) = some [⟨"org", "forced", "1.2"⟩,
        ⟨"org", "edged", "1.5"⟩, ⟨"org", "pinned", "1.4"⟩, ⟨"org", "a", "1.0"⟩] := by
    decide +kernel
  cases h : layeredResolver.resolve layeredRequest with
  | error e => simp [h, Except.toOption] at hok
  | ok res =>
    refine ⟨res, rfl, ?_, resolve_precedence h⟩
    simpa [h, Except.toOption] using hok

/-- A ready-made rule pins `pinned`, except that requests for one version of it are pinned to
another one. Of `forced` a version is forced that a rule on metadata changes in the data. -/
def hookedResolver : Resolver Empty where
  provider := Provider.ofData
    [.single ⟨"org", "a", "1.0"⟩ [.on ⟨"org", "pinned", "1.5"⟩],
      .single ⟨"org", "pinned", "1.0"⟩ [], .single ⟨"org", "pinned", "2.0"⟩ [],
      .single ⟨"org", "forced", "1.0"⟩ []]
  rules :=
    { ({} : Rules).force ⟨"org", "forced"⟩ "1.0" with
      versionRules := [
        fun m c => if m = ⟨"org", "pinned"⟩ ∧ c = .require "1.5" then
          some { version := some "2.0", description := "moved" } else none,
        VersionRule.rule ⟨⟨"org", "pinned"⟩, "1.0", some "aligned"⟩]
      metadataRules := [fun d =>
        if d.id.name = "forced" then { d with id := d.id.module.withVersion "2.0" } else d] }

def hookedRequest : ResolveRequest where
  root := ⟨"org", "root", "1.0"⟩
  dependencies :=
    [.on ⟨"org", "forced", "1.0"⟩, .on ⟨"org", "pinned", "1.0"⟩, .on ⟨"org", "a", "1.0"⟩]

/-- What the last pass of the sample starts with. -/
def hookedProgress : Progress :=
  (hookedResolver.pass hookedRequest (hookedResolver.pass hookedRequest {} 1).1 2).1

theorem reaches_hookedProgress : Reaches hookedResolver hookedRequest 2 hookedProgress :=
  (Reaches.start.next (by decide +kernel)).next (by decide +kernel)

theorem not_forcedByEdge_hooked (m : ModuleId) (text : String) :
    ¬ (hookedResolver.situation hookedRequest hookedProgress).ForcedByEdge m text := by
  have hforced : ∀ e ∈ (hookedResolver.situation hookedRequest hookedProgress).traverse.table.edges,
      e.request.forced = false := by
    decide +kernel
  rintro ⟨e, he, -, -, hforcing, -⟩
  rw [hforced e he] at hforcing
  cases hforcing

theorem pinnedByRule_hooked :
    (hookedResolver.situation hookedRequest hookedProgress).PinnedByRule ⟨"org", "pinned"⟩
      ⟨"1.0", "aligned"⟩ := by
  unfold Situation.PinnedByRule
  decide +kernel

/-- The node of `forced` does not have the version that is forced, nor that of `pinned` the one to
which the ready-made rule has pinned a request. -/
theorem not_precedence_hooked :
    hookedResolver.provider.Faithful ∧ ∃ res, hookedResolver.resolve hookedRequest = .ok res ∧
      ∃ k p, LastPass hookedResolver hookedRequest k p (.ok res) ∧
        (∃ n ∈ res.graph.nodes, n.module = ⟨"org", "forced"⟩ ∧
          hookedResolver.rules.forcedVersion? ⟨"org", "forced"⟩ = some "1.0" ∧
          settled? (hookedResolver.listing? ⟨"org", "forced"⟩) "1.0" ≠ some n.id.version) ∧
        ∃ n ∈ res.graph.nodes, n.module = ⟨"org", "pinned"⟩ ∧
          hookedResolver.rules.forcedVersion? ⟨"org", "pinned"⟩ = none ∧
          (∀ text, ¬ (hookedResolver.situation hookedRequest p).ForcedByEdge
            ⟨"org", "pinned"⟩ text) ∧
          (hookedResolver.situation hookedRequest p).PinnedByRule ⟨"org", "pinned"⟩
            ⟨"1.0", "aligned"⟩ ∧
          settled? (hookedResolver.listing? ⟨"org", "pinned"⟩) "1.0" ≠ some n.id.version := by
  refine ⟨Provider.faithful_ofData _, ?_⟩
  have hnodes : ((hookedResolver.resolve hookedRequest).toOption.any fun res =>
      (res.graph.nodes.map Graph.Node.id).contains ⟨"org", "forced", "2.0"⟩ &&
        (res.graph.nodes.map Graph.Node.id).contains ⟨"org", "pinned", "2.0"⟩) = true := by
    decide +kernel
  cases h : hookedResolver.resolve hookedRequest with
  | error e => simp [h, Except.toOption] at hnodes
  | ok res =>
    simp only [h, Except.toOption, Option.any_some, Bool.and_eq_true, List.contains_iff_mem,
      List.mem_map] at hnodes
    obtain ⟨⟨forced, hforced, hforcedId⟩, ⟨pinned, hpinned, hpinnedId⟩⟩ := hnodes
    obtain ⟨k, p, hlast⟩ := exists_lastPass h
    obtain ⟨rfl, rfl⟩ := hlast.eq_of_reaches reaches_hookedProgress (by decide +kernel)
    refine ⟨res, rfl, 2, hookedProgress, hlast,
      ⟨forced, hforced, congrArg Coordinates.module hforcedId, by decide +kernel, ?_⟩,
      pinned, hpinned, congrArg Coordinates.module hpinnedId, by decide +kernel,
      not_forcedByEdge_hooked _, pinnedByRule_hooked, ?_⟩
    · rw [hforcedId]
      decide +kernel
    · rw [hpinnedId]
      decide +kernel

end Resolver

end VariantGraph
