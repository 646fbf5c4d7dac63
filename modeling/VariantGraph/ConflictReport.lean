import VariantGraph.Graph

/-!
# The report of version conflicts

The report lists every request in a resolved graph that names another version than the one its
module resolved to, each pair of module and requested text once.

Main statement: `ConflictReport.resolved_ne_requested` says that no entry names the resolved
version.
-/

namespace VariantGraph

/-- A request for another version than the resolved one. -/
structure VersionConflict where
  module : ModuleId
  requested : String
  resolved : String
  reason : String
deriving DecidableEq, Repr

namespace VersionConflict

/-- How an entry is shown. -/
def text (c : VersionConflict) : String :=
  c.module.text ++ " requested " ++ c.requested ++ " but resolved " ++ c.resolved ++
    " (" ++ c.reason ++ ")"

end VersionConflict

namespace ConflictReport

/-- The entry of an edge into a node, if it requests another version. -/
def conflictOf? (n : Graph.Node) (e : Graph.Edge) : Option VersionConflict :=
  match e.requested.requestedVersion with
  | none => none
  | some r =>
    if r = n.id.version then none
    else some ⟨n.module, r, n.id.version,
      ", ".intercalate (e.reasons.map SelectionReason.text)⟩

/-- The entries of the edges into a node, with the repetitions of one requested text. -/
def conflictsAt (g : Graph) (n : Graph.Node) : List VersionConflict :=
  (g.edgesTo n.module).filterMap (conflictOf? n)

/-- Adds an entry, unless the module and the requested text are listed. -/
def addNew (report : List VersionConflict) (c : VersionConflict) : List VersionConflict :=
  if report.any fun d => d.module == c.module && d.requested == c.requested then report
  else report ++ [c]

/-- The report of a graph. -/
def ofGraph (g : Graph) : List VersionConflict :=
  (g.nodes.flatMap (conflictsAt g)).foldl addNew []

/-- How a report is shown. -/
def text (report : List VersionConflict) : String :=
  if report.isEmpty then "No version conflicts."
  else
    "Version conflicts (" ++ toString report.length ++ "):\n" ++
      String.join (report.map fun c => "  " ++ c.text ++ "\n")

theorem foldl_addNew_subset (l report : List VersionConflict) :
    ∀ c ∈ l.foldl addNew report, c ∈ report ∨ c ∈ l := by
  induction l generalizing report with
  | nil => simp
  | cons d rest ih =>
    intro c hc
    rcases ih _ c hc with h | h
    · unfold addNew at h
      split at h
      · exact .inl h
      · rcases List.mem_append.1 h with h | h
        · exact .inl h
        · exact .inr (by simp_all)
    · exact .inr (List.mem_cons_of_mem _ h)

theorem resolved_ne_requested {g : Graph} {c : VersionConflict} (h : c ∈ ofGraph g) :
    c.requested ≠ c.resolved := by
  rcases foldl_addNew_subset _ _ c h with h | h
  · simp at h
  · obtain ⟨n, _, hn⟩ := List.mem_flatMap.1 h
    obtain ⟨e, _, he⟩ := List.mem_filterMap.1 hn
    unfold conflictOf? at he
    split at he
    · simp at he
    · split at he
      · simp at he
      · next hne =>
        obtain rfl := Option.some.inj he
        exact hne

end ConflictReport

end VariantGraph
