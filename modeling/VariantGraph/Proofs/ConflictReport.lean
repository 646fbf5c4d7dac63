import VariantGraph.ConflictReport
import VariantGraph.Proofs.Graph.Building
import VariantGraph.Proofs.Version.Selector

/-!
# What the report of version conflicts lists

The report lists, each pair once, the modules and the texts that edges request of them and that are
not the text of the version which the module resolved to. Texts are compared and not selectors, so a
request that got what it asked for is listed when it asked in other words: by a dynamic selector, or
with blanks around the version.

Main statements: `ConflictReport.lists_ofGraph_iff` says what is listed and
`ConflictReport.lists_satisfied_iff` which of it is satisfied.
-/

namespace VariantGraph

/-- A text asks for a version in other words: it is another text, and its selector accepts the
version. Selectors that are not dynamic do so only of a version with blanks around it. -/
inductive Selector.Paraphrases (text v : String) : Prop
  | dynamic (hne : text ≠ v) (hdynamic : (parse text).isDynamic = true)
      (haccepts : (parse text).accepts v = true)
  | blanks (hne : text ≠ v) (hstatic : (parse text).isDynamic = false)
      (htrim : Text.trim text = v)

theorem Selector.paraphrases_iff {text v : String} :
    Paraphrases text v ↔ text ≠ v ∧ (parse text).accepts v = true := by
  constructor
  · rintro (⟨hne, -, haccepts⟩ | ⟨hne, hstatic, htrim⟩)
    · exact ⟨hne, haccepts⟩
    · exact ⟨hne, (accepts_iff_of_static hstatic).2 htrim⟩
  · rintro ⟨hne, haccepts⟩
    cases hdynamic : (parse text).isDynamic with
    | true => exact .dynamic hne hdynamic haccepts
    | false => exact .blanks hne hdynamic ((accepts_iff_of_static hdynamic).1 haccepts)

/-- An edge into a node with a version, other than the root, requests a text of its module. -/
def Graph.Requests (g : Graph) (m : ModuleId) (text v : String) : Prop :=
  ∃ n ∈ g.nodes, n.module = m ∧ n.id.version = v ∧
    ∃ e ∈ g.edges, e.target = m ∧ e.requested.requestedVersion = some text

namespace VersionConflict

/-- What is listed once. -/
def key (c : VersionConflict) : ModuleId × String := (c.module, c.requested)

/-- The version that the module resolved to is one that was asked for. -/
def Satisfied (c : VersionConflict) : Prop := (Selector.parse c.requested).accepts c.resolved = true

end VersionConflict

namespace ConflictReport

open VersionConflict

variable {g : Graph} {n : Graph.Node} {c : VersionConflict} {report l : List VersionConflict}
  {m : ModuleId} {text v : String} {k : ModuleId × String}

/-! ## Adding entries -/

theorem any_key_iff : (report.any fun d => d.module == c.module && d.requested == c.requested) = true
    ↔ c.key ∈ report.map key := by
  simp only [List.any_eq_true, Bool.and_eq_true, beq_iff_eq, List.mem_map, key, Prod.mk.injEq]

theorem mem_keys_addNew_iff : k ∈ (addNew report c).map key ↔ k ∈ report.map key ∨ k = c.key := by
  unfold addNew
  split
  · next hany =>
    refine ⟨.inl, ?_⟩
    rintro (hk | rfl)
    · exact hk
    · exact any_key_iff.1 hany
  · rw [List.map_append, List.mem_append, List.map_singleton, List.mem_singleton]

theorem nodup_keys_addNew (h : (report.map key).Nodup) (c : VersionConflict) :
    ((addNew report c).map key).Nodup := by
  unfold addNew
  split
  · exact h
  · next hany =>
    rw [any_key_iff] at hany
    rw [List.map_append, List.map_singleton, List.nodup_append]
    refine ⟨h, List.nodup_singleton _, fun a ha b hb => ?_⟩
    obtain rfl := List.mem_singleton.1 hb
    exact fun heq => hany (heq ▸ ha)

/-- The entries that are added are listed with their keys, first ones and repetitions alike. -/
theorem mem_keys_foldl_addNew_iff :
    k ∈ (l.foldl addNew report).map key ↔ k ∈ report.map key ∨ k ∈ l.map key := by
  induction l generalizing report with
  | nil => simp
  | cons c rest ih =>
    rw [List.foldl_cons, ih, mem_keys_addNew_iff, List.map_cons, List.mem_cons, or_assoc]

theorem nodup_keys_foldl_addNew (h : (report.map key).Nodup) (l : List VersionConflict) :
    ((l.foldl addNew report).map key).Nodup := by
  induction l generalizing report with
  | nil => exact h
  | cons c rest ih => exact ih (nodup_keys_addNew h c)

/-- No pair of a module and a requested text is listed twice. -/
theorem nodup_keys_ofGraph (g : Graph) : ((ofGraph g).map key).Nodup :=
  nodup_keys_foldl_addNew (by simp : (([] : List VersionConflict).map key).Nodup) _

/-! ## What is listed -/

theorem conflictOf?_eq_some_iff {e : Graph.Edge} : conflictOf? n e = some c ↔
    e.requested.requestedVersion = some c.requested ∧ c.requested ≠ n.id.version ∧
      c.module = n.module ∧ c.resolved = n.id.version ∧
      c.reason = ", ".intercalate (e.reasons.map SelectionReason.text) := by
  obtain ⟨module, requested, resolved, reason⟩ := c
  unfold conflictOf?
  split
  · next hnone => simp [hnone]
  · next text htext =>
    split
    · next heq =>
      refine ⟨fun h => (nomatch h), ?_⟩
      rintro ⟨hrequested, hne, -⟩
      obtain rfl := Option.some.inj (htext.symm.trans hrequested)
      exact absurd heq hne
    · next hne =>
      simp only [Option.some.injEq, VersionConflict.mk.injEq, htext]
      constructor
      · rintro ⟨rfl, rfl, rfl, rfl⟩
        exact ⟨rfl, hne, rfl, rfl, rfl⟩
      · rintro ⟨rfl, -, rfl, rfl, rfl⟩
        exact ⟨rfl, rfl, rfl, rfl⟩

/-- An entry comes from a node and from a request for another text than the node's version. -/
theorem exists_of_mem_ofGraph (h : c ∈ ofGraph g) :
    g.Requests c.module c.requested c.resolved ∧ c.requested ≠ c.resolved := by
  rcases foldl_addNew_subset _ _ c h with h | h
  · cases h
  · obtain ⟨n, hn, hc⟩ := List.mem_flatMap.1 h
    obtain ⟨e, he, hc⟩ := List.mem_filterMap.1 hc
    obtain ⟨hrequested, hne, hmodule, hresolved, -⟩ := conflictOf?_eq_some_iff.1 hc
    obtain ⟨he, htarget⟩ := List.mem_filter.1 he
    exact ⟨⟨n, hn, hmodule.symm, hresolved.symm, e, he,
      (beq_iff_eq.1 htarget).trans hmodule.symm, hrequested⟩, hresolved ▸ hne⟩

theorem key_mem_of_requests (h : g.Requests m text v) (hne : text ≠ v) :
    (m, text) ∈ (ofGraph g).map key := by
  obtain ⟨n, hn, rfl, rfl, e, he, htarget, htext⟩ := h
  refine mem_keys_foldl_addNew_iff.2 (.inr (List.mem_map.2 ⟨⟨n.module, text, n.id.version,
    ", ".intercalate (e.reasons.map SelectionReason.text)⟩, ?_, rfl⟩))
  refine List.mem_flatMap.2 ⟨n, hn, List.mem_filterMap.2 ⟨e, ?_, ?_⟩⟩
  · exact List.mem_filter.2 ⟨he, beq_iff_eq.2 htarget⟩
  · exact conflictOf?_eq_some_iff.2 ⟨htext, hne, rfl, rfl, rfl⟩

/-- A report lists that a text was requested of a module that resolved to a version. -/
def Lists (report : List VersionConflict) (m : ModuleId) (text v : String) : Prop :=
  ∃ c ∈ report, c.module = m ∧ c.requested = text ∧ c.resolved = v

/-- Where modules are distinct, the report lists every request for another text than the version. -/
theorem lists_ofGraph_iff (hg : g.modules.Nodup) :
    Lists (ofGraph g) m text v ↔ g.Requests m text v ∧ text ≠ v := by
  constructor
  · rintro ⟨c, hc, rfl, rfl, rfl⟩
    exact exists_of_mem_ofGraph hc
  · rintro ⟨hrequests, hne⟩
    obtain ⟨c, hc, hkey⟩ := List.mem_map.1 (key_mem_of_requests hrequests hne)
    obtain ⟨rfl, rfl⟩ := Prod.mk.inj hkey
    refine ⟨c, hc, rfl, rfl, ?_⟩
    -- the entry may come from another edge, but the module has one node
    obtain ⟨⟨a, ha, hma, hva, -⟩, -⟩ := exists_of_mem_ofGraph hc
    obtain ⟨b, hb, hmb, hvb, -⟩ := hrequests
    have hab : a = b := Graph.eq_of_module_eq hg (List.mem_cons_of_mem _ ha)
      (List.mem_cons_of_mem _ hb) (hma.trans hmb.symm)
    rw [← hva, ← hvb, hab]

/-- In the report of a graph that was built no pair is listed twice, and an entry is satisfied
exactly if the request asks for the version in other words. -/
theorem lists_satisfied_iff (h : g.Built) :
    ((ofGraph g).map key).Nodup ∧ ∀ m text v,
      ((∃ c ∈ ofGraph g, c.module = m ∧ c.requested = text ∧ c.resolved = v ∧ c.Satisfied) ↔
        g.Requests m text v ∧ Selector.Paraphrases text v) := by
  refine ⟨nodup_keys_ofGraph g, fun m text v => ?_⟩
  rw [Selector.paraphrases_iff, ← and_assoc, ← lists_ofGraph_iff h.wellFormed.nodup]
  constructor
  · rintro ⟨c, hc, rfl, rfl, rfl, hsatisfied⟩
    exact ⟨⟨c, hc, rfl, rfl, rfl⟩, hsatisfied⟩
  · rintro ⟨⟨c, hc, rfl, rfl, rfl⟩, hsatisfied⟩
    exact ⟨c, hc, rfl, rfl, rfl, hsatisfied⟩

def requestFor (module text : String) : Graph.Edge :=
  ⟨⟨"org", module⟩, ⟨"org", "lib"⟩, .require text, false, [.byRequest]⟩

/-- Four modules ask for `lib`: by a prefix, for the version itself, for it with a blank before it and
for another one. -/
def paraphrased : Graph :=
  [requestFor "app" "1.+", requestFor "a" "1.5", requestFor "b" " 1.5", requestFor "c" "2.0"].foldl
    Graph.addEdge (([⟨"org", "a", "1.0"⟩, ⟨"org", "b", "1.0"⟩, ⟨"org", "c", "1.0"⟩,
      ⟨"org", "lib", "1.5"⟩].map fun id => { id := id }).foldl Graph.addNode
        (.ofRoot { id := ⟨"org", "app", "1.0"⟩ }))

theorem built_paraphrased : paraphrased.Built :=
  Graph.built_foldl_addEdge (Graph.built_foldl_addNode (.ofRoot _) _) _

theorem lists_satisfied_iff_paraphrased : paraphrased.Built ∧
    (ofGraph paraphrased).map requested = ["1.+", " 1.5", "2.0"] ∧
    ((ofGraph paraphrased).map key).Nodup ∧
    (∃ c ∈ ofGraph paraphrased, c.module = ⟨"org", "lib"⟩ ∧ c.requested = "1.+" ∧
      c.resolved = "1.5" ∧ c.Satisfied) ∧
    (∃ c ∈ ofGraph paraphrased, c.module = ⟨"org", "lib"⟩ ∧ c.requested = " 1.5" ∧
      c.resolved = "1.5" ∧ c.Satisfied) ∧
    ¬ ∃ c ∈ ofGraph paraphrased, c.module = ⟨"org", "lib"⟩ ∧ c.requested = "2.0" ∧
      c.resolved = "1.5" ∧ c.Satisfied := by
  obtain ⟨hnodup, hlists⟩ := lists_satisfied_iff built_paraphrased
  have hrequests : ∀ text ∈ ["1.+", "1.5", " 1.5", "2.0"],
      paraphrased.Requests ⟨"org", "lib"⟩ text "1.5" := by
    unfold Graph.Requests
    decide +kernel
  refine ⟨built_paraphrased, by decide +kernel, hnodup, (hlists _ _ _).2 ⟨hrequests _ (by simp), ?_⟩,
    (hlists _ _ _).2 ⟨hrequests _ (by simp), ?_⟩, fun h => ?_⟩
  · exact .dynamic (by decide) (by decide +kernel) (by decide +kernel)
  · exact .blanks (by decide) (by decide +kernel) (by decide +kernel)
  · have haccepts := (Selector.paraphrases_iff.1 ((hlists _ _ _).1 h).2).2
    exact absurd haccepts (by decide +kernel)

end ConflictReport

end VariantGraph
