import VariantGraph.Proofs.Publication.Publishing

/-!
# The variants that a project advertises

The document of a project has the variants of the project itself and then links to those that other
modules hold, host by host. The publications of a build are told apart by the names of their
components. Different hosts have different names, but the owner of a project has the name of a host
if it holds variants too; its own publication counts then, which has none of them.

Main statements: `Manifest.named?_text` finds the publication that counts for a host,
`Project.forall₂_variants_of_publish` says which variants are written and when they are all there
are.
-/

namespace VariantGraph

open Document Publication

theorem Coordinates.text_injective_of_parse? {s s' : String} {c c' : Coordinates}
    (h : Coordinates.parse? s = some c) (h' : Coordinates.parse? s' = some c')
    (htext : c.text = c'.text) : c = c' := by
  obtain ⟨rfl, -⟩ := Coordinates.parse?_eq_some_iff.1 h
  obtain ⟨rfl, -⟩ := Coordinates.parse?_eq_some_iff.1 h'
  rw [htext, h'] at h
  exact (Option.some.inj h).symm

theorem find?_eq_some_of_unique {α : Type} {l : List α} {q : α → Bool} {a : α} (ha : a ∈ l)
    (hq : q a = true) (hunique : ∀ b ∈ l, q b = true → b = a) : l.find? q = some a := by
  cases hfind : l.find? q with
  | none => exact absurd hq (by simpa using List.find?_eq_none.1 hfind a ha)
  | some b => rw [hunique b (List.mem_of_find?_eq_some hfind) (List.find?_some hfind)]

namespace Manifest

variable {m : Manifest} {root : Path} {placed : List PlacedVariant} {owner : Option Coordinates}

/-! ## The publication that counts -/

theorem exists_parse?_of_mem_hosts {host : Coordinates} (h : host ∈ m.hosts) :
    ∃ s, Coordinates.parse? s = some host := by
  rw [hosts, List.mem_eraseDups, List.mem_filterMap] at h
  obtain ⟨v, -, hv⟩ := h
  obtain ⟨s, -, hs⟩ := Option.bind_eq_some_iff.1 hv
  exact ⟨s, hs⟩

theorem exists_parse?_of_owner {id : Coordinates} (h : m.owner = .ok (some id)) :
    ∃ s, Coordinates.parse? s = some id := by
  unfold Manifest.owner at h
  split at h
  · next s hs =>
    obtain ⟨id', hid, hsame⟩ := map_eq_ok_iff.1 h
    obtain rfl := Option.some.inj hsame
    exact ⟨s, readOr_eq_ok_iff.1 hid⟩
  · cases h

/-- The variants that a document advertises for a host: none if the host is the owner. -/
def advertisedFor (owner : Option Coordinates) (placed : List PlacedVariant) (host : Coordinates) :
    List PublishedVariant :=
  if owner = some host then [] else heldBy (some host) placed

/-- What counts for a host is its publication, unless the owner has its name. -/
theorem named?_text (hplaced : m.variants.mapM (placeVariant m root) = .ok placed)
    (howner : m.owner = .ok owner) (own : Publication) {host : Coordinates}
    (hhost : host ∈ m.hosts) :
    ∃ p, named? (own :: m.otherPublications placed owner) host.text = some p ∧
      p.coordinates = host ∧ p.component.variants = advertisedFor owner placed host := by
  obtain ⟨s, hs⟩ := exists_parse?_of_mem_hosts hhost
  -- The last one counts: the owner's publication is looked at first, and the project's own last.
  rw [named?, List.reverse_cons, otherPublications, List.reverse_append, List.find?_append,
    List.find?_append, hostsOf_eq_hosts hplaced]
  have hhosts : (m.hosts.map (hostPublication placed)).reverse.find?
      (fun p => p.component.name == host.text) = some (hostPublication placed host) := by
    refine find?_eq_some_of_unique (List.mem_reverse.2 (List.mem_map_of_mem hhost))
      (beq_self_eq_true _) ?_
    intro p hp hname
    obtain ⟨host', hhost', rfl⟩ := List.mem_map.1 (List.mem_reverse.1 hp)
    obtain ⟨s', hs'⟩ := exists_parse?_of_mem_hosts hhost'
    rw [Coordinates.text_injective_of_parse? hs' hs (beq_iff_eq.1 hname)]
  rw [hhosts]
  cases owner with
  | none => exact ⟨_, rfl, rfl, rfl⟩
  | some id =>
    obtain ⟨s', hs'⟩ := exists_parse?_of_owner howner
    by_cases hid : id = host
    · subst hid
      refine ⟨m.ownerPublication id, ?_, rfl, ?_⟩
      · simp [ownerPublication]
      · rw [advertisedFor, if_pos rfl]
        rfl
    · have hname : (id.text == host.text) = false := by
        rw [beq_eq_false_iff_ne]
        exact fun htext => hid (Coordinates.text_injective_of_parse? hs' hs htext)
      refine ⟨hostPublication placed host, ?_, rfl, ?_⟩
      · simp [ownerPublication, hname]
      · rw [advertisedFor, if_neg (by simpa using hid)]
        rfl

/-! ## Declared variants -/

/-- How the variant of an entry is written: in the document, or as a link to its host. -/
structure VariantEntry.IsWrittenAs (v : VariantEntry) (w : Document.Variant) : Prop where
  name : w.name = v.name
  attributes : ofAttributes v.attributes = .ok w.attributes
  here : v.host? = none → ∃ content, w.source = .here content
  link : ∀ host, v.host? = some host → w.source = .availableAt (linkTo host)

/-- The declared variants that the project and some hosts hold, host by host. -/
def declaredAt (m : Manifest) (hosts : List Coordinates) : List VariantEntry :=
  m.entriesAt none ++ hosts.flatMap fun host => m.entriesAt (some host)

/-- All declared variants: those of the project, and then those of other modules in the order in
which these are named first. -/
def declaredVariants (m : Manifest) : List VariantEntry := m.declaredAt m.hosts

/-- The hosts that are not the owner. -/
def hostsBeside (m : Manifest) (owner : Option Coordinates) : List Coordinates :=
  m.hosts.filter fun host => owner ≠ some host

theorem entriesAt_ne_nil {host : Coordinates} (h : host ∈ m.hosts) :
    m.entriesAt (some host) ≠ [] := by
  rw [hosts, List.mem_eraseDups, List.mem_filterMap] at h
  obtain ⟨v, hv, hhost⟩ := h
  exact List.ne_nil_of_mem (List.mem_filter.2 ⟨hv, beq_iff_eq.2 hhost⟩)

theorem isWrittenAs_of_localVariant {b : Build} {p : Publication} {v : VariantEntry}
    {x : PublishedVariant} {w : Document.Variant} (hv : v.host? = none)
    (hx : v.IsPlacedAs m root x) (h : Publication.localVariant b p x = .ok w) :
    v.IsWrittenAs w := by
  obtain ⟨dependencies, -, h⟩ := bind_eq_ok_iff.1 h
  obtain ⟨constraints, -, h⟩ := bind_eq_ok_iff.1 h
  obtain ⟨files, -, h⟩ := bind_eq_ok_iff.1 h
  obtain ⟨attributes, hattributes, h⟩ := bind_eq_ok_iff.1 h
  obtain rfl := Except.ok.inj h
  exact
    { name := hx.name
      attributes := hx.attributes ▸ mapError_eq_ok_iff.1 hattributes
      here := fun _ => ⟨_, rfl⟩
      link := fun host hhost => by rw [hv] at hhost; cases hhost }

theorem isWrittenAs_of_linkedVariant {p : Publication} {v : VariantEntry} {x : PublishedVariant}
    {w : Document.Variant} (hv : v.host? = some p.coordinates) (hx : v.IsPlacedAs m root x)
    (h : linkedVariant p x = .ok w) : v.IsWrittenAs w := by
  obtain ⟨attributes, hattributes, h⟩ := bind_eq_ok_iff.1 h
  obtain rfl := Except.ok.inj h
  exact
    { name := hx.name
      attributes := hx.attributes ▸ mapError_eq_ok_iff.1 hattributes
      here := fun hnone => by rw [hv] at hnone; cases hnone
      link := fun host hhost => by rw [← Option.some.inj (hv.symm.trans hhost)] }

/-- What is written of the variants of a host. -/
theorem forall₂_isWrittenAs_of_childVariants
    (hplaced : m.variants.mapM (placeVariant m root) = .ok placed)
    (howner : m.owner = .ok owner) {own p : Publication} {host : Coordinates}
    (hhost : host ∈ m.hosts) {l : List Document.Variant}
    (h : childVariants (own :: m.otherPublications placed owner) p host.text = .ok l) :
    List.Forall₂ VariantEntry.IsWrittenAs
      (if owner = some host then [] else m.entriesAt (some host)) l := by
  obtain ⟨c, hnamed, hcoordinates, hvariants⟩ := named?_text hplaced howner own hhost
  rw [childVariants, hnamed] at h
  dsimp only at h
  rw [hvariants, advertisedFor] at h
  split at h
  · next howns =>
    obtain rfl : [] = l := Except.ok.inj h
    rw [if_pos howns]
    exact .nil
  · next howns =>
    rw [if_neg howns]
    refine forall₂_of_forall₂_mapM (forall₂_isPlacedAs_heldBy hplaced (some host)) h ?_
    intro v hv x w hx hw
    exact isWrittenAs_of_linkedVariant (hcoordinates ▸ host?_of_mem_entriesAt hv) hx hw

theorem flatMap_advertised (m : Manifest) (owner : Option Coordinates) :
    (m.hosts.flatMap fun host => if owner = some host then [] else m.entriesAt (some host)) =
      (m.hostsBeside owner).flatMap fun host => m.entriesAt (some host) := by
  unfold hostsBeside
  induction m.hosts with
  | nil => rfl
  | cons host rest ih =>
    by_cases howns : owner = some host
    · simp [howns] at ih ⊢
      exact ih
    · simp [howns, ih]

/-- The variants of the project and of the hosts that are not its owner are written, and no
others. -/
theorem forall₂_isWrittenAs_of_document
    (hplaced : m.variants.mapM (placeVariant m root) = .ok placed)
    (howner : m.owner = .ok owner) {b : Build} {mappings : List VersionMapping} {d : Document}
    (h : (m.mappedPublication placed mappings).document b
      (m.mappedPublication placed mappings :: m.otherPublications placed owner) = .ok d) :
    List.Forall₂ VariantEntry.IsWrittenAs (m.declaredAt (m.hostsBeside owner)) d.variants := by
  obtain ⟨own, children, hown, hchildren, hvariants⟩ := variants_of_document h
  have hlocal : List.Forall₂ VariantEntry.IsWrittenAs (m.entriesAt none) own :=
    forall₂_of_forall₂_mapM (forall₂_isPlacedAs_heldBy hplaced none) hown fun v hv x w hx hw =>
      isWrittenAs_of_localVariant (host?_of_mem_entriesAt hv) hx hw
  have hnames : (m.mappedPublication placed mappings).component.children =
      m.hosts.map Coordinates.text :=
    congrArg (List.map Coordinates.text) (hostsOf_eq_hosts hplaced)
  rw [hnames, List.mapM_map] at hchildren
  have hlinked := forall₂_of_mapM_eq_ok hchildren fun host hhost l hl =>
    forall₂_isWrittenAs_of_childVariants hplaced howner hhost hl
  have hflatten := List.rel_flatten (List.forall₂_map_left_iff.2 hlinked)
  rw [← List.flatMap_def, flatMap_advertised] at hflatten
  rw [hvariants]
  exact List.rel_append hlocal hflatten

/-- Every declared variant is written if and only if the owner is not one of the hosts. -/
theorem forall₂_declaredVariants_iff {l : List Document.Variant}
    (h : List.Forall₂ VariantEntry.IsWrittenAs (m.declaredAt (m.hostsBeside owner)) l) :
    List.Forall₂ VariantEntry.IsWrittenAs m.declaredVariants l ↔
      ∀ host ∈ m.hosts, owner ≠ some host := by
  constructor
  · rintro hall host hhost rfl
    -- If a variant of the owner were written, its link would be that of another host.
    obtain ⟨v, hv⟩ := List.exists_mem_of_ne_nil _ (entriesAt_ne_nil hhost)
    have hdeclared : v ∈ m.declaredVariants :=
      List.mem_append_right _ (List.mem_flatMap.2 ⟨host, hhost, hv⟩)
    obtain ⟨w, hw, hvw⟩ := exists_of_mem_of_forall₂ hall hdeclared
    have hlink := hvw.link host (host?_of_mem_entriesAt hv)
    obtain ⟨v', hv', hv'w⟩ := exists_of_mem_of_forall₂ (R := flip VariantEntry.IsWrittenAs)
      (List.Forall₂.flip h) hw
    rcases List.mem_append.1 hv' with hlocal | hlinked
    · obtain ⟨content, hhere⟩ := hv'w.here (host?_of_mem_entriesAt hlocal)
      rw [hlink] at hhere
      cases hhere
    · obtain ⟨host', hbeside, hv'⟩ := List.mem_flatMap.1 hlinked
      have hlink' := hv'w.link host' (host?_of_mem_entriesAt hv')
      rw [hlink, Document.Source.availableAt.injEq] at hlink'
      have hsame : host = host' := congrArg Link.coordinates hlink'
      subst hsame
      simp [hostsBeside] at hbeside
  · intro hbeside
    have hhosts : m.hostsBeside owner = m.hosts :=
      List.filter_eq_self.2 fun host hhost => decide_eq_true (hbeside host hhost)
    rwa [hhosts] at h

end Manifest

namespace Project

/-- When a project is published its document has the variants of the project in the order of their
declarations, and then links to those that other modules hold, host by host. Only those are lost
whose host is the owner of the project as well. -/
theorem forall₂_variants_of_publish {t t' : FileTree} {c : Config} {atHand : String}
    {o : PublishOptions} {file path : Path} (h : publish t c atHand o file = (t', .ok path)) :
    ∃ p d owner, load t file = .ok p ∧ t'.HoldsDocument path d ∧ p.manifest.owner = .ok owner ∧
      List.Forall₂ Manifest.VariantEntry.IsWrittenAs
        (p.manifest.declaredAt (p.manifest.hostsBeside owner)) d.variants ∧
      (List.Forall₂ Manifest.VariantEntry.IsWrittenAs p.manifest.declaredVariants d.variants ↔
        ∀ host ∈ p.manifest.hosts, owner ≠ some host) := by
  obtain ⟨p, d, placed, owner, mappings, projects, hload, hholds, hprepares⟩ := exists_of_publish h
  have hwritten := Manifest.forall₂_isWrittenAs_of_document hprepares.placed_eq
    hprepares.owner_eq hprepares.document_eq
  exact ⟨p, d, owner, hload, hholds, hprepares.owner_eq, hwritten,
    Manifest.forall₂_declaredVariants_iff hwritten⟩

/-- The owner of the library is the host of its second variant, which is not written. -/
theorem forall₂_variants_of_publish_libraryTree :
    ∃ t' d, publish libraryTree {} "build" {} ⟨manifestName⟩ =
        (t', .ok ⟨"./repo/g/lib/1/lib-1.module"⟩) ∧
      t'.HoldsDocument ⟨"./repo/g/lib/1/lib-1.module"⟩ d ∧
      libraryManifest.declaredVariants.map Manifest.VariantEntry.name = ["api", "jvm"] ∧
      d.variants.map Document.Variant.name = ["api"] ∧
      ¬ List.Forall₂ Manifest.VariantEntry.IsWrittenAs libraryManifest.declaredVariants
        d.variants := by
  obtain ⟨t', hpublish⟩ := publish_libraryTree
  obtain ⟨p, d, owner, hload, hholds, howner, hwritten, hall⟩ :=
    forall₂_variants_of_publish hpublish
  obtain rfl := Except.ok.inj (load_libraryTree.symm.trans hload)
  have hsuite : libraryManifest.owner = .ok (some ⟨"g", "all", "1"⟩) := by
    decide +kernel
  obtain rfl := Except.ok.inj (hsuite.symm.trans howner)
  refine ⟨t', d, hpublish, hholds, by decide +kernel, ?_, ?_⟩
  · have hnames : (libraryManifest.declaredAt
        (libraryManifest.hostsBeside (some ⟨"g", "all", "1"⟩))).map Manifest.VariantEntry.name =
          ["api"] := by
      decide +kernel
    have hsame := List.forall₂_map_left_iff.2 (List.forall₂_map_right_iff.2
      (hwritten.imp fun v w hvw => hvw.name.symm))
    rw [List.forall₂_eq_eq_eq] at hsame
    exact hsame.symm.trans hnames
  · intro hwhole
    exact hall.1 hwhole ⟨"g", "all", "1"⟩ (by decide +kernel) rfl

end Project

end VariantGraph
