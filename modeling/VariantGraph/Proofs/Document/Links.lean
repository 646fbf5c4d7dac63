import VariantGraph.Document.Meaning
import VariantGraph.Proofs.Document.RoundTrip
import VariantGraph.Proofs.Traversal

/-!
# Which variants are read as available elsewhere

A variant is read as available elsewhere exactly if it has one link and the link gives all four of
its texts. With any other link it is read as if it had none: the link is no more than an unknown
field, which is not refused unless something in it denotes nothing.

Main statements: `linkOf?_eq_some_iff` says which link a variant has, `variant?_of_broken_link` how
a variant with a broken link is read, `isReadAs_of_read` how the variants of a document are.
-/

namespace VariantGraph

namespace Json

variable {known : List String} {members : List (String × Json)} {f : Fields Json} {key : String}
  {α : Type} {value : Json → Option α} {a : α}

/-! ## Single members -/

/-- There is one member of a key, and it holds a value. -/
def Holds (members : List (String × Json)) (key : String) (value : Json → Option α) (a : α) :
    Prop :=
  ∃ v, (members.filter fun m => m.1 == key) = [(key, v)] ∧ value v = some a

theorem Holds.length_le (h : Holds members key value a) :
    (members.filter fun m => m.1 == key).length ≤ 1 := by
  obtain ⟨v, hv, -⟩ := h
  rw [hv]
  exact Nat.le_refl 1

theorem lookup_eq_head?_filter (l : List (String × Json)) (key : String) :
    l.lookup key = (l.filter fun m => m.1 == key).head?.map (·.2) := by
  induction l with
  | nil => rfl
  | cons m rest ih =>
    obtain ⟨k, v⟩ := m
    by_cases hk : key = k
    · subst hk
      simp
    · have hne : (key == k) = false := beq_false_of_ne hk
      have hne' : ¬ k = key := fun h => hk h.symm
      simp [List.lookup_cons, hne, hne', ih]

theorem filter_filter_known (hk : key ∈ known) :
    ((members.filter fun m => known.contains m.1).filter fun m => m.1 == key)
      = members.filter fun m => m.1 == key := by
  rw [List.filter_filter]
  refine List.filter_congr fun m _ => ?_
  by_cases hm : m.1 = key
  · simp [hm, hk]
  · simp [hm]

/-- No known field is repeated among the fields that are taken. -/
theorem exists_fieldsOfMembers?_iff : (∃ f, fieldsOfMembers? known members = some f) ↔
    ∀ key ∈ known, (members.filter fun m => m.1 == key).length ≤ 1 := by
  have hcount : ∀ key, ((members.filter fun m => known.contains m.1).map (·.1)).count key
      = ((members.filter fun m => known.contains m.1).filter fun m => m.1 == key).length := by
    intro key
    rw [List.count_eq_countP, List.countP_map, List.countP_eq_length_filter]
    rfl
  unfold fieldsOfMembers?
  constructor
  · rintro ⟨f, hf⟩ key hk
    split at hf
    · next hnodup =>
      rw [← filter_filter_known hk, ← hcount]
      exact List.nodup_iff_count_le_one.1 hnodup key
    · cases hf
  · intro h
    refine ⟨_, if_pos (List.nodup_iff_count_le_one.2 fun key => ?_)⟩
    rw [hcount]
    by_cases hk : key ∈ known
    · rw [filter_filter_known hk]
      exact h key hk
    · have hnil :
          ((members.filter fun m => known.contains m.1).filter fun m => m.1 == key) = [] := by
        rw [List.filter_eq_nil_iff]
        intro m hm
        have hknown : m.1 ∈ known := by simpa using (List.mem_filter.1 hm).2
        rw [beq_iff_eq]
        rintro rfl
        exact hk hknown
      rw [hnil]
      exact Nat.zero_le 1

/-- A list is read item by item. -/
theorem list?_array_eq_some_iff {items : List Json} {l : List α} :
    list? value (.array items) = some l ↔ List.Forall₂ (fun v a => value v = some a) items l := by
  rw [list?]
  induction items generalizing l with
  | nil =>
    rw [List.mapM_nil, List.forall₂_nil_left_iff]
    exact ⟨fun h => (Option.some.inj h).symm, fun h => h ▸ rfl⟩
  | cons v rest ih =>
    rw [List.mapM_cons, List.forall₂_cons_left_iff]
    simp only [Option.bind_eq_bind, Option.bind_eq_some_iff, ih, Option.pure_def,
      Option.some.injEq]
    constructor
    · rintro ⟨a, ha, as, has, rfl⟩
      exact ⟨a, as, ha, has, rfl⟩
    · rintro ⟨a, as, ha, has, rfl⟩
      exact ⟨a, ha, as, has, rfl⟩

/-- Lists whose items are read alike are read alike. -/
theorem list?_array_congr {items items' : List Json}
    (h : List.Forall₂ (fun v v' => value v = value v') items items') :
    list? value (.array items) = list? value (.array items') := by
  rw [list?, list?]
  induction h with
  | nil => rfl
  | cons hv _ ih => rw [List.mapM_cons, List.mapM_cons, hv, ih]

/-- A required field is read from the one member of its key. -/
theorem required?_eq_some_iff (h : fieldsOfMembers? known members = some f) (hk : key ∈ known) :
    f.required? key value = some a ↔ Holds members key value a := by
  have hlength := exists_fieldsOfMembers?_iff.1 ⟨f, h⟩ key hk
  have hget : f.get? key = (members.filter fun m => m.1 == key).head?.map (·.2) := by
    unfold fieldsOfMembers? at h
    split at h
    · obtain rfl := Option.some.inj h
      rw [Fields.get?, lookup_eq_head?_filter, filter_filter_known hk]
    · cases h
  unfold Fields.required? Holds
  rw [hget]
  cases hl : members.filter fun m => m.1 == key with
  | nil => simp only [List.head?_nil]; simp
  | cons m rest =>
    have hmem : m ∈ members.filter fun m => m.1 == key := hl ▸ List.mem_cons_self
    obtain rfl : m.1 = key := beq_iff_eq.1 (List.mem_filter.1 hmem).2
    rw [hl, List.length_cons] at hlength
    obtain rfl : rest = [] := List.length_eq_zero_iff.1 (by omega)
    simp only [List.head?_cons, Option.map_some, Option.bind_some, List.cons.injEq, and_true,
      Prod.ext_iff, true_and, exists_eq_left']

end Json

namespace Document

open VariantGraph.Json

/-! ## Links -/

/-- A value is an object that gives the four texts of a link, each once. -/
structure GivesLink (v : Json) (members : List (String × Json)) (link : Link) : Prop where
  decoded : members? v = some members
  url : Holds members "url" text? link.url
  group : Holds members "group" text? link.group
  module : Holds members "module" text? link.module
  version : Holds members "version" text? link.version

/-- A variant has one link, an object that gives its four texts. -/
def LinksTo (members : List (String × Json)) (link : Link) : Prop :=
  ∃ o linkMembers, (members.filter fun m => m.1 == "available-at") = [("available-at", .object o)] ∧
    GivesLink (.object o) linkMembers link

theorem link?_object_eq_some_iff {o : List (String × Json)} {link : Link} :
    link? (.object o) = some link ↔ ∃ members, GivesLink (.object o) members link := by
  have hfields : ∀ f, fields? ["url", "group", "module", "version"] (.object o) = some f ↔
      ∃ members, members? (.object o) = some members ∧
        fieldsOfMembers? ["url", "group", "module", "version"] members = some f := by
    intro f
    rw [fields?, Option.bind_eq_some_iff]
    intro items h
    cases h
  have hparts : link? (.object o) = some link ↔
      ∃ f, fields? ["url", "group", "module", "version"] (.object o) = some f ∧
        f.required? "url" text? = some link.url ∧ f.required? "group" text? = some link.group ∧
          f.required? "module" text? = some link.module ∧
            f.required? "version" text? = some link.version := by
    obtain ⟨url, group, module, version⟩ := link
    simp [link?, Option.bind_eq_some_iff]
  rw [hparts]
  constructor
  · rintro ⟨f, hf, hurl, hgroup, hmodule, hversion⟩
    obtain ⟨members, hmembers, hf⟩ := (hfields f).1 hf
    exact ⟨members, hmembers, (required?_eq_some_iff hf (by simp)).1 hurl,
      (required?_eq_some_iff hf (by simp)).1 hgroup,
      (required?_eq_some_iff hf (by simp)).1 hmodule,
      (required?_eq_some_iff hf (by simp)).1 hversion⟩
  · rintro ⟨members, hmembers, hurl, hgroup, hmodule, hversion⟩
    obtain ⟨f, hf⟩ :
        ∃ f, fieldsOfMembers? ["url", "group", "module", "version"] members = some f := by
      rw [exists_fieldsOfMembers?_iff]
      simp only [List.forall_mem_cons]
      exact ⟨hurl.length_le, hgroup.length_le, hmodule.length_le, hversion.length_le, List.forall_mem_nil _⟩
    exact ⟨f, (hfields f).2 ⟨members, hmembers, hf⟩,
      (required?_eq_some_iff hf (by simp)).2 hurl, (required?_eq_some_iff hf (by simp)).2 hgroup,
      (required?_eq_some_iff hf (by simp)).2 hmodule,
      (required?_eq_some_iff hf (by simp)).2 hversion⟩

section Linked

variable {v : Json} {members o : List (String × Json)} {link : Link}

/-- The link of a variant with a link that is an object. -/
theorem linkOf?_eq_some_iff (ho : ("available-at", .object o) ∈ members) :
    linkOf? members = some link ↔ LinksTo members link := by
  have hholds : linkOf? members = some link ↔ Holds members "available-at" link? link := by
    unfold linkOf?
    rw [Option.bind_eq_bind, Option.bind_eq_some_iff]
    constructor
    · rintro ⟨f, hf, hlink⟩
      exact (required?_eq_some_iff hf (by simp)).1 hlink
    · intro hlink
      obtain ⟨f, hf⟩ : ∃ f, fieldsOfMembers? ["available-at"] members = some f := by
        rw [exists_fieldsOfMembers?_iff]
        simp only [List.forall_mem_cons]
        exact ⟨hlink.length_le, List.forall_mem_nil _⟩
      exact ⟨f, hf, (required?_eq_some_iff hf (by simp)).2 hlink⟩
  rw [hholds]
  constructor
  · rintro ⟨v, hv, hlink⟩
    have hmem : ("available-at", .object o) ∈ members.filter fun m => m.1 == "available-at" :=
      List.mem_filter.2 ⟨ho, beq_self_eq_true _⟩
    rw [hv, List.mem_singleton, Prod.mk.injEq] at hmem
    obtain ⟨-, rfl⟩ := hmem
    obtain ⟨linkMembers, hgives⟩ := link?_object_eq_some_iff.1 hlink
    exact ⟨o, linkMembers, hv, hgives⟩
  · rintro ⟨o', linkMembers, hv, hgives⟩
    exact ⟨_, hv, link?_object_eq_some_iff.2 ⟨linkMembers, hgives⟩⟩

/-! ## Variants -/

/-- The members of a variant that say where it is. -/
def sourceMembers (members : List (String × Json)) : List (String × Json) :=
  members.filter fun m => m.1 != "name" && m.1 != "attributes"

/-- The object of a variant without its links. -/
def withoutLink (members : List (String × Json)) : Json :=
  Json.ofMembers (members.filter fun m => m.1 != "available-at")

theorem linksTo_sourceMembers_iff :
    LinksTo (sourceMembers members) link ↔ LinksTo members link := by
  have hfilter : ((sourceMembers members).filter fun m => m.1 == "available-at")
      = members.filter fun m => m.1 == "available-at" := by
    rw [sourceMembers, List.filter_filter]
    refine List.filter_congr fun m _ => ?_
    by_cases hm : m.1 = "available-at"
    · simp [hm]
    · simp [hm]
  unfold LinksTo
  rw [hfilter]

theorem variant?_eq_some_iff {w : Variant} : variant? v = some w ↔
    ∃ members f, members? v = some members ∧
      fieldsOfMembers? ["name", "attributes"] members = some f ∧
      (∀ m ∈ sourceMembers members, isSound memberLevels m.2 = true) ∧
      f.required? "name" text? = some w.name ∧ attributesOf? f = some w.attributes ∧
        source? (sourceMembers members) = some w.source := by
  obtain ⟨name, attributes, source⟩ := w
  unfold variant?
  rw [Option.bind_eq_bind, Option.bind_eq_some_iff]
  refine exists_congr fun members => ?_
  rw [exists_and_left]
  refine and_congr_right fun _ => ?_
  rw [Option.bind_eq_bind, Option.bind_eq_some_iff]
  refine exists_congr fun f => and_congr_right fun _ => ?_
  rw [← List.all_eq_true]
  change (if (sourceMembers members).all (fun m => isSound memberLevels m.2) = true then _
    else none) = _ ↔ _
  split
  · next hsound =>
    rw [and_iff_right hsound]
    simp [Option.bind_eq_some_iff, sourceMembers]
  · next hsound => simp [hsound]

/-- Members of unknown keys do not count. -/
theorem fieldsOfMembers?_filter (members : List (String × Json)) {known : List String}
    {p : String → Bool} (h : ∀ key ∈ known, p key = true) :
    fieldsOfMembers? known (members.filter fun m => p m.1) = fieldsOfMembers? known members := by
  have hfilter : ((members.filter fun m => p m.1).filter fun m => known.contains m.1)
      = members.filter fun m => known.contains m.1 := by
    rw [List.filter_filter]
    refine List.filter_congr fun m _ => ?_
    by_cases hm : m.1 ∈ known
    · simp [hm, h m.1 hm]
    · simp [hm]
  unfold fieldsOfMembers?
  rw [hfilter]

theorem contentOf?_withoutLink :
    contentOf? (members.filter fun m => m.1 != "available-at") = contentOf? members := by
  unfold contentOf?
  rw [fieldsOfMembers?_filter members (p := fun key => key != "available-at") (by decide)]

theorem linkOf?_withoutLink : linkOf? (members.filter fun m => m.1 != "available-at") = none := by
  have hnil : ((members.filter fun m => m.1 != "available-at").filter fun m =>
      ["available-at"].contains m.1) = [] := by
    rw [List.filter_eq_nil_iff]
    intro m hm
    have hne := (List.mem_filter.1 hm).2
    simpa using hne
  unfold linkOf? fieldsOfMembers?
  rw [hnil]
  rfl

theorem sourceMembers_withoutLink :
    sourceMembers (members.filter fun m => m.1 != "available-at")
      = (sourceMembers members).filter fun m => m.1 != "available-at" := by
  rw [sourceMembers, sourceMembers, List.filter_filter, List.filter_filter]
  exact List.filter_congr fun m _ => Bool.and_comm _ _

/-- What follows a broken link has to be sound, and so has the link. -/
theorem forall_isSound_sourceMembers_iff (members : List (String × Json)) :
    (∀ m ∈ sourceMembers members, isSound memberLevels m.2 = true) ↔
      (∀ m ∈ members, m.1 = "available-at" → isSound memberLevels m.2 = true) ∧
        ∀ m ∈ sourceMembers (members.filter fun m => m.1 != "available-at"),
          isSound memberLevels m.2 = true := by
  rw [sourceMembers_withoutLink]
  constructor
  · intro h
    refine ⟨fun m hm hkey => h m (List.mem_filter.2 ⟨hm, ?_⟩),
      fun m hm => h m (List.mem_filter.1 hm).1⟩
    simp [hkey]
  · rintro ⟨hlinks, hothers⟩ m hm
    by_cases hkey : m.1 = "available-at"
    · exact hlinks m (List.mem_filter.1 hm).1 hkey
    · exact hothers m (List.mem_filter.2 ⟨hm, bne_iff_ne.2 hkey⟩)

/-- An object is meant as the link of a variant, but the variant has none: the object does not give
each of the four texts once, or is not the only one. -/
structure HasBrokenLink (members : List (String × Json)) : Prop where
  object : ∃ o, ("available-at", .object o) ∈ members
  broken : ∀ link, ¬ LinksTo members link

/-- A variant whose link is broken is read as if it had none, unless something in the link denotes
nothing. -/
theorem variant?_of_broken_link {v' : Json} (hv : members? v = some members)
    (hv' : members? v' = some (members.filter fun m => m.1 != "available-at"))
    (h : HasBrokenLink members) (w : Variant) : variant? v = some w ↔
      (∀ m ∈ members, m.1 = "available-at" → isSound memberLevels m.2 = true) ∧
        variant? v' = some w := by
  have hheader : fieldsOfMembers? ["name", "attributes"]
        (members.filter fun m => m.1 != "available-at")
      = fieldsOfMembers? ["name", "attributes"] members :=
    fieldsOfMembers?_filter members (p := fun key => key != "available-at") (by decide)
  have hnone : linkOf? (sourceMembers members) = none := by
    rw [Option.eq_none_iff_forall_ne_some]
    intro link hlink
    obtain ⟨o, ho⟩ := h.object
    have ho : ("available-at", .object o) ∈ sourceMembers members :=
      List.mem_filter.2 ⟨ho, by simp⟩
    exact h.broken link (linksTo_sourceMembers_iff.1 ((linkOf?_eq_some_iff ho).1 hlink))
  have hsource : source? (sourceMembers (members.filter fun m => m.1 != "available-at"))
      = source? (sourceMembers members) := by
    unfold source?
    rw [sourceMembers_withoutLink, linkOf?_withoutLink, contentOf?_withoutLink, hnone]
  rw [variant?_eq_some_iff, variant?_eq_some_iff]
  simp only [hv, hv', Option.some.injEq, exists_and_left, exists_eq_left']
  simp only [hheader, hsource, forall_isSound_sourceMembers_iff members]
  constructor
  · rintro ⟨f, hf, ⟨hlinks, hothers⟩, hname, hattributes, hcontent⟩
    exact ⟨hlinks, f, hf, hothers, hname, hattributes, hcontent⟩
  · rintro ⟨hlinks, f, hf, hothers, hname, hattributes, hcontent⟩
    exact ⟨f, hf, ⟨hlinks, hothers⟩, hname, hattributes, hcontent⟩

/-- A variant with a link is read as available where the link leads. -/
theorem source_of_linksTo {w : Variant} (hv : members? v = some members)
    (hw : variant? v = some w) (hlink : LinksTo members link) : w.source = .availableAt link := by
  obtain ⟨members', f, hmembers, -, -, -, -, hsource⟩ := variant?_eq_some_iff.1 hw
  obtain rfl := Option.some.inj (hv.symm.trans hmembers)
  have hlink := linksTo_sourceMembers_iff.2 hlink
  have ho : ∃ o, ("available-at", .object o) ∈ sourceMembers members := by
    obtain ⟨o, linkMembers, hfilter, -⟩ := hlink
    exact ⟨o, List.mem_of_mem_filter (hfilter ▸ List.mem_singleton_self _)⟩
  obtain ⟨o, ho⟩ := ho
  rw [source?, (linkOf?_eq_some_iff ho).2 hlink] at hsource
  exact (Option.some.inj hsource).symm

/-- A variant without members that are meant as a link is read as holding its content. -/
theorem exists_source_of_withoutLink {w : Variant} (hw : variant? (withoutLink members) = some w) :
    ∃ content, w.source = .here content := by
  obtain ⟨members', f, hmembers, -, -, -, -, hsource⟩ := variant?_eq_some_iff.1 hw
  obtain rfl := Option.some.inj ((members?_ofMembers _).symm.trans hmembers)
  rw [source?, sourceMembers_withoutLink, linkOf?_withoutLink] at hsource
  obtain ⟨content, -, hcontent⟩ := Option.map_eq_some_iff.1 hsource
  exact ⟨content, hcontent.symm⟩

end Linked

/-! ## Documents -/

/-- How a variant object with a member that is meant as a link is read: as available elsewhere if it
has a link, and else as if it had no such member. -/
def IsReadAs (v : Json) (w : VariantGraph.Variant) : Prop :=
  ∃ members, members? v = some members ∧
    (∀ link, LinksTo members link → w.source = .availableAt link.coordinates) ∧
    (HasBrokenLink members → (∃ content, w.source = .here content) ∧
      (variant? (withoutLink members)).map Variant.meaning = some w)

theorem isReadAs_of_variant? {v : Json} {w : Variant} (hw : variant? v = some w) :
    IsReadAs v w.meaning := by
  obtain ⟨members, -, hv, -⟩ := variant?_eq_some_iff.1 hw
  refine ⟨members, hv, fun link hlink => ?_, fun hbroken => ?_⟩
  · rw [Variant.meaning, source_of_linksTo hv hw hlink]
  · have hwithout := ((variant?_of_broken_link hv (members?_ofMembers _) hbroken w).1 hw).2
    obtain ⟨content, hcontent⟩ := exists_source_of_withoutLink hwithout
    refine ⟨?_, congrArg (Option.map Variant.meaning) hwithout⟩
    rw [Variant.meaning, hcontent]
    exact ⟨_, rfl⟩

/-- The fields of a document. -/
def documentFields : List String := ["formatVersion", "component", "createdBy", "variants"]

/-- The values that a document lists as its variants. -/
def variantsIn (j : Json) : List Json :=
  match (fields? documentFields j).bind fun f => f.get? "variants" with
  | some (.array items) => items
  | _ => []

/-- A variant object loses a broken link in which everything denotes something, or stays as it
is. -/
def DropsBrokenLink (v v' : Json) : Prop :=
  v' = v ∨ ∃ members, members? v = some members ∧ HasBrokenLink members ∧
    (∀ m ∈ members, m.1 = "available-at" → isSound memberLevels m.2 = true) ∧
      members? v' = some (members.filter fun m => m.1 != "available-at")

/-- Two documents differ only in that some variants lose broken links. -/
def DropsBrokenLinks (j j' : Json) : Prop :=
  ∃ f f' items items', fields? documentFields j = some f ∧ fields? documentFields j' = some f' ∧
    f.get? "variants" = some (.array items) ∧ f'.get? "variants" = some (.array items') ∧
      (∀ key, key ≠ "variants" → f.get? key = f'.get? key) ∧
        List.Forall₂ DropsBrokenLink items items'

theorem variant?_of_dropsBrokenLink {v v' : Json} (h : DropsBrokenLink v v') :
    variant? v = variant? v' := by
  rcases h with rfl | ⟨members, hv, hbroken, hsound, hv'⟩
  · rfl
  · refine Option.ext fun w => ?_
    rw [variant?_of_broken_link hv hv' hbroken w]
    exact and_iff_right hsound

theorem ofJson?_of_dropsBrokenLinks {j j' : Json} (h : DropsBrokenLinks j j') :
    ofJson? j = ofJson? j' := by
  obtain ⟨f, f', items, items', hf, hf', hitems, hitems', hothers, hdrops⟩ := h
  have hread : list? variant? (.array items) = list? variant? (.array items') :=
    list?_array_congr (hdrops.imp fun v v' => variant?_of_dropsBrokenLink)
  have hvariants : f.default? "variants" [] (list? variant?)
      = f'.default? "variants" [] (list? variant?) := by
    rw [Fields.default?, Fields.default?, hitems, hitems']
    exact hread
  unfold ofJson?
  change ((fields? documentFields j).bind fun f => _) = (fields? documentFields j').bind fun f => _
  rw [hf, hf', Option.bind_some, Option.bind_some]
  simp only [Fields.required?, nullableField?, hvariants, hothers "formatVersion" (by decide),
    hothers "component" (by decide)]
  simp only [Fields.default?, hothers "createdBy" (by decide)]

theorem forall₂_isReadAs_of_ofJson? {j : Json} {d : Document} (h : ofJson? j = some d)
    (id : Coordinates) : List.Forall₂ IsReadAs (variantsIn j) (d.moduleData id).variants := by
  have hvariants : ∃ f, fields? documentFields j = some f ∧
      f.default? "variants" [] (list? variant?) = some d.variants := by
    unfold ofJson? at h
    rw [Option.bind_eq_bind, Option.bind_eq_some_iff] at h
    obtain ⟨f, hf, h⟩ := h
    simp only [Option.bind_eq_bind, Option.bind_eq_some_iff, Option.pure_def,
      Option.some.injEq] at h
    obtain ⟨-, -, -, -, -, -, variants, hvariants, rfl⟩ := h
    exact ⟨f, hf, hvariants⟩
  obtain ⟨f, hf, hvariants⟩ := hvariants
  rw [variants_moduleData, List.forall₂_map_right_iff]
  unfold variantsIn
  rw [hf, Option.bind_some]
  rw [Fields.default?] at hvariants
  cases hget : f.get? "variants" with
  | none =>
    rw [hget] at hvariants
    rw [← Option.some.inj hvariants]
    exact .nil
  | some value =>
    rw [hget] at hvariants
    cases value with
    | array items => exact (list?_array_eq_some_iff.1 hvariants).imp fun v w => isReadAs_of_variant?
    | _ => cases hvariants

theorem read_eq_ok_iff {content : String} {d : Document} : read content = .ok d ↔
    ∃ j, Json.parse? content = some j ∧ ofJson? j = some d := by
  unfold read parse?
  cases Json.parse? content with
  | none => simp
  | some j => cases h : ofJson? j <;> simp [h]

/-- In a document that is read, a variant with a link is available where the link leads, and one
with a broken link holds its content like one without any. A text with broken links, in which
everything denotes something, is read or refused as it is without them. -/
theorem isReadAs_of_read (content : String) (id : Coordinates) :
    (∀ d, read content = .ok d → ∃ j, Json.parse? content = some j ∧
      List.Forall₂ IsReadAs (variantsIn j) (d.moduleData id).variants) ∧
    ∀ content' j j', Json.parse? content = some j → Json.parse? content' = some j' →
      DropsBrokenLinks j j' → read content = read content' := by
  constructor
  · intro d hd
    obtain ⟨j, hj, hd⟩ := read_eq_ok_iff.1 hd
    exact ⟨j, hj, forall₂_isReadAs_of_ofJson? hd id⟩
  · intro content' j j' hj hj' hdrops
    unfold read parse?
    rw [hj, hj', Option.bind_some, Option.bind_some, ofJson?_of_dropsBrokenLinks hdrops]

/-- The members of a variant whose link has no version. -/
def hostedMembers : List (String × Json) :=
  [("name", ofText "jvm"),
    ("available-at", ofMembers
      [("url", ofText "lib-jvm-1.0.module"), ("group", ofText "org"),
        ("module", ofText "lib-jvm")])]

/-- The members of a document with one variant. -/
def hostedFields (variant : Json) : List (String × Json) :=
  [("formatVersion", ofText "1.1"),
    ("component", ofMembers
      [("group", ofText "org"), ("module", ofText "lib"), ("version", ofText "1.0")]),
    ("variants", .array [variant])]

def hostedDocument (variant : Json) : Json := ofMembers (hostedFields variant)

theorem fields?_hostedDocument (variant : Json) :
    fields? documentFields (hostedDocument variant) = some (hostedFields variant) := by
  have hmembers : fields? documentFields (hostedDocument variant)
      = fieldsOfMembers? documentFields (hostedFields variant) := by
    rw [hostedDocument, fields?, members?_ofMembers, Option.bind_some]
    intro items h
    cases h
  rw [hmembers]
  rfl

theorem isWritten_hostedDocument {variant : Json} (h : IsWritten 2 variant) :
    IsWritten 4 (hostedDocument variant) := by
  refine .ofMembers ?_
  simp only [hostedFields, List.forall_mem_cons]
  refine ⟨.ofText _, .ofMembers ?_, .array ?_, List.forall_mem_nil _⟩
  · simp only [List.forall_mem_cons]
    exact ⟨.ofText _, .ofText _, .ofText _, List.forall_mem_nil _⟩
  · simp only [List.forall_mem_cons]
    exact ⟨h, List.forall_mem_nil _⟩

theorem isWritten_withoutLink {levels : Nat} {members : List (String × Json)}
    (h : ∀ m ∈ members, IsWritten levels m.2) :
    IsWritten (levels + 1) (withoutLink members) :=
  .ofMembers fun m hm => h m (List.mem_of_mem_filter hm)

theorem hasBrokenLink_hostedMembers : HasBrokenLink hostedMembers := by
  have ho : ∃ o, ("available-at", .object o) ∈ hostedMembers :=
    ⟨_, List.mem_cons_of_mem _ List.mem_cons_self⟩
  have hnone : (linkOf? hostedMembers).isNone = true := by decide +kernel
  refine ⟨ho, fun link hlink => ?_⟩
  obtain ⟨o, ho⟩ := ho
  rw [(linkOf?_eq_some_iff ho).2 hlink] at hnone
  cases hnone

theorem dropsBrokenLinks_hostedDocument :
    DropsBrokenLinks (hostedDocument (ofMembers hostedMembers))
      (hostedDocument (withoutLink hostedMembers)) := by
  have hsound : ∀ m ∈ hostedMembers, m.1 = "available-at" → isSound memberLevels m.2 = true := by
    decide +kernel
  refine ⟨_, _, _, _, fields?_hostedDocument _, fields?_hostedDocument _, rfl, rfl,
    fun key hkey => ?_, .cons (.inr ?_) .nil⟩
  · have hne : (key == "variants") = false := beq_false_of_ne hkey
    simp only [hostedFields, Fields.get?, List.lookup_cons, hne]
  · exact ⟨hostedMembers, members?_ofMembers _, hasBrokenLink_hostedMembers, hsound,
      members?_ofMembers _⟩

/-- The variant is read as holding nothing, as it is without its link. -/
theorem isReadAs_of_read_hosted :
    HasBrokenLink hostedMembers ∧
      ∃ d, read (pretty 0 (hostedDocument (ofMembers hostedMembers)) ++ "\n") = .ok d ∧
        read (pretty 0 (hostedDocument (withoutLink hostedMembers)) ++ "\n") = .ok d ∧
          ∃ w, (d.moduleData ⟨"org", "lib", "1.0"⟩).variants = [w] ∧
            IsReadAs (ofMembers hostedMembers) w ∧ w.source = .here {} := by
  have hwritten : ∀ m ∈ hostedMembers, IsWritten 1 m.2 := by
    simp only [hostedMembers, List.forall_mem_cons]
    refine ⟨.ofText _, .ofMembers ?_, List.forall_mem_nil _⟩
    simp only [List.forall_mem_cons]
    exact ⟨.ofText _, .ofText _, .ofText _, List.forall_mem_nil _⟩
  have hparse := parse?_pretty (isWritten_hostedDocument (.ofMembers hwritten))
  have hparse' := parse?_pretty (isWritten_hostedDocument (isWritten_withoutLink hwritten))
  have hsource : (ofJson? (hostedDocument (ofMembers hostedMembers))).map
      (fun d => (d.moduleData ⟨"org", "lib", "1.0"⟩).variants.map (·.source))
      = some [.here {}] := by
    decide +kernel
  obtain ⟨d, hd, hsource⟩ := Option.map_eq_some_iff.1 hsource
  have hread := read_eq_ok_iff.2 ⟨_, hparse, hd⟩
  obtain ⟨hvariants, hsame⟩ := isReadAs_of_read
    (pretty 0 (hostedDocument (ofMembers hostedMembers)) ++ "\n") ⟨"org", "lib", "1.0"⟩
  have hread' := hsame _ _ _ hparse hparse' dropsBrokenLinks_hostedDocument
  rw [hread] at hread'
  obtain ⟨j, hj, hforall⟩ := hvariants d hread
  obtain rfl := Option.some.inj (hparse.symm.trans hj)
  have hitems : variantsIn (hostedDocument (ofMembers hostedMembers))
      = [ofMembers hostedMembers] := by
    rw [variantsIn, fields?_hostedDocument]
    rfl
  rw [hitems, List.forall₂_cons_left_iff] at hforall
  obtain ⟨w, rest, hw, hrest, hcons⟩ := hforall
  obtain rfl := List.forall₂_nil_left_iff.1 hrest
  rw [hcons] at hsource
  exact ⟨hasBrokenLink_hostedMembers, d, hread, hread'.symm, w, hcons, hw,
    List.head_eq_of_cons_eq hsource⟩

end Document

end VariantGraph
