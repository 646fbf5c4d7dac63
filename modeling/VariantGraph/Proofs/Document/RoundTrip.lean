import VariantGraph.Document.Reader
import VariantGraph.Document.Writer
import VariantGraph.Proofs.Json.Fields
import VariantGraph.Proofs.Table

/-!
# Reading written documents

Reading undoes writing: for each part of a document, the value that is written for it is read as the
same part again. A record is described by its fields in their order; a field is left out only when
its value is the one that the reader assumes.

Main statements: `ofJson?_toJson`, `isWritten_toJson`, `parse?_write`.
-/

namespace VariantGraph.Document

open VariantGraph.Json

/-! ## Fields -/

theorem field_eq (key : String) (value : Json) :
    field key value = Slots.members [(key, some value)] := rfl

theorem optionalField_eq {α : Type} (key : String) (value : α → Json) (o : Option α) :
    optionalField key value o = Slots.members [(key, o.map value)] := by
  cases o <;> rfl

theorem listField_eq {α : Type} (key : String) (item : α → Json) (l : List α) :
    listField key item l = Slots.members [(key, Slots.list item l)] := by
  cases l <;> rfl

theorem text?_textJson (s : String) : text? (textJson s) = some s := text?_ofText s

theorem textJson_ne_null (s : String) : textJson s ≠ .null := fun h => by cases h

theorem isWritten_textJson {levels : Nat} (s : String) : IsWritten levels (textJson s) := .ofText s

/-! ## Attributes -/

theorem scalar?_scalarJson (v : Scalar) : scalar? (scalarJson v) = some v := by
  cases v with
  | boolean b => rfl
  | integer i =>
    have hbool : bool? (scalarJson (.integer i)) = none := rfl
    have hint : int64? (scalarJson (.integer i)) = some i := int64?_ofInt i
    rw [scalar?, hbool, hint]
    rfl
  | text s =>
    have hbool : bool? (scalarJson (.text s)) = none := rfl
    have hint : int64? (scalarJson (.text s)) = none := rfl
    rw [scalar?, hbool, hint, scalarJson, text?_textJson]
    rfl

theorem scalars?_scalarsJson (a : Scalars) : scalars? (scalarsJson a) = some a := by
  have hmembers : members? (scalarsJson a)
      = some (a.toList.map fun e => (e.1, scalarJson e.2)) := by
    have h := members?_ofMembers (a.toList.map fun e => (e.1, scalarJson e.2))
    rwa [ofMembers, List.map_map] at h
  have hvalues : ∀ l : List (String × Scalar), (l.map fun e => (e.1, scalarJson e.2)).mapM
      (fun m => (scalar? m.2).map fun v => (m.1, v)) = some l := by
    intro l
    induction l with
    | nil => rfl
    | cons e l ih =>
      rw [List.map_cons, List.mapM_cons, ih, scalar?_scalarJson]
      rfl
  rw [scalars?, hmembers, Option.bind_some, hvalues, Option.map_some, Table.ofList_toList]

theorem isWritten_scalarJson {levels : Nat} (v : Scalar) : IsWritten levels (scalarJson v) := by
  cases v with
  | boolean b => exact .bool b
  | integer i =>
    have hmin : Int64.minValue.toInt ≤ i.toInt := Int64.minValue_le_toInt i
    have hmax : i.toInt ≤ Int64.maxValue.toInt := Int64.toInt_le i
    refine .ofInt ?_
    change -9223372036854775808 ≤ i.toInt at hmin
    change i.toInt ≤ 9223372036854775807 at hmax
    change i.toInt.natAbs < 18446744073709551616
    omega
  | text s => exact .ofText s

theorem isWritten_scalarsJson {levels : Nat} (a : Scalars) :
    IsWritten (levels + 1) (scalarsJson a) := by
  have h : IsWritten (levels + 1) (ofMembers (a.toList.map fun e => (e.1, scalarJson e.2))) := by
    refine .ofMembers fun m hm => ?_
    obtain ⟨e, -, rfl⟩ := List.mem_map.1 hm
    exact isWritten_scalarJson e.2
  rwa [ofMembers, List.map_map] at h

/-- The value of the attributes, if there are some. -/
def attributesSlot (a : Scalars) : Option Json := if a.isEmpty then none else some (scalarsJson a)

theorem attributesField_eq (a : Scalars) :
    attributesField a = Slots.members [("attributes", attributesSlot a)] := by
  rw [attributesField, attributesSlot]
  split <;> rfl

theorem attributesOf?_written {s : Slots} {a : Scalars} (hs : s.keys.Nodup)
    (h : ("attributes", attributesSlot a) ∈ s) : attributesOf? s.written = some a := by
  rw [attributesOf?, Fields.default?, Slots.get?_written hs h, attributesSlot]
  by_cases ha : a.isEmpty
  · obtain ⟨entries, hascending⟩ := a
    obtain rfl : entries = [] := List.isEmpty_iff.1 ha
    rfl
  · rw [if_neg ha]
    exact scalars?_scalarsJson a

theorem isWritten_attributesSlot {levels : Nat} (a : Scalars) :
    ∀ v ∈ attributesSlot a, IsWritten (levels + 1) v := by
  intro v hv
  rw [attributesSlot] at hv
  split at hv
  · cases hv
  · obtain rfl := Option.some.inj hv
    exact isWritten_scalarsJson a

/-! ## Capabilities, versions and excludes -/

/-- The fields of a capability. -/
def capabilitySlots (c : Capability) : Slots :=
  [("group", some (textJson c.group)), ("name", some (textJson c.name)),
    ("version", some ((c.version.map textJson).getD .null))]

theorem capability?_capabilityJson (c : Capability) : capability? (capabilityJson c) = some c := by
  have hs : (capabilitySlots c).keys.Nodup := (by decide : ["group", "name", "version"].Nodup)
  have hf : fields? ["group", "name", "version"] (capabilityJson c)
      = some (capabilitySlots c).written := Slots.fields?_json rfl hs
  have hgroup : (capabilitySlots c).written.required? "group" text? = some c.group :=
    Slots.required?_written hs (by simp [capabilitySlots]) (text?_textJson _)
  have hname : (capabilitySlots c).written.required? "name" text? = some c.name :=
    Slots.required?_written hs (by simp [capabilitySlots]) (text?_textJson _)
  have hversion : nullableField? (capabilitySlots c).written "version" text? = some c.version :=
    Slots.nullableField?_written_null hs (by simp [capabilitySlots]) text?_textJson textJson_ne_null
  rw [capability?, hf]
  simp [hgroup, hname, hversion]

theorem isWritten_capabilityJson {levels : Nat} (c : Capability) :
    IsWritten (levels + 1) (capabilityJson c) := by
  have hversion : IsWritten levels ((c.version.map textJson).getD .null) := by
    cases c.version with
    | none => exact .null
    | some v => exact isWritten_textJson v
  refine Slots.isWritten_json (s := capabilitySlots c) ?_
  simp [capabilitySlots, isWritten_textJson, hversion]

/-- The fields of a version constraint. -/
def versionSlots (v : Version) : Slots :=
  [("strictly", v.strictly.map textJson), ("requires", v.requires.map textJson),
    ("prefers", v.prefers.map textJson), ("rejects", Slots.list textJson v.rejects),
    ("forSubgraph", if v.forSubgraph then some (.bool true) else none)]

theorem versionJson_eq (v : Version) : versionJson v = (versionSlots v).json := by
  have hsubgraph : (if v.forSubgraph then field "forSubgraph" (.bool true) else [])
      = Slots.members [("forSubgraph", if v.forSubgraph then some (.bool true) else none)] := by
    cases v.forSubgraph <;> rfl
  rw [versionJson, optionalField_eq, optionalField_eq, optionalField_eq, listField_eq, hsubgraph]
  simp only [← Slots.members_append]
  rfl

theorem version?_versionJson (v : Version) : version? (versionJson v) = some v := by
  have hs : (versionSlots v).keys.Nodup :=
    (by decide : ["strictly", "requires", "prefers", "rejects", "forSubgraph"].Nodup)
  have hf : fields? ["strictly", "requires", "prefers", "rejects", "forSubgraph"] (versionJson v)
      = some (versionSlots v).written := versionJson_eq v ▸ Slots.fields?_json rfl hs
  have hstrictly : nullableField? (versionSlots v).written "strictly" text? = some v.strictly :=
    Slots.nullableField?_written hs (by simp [versionSlots]) text?_textJson textJson_ne_null
  have hrequires : nullableField? (versionSlots v).written "requires" text? = some v.requires :=
    Slots.nullableField?_written hs (by simp [versionSlots]) text?_textJson textJson_ne_null
  have hprefers : nullableField? (versionSlots v).written "prefers" text? = some v.prefers :=
    Slots.nullableField?_written hs (by simp [versionSlots]) text?_textJson textJson_ne_null
  have hrejects : (versionSlots v).written.default? "rejects" [] (list? text?) = some v.rejects :=
    Slots.default?_written_list hs (by simp [versionSlots]) fun s _ => text?_textJson s
  have hsubgraph : (versionSlots v).written.default? "forSubgraph" false bool?
      = some v.forSubgraph := by
    have hmem : ("forSubgraph", if v.forSubgraph then some (Json.bool true) else none)
        ∈ versionSlots v := by simp [versionSlots]
    rw [Fields.default?, Slots.get?_written hs hmem]
    cases v.forSubgraph <;> rfl
  rw [version?, hf]
  simp [hstrictly, hrequires, hprefers, hrejects, hsubgraph]

theorem versionJson_ne_null (v : Version) : versionJson v ≠ .null := fun h => by cases h

theorem isWritten_versionJson {levels : Nat} (v : Version) :
    IsWritten (levels + 2) (versionJson v) := by
  rw [versionJson_eq]
  refine Slots.isWritten_json ?_
  simp only [versionSlots, List.forall_mem_cons]
  refine ⟨Slots.isWritten_map isWritten_textJson, Slots.isWritten_map isWritten_textJson,
    Slots.isWritten_map isWritten_textJson, Slots.isWritten_list isWritten_textJson, ?_, nofun⟩
  cases v.forSubgraph with
  | true => exact fun _ h => Option.some.inj h ▸ .bool true
  | false => exact nofun

/-- The fields of an exclude rule. -/
def excludeSlots (e : Exclude) : Slots :=
  [("group", some (textJson e.group)), ("module", some (textJson e.module))]

theorem exclude?_excludeJson (e : Exclude) : exclude? (excludeJson e) = some e := by
  have hs : (excludeSlots e).keys.Nodup := (by decide : ["group", "module"].Nodup)
  have hf : fields? ["group", "module"] (excludeJson e) = some (excludeSlots e).written :=
    Slots.fields?_json rfl hs
  have hgroup : (excludeSlots e).written.required? "group" text? = some e.group :=
    Slots.required?_written hs (by simp [excludeSlots]) (text?_textJson _)
  have hmodule : (excludeSlots e).written.required? "module" text? = some e.module :=
    Slots.required?_written hs (by simp [excludeSlots]) (text?_textJson _)
  rw [exclude?, hf]
  simp [hgroup, hmodule]

theorem isWritten_excludeJson {levels : Nat} (e : Exclude) :
    IsWritten (levels + 1) (excludeJson e) := by
  refine Slots.isWritten_json (s := excludeSlots e) ?_
  simp [excludeSlots, isWritten_textJson]

/-! ## Dependencies and constraints -/

/-- The fields of a dependency. -/
def dependencySlots (d : Dependency) : Slots :=
  [("group", some (textJson d.group)), ("module", some (textJson d.module)),
    ("version", d.version.map versionJson), ("excludes", Slots.list excludeJson d.excludes),
    ("attributes", attributesSlot d.attributes),
    ("requestedCapabilities", Slots.list capabilityJson d.requestedCapabilities),
    ("reason", d.reason.map textJson)]

theorem dependencyJson_eq (d : Dependency) : dependencyJson d = (dependencySlots d).json := by
  rw [dependencyJson, field_eq, field_eq, optionalField_eq, listField_eq, attributesField_eq,
    listField_eq, optionalField_eq]
  simp only [← Slots.members_append]
  rfl

theorem dependency?_dependencyJson (d : Dependency) : dependency? (dependencyJson d) = some d := by
  have hs : (dependencySlots d).keys.Nodup :=
    (by decide : ["group", "module", "version", "excludes", "attributes", "requestedCapabilities",
      "reason"].Nodup)
  have hf : fields? ["group", "module", "version", "excludes", "attributes",
      "requestedCapabilities", "reason"] (dependencyJson d) = some (dependencySlots d).written :=
    dependencyJson_eq d ▸ Slots.fields?_json rfl hs
  have hgroup : (dependencySlots d).written.required? "group" text? = some d.group :=
    Slots.required?_written hs (by simp [dependencySlots]) (text?_textJson _)
  have hmodule : (dependencySlots d).written.required? "module" text? = some d.module :=
    Slots.required?_written hs (by simp [dependencySlots]) (text?_textJson _)
  have hversion : nullableField? (dependencySlots d).written "version" version? = some d.version :=
    Slots.nullableField?_written hs (by simp [dependencySlots]) version?_versionJson
      versionJson_ne_null
  have hexcludes : (dependencySlots d).written.default? "excludes" [] (list? exclude?)
      = some d.excludes :=
    Slots.default?_written_list hs (by simp [dependencySlots]) fun e _ => exclude?_excludeJson e
  have hattributes : attributesOf? (dependencySlots d).written = some d.attributes :=
    attributesOf?_written hs (by simp [dependencySlots])
  have hcapabilities : (dependencySlots d).written.default? "requestedCapabilities" []
      (list? capability?) = some d.requestedCapabilities :=
    Slots.default?_written_list hs (by simp [dependencySlots]) fun c _ =>
      capability?_capabilityJson c
  have hreason : nullableField? (dependencySlots d).written "reason" text? = some d.reason :=
    Slots.nullableField?_written hs (by simp [dependencySlots]) text?_textJson textJson_ne_null
  rw [dependency?, hf]
  simp [hgroup, hmodule, hversion, hexcludes, hattributes, hcapabilities, hreason]

theorem isWritten_dependencyJson {levels : Nat} (d : Dependency) :
    IsWritten (levels + 3) (dependencyJson d) := by
  rw [dependencyJson_eq]
  refine Slots.isWritten_json ?_
  simp only [dependencySlots, List.forall_mem_cons]
  exact ⟨Slots.isWritten_some (isWritten_textJson _), Slots.isWritten_some (isWritten_textJson _),
    Slots.isWritten_map isWritten_versionJson, Slots.isWritten_list isWritten_excludeJson,
    isWritten_attributesSlot _, Slots.isWritten_list isWritten_capabilityJson,
    Slots.isWritten_map isWritten_textJson, nofun⟩

/-- The fields of a dependency constraint. -/
def constraintSlots (c : Constraint) : Slots :=
  [("group", some (textJson c.group)), ("module", some (textJson c.module)),
    ("version", c.version.map versionJson), ("attributes", attributesSlot c.attributes),
    ("reason", c.reason.map textJson)]

theorem constraintJson_eq (c : Constraint) : constraintJson c = (constraintSlots c).json := by
  rw [constraintJson, field_eq, field_eq, optionalField_eq, attributesField_eq, optionalField_eq]
  simp only [← Slots.members_append]
  rfl

theorem constraint?_constraintJson (c : Constraint) : constraint? (constraintJson c) = some c := by
  have hs : (constraintSlots c).keys.Nodup :=
    (by decide : ["group", "module", "version", "attributes", "reason"].Nodup)
  have hf : fields? ["group", "module", "version", "attributes", "reason"] (constraintJson c)
      = some (constraintSlots c).written := constraintJson_eq c ▸ Slots.fields?_json rfl hs
  have hgroup : (constraintSlots c).written.required? "group" text? = some c.group :=
    Slots.required?_written hs (by simp [constraintSlots]) (text?_textJson _)
  have hmodule : (constraintSlots c).written.required? "module" text? = some c.module :=
    Slots.required?_written hs (by simp [constraintSlots]) (text?_textJson _)
  have hversion : nullableField? (constraintSlots c).written "version" version? = some c.version :=
    Slots.nullableField?_written hs (by simp [constraintSlots]) version?_versionJson
      versionJson_ne_null
  have hattributes : attributesOf? (constraintSlots c).written = some c.attributes :=
    attributesOf?_written hs (by simp [constraintSlots])
  have hreason : nullableField? (constraintSlots c).written "reason" text? = some c.reason :=
    Slots.nullableField?_written hs (by simp [constraintSlots]) text?_textJson textJson_ne_null
  rw [constraint?, hf]
  simp [hgroup, hmodule, hversion, hattributes, hreason]

theorem isWritten_constraintJson {levels : Nat} (c : Constraint) :
    IsWritten (levels + 3) (constraintJson c) := by
  rw [constraintJson_eq]
  refine Slots.isWritten_json ?_
  simp only [constraintSlots, List.forall_mem_cons]
  exact ⟨Slots.isWritten_some (isWritten_textJson _), Slots.isWritten_some (isWritten_textJson _),
    Slots.isWritten_map isWritten_versionJson, isWritten_attributesSlot _,
    Slots.isWritten_map isWritten_textJson, nofun⟩

/-! ## Files and links -/

/-- The fields of a file. -/
def fileSlots (f : FileRef) : Slots :=
  [("name", some (textJson f.name)), ("url", some (textJson f.url)),
    ("size", some (ofInt f.size.toNat)), ("sha1", some (textJson f.sha1)),
    ("md5", some (textJson f.md5))]

theorem file?_fileJson (f : FileRef) : file? (fileJson f) = some f := by
  have hs : (fileSlots f).keys.Nodup := (by decide : ["name", "url", "size", "sha1", "md5"].Nodup)
  have hf : fields? ["name", "url", "size", "sha1", "md5"] (fileJson f)
      = some (fileSlots f).written := Slots.fields?_json rfl hs
  have hname : (fileSlots f).written.required? "name" text? = some f.name :=
    Slots.required?_written hs (by simp [fileSlots]) (text?_textJson _)
  have hurl : (fileSlots f).written.required? "url" text? = some f.url :=
    Slots.required?_written hs (by simp [fileSlots]) (text?_textJson _)
  have hsize : (fileSlots f).written.required? "size" uint64? = some f.size :=
    Slots.required?_written hs (by simp [fileSlots]) (uint64?_ofInt _)
  have hsha1 : (fileSlots f).written.required? "sha1" text? = some f.sha1 :=
    Slots.required?_written hs (by simp [fileSlots]) (text?_textJson _)
  have hmd5 : (fileSlots f).written.required? "md5" text? = some f.md5 :=
    Slots.required?_written hs (by simp [fileSlots]) (text?_textJson _)
  rw [file?, hf]
  simp [hname, hurl, hsize, hsha1, hmd5]

theorem isWritten_fileJson {levels : Nat} (f : FileRef) : IsWritten (levels + 1) (fileJson f) := by
  have hsize : IsWritten levels (ofInt f.size.toNat) := .ofInt f.size.toNat_lt_size
  refine Slots.isWritten_json (s := fileSlots f) ?_
  simp [fileSlots, isWritten_textJson, hsize]

/-- The fields of a link. -/
def linkSlots (l : Link) : Slots :=
  [("url", some (textJson l.url)), ("group", some (textJson l.group)),
    ("module", some (textJson l.module)), ("version", some (textJson l.version))]

theorem link?_linkJson (l : Link) : link? (linkJson l) = some l := by
  have hs : (linkSlots l).keys.Nodup := (by decide : ["url", "group", "module", "version"].Nodup)
  have hf : fields? ["url", "group", "module", "version"] (linkJson l)
      = some (linkSlots l).written := Slots.fields?_json rfl hs
  have hurl : (linkSlots l).written.required? "url" text? = some l.url :=
    Slots.required?_written hs (by simp [linkSlots]) (text?_textJson _)
  have hgroup : (linkSlots l).written.required? "group" text? = some l.group :=
    Slots.required?_written hs (by simp [linkSlots]) (text?_textJson _)
  have hmodule : (linkSlots l).written.required? "module" text? = some l.module :=
    Slots.required?_written hs (by simp [linkSlots]) (text?_textJson _)
  have hversion : (linkSlots l).written.required? "version" text? = some l.version :=
    Slots.required?_written hs (by simp [linkSlots]) (text?_textJson _)
  rw [link?, hf]
  simp [hurl, hgroup, hmodule, hversion]

theorem isWritten_linkJson {levels : Nat} (l : Link) : IsWritten (levels + 1) (linkJson l) := by
  refine Slots.isWritten_json (s := linkSlots l) ?_
  simp [linkSlots, isWritten_textJson]

/-! ## Variants -/

/-- The fields of the content of a variant. -/
def contentSlots (c : Content) : Slots :=
  [("dependencies", Slots.list dependencyJson c.dependencies),
    ("dependencyConstraints", Slots.list constraintJson c.constraints),
    ("files", Slots.list fileJson c.files),
    ("capabilities", Slots.list capabilityJson c.capabilities)]

/-- The fields that say where a variant is. -/
def sourceSlots : Source → Slots
  | .availableAt link => [("available-at", some (linkJson link))]
  | .here content => contentSlots content

theorem sourceFields_eq (src : Source) : sourceFields src = (sourceSlots src).members := by
  cases src with
  | availableAt link => rfl
  | here content =>
    rw [sourceFields, contentFields, listField_eq, listField_eq, listField_eq, listField_eq]
    simp only [← Slots.members_append]
    rfl

theorem contentOf?_written (c : Content) : contentOf? (contentSlots c).written = some c := by
  have hs : (contentSlots c).keys.Nodup :=
    (by decide : ["dependencies", "dependencyConstraints", "files", "capabilities"].Nodup)
  have hf : fieldsOfMembers? ["dependencies", "dependencyConstraints", "files", "capabilities"]
      (contentSlots c).written = some (contentSlots c).written := Slots.fieldsOfMembers?_written hs
  have hdependencies : (contentSlots c).written.default? "dependencies" [] (list? dependency?)
      = some c.dependencies :=
    Slots.default?_written_list hs (by simp [contentSlots]) fun d _ => dependency?_dependencyJson d
  have hconstraints : (contentSlots c).written.default? "dependencyConstraints" []
      (list? constraint?) = some c.constraints :=
    Slots.default?_written_list hs (by simp [contentSlots]) fun d _ => constraint?_constraintJson d
  have hfiles : (contentSlots c).written.default? "files" [] (list? file?) = some c.files :=
    Slots.default?_written_list hs (by simp [contentSlots]) fun f _ => file?_fileJson f
  have hcapabilities : (contentSlots c).written.default? "capabilities" [] (list? capability?)
      = some c.capabilities :=
    Slots.default?_written_list hs (by simp [contentSlots]) fun d _ => capability?_capabilityJson d
  rw [contentOf?, hf]
  simp [hdependencies, hconstraints, hfiles, hcapabilities]

/-- Content is not taken for a link. -/
theorem linkOf?_written_content (c : Content) : linkOf? (contentSlots c).written = none := by
  have hs : (contentSlots c).keys.Nodup :=
    (by decide : ["dependencies", "dependencyConstraints", "files", "capabilities"].Nodup)
  have hf : fieldsOfMembers? ["available-at"] (contentSlots c).written = some [] :=
    Slots.fieldsOfMembers?_written hs
  rw [linkOf?, hf]
  rfl

theorem source?_written (src : Source) : source? (sourceSlots src).written = some src := by
  cases src with
  | availableAt link =>
    have hlink : linkOf? (sourceSlots (.availableAt link)).written = some link :=
      link?_linkJson link
    rw [source?, hlink]
    rfl
  | here content =>
    rw [source?, sourceSlots, linkOf?_written_content, contentOf?_written]
    rfl

theorem isWritten_sourceSlots {levels : Nat} (src : Source) :
    ∀ e ∈ sourceSlots src, ∀ v ∈ e.2, IsWritten (levels + 4) v := by
  cases src with
  | availableAt link =>
    simp only [sourceSlots, List.forall_mem_cons]
    exact ⟨Slots.isWritten_some (isWritten_linkJson link), nofun⟩
  | here content =>
    simp only [sourceSlots, contentSlots, List.forall_mem_cons]
    exact ⟨Slots.isWritten_list isWritten_dependencyJson,
      Slots.isWritten_list isWritten_constraintJson, Slots.isWritten_list isWritten_fileJson,
      Slots.isWritten_list isWritten_capabilityJson, nofun⟩

/-- The fields of a variant that are read before its source. -/
def headerSlots (v : Variant) : Slots :=
  [("name", some (textJson v.name)), ("attributes", attributesSlot v.attributes)]

/-- The fields of a variant. -/
def variantSlots (v : Variant) : Slots := headerSlots v ++ sourceSlots v.source

theorem variantJson_eq (v : Variant) : variantJson v = (variantSlots v).json := by
  rw [variantJson, field_eq, attributesField_eq, sourceFields_eq]
  simp only [← Slots.members_append]
  rfl

theorem nodup_keys_variantSlots (v : Variant) : (variantSlots v).keys.Nodup := by
  obtain ⟨name, attributes, link | content⟩ := v
  · exact (by decide : ["name", "attributes", "available-at"].Nodup)
  · exact (by decide : ["name", "attributes", "dependencies", "dependencyConstraints", "files",
      "capabilities"].Nodup)

theorem fieldsOfMembers?_variantSlots (v : Variant) :
    fieldsOfMembers? ["name", "attributes"] (variantSlots v).written
      = some (headerSlots v).written := by
  have hfilter : ((variantSlots v).filter fun e => ["name", "attributes"].contains e.1)
      = headerSlots v := by
    obtain ⟨name, attributes, link | content⟩ := v <;> rfl
  rw [Slots.fieldsOfMembers?_written (nodup_keys_variantSlots v), hfilter]

/-- The source of a variant is read from the members that are written for it. -/
theorem filter_written_variantSlots (v : Variant) :
    ((variantSlots v).written.filter fun m => m.1 != "name" && m.1 != "attributes")
      = (sourceSlots v.source).written := by
  have hfilter : ((variantSlots v).filter fun e => e.1 != "name" && e.1 != "attributes")
      = sourceSlots v.source := by
    obtain ⟨name, attributes, link | content⟩ := v <;> rfl
  rw [← hfilter]
  exact Slots.filter_written _ fun key => key != "name" && key != "attributes"

theorem isSound_of_mem_sourceSlots {src : Source} {m : String × Json}
    (h : m ∈ (sourceSlots src).written) : isSound memberLevels m.2 = true := by
  have hm : IsWritten (120 + 4) m.2 :=
    isWritten_sourceSlots src _ (Slots.mem_written_iff.1 h) m.2 rfl
  exact hm.isSound

theorem variant?_variantJson (v : Variant) : variant? (variantJson v) = some v := by
  have hmembers : members? (variantJson v) = some (variantSlots v).written :=
    variantJson_eq v ▸ members?_ofMembers _
  have hsound : ((sourceSlots v.source).written.all fun m => isSound memberLevels m.2) = true :=
    List.all_eq_true.2 fun m hm => isSound_of_mem_sourceSlots hm
  have hs : (headerSlots v).keys.Nodup := (by decide : ["name", "attributes"].Nodup)
  have hname : (headerSlots v).written.required? "name" text? = some v.name :=
    Slots.required?_written hs (by simp [headerSlots]) (text?_textJson _)
  have hattributes : attributesOf? (headerSlots v).written = some v.attributes :=
    attributesOf?_written hs (by simp [headerSlots])
  rw [variant?, hmembers]
  simp only [Option.bind_eq_bind, Option.bind_some, fieldsOfMembers?_variantSlots,
    filter_written_variantSlots, hsound, if_true, hname, hattributes, source?_written]
  rfl

theorem isWritten_variantJson {levels : Nat} (v : Variant) :
    IsWritten (levels + 5) (variantJson v) := by
  rw [variantJson_eq]
  refine Slots.isWritten_json ?_
  simp only [variantSlots, headerSlots, List.cons_append, List.nil_append, List.forall_mem_cons]
  exact ⟨Slots.isWritten_some (isWritten_textJson _), isWritten_attributesSlot _,
    isWritten_sourceSlots _⟩

/-! ## Documents -/

/-- The fields of a component. -/
def componentSlots (c : Component) : Slots :=
  [("url", c.url.map textJson), ("group", some (textJson c.group)),
    ("module", some (textJson c.module)), ("version", some (textJson c.version)),
    ("attributes", attributesSlot c.attributes)]

theorem componentJson_eq (c : Component) : componentJson c = (componentSlots c).json := by
  rw [componentJson, optionalField_eq, field_eq, field_eq, field_eq, attributesField_eq]
  simp only [← Slots.members_append]
  rfl

theorem component?_componentJson (c : Component) : component? (componentJson c) = some c := by
  have hs : (componentSlots c).keys.Nodup :=
    (by decide : ["url", "group", "module", "version", "attributes"].Nodup)
  have hf : fields? ["url", "group", "module", "version", "attributes"] (componentJson c)
      = some (componentSlots c).written := componentJson_eq c ▸ Slots.fields?_json rfl hs
  have hurl : nullableField? (componentSlots c).written "url" text? = some c.url :=
    Slots.nullableField?_written hs (by simp [componentSlots]) text?_textJson textJson_ne_null
  have hgroup : (componentSlots c).written.required? "group" text? = some c.group :=
    Slots.required?_written hs (by simp [componentSlots]) (text?_textJson _)
  have hmodule : (componentSlots c).written.required? "module" text? = some c.module :=
    Slots.required?_written hs (by simp [componentSlots]) (text?_textJson _)
  have hversion : (componentSlots c).written.required? "version" text? = some c.version :=
    Slots.required?_written hs (by simp [componentSlots]) (text?_textJson _)
  have hattributes : attributesOf? (componentSlots c).written = some c.attributes :=
    attributesOf?_written hs (by simp [componentSlots])
  rw [component?, hf]
  simp [hurl, hgroup, hmodule, hversion, hattributes]

theorem isWritten_componentJson {levels : Nat} (c : Component) :
    IsWritten (levels + 2) (componentJson c) := by
  rw [componentJson_eq]
  refine Slots.isWritten_json ?_
  simp only [componentSlots, List.forall_mem_cons]
  exact ⟨Slots.isWritten_map isWritten_textJson, Slots.isWritten_some (isWritten_textJson _),
    Slots.isWritten_some (isWritten_textJson _), Slots.isWritten_some (isWritten_textJson _),
    isWritten_attributesSlot _, nofun⟩

/-- The fields of the version and the build of a tool. -/
def versionAndBuildSlots (t : Tool) : Slots :=
  [("version", some (textJson t.version)), ("buildId", t.buildId.map textJson)]

/-- The fields of a tool. -/
def toolSlots (t : Tool) : Slots := [("gradle", some (versionAndBuildSlots t).json)]

theorem toolJson_eq (t : Tool) : toolJson t = (toolSlots t).json := by
  rw [toolJson, field_eq "version", optionalField_eq, ← Slots.members_append]
  rfl

theorem toolFields?_json (t : Tool) : toolFields? (versionAndBuildSlots t).json = some t := by
  have hs : (versionAndBuildSlots t).keys.Nodup := (by decide : ["version", "buildId"].Nodup)
  have hf : fields? ["version", "buildId"] (versionAndBuildSlots t).json
      = some (versionAndBuildSlots t).written := Slots.fields?_json rfl hs
  have hversion : (versionAndBuildSlots t).written.required? "version" text? = some t.version :=
    Slots.required?_written hs (by simp [versionAndBuildSlots]) (text?_textJson _)
  have hbuildId : nullableField? (versionAndBuildSlots t).written "buildId" text?
      = some t.buildId :=
    Slots.nullableField?_written hs (by simp [versionAndBuildSlots]) text?_textJson textJson_ne_null
  rw [toolFields?, hf]
  simp [hversion, hbuildId]

theorem tool?_toolJson (t : Tool) : tool? (toolJson t) = some t := by
  have hs : (toolSlots t).keys.Nodup := (by decide : ["gradle"].Nodup)
  have hf : fields? ["gradle"] (toolJson t) = some (toolSlots t).written :=
    toolJson_eq t ▸ Slots.fields?_json rfl hs
  have hgradle : (toolSlots t).written.required? "gradle" toolFields? = some t :=
    Slots.required?_written hs (by simp [toolSlots]) (toolFields?_json t)
  rw [tool?, hf]
  simp [hgradle]

theorem toolJson_ne_null (t : Tool) : toolJson t ≠ .null := fun h => by cases h

theorem isWritten_toolJson {levels : Nat} (t : Tool) : IsWritten (levels + 2) (toolJson t) := by
  have hfields : IsWritten (levels + 1) (versionAndBuildSlots t).json := by
    refine Slots.isWritten_json ?_
    simp only [versionAndBuildSlots, List.forall_mem_cons]
    exact ⟨Slots.isWritten_some (isWritten_textJson _), Slots.isWritten_map isWritten_textJson,
      nofun⟩
  rw [toolJson_eq]
  refine Slots.isWritten_json ?_
  simp only [toolSlots, List.forall_mem_cons]
  exact ⟨Slots.isWritten_some hfields, nofun⟩

/-- The fields of a document. -/
def documentSlots (d : Document) : Slots :=
  [("formatVersion", some (textJson d.formatVersion)),
    ("component", some (componentJson d.component)), ("createdBy", d.createdBy.map toolJson),
    ("variants", Slots.list variantJson d.variants)]

theorem toJson_eq (d : Document) : d.toJson = (documentSlots d).json := by
  rw [toJson, field_eq, field_eq, optionalField_eq, listField_eq]
  simp only [← Slots.members_append]
  rfl

theorem ofJson?_toJson (d : Document) : ofJson? d.toJson = some d := by
  have hs : (documentSlots d).keys.Nodup :=
    (by decide : ["formatVersion", "component", "createdBy", "variants"].Nodup)
  have hf : fields? ["formatVersion", "component", "createdBy", "variants"] d.toJson
      = some (documentSlots d).written := toJson_eq d ▸ Slots.fields?_json rfl hs
  have hformat : (documentSlots d).written.required? "formatVersion" text? = some d.formatVersion :=
    Slots.required?_written hs (by simp [documentSlots]) (text?_textJson _)
  have hcomponent : (documentSlots d).written.required? "component" component? = some d.component :=
    Slots.required?_written hs (by simp [documentSlots]) (component?_componentJson _)
  have hcreatedBy : nullableField? (documentSlots d).written "createdBy" tool? = some d.createdBy :=
    Slots.nullableField?_written hs (by simp [documentSlots]) tool?_toolJson toolJson_ne_null
  have hvariants : (documentSlots d).written.default? "variants" [] (list? variant?)
      = some d.variants :=
    Slots.default?_written_list hs (by simp [documentSlots]) fun v _ => variant?_variantJson v
  rw [ofJson?, hf]
  simp [hformat, hcomponent, hcreatedBy, hvariants]

/-- The deepest values are the versions that a dependency of a variant rejects. -/
theorem isWritten_toJson (d : Document) : IsWritten 7 d.toJson := by
  rw [toJson_eq]
  refine Slots.isWritten_json ?_
  simp only [documentSlots, List.forall_mem_cons]
  exact ⟨Slots.isWritten_some (isWritten_textJson _),
    Slots.isWritten_some (isWritten_componentJson _), Slots.isWritten_map isWritten_toolJson,
    Slots.isWritten_list isWritten_variantJson, nofun⟩

theorem parse?_write (d : Document) : parse? d.write = some d := by
  rw [parse?, write, parse?_pretty (isWritten_toJson d), Option.bind_some, ofJson?_toJson]

/-- Reading the text of a document gives back the document. -/
theorem read_write (d : Document) : read d.write = .ok d := by
  rw [read, parse?_write]

end VariantGraph.Document
