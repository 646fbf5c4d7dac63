import VariantGraph.Proofs.Json.Printer

/-!
# Reading written fields

A record is written as an object with a member for each of its fields that has something to write.
A reader that knows just these fields finds for each of them what was written, or nothing if nothing
was. So it gets every field back, if a field that is left out has the value that the reader assumes.

Main statements: `Slots.fields?_json`, `Slots.get?_written`, `Slots.isWritten_json`.
-/

namespace VariantGraph.Json

/-! ## Values that are read -/

section Values

theorem text?_ofText (s : String) : text? (ofText s) = some s := by
  rw [ofText, text?, String.toList_ofList, Text.decode?_encode, Option.map_some,
    String.ofList_toList]

theorem int64?_ofInt (i : Int64) : int64? (ofInt i.toInt) = some i := Number.int64?_toString i

theorem uint64?_ofInt (n : UInt64) : uint64? (ofInt n.toNat) = some n := Number.uint64?_toString n

theorem members?_ofMembers (l : List (String × Json)) : members? (ofMembers l) = some l := by
  rw [ofMembers, members?, List.mapM_map]
  induction l with
  | nil => rfl
  | cons m l ih =>
    have hkey : text? (.string (member m.1 m.2).1) = some m.1 := text?_ofText m.1
    rw [List.mapM_cons, ih, Function.comp_apply, hkey]
    rfl

variable {α : Type} {read : Json → Option α} {write : α → Json}

theorem list?_map {l : List α} (h : ∀ a ∈ l, read (write a) = some a) :
    list? read (.array (l.map write)) = some l := by
  rw [list?, List.mapM_map]
  induction l with
  | nil => rfl
  | cons a l ih =>
    obtain ⟨ha, hl⟩ := List.forall_mem_cons.1 h
    rw [List.mapM_cons, Function.comp_apply, ha, ih hl]
    rfl

theorem nullable?_write {a : α} (ha : read (write a) = some a) (hnull : write a ≠ .null) :
    nullable? read (write a) = some (some a) := by
  rw [nullable?, ha, Option.map_some]
  exact hnull

end Values

/-- The fields of a record in their order, each with its value if it is written. -/
abbrev Slots := List (String × Option Json)

namespace Slots

/-! ## Written fields -/

/-- The keys of all fields. -/
def keys (s : Slots) : List String := s.map (·.1)

/-- The fields that are written. -/
def written (s : Slots) : Fields Json := s.filterMap fun e => e.2.map fun v => (e.1, v)

/-- The members of the object that is written. -/
def members (s : Slots) : List (String × Json) := s.written.map fun m => member m.1 m.2

/-- The object that is written. -/
def json (s : Slots) : Json := .object s.members

@[simp] theorem written_cons_none (key : String) (s : Slots) :
    written ((key, none) :: s) = s.written := rfl

@[simp] theorem written_cons_some (key : String) (v : Json) (s : Slots) :
    written ((key, some v) :: s) = (key, v) :: s.written := rfl

theorem members_append (s t : Slots) : members (s ++ t) = s.members ++ t.members := by
  rw [members, written, List.filterMap_append, List.map_append]
  rfl

theorem mem_written_iff {s : Slots} {key : String} {v : Json} :
    (key, v) ∈ s.written ↔ (key, some v) ∈ s := by
  simp only [written, List.mem_filterMap, Option.map_eq_some_iff, Prod.mk.injEq]
  constructor
  · rintro ⟨⟨key, o⟩, hmem, w, rfl, rfl, rfl⟩
    exact hmem
  · exact fun hmem => ⟨_, hmem, v, rfl, rfl, rfl⟩

/-- Writing keeps the order of the fields. -/
theorem sublist_keys_written (s : Slots) : (s.written.map (·.1)).Sublist s.keys := by
  induction s with
  | nil => exact .slnil
  | cons e s ih =>
    obtain ⟨key, o⟩ := e
    cases o with
    | none => exact ih.cons key
    | some v => exact ih.cons_cons key

theorem filter_written (s : Slots) (p : String → Bool) :
    (s.written.filter fun m => p m.1) = written (s.filter fun e => p e.1) := by
  induction s with
  | nil => rfl
  | cons e s ih =>
    obtain ⟨key, _ | v⟩ := e
    · by_cases h : p key <;> simp [h, ih]
    · by_cases h : p key <;> simp [h, ih]

/-! ## Fields that are read -/

variable {s : Slots} {known : List String} {key : String} {α : Type}

theorem fieldsOfMembers?_written (hs : s.keys.Nodup) :
    fieldsOfMembers? known s.written = some (written (s.filter fun e => known.contains e.1)) := by
  have hnodup : ((s.written.filter fun m => known.contains m.1).map (·.1)).Nodup :=
    hs.sublist ((List.filter_sublist.map _).trans s.sublist_keys_written)
  rw [fieldsOfMembers?, if_pos hnodup, filter_written]

/-- A reader that knows the fields of a record gets those that were written. -/
theorem fields?_json (hk : s.keys = known) (hn : known.Nodup) :
    fields? known s.json = some s.written := by
  have hall : (s.filter fun e => known.contains e.1) = s :=
    List.filter_eq_self.2 fun e he =>
      List.contains_iff_mem.2 (hk ▸ List.mem_map_of_mem he)
  rw [fields?, json, members, ← ofMembers, members?_ofMembers, Option.bind_some,
    fieldsOfMembers?_written (hk ▸ hn), hall]
  exact fun items h => by cases h

/-- For each field a reader finds what was written. -/
theorem get?_written (hs : s.keys.Nodup) {o : Option Json} (h : (key, o) ∈ s) :
    s.written.get? key = o := by
  induction s with
  | nil => cases h
  | cons e s ih =>
    obtain ⟨hfresh, hrest⟩ := List.nodup_cons.1 hs
    rcases List.mem_cons.1 h with rfl | hmem
    · cases o with
      | some v => exact List.lookup_cons_self
      | none =>
        -- Nothing is found under the key, because no later field has it too.
        refine List.lookup_eq_none_iff.2 fun m hm => bne_iff_ne.2 ?_
        rintro rfl
        exact hfresh ((sublist_keys_written s).subset (List.mem_map_of_mem hm))
    · have hkey : key ∈ s.map (·.1) := List.mem_map_of_mem hmem
      obtain ⟨key', _ | v⟩ := e
      · exact ih hrest hmem
      · have hne : (key == key') = false := beq_false_of_ne fun heq => hfresh (heq ▸ hkey)
        refine Eq.trans ?_ (ih hrest hmem)
        rw [Fields.get?, Fields.get?, written_cons_some, List.lookup_cons, hne]

/-! ## Fields of each kind -/

/-- A list that is written when it is not empty. -/
def list (write : α → Json) (l : List α) : Option Json :=
  if l.isEmpty then none else some (.array (l.map write))

section Reading

variable {read : Json → Option α} {write : α → Json} (hs : s.keys.Nodup)
include hs

theorem required?_written {a : α} {j : Json} (h : (key, some j) ∈ s) (ha : read j = some a) :
    s.written.required? key read = some a := by
  rw [Fields.required?, get?_written hs h, Option.bind_some, ha]

theorem default?_written_list {l : List α} (h : (key, list write l) ∈ s)
    (hread : ∀ a ∈ l, read (write a) = some a) :
    s.written.default? key [] (list? read) = some l := by
  rw [Fields.default?, get?_written hs h]
  cases l with
  | nil => rfl
  | cons a l => exact list?_map hread

theorem nullableField?_written {o : Option α} (h : (key, o.map write) ∈ s)
    (hread : ∀ a, read (write a) = some a) (hnull : ∀ a, write a ≠ .null) :
    nullableField? s.written key read = some o := by
  rw [nullableField?, Fields.default?, get?_written hs h]
  cases o with
  | none => rfl
  | some a => exact nullable?_write (hread a) (hnull a)

/-- A field that is always written, with null for a missing value. -/
theorem nullableField?_written_null {o : Option α}
    (h : (key, some ((o.map write).getD .null)) ∈ s)
    (hread : ∀ a, read (write a) = some a) (hnull : ∀ a, write a ≠ .null) :
    nullableField? s.written key read = some o := by
  rw [nullableField?, Fields.default?, get?_written hs h]
  cases o with
  | none => rfl
  | some a => exact nullable?_write (hread a) (hnull a)

end Reading

/-! ## What is written -/

theorem isWritten_json {levels : Nat} (h : ∀ e ∈ s, ∀ v ∈ e.2, IsWritten levels v) :
    IsWritten (levels + 1) s.json :=
  .ofMembers fun m hm => h _ (mem_written_iff.1 hm) m.2 rfl

theorem isWritten_some {levels : Nat} {j : Json} (h : IsWritten levels j) :
    ∀ v ∈ some j, IsWritten levels v := by
  rintro v ⟨⟩
  exact h

theorem isWritten_map {levels : Nat} {write : α → Json} {o : Option α}
    (h : ∀ a, IsWritten levels (write a)) : ∀ v ∈ o.map write, IsWritten levels v := by
  intro v hv
  obtain ⟨a, -, rfl⟩ := Option.map_eq_some_iff.1 hv
  exact h a

theorem isWritten_list {levels : Nat} {write : α → Json} {l : List α}
    (h : ∀ a, IsWritten levels (write a)) : ∀ v ∈ list write l, IsWritten (levels + 1) v := by
  intro v hv
  rw [list] at hv
  split at hv
  · cases hv
  · obtain rfl := Option.some.inj hv
    exact .array fun v hv => by
      obtain ⟨a, -, rfl⟩ := List.mem_map.1 hv
      exact h a

end Slots

end VariantGraph.Json
