import Mathlib.Data.List.Basic
import VariantGraph.Layout

/-!
# Which module versions share a path

A path is a route: the names between its slashes, of which an empty one at the end leads nowhere.
Joining paths joins their routes, unless the second one is absolute. The path of a document goes
through the parts of its coordinates, so two module versions share it if their parts lead through
the same names: a group with an empty part between its dots is one that lacks the part, and slashes
in a part are as good as further parts.

Main statements: `Path.route_join`, `Layout.documentPath_eq_iff_route`,
`Layout.documentPath_eq_iff_of_isFlat`, `Layout.documentPath_injective_of_isRegular`.
-/

namespace VariantGraph

open VariantGraph.Text

namespace Text

theorem fields_append_sep (sep : Char) (s rest : List Char) :
    fields sep (s ++ sep :: rest) = fields sep s ++ fields sep rest := by
  induction s with
  | nil => simp [fields]
  | cons c s ih =>
    rw [List.cons_append, fields, fields]
    split
    · rw [ih, List.cons_append]
    · obtain ⟨f, fs, hf⟩ := List.exists_cons_of_ne_nil (fields_ne_nil sep s)
      rw [ih, hf, List.cons_append]
      rfl

theorem mem_of_mem_fields {sep x : Char} {s f : List Char} (h : f ∈ fields sep s) (hx : x ∈ f) :
    x ∈ s := by
  induction s generalizing f with
  | nil =>
    obtain rfl := List.mem_singleton.1 h
    exact hx
  | cons c s ih =>
    obtain ⟨g, gs, hg⟩ := List.exists_cons_of_ne_nil (fields_ne_nil sep s)
    rw [fields, hg] at h
    rw [hg] at ih
    split at h
    · rcases List.mem_cons.1 h with rfl | h
      · cases hx
      · exact List.mem_cons_of_mem c (ih h hx)
    · rcases List.mem_cons.1 h with rfl | h
      · rcases List.mem_cons.1 hx with rfl | hx
        · exact List.mem_cons_self
        · exact List.mem_cons_of_mem c (ih List.mem_cons_self hx)
      · exact List.mem_cons_of_mem c (ih (List.mem_cons_of_mem g h) hx)

theorem fields_injective {sep : Char} {s s' : List Char} (h : fields sep s = fields sep s') :
    s = s' := by
  rw [← joinFields_fields sep s, h, joinFields_fields]

theorem splitAt_append_sep {sep : Char} {s s₁ s₂ : String}
    (h : s.toList = s₁.toList ++ sep :: s₂.toList) :
    splitAt sep s = splitAt sep s₁ ++ splitAt sep s₂ := by
  rw [splitAt, splitAt, splitAt, h, fields_append_sep, List.map_append]

theorem splitAt_ne_nil (sep : Char) (s : String) : splitAt sep s ≠ [] :=
  mt List.map_eq_nil_iff.1 (fields_ne_nil sep s.toList)

theorem splitAt_injective {sep : Char} {s s' : String} (h : splitAt sep s = splitAt sep s') :
    s = s' := by
  rw [splitAt, splitAt] at h
  have hfields := List.map_injective_iff.2 (fun _ _ => String.ofList_inj.1) h
  exact String.toList_inj.1 (fields_injective hfields)

theorem splitAt_eq_singleton {sep : Char} {s : String} (h : sep ∉ s.toList) :
    splitAt sep s = [s] := by
  rw [splitAt, fields_eq_singleton h, List.map_singleton, String.ofList_toList]

end Text

/-! ## Routes -/

namespace Path

/-- The names between the slashes of a path. An empty name at the end is left out. -/
def route (p : Path) : List String :=
  if p.needsSeparator then splitAt '/' p.text else (splitAt '/' p.text).dropLast

@[simp] theorem route_empty : route empty = [] := rfl

/-- An absolute path begins with an empty name. -/
theorem mem_splitAt_of_isAbsolute {s : String} (h : isAbsolute s = true) :
    "" ∈ splitAt '/' s := by
  obtain ⟨l, hl⟩ := List.head?_eq_some_iff.1 (beq_iff_eq.1 h)
  rw [splitAt, hl, fields, if_pos rfl]
  exact List.mem_cons_self

/-- A path that needs no separator is empty or ends in one. -/
theorem eq_empty_or_of_not_needsSeparator {p : Path} (h : p.needsSeparator = false) :
    p = empty ∨ ∃ s : String, p.text.toList = s.toList ++ ['/'] := by
  rw [needsSeparator] at h
  rcases List.eq_nil_or_concat p.text.toList with hnil | ⟨l, c, hl⟩
  · exact .inl (congrArg Path.mk (String.toList_inj.1 hnil))
  · rw [hl, List.concat_eq_append, List.getLast?_concat] at h
    obtain rfl : c = '/' := by simpa using h
    exact .inr ⟨String.ofList l, by rw [hl, List.concat_eq_append, String.toList_ofList]⟩

theorem isAbsolute_join (p : Path) {s : String} (h : isAbsolute s = false) :
    isAbsolute (p.join s).text = isAbsolute p.text := by
  rw [join, h]
  cases hp : p.text.toList with
  | nil =>
    have hempty : p = empty := congrArg Path.mk (String.toList_inj.1 hp)
    subst hempty
    exact h
  | cons c l =>
    simp only [Bool.false_eq_true, if_false]
    split <;> simp [isAbsolute, hp]

/-- A relative path leads on from where the first one has led. -/
theorem splitAt_join (p : Path) {s : String} (h : isAbsolute s = false) :
    splitAt '/' (p.join s).text = p.route ++ splitAt '/' s := by
  rw [join, h, route]
  cases hp : p.needsSeparator with
  | true =>
    exact splitAt_append_sep (by simp)
  | false =>
    rcases eq_empty_or_of_not_needsSeparator hp with rfl | ⟨front, hfront⟩
    · simp [empty, splitAt, fields]
    · have htext : p.text.toList = front.toList ++ '/' :: "".toList := hfront
      have hjoined : (p.text ++ s).toList = front.toList ++ '/' :: s.toList := by
        rw [String.toList_append, hfront, List.append_assoc, List.singleton_append]
      have hslash : splitAt '/' "" = [""] := rfl
      simp only [Bool.false_eq_true, if_false]
      rw [splitAt_append_sep hjoined, splitAt_append_sep htext, hslash, List.dropLast_concat]

theorem needsSeparator_join (p : Path) {s : String} (hrelative : isAbsolute s = false)
    (hs : s ≠ "") : (p.join s).needsSeparator = needsSeparator ⟨s⟩ := by
  have hlast (l : List Char) : (l ++ s.toList).getLast? = s.toList.getLast? :=
    List.getLast?_append_of_ne_nil l (mt String.toList_eq_nil_iff.1 hs)
  rw [join, hrelative, needsSeparator, needsSeparator]
  simp only [Bool.false_eq_true, if_false]
  split <;> rw [String.toList_append, hlast] <;> rfl

/-- Joining with the empty text leaves a separator at the end. -/
theorem needsSeparator_join_empty (p : Path) : (p.join "").needsSeparator = false := by
  rw [join]
  cases hp : p.needsSeparator with
  | true => simp [isAbsolute, needsSeparator]
  | false => simpa [isAbsolute, needsSeparator] using hp

theorem route_join (p : Path) {s : String} (h : isAbsolute s = false) :
    (p.join s).route = p.route ++ route ⟨s⟩ := by
  by_cases hs : s = ""
  · subst hs
    have hsplit : splitAt '/' (p.join "").text = p.route ++ [""] := splitAt_join p h
    have hempty : route ⟨""⟩ = [] := rfl
    rw [route, needsSeparator_join_empty, hsplit, hempty, List.append_nil]
    exact List.dropLast_concat
  · have hroute : route ⟨s⟩ =
        if needsSeparator ⟨s⟩ then splitAt '/' s else (splitAt '/' s).dropLast := rfl
    rw [hroute, route, needsSeparator_join p h hs, splitAt_join p h]
    split
    · rfl
    · exact List.dropLast_append_of_ne_nil (splitAt_ne_nil '/' s)

/-- Where a text leads on to from where some names have led: an absolute one starts anew. -/
def lead (names : List String) (s : String) : List String :=
  if isAbsolute s then route ⟨s⟩ else names ++ route ⟨s⟩

theorem route_join_eq_lead (p : Path) (s : String) : (p.join s).route = lead p.route s := by
  unfold lead
  split
  · next habsolute => rw [join_of_isAbsolute habsolute]
  · next hrelative => exact route_join p (Bool.eq_false_iff.2 hrelative)

theorem route_foldl_join (l : List String) (p : Path) :
    (l.foldl join p).route = l.foldl lead p.route := by
  induction l generalizing p with
  | nil => rfl
  | cons s l ih => rw [List.foldl_cons, List.foldl_cons, ih, route_join_eq_lead]

/-- Paths that do not end in a separator are told apart by their routes. -/
theorem eq_iff_route_eq {p p' : Path} (h : p.needsSeparator = true)
    (h' : p'.needsSeparator = true) : p = p' ↔ p.route = p'.route := by
  refine ⟨congrArg route, fun hroute => ?_⟩
  rw [route, route, if_pos h, if_pos h'] at hroute
  exact Path.mk.injEq _ _ ▸ splitAt_injective hroute

/-- A text without slashes is the next name, unless it is empty. -/
theorem lead_of_not_mem {s : String} (h : '/' ∉ s.toList) (names : List String) :
    lead names s = names ++ [s].filter (· ≠ "") := by
  have hrelative : ¬ isAbsolute s = true := fun habsolute =>
    h (List.mem_of_head? (beq_iff_eq.1 habsolute))
  rw [lead, if_neg hrelative]
  by_cases hs : s = ""
  · subst hs
    rfl
  · have hneeds : needsSeparator ⟨s⟩ = true := by
      by_contra hneeds
      rcases eq_empty_or_of_not_needsSeparator (Bool.eq_false_iff.2 hneeds) with hempty | ⟨l, hl⟩
      · exact hs (congrArg Path.text hempty)
      · rw [show s.toList = l.toList ++ ['/'] from hl] at h
        exact h (by simp)
    rw [route, if_pos hneeds, splitAt_eq_singleton h]
    simp [hs]

theorem foldl_lead_of_not_mem {l : List String} (h : ∀ s ∈ l, '/' ∉ s.toList)
    (names : List String) : l.foldl lead names = names ++ l.filter (· ≠ "") := by
  induction l generalizing names with
  | nil => simp
  | cons s l ih =>
    have hl : ∀ s ∈ l, '/' ∉ s.toList := fun x hx => h x (List.mem_cons_of_mem _ hx)
    rw [List.foldl_cons, lead_of_not_mem (h s List.mem_cons_self), ih hl, List.append_assoc,
      ← List.filter_append, List.singleton_append]

end Path

/-! ## Documents -/

namespace Layout

/-- What the path of a document is joined from. -/
def parts (c : Coordinates) : List String :=
  splitAt '.' c.group ++ [c.name, c.version, documentName c]

theorem documentPath_eq_foldl (c : Coordinates) :
    documentPath c = (parts c).foldl Path.join Path.empty := by
  rw [parts, List.foldl_append]
  rfl

/-- The names on the way to a document. -/
def route (c : Coordinates) : List String := (parts c).foldl Path.lead []

theorem route_documentPath (c : Coordinates) : (documentPath c).route = route c := by
  rw [documentPath_eq_foldl, Path.route_foldl_join]
  rfl

theorem needsSeparator_documentPath (c : Coordinates) :
    (documentPath c).needsSeparator = true := by
  have hne : documentName c ≠ "" := by
    simp [documentName, extension]
  have hlast : (documentName c).toList =
      (c.name ++ "-" ++ c.version ++ ".modul").toList ++ ['e'] := by
    simp [documentName, extension]
  have hname : Path.needsSeparator ⟨documentName c⟩ = true := by
    rw [Path.needsSeparator, hlast, List.getLast?_concat]
    rfl
  rw [documentPath]
  cases habsolute : Path.isAbsolute (documentName c) with
  | true => rw [Path.join_of_isAbsolute habsolute, hname]
  | false => rw [Path.needsSeparator_join _ habsolute hne, hname]

/-- Two module versions share a path exactly if they lead through the same names. -/
theorem documentPath_eq_iff_route {c c' : Coordinates} :
    documentPath c = documentPath c' ↔ route c = route c' := by
  rw [← route_documentPath, ← route_documentPath]
  exact Path.eq_iff_route_eq (needsSeparator_documentPath c) (needsSeparator_documentPath c')

/-! ### Coordinates without slashes -/

/-- No part of some coordinates holds a slash. -/
structure IsFlat (c : Coordinates) : Prop where
  group : '/' ∉ c.group.toList
  name : '/' ∉ c.name.toList
  version : '/' ∉ c.version.toList

/-- The names of the directories of a group without slashes. -/
def groupNames (group : String) : List String := (splitAt '.' group).filter (· ≠ "")

theorem not_mem_of_mem_parts {c : Coordinates} (h : IsFlat c) {s : String} (hs : s ∈ parts c) :
    '/' ∉ s.toList := by
  rcases List.mem_append.1 hs with hs | hs
  · obtain ⟨piece, hpiece, rfl⟩ := List.mem_map.1 hs
    rw [String.toList_ofList]
    exact fun hslash => h.group (mem_of_mem_fields hpiece hslash)
  · simp only [List.mem_cons, List.not_mem_nil, or_false] at hs
    rcases hs with rfl | rfl | rfl
    · exact h.name
    · exact h.version
    · have hextension : '/' ∉ extension.toList := by decide
      simp [documentName, h.name, h.version, hextension]

theorem route_of_isFlat {c : Coordinates} (h : IsFlat c) (hname : c.name ≠ "")
    (hversion : c.version ≠ "") :
    route c = groupNames c.group ++ [c.name, c.version, documentName c] := by
  have hdocument : documentName c ≠ "" := by
    simp [documentName, extension]
  rw [route, Path.foldl_lead_of_not_mem fun s hs => not_mem_of_mem_parts h hs, List.nil_append,
    parts, List.filter_append]
  simp [groupNames, hname, hversion, hdocument]

/-- Without slashes, two module versions share a path exactly if they differ in empty parts of
their groups at most. -/
theorem documentPath_eq_iff_of_isFlat {c c' : Coordinates} (h : IsFlat c) (h' : IsFlat c')
    (hname : c.name ≠ "") (hversion : c.version ≠ "") (hname' : c'.name ≠ "")
    (hversion' : c'.version ≠ "") :
    documentPath c = documentPath c' ↔
      groupNames c.group = groupNames c'.group ∧ c.name = c'.name ∧ c.version = c'.version := by
  rw [documentPath_eq_iff_route, route_of_isFlat h hname hversion,
    route_of_isFlat h' hname' hversion']
  constructor
  · intro hroute
    obtain ⟨hgroup, hrest⟩ := List.append_inj' hroute rfl
    simp only [List.cons.injEq] at hrest
    exact ⟨hgroup, hrest.1, hrest.2.1⟩
  · rintro ⟨hgroup, hname, hversion⟩
    rw [hgroup, documentName, documentName, hname, hversion]

/-- An empty part of the group leads nowhere, so every module version has a namesake. -/
theorem documentPath_dot_append (c : Coordinates) :
    documentPath { c with group := "." ++ c.group } = documentPath c := by
  have htext : ("." ++ c.group).toList = "".toList ++ '.' :: c.group.toList := by
    rw [String.toList_append]
    rfl
  have hsplit : splitAt '.' ("." ++ c.group) = "" :: splitAt '.' c.group :=
    splitAt_append_sep htext
  rw [documentPath_eq_foldl, documentPath_eq_foldl, parts, parts, hsplit]
  rfl

example : documentPath ⟨"a..b", "lib", "1.0"⟩ = documentPath ⟨"a.b", "lib", "1.0"⟩ := by
  decide +kernel

/-! ### Coordinates of plain names -/

/-- Every part of some coordinates is the name of a directory. -/
structure IsRegular (c : Coordinates) : Prop extends IsFlat c where
  group_parts : "" ∉ splitAt '.' c.group
  name_plain : c.name ∉ ["", ".", ".."]
  version_plain : c.version ∉ ["", ".", ".."]

theorem parts_injective {c c' : Coordinates} (h : parts c = parts c') : c = c' := by
  obtain ⟨hgroup, hrest⟩ := List.append_inj' h rfl
  simp only [List.cons.injEq] at hrest
  cases c
  cases c'
  simp only [Coordinates.mk.injEq]
  exact ⟨splitAt_injective hgroup, hrest.1, hrest.2.1⟩

theorem documentName_plain (c : Coordinates) : documentName c ∉ ["", ".", ".."] := by
  have hlast : 'e' ∈ (documentName c).toList := by
    simp [documentName, extension]
  intro hmem
  simp only [List.mem_cons, List.not_mem_nil, or_false] at hmem
  rcases hmem with h | h | h <;> rw [h] at hlast <;> simp at hlast

/-- The parts of regular coordinates are names. -/
theorem plain_of_mem_parts {c : Coordinates} (h : IsRegular c) {s : String} (hs : s ∈ parts c) :
    s ∉ ["", ".", ".."] := by
  rcases List.mem_append.1 hs with hs | hs
  · have hdot : '.' ∉ s.toList := by
      obtain ⟨piece, hpiece, rfl⟩ := List.mem_map.1 hs
      rw [String.toList_ofList]
      exact not_mem_of_mem_fields hpiece
    intro hmem
    simp only [List.mem_cons, List.not_mem_nil, or_false] at hmem
    rcases hmem with rfl | rfl | rfl
    · exact h.group_parts hs
    · simp at hdot
    · simp at hdot
  · simp only [List.mem_cons, List.not_mem_nil, or_false] at hs
    rcases hs with rfl | rfl | rfl
    · exact h.name_plain
    · exact h.version_plain
    · exact documentName_plain c

/-- The path of a document goes through the parts of regular coordinates, one by one. -/
theorem splitAt_documentPath {c : Coordinates} (h : IsRegular c) :
    splitAt '/' (documentPath c).text = parts c := by
  have hroute := route_documentPath c
  have hparts : (parts c).filter (· ≠ "") = parts c := by
    refine List.filter_eq_self.2 fun s hs => decide_eq_true ?_
    rintro rfl
    exact plain_of_mem_parts h hs (by simp)
  rw [Path.route, if_pos (needsSeparator_documentPath c)] at hroute
  rw [hroute, route, Path.foldl_lead_of_not_mem fun s hs => not_mem_of_mem_parts h.toIsFlat hs,
    List.nil_append, hparts]

theorem documentPath_injective_of_isRegular {c c' : Coordinates} (h : IsRegular c)
    (h' : IsRegular c') (hpath : documentPath c = documentPath c') : c = c' := by
  have hparts := splitAt_documentPath h
  rw [hpath, splitAt_documentPath h'] at hparts
  exact parts_injective hparts.symm

end Layout

end VariantGraph
