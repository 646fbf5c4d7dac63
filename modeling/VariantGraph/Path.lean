import VariantGraph.Text.Fields

/-!
# Paths

A path is text whose segments are separated by slashes. A leading slash makes it absolute. Empty
segments and segments `.` say nothing, apart from a `.` at the very start, and `..` is a segment
like any other: taking the parent of a path looks at its text alone.

Main statements: `Path.join_of_isAbsolute` says that an absolute path replaces what it is joined to,
`Path.length_parent?` that the parent of a path is shorter than it, so that going up ends.
-/

namespace VariantGraph

open VariantGraph.Text

/-- A path of a file or a directory. -/
structure Path where
  text : String
deriving DecidableEq, Repr, Inhabited

namespace Path

/-- The path without segments. -/
def empty : Path := ⟨""⟩

/-- The path of the current directory. -/
def here : Path := ⟨"."⟩

/-- Whether a text is an absolute path. -/
def isAbsolute (s : String) : Bool := s.toList.head? == some '/'

/-- Whether a separator is missing before the next segment. -/
def needsSeparator (p : Path) : Bool := p.text.toList.getLast?.any (· != '/')

/-- A path followed by another one. An absolute path stands for itself, and an empty one leaves a
separator at the end. -/
def join (p : Path) (s : String) : Path :=
  if isAbsolute s then ⟨s⟩
  else if p.needsSeparator then ⟨p.text ++ "/" ++ s⟩
  else ⟨p.text ++ s⟩

theorem join_of_isAbsolute {s : String} (h : isAbsolute s) (p : Path) : p.join s = ⟨s⟩ := by
  simp [join, h]

/-! ## Segments -/

/-- The number of characters before the segments: a leading slash, or a leading segment `.`. -/
def rootLength : List Char → Nat
  | '/' :: _ => 1
  | ['.'] => 1
  | '.' :: '/' :: _ => 1
  | _ => 0

/-- The characters before the segments. -/
def root (p : Path) : List Char := p.text.toList.take (rootLength p.text.toList)

/-- Whether a segment says nothing. -/
def isSilent (segment : List Char) : Bool := segment.isEmpty || segment == ['.']

/-- Drops the segments at the end that say nothing. -/
def trimSilent (segments : List (List Char)) : List (List Char) :=
  (segments.reverse.dropWhile isSilent).reverse

/-- The segments of a path up to the last one that says something. -/
def segments (p : Path) : List (List Char) :=
  trimSilent (fields '/' (p.text.toList.drop (rootLength p.text.toList)))

/-- The path without its last segment. Neither the empty path nor the root directory has
a parent. -/
def parent? (p : Path) : Option Path :=
  if p.segments.isEmpty then
    if p.root == ['.'] then some empty else none
  else some ⟨String.ofList (p.root ++ joinFields '/' (trimSilent p.segments.dropLast))⟩

/-- The name of the file that a path names; a path that ends in `..` names none. -/
def fileName? (p : Path) : Option String :=
  match p.segments.getLast? with
  | some segment => if segment == ['.', '.'] then none else some (String.ofList segment)
  | none => none

/-- The directory that holds what a path names. -/
def directory (p : Path) : Path :=
  match p.parent? with
  | some d => if d = empty then here else d
  | none => here

@[simp] theorem parent?_empty : parent? empty = none := rfl

/-! ## Going up -/

theorem joinFields_cons_cons (sep : Char) (a b : List Char) (l : List (List Char)) :
    joinFields sep (a :: b :: l) = a ++ sep :: joinFields sep (b :: l) := rfl

theorem isPrefix_trimSilent (l : List (List Char)) : trimSilent l <+: l := by
  refine ⟨(l.reverse.takeWhile isSilent).reverse, ?_⟩
  rw [trimSilent, ← List.reverse_append, List.takeWhile_append_dropWhile, List.reverse_reverse]

theorem not_isSilent_getLast_trimSilent {l : List (List Char)} (h : trimSilent l ≠ []) :
    isSilent ((trimSilent l).getLast h) = false := by
  have hne : l.reverse.dropWhile isSilent ≠ [] := fun e => h (by rw [trimSilent, e]; rfl)
  have := List.head_dropWhile_not isSilent hne
  simpa [trimSilent, List.getLast_reverse] using this

theorem length_joinFields_append (sep : Char) (l m : List (List Char)) :
    (joinFields sep l).length ≤ (joinFields sep (l ++ m)).length := by
  induction l with
  | nil => simp [joinFields]
  | cons a l ih =>
    cases l with
    | nil =>
      cases m with
      | nil => exact Nat.le_refl _
      | cons b m => simp [joinFields]
    | cons b l =>
      rw [List.cons_append] at ih
      rw [List.cons_append, List.cons_append, joinFields_cons_cons, joinFields_cons_cons,
        List.length_append, List.length_append, List.length_cons, List.length_cons]
      omega

theorem length_joinFields_le (sep : Char) {l m : List (List Char)} (h : l <+: m) :
    (joinFields sep l).length ≤ (joinFields sep m).length := by
  obtain ⟨r, rfl⟩ := h
  exact length_joinFields_append sep l r

theorem length_joinFields_concat (sep : Char) (l : List (List Char)) {x : List Char} (h : x ≠ []) :
    (joinFields sep l).length < (joinFields sep (l ++ [x])).length := by
  have hx := List.length_pos_iff.2 h
  induction l with
  | nil => simpa [joinFields] using hx
  | cons a l ih =>
    cases l with
    | nil => simp [joinFields]
    | cons b l =>
      rw [List.cons_append] at ih
      rw [List.cons_append, List.cons_append, joinFields_cons_cons, joinFields_cons_cons,
        List.length_append, List.length_append, List.length_cons, List.length_cons]
      omega

theorem length_parent? {p d : Path} (h : p.parent? = some d) : d.text.length < p.text.length := by
  have hroot : p.root.length + (p.text.toList.drop (rootLength p.text.toList)).length
      = p.text.toList.length := by
    rw [root, ← List.length_append, List.take_append_drop]
  have hbody := length_joinFields_le '/'
    (isPrefix_trimSilent (fields '/' (p.text.toList.drop (rootLength p.text.toList))))
  rw [joinFields_fields] at hbody
  rw [← String.length_toList, ← String.length_toList]
  unfold parent? at h
  split at h
  · split at h
    · next hdot =>
      obtain rfl := Option.some.inj h
      have : p.root = ['.'] := by simpa using hdot
      rw [this] at hroot
      simp only [empty, String.toList_empty, List.length_nil, List.length_singleton] at hroot ⊢
      omega
    · simp at h
  · next hne =>
    obtain rfl := Option.some.inj h
    have hne : p.segments ≠ [] := by simpa using hne
    have hlast : p.segments.getLast hne ≠ [] := by
      have : isSilent (p.segments.getLast hne) = false := not_isSilent_getLast_trimSilent hne
      intro he
      rw [he] at this
      simp [isSilent] at this
    have h1 := length_joinFields_le '/' (isPrefix_trimSilent p.segments.dropLast)
    have h2 := length_joinFields_concat '/' p.segments.dropLast hlast
    rw [List.dropLast_concat_getLast] at h2
    have h3 : (joinFields '/' p.segments).length
        ≤ (p.text.toList.drop (rootLength p.text.toList)).length := hbody
    rw [String.toList_ofList, List.length_append]
    omega

/-- A path with its parents, from the path upwards. -/
def ancestors (p : Path) : List Path :=
  p :: match _h : p.parent? with
    | some d => ancestors d
    | none => []
termination_by p.text.length
decreasing_by exact length_parent? _h

end Path

end VariantGraph
