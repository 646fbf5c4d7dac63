import VariantGraph.Version.Range

/-!
# Version selectors

The text of a requested version selects one exact version, a range, the versions that start with a
text (`1.+`), or any version (`+` and `latest`). All but the first are dynamic: they select from a
list of known versions.

Main statement: `bestMatch?_eq_some` says that the best match is listed, selected and not rejected.
-/

namespace VariantGraph

/-- A requested version, as read from its text. -/
inductive Selector where
  | exact (version : String)
  | range (range : Range)
  /-- Any version that starts with a text. -/
  | startingWith (text : String)
  /-- Any version. -/
  | latest
deriving DecidableEq, Repr

namespace Selector

open VariantGraph.Text

/-- Whether a text is `latest` in any case. -/
def saysLatest (s : List Char) : Bool := s.map Char.toLower == "latest".toList

/-- The text before a final `+`, if that text ends in a dot. -/
def startText? (s : List Char) : Option (List Char) :=
  if s.getLast? = some '+' && s.dropLast.getLast? = some '.' then some s.dropLast else none

/-- Reads a selector without blanks around it. -/
def ofChars (s : List Char) : Selector :=
  if s = ['+'] || saysLatest s then .latest
  else
    match Range.parse? (String.ofList s) with
    | some r => .range r
    | none =>
      match startText? s with
      | some text => .startingWith (String.ofList text)
      | none => .exact (String.ofList s)

/-- Reads a selector. Blanks around it do not count. -/
def parse (s : String) : Selector := ofChars (trimBlank s.toList)

/-- Whether a selector chooses from a list of versions. -/
def isDynamic : Selector → Bool
  | exact _ => false
  | _ => true

/-- Whether a selector accepts a version. -/
def accepts : Selector → String → Bool
  | exact v, candidate => v == candidate
  | range r, candidate => r.contains candidate
  | startingWith text, candidate => text.toList.isPrefixOf candidate.toList
  | latest, _ => true

/-- The highest listed version that the selector accepts and that is not rejected. -/
def bestMatch? (s : Selector) (listing : List String) (rejected : String → Bool) :
    Option String :=
  Version.highest? (listing.filter fun v => s.accepts v && !rejected v)

theorem foldl_later_mem (l : List String) (v : String) : l.foldl Version.later v ∈ v :: l := by
  induction l generalizing v with
  | nil => simp
  | cons w rest ih =>
    have h := ih (Version.later v w)
    have hl : Version.later v w = v ∨ Version.later v w = w := by
      unfold Version.later
      split <;> simp
    simp only [List.foldl_cons, List.mem_cons] at h ⊢
    rcases h with h | h
    · rcases hl with hl | hl
      · exact .inl (h.trans hl)
      · exact .inr (.inl (h.trans hl))
    · exact .inr (.inr h)

theorem highest?_mem {l : List String} {v : String} (h : Version.highest? l = some v) : v ∈ l := by
  cases l with
  | nil => simp [Version.highest?] at h
  | cons w rest =>
    obtain rfl := Option.some.inj h
    exact foldl_later_mem rest w

theorem bestMatch?_eq_some {s : Selector} {listing : List String} {rejected : String → Bool}
    {v : String} (h : s.bestMatch? listing rejected = some v) :
    v ∈ listing ∧ s.accepts v ∧ rejected v = false := by
  have := highest?_mem h
  simpa [List.mem_filter] using this

end Selector

end VariantGraph
