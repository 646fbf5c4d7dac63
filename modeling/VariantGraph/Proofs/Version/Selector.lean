import Mathlib.Data.List.DropRight
import Mathlib.Data.List.TakeWhile
import VariantGraph.Version.Selector

/-!
# Selectors and the blanks around them

Blanks around the text of a selector do not count: the selector is the one of the trimmed text. A
selector that is not dynamic accepts the trimmed text and nothing else, so it does not accept its own
text when that has blanks around it.

Main statements: `Selector.parse_trim` and `Selector.accepts_iff_of_static`.
-/

namespace VariantGraph

namespace Text

/-- What is left of a text has no blank at its start. -/
theorem trimBlankStart_trimBlankEnd {s : List Char} (h : trimBlankStart s = s) :
    trimBlankStart (trimBlankEnd s) = trimBlankEnd s := by
  have hend : trimBlankEnd s <+: s := List.rdropWhile_prefix isBlank (l := s)
  unfold trimBlankStart at h ⊢
  rw [List.dropWhile_eq_self_iff] at h ⊢
  intro hpos
  rw [hend.getElem]
  exact h (lt_of_lt_of_le hpos hend.length_le)

theorem trimBlank_trimBlank (s : List Char) : trimBlank (trimBlank s) = trimBlank s := by
  have hstart : trimBlankStart (trimBlankStart s) = trimBlankStart s := List.dropWhile_idempotent ..
  have hend : trimBlankEnd (trimBlank s) = trimBlank s := List.rdropWhile_idempotent ..
  rw [trimBlank, trimBlank, trimBlankStart_trimBlankEnd hstart]
  exact hend

@[simp] theorem toList_trim (s : String) : (trim s).toList = trimBlank s.toList :=
  String.toList_ofList

end Text

namespace Selector

open VariantGraph.Text

variable {text v : String}

@[simp] theorem parse_trim (text : String) : parse (trim text) = parse text := by
  rw [parse, toList_trim, trimBlank_trimBlank, parse]

/-- Text that is not dynamic selects itself, without the blanks around it. -/
theorem parse_of_static (h : (parse text).isDynamic = false) : parse text = .exact (trim text) := by
  unfold parse ofChars at h ⊢
  split at h
  · cases h
  · next hlatest =>
    rw [if_neg hlatest]
    split at h
    · cases h
    · split at h
      · cases h
      · rfl

theorem accepts_iff_of_static (h : (parse text).isDynamic = false) :
    (parse text).accepts v = true ↔ trim text = v := by
  rw [parse_of_static h, accepts, beq_iff_eq]

end Selector

end VariantGraph
