/-!
# Blank characters

Which characters count as white space, and how text is trimmed of them. The set is the Unicode
property `White_Space`, which is wider than the ASCII blanks that `Char.isWhitespace` knows.

Main statements: `isBlank_of_isWhitespace` says that every ASCII blank is a blank,
`trimBlank_append` splits a text into the trimmed part and the blanks around it.
-/

namespace VariantGraph.Text

/-- The code points with the property `White_Space`, as ranges with both ends included. -/
def blankRanges : List (Nat × Nat) :=
  [(0x09, 0x0D), (0x20, 0x20), (0x85, 0x85), (0xA0, 0xA0), (0x1680, 0x1680), (0x2000, 0x200A),
    (0x2028, 0x2029), (0x202F, 0x202F), (0x205F, 0x205F), (0x3000, 0x3000)]

/-- Whether a character is white space. -/
def isBlank (c : Char) : Bool :=
  blankRanges.any fun r => r.1 ≤ c.toNat && c.toNat ≤ r.2

theorem isBlank_of_isWhitespace {c : Char} (h : c.isWhitespace) : isBlank c := by
  simp only [Char.isWhitespace, Bool.or_eq_true, decide_eq_true_eq] at h
  rcases h with ((rfl | rfl) | rfl) | rfl <;> rfl

/-- Drops the blanks at the start. -/
def trimBlankStart (s : List Char) : List Char := s.dropWhile isBlank

/-- Drops the blanks at the end. -/
def trimBlankEnd (s : List Char) : List Char := (s.reverse.dropWhile isBlank).reverse

/-- Drops the blanks at both ends. -/
def trimBlank (s : List Char) : List Char := trimBlankEnd (trimBlankStart s)

/-- A text is its trimmed part with blanks before and after it. -/
theorem trimBlank_append (s : List Char) :
    ∃ before after, s = before ++ trimBlank s ++ after ∧
      (∀ c ∈ before, isBlank c) ∧ ∀ c ∈ after, isBlank c := by
  refine ⟨s.takeWhile isBlank, ((trimBlankStart s).reverse.takeWhile isBlank).reverse, ?_, ?_, ?_⟩
  · have h : trimBlank s ++ ((trimBlankStart s).reverse.takeWhile isBlank).reverse
        = trimBlankStart s := by
      rw [trimBlank, trimBlankEnd, ← List.reverse_append, List.takeWhile_append_dropWhile,
        List.reverse_reverse]
    rw [List.append_assoc, h, trimBlankStart, List.takeWhile_append_dropWhile]
  · intro c hc
    exact List.all_eq_true.1 List.all_takeWhile c hc
  · intro c hc
    exact List.all_eq_true.1 List.all_takeWhile c (List.mem_reverse.1 hc)

/-- Drops the blanks at both ends of a string. -/
def trim (s : String) : String := String.ofList (trimBlank s.toList)

end VariantGraph.Text
