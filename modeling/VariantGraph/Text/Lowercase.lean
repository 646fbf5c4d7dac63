import VariantGraph.Text.CaseTable

/-!
# Lower case

The lower-case form of a text by the full mapping of the character database. Two letters do not map
by themselves: a capital I with a dot becomes an i and a combining dot, and a capital sigma becomes
a final sigma at the end of a word.

Main statement: `lowercase_ascii` says that on ASCII text the mapping is the one of `Char.toLower`.
-/

namespace VariantGraph.Text

/-- Whether a code point lies in one of some ascending ranges. -/
def inRanges (n : Nat) : List (Nat × Nat) → Bool
  | [] => false
  | r :: rest => if n < r.1 then false else n ≤ r.2 || inRanges n rest

/-- The code point that ascending runs assign to a code point. -/
def shiftOf (n : Nat) : List CaseRun → Nat
  | [] => n
  | r :: rest =>
    if n < r.first then n
    else if n ≤ r.last && (n - r.first) % r.stride == 0 then (n + r.shift).toNat
    else shiftOf n rest

/-- The lower-case form of one character, apart from the two letters that need more. -/
def lowercaseChar (c : Char) : Char := Char.ofNat (shiftOf c.toNat caseRuns)

/-- Whether the first character that is not passed over is a letter with case. -/
def startsWithCased (s : List Char) : Bool :=
  match s.dropWhile fun c => inRanges c.toNat passedOverRanges with
  | [] => false
  | c :: _ => inRanges c.toNat casedRanges

/-- Lowers a text whose characters before it, last one first, are given. -/
def lowercaseAfter (before : List Char) : List Char → List Char
  | [] => []
  | c :: rest =>
    let lowered :=
      if c.toNat = 0x130 then ['i', '\u0307']
      else if c = 'Σ' then
        [if startsWithCased before && !startsWithCased rest then 'ς' else 'σ']
      else [lowercaseChar c]
    lowered ++ lowercaseAfter (c :: before) rest

/-- The lower-case form of a text. -/
def lowercase (s : List Char) : List Char := lowercaseAfter [] s

theorem lowercaseAfter_ascii {s : List Char} (h : ∀ c ∈ s, c.toNat < 128) (before : List Char) :
    lowercaseAfter before s = s.map Char.toLower := by
  have hall : ∀ n ∈ List.range 128, Char.ofNat (shiftOf n caseRuns) = (Char.ofNat n).toLower := by
    decide +kernel
  induction s generalizing before with
  | nil => rfl
  | cons c rest ih =>
    have hc : c.toNat < 128 := h c (by simp)
    have hsigma : c ≠ 'Σ' := by
      rintro rfl
      revert hc
      decide
    have hlow : lowercaseChar c = c.toLower := by
      simpa [lowercaseChar] using hall c.toNat (List.mem_range.2 hc)
    have hdot : c.toNat ≠ 0x130 := by omega
    simp [lowercaseAfter, hdot, hsigma, hlow, ih fun x hx => h x (List.mem_cons_of_mem _ hx)]

theorem lowercase_ascii {s : List Char} (h : ∀ c ∈ s, c.toNat < 128) :
    lowercase s = s.map Char.toLower :=
  lowercaseAfter_ascii h []

end VariantGraph.Text
