import VariantGraph.Proofs.Version.Numbers

/-!
# The tokens of a version

A version is read from left to right, and a token ends at a separator, where digits and other
characters meet, and at the end of the text. This gives the one way to cut the text into tokens that
are all digits or without digits. `tokens` goes through the text from the right and keeps no state;
that reading from the left finds the same tokens follows from what is still to be read together with
the token that has not ended.

Main statements: `Version.cutInto_iff` and `Version.parts_eq_map_tokens`; with the comparison of
numeric parts they are `Version.parts_exact`.
-/

namespace VariantGraph.Version

open VariantGraph.Text

/-! ## Cuts -/

/-- A token is a nonempty text without separators that is all digits or free of digits. -/
structure IsToken (t : List Char) : Prop where
  ne_nil : t ≠ []
  plain : ∀ c ∈ t, isSeparator c = false
  alike : (∀ c ∈ t, isDigit c = true) ∨ ∀ c ∈ t, isDigit c = false

/-- A token has to end before a text: nothing follows, or a separator, or a character that is a
digit if the last one of the token is none, and none if it is one. -/
def EndsBefore (t rest : List Char) : Prop :=
  ∀ d ∈ rest.head?, isSeparator d = true ∨ ∀ c ∈ t.getLast?, isDigit c ≠ isDigit d

/-- A text is cut into tokens at the separators and wherever a digit and another character meet. -/
inductive CutInto : List Char → List (List Char) → Prop where
  | nil : CutInto [] []
  | separator {c : Char} {rest : List Char} {l : List (List Char)} (hc : isSeparator c = true)
      (hrest : CutInto rest l) : CutInto (c :: rest) l
  | token {t rest : List Char} {l : List (List Char)} (ht : IsToken t) (hend : EndsBefore t rest)
      (hrest : CutInto rest l) : CutInto (t ++ rest) (t :: l)

theorem isToken_singleton {c : Char} (hc : isSeparator c = false) : IsToken [c] where
  ne_nil := List.cons_ne_nil c []
  plain := by simpa using hc
  alike := by cases h : isDigit c <;> simp [h]

/-- All characters of a token are of the kind of any of them. -/
theorem IsToken.isDigit_eq {t : List Char} (ht : IsToken t) {c d : Char} (hc : c ∈ t) (hd : d ∈ t) :
    isDigit c = isDigit d := by
  rcases ht.alike with h | h
  · rw [h c hc, h d hd]
  · rw [h c hc, h d hd]

/-- A token grows by a character of the kind of its last one. -/
theorem IsToken.concat {t : List Char} {c : Char} (ht : IsToken t) (hc : isSeparator c = false)
    (hlast : ∀ d ∈ t.getLast?, isDigit d = isDigit c) : IsToken (t ++ [c]) where
  ne_nil := by simp
  plain d hd := by
    rcases List.mem_append.1 hd with hd | hd
    · exact ht.plain d hd
    · rwa [List.mem_singleton.1 hd]
  alike := by
    have hmem := List.getLast_mem ht.ne_nil
    have hkind := hlast _ (List.getLast?_eq_some_getLast ht.ne_nil)
    rcases ht.alike with h | h
    · refine .inl fun d hd => ?_
      rcases List.mem_append.1 hd with hd | hd
      · exact h d hd
      · rw [List.mem_singleton.1 hd, ← hkind, h _ hmem]
    · refine .inr fun d hd => ?_
      rcases List.mem_append.1 hd with hd | hd
      · exact h d hd
      · rw [List.mem_singleton.1 hd, ← hkind, h _ hmem]

/-- A token grows at its front by a character of the kind of its first one. -/
theorem IsToken.cons {t : List Char} {c : Char} (ht : IsToken t) (hc : isSeparator c = false)
    (hfirst : ∀ d ∈ t.head?, isDigit c = isDigit d) : IsToken (c :: t) where
  ne_nil := List.cons_ne_nil c t
  plain := List.forall_mem_cons.2 ⟨hc, ht.plain⟩
  alike := by
    obtain ⟨d, rest, rfl⟩ := List.exists_cons_of_ne_nil ht.ne_nil
    have hkind := hfirst d rfl
    rcases ht.alike with h | h
    · exact .inl (List.forall_mem_cons.2 ⟨hkind.trans (h d List.mem_cons_self), h⟩)
    · exact .inr (List.forall_mem_cons.2 ⟨hkind.trans (h d List.mem_cons_self), h⟩)

/-! ## The tokens of a text -/

/-- Whether a character that is no separator is the last one of its token. -/
def endsToken (c : Char) : List Char → Bool
  | [] => true
  | d :: _ => isSeparator d || isDigit c != isDigit d

/-- Puts a character in front of the first token. -/
def extendFirst (c : Char) : List (List Char) → List (List Char)
  | [] => [[c]]
  | token :: more => (c :: token) :: more

/-- The nonempty runs between separators, cut again where digits and other characters meet. -/
def tokens : List Char → List (List Char)
  | [] => []
  | c :: rest =>
    if isSeparator c then tokens rest
    else if endsToken c rest then [c] :: tokens rest
    else extendFirst c (tokens rest)

theorem tokens_separator {c : Char} (hc : isSeparator c = true) (rest : List Char) :
    tokens (c :: rest) = tokens rest := by
  rw [tokens, if_pos hc]

theorem endsToken_iff {c : Char} {rest : List Char} :
    endsToken c rest = true ↔ EndsBefore [c] rest := by
  cases rest with
  | nil => simp [endsToken, EndsBefore]
  | cons d rest => simp [endsToken, EndsBefore]

theorem endsBefore_cons {c : Char} {t rest : List Char} (ht : t ≠ []) :
    EndsBefore (c :: t) rest ↔ EndsBefore t rest := by
  obtain ⟨d, s, rfl⟩ := List.exists_cons_of_ne_nil ht
  simp only [EndsBefore, List.getLast?_cons_cons]

/-- What stands before a place where a token has to end is the first token. -/
theorem tokens_append_of_endsBefore {t rest : List Char} (ht : IsToken t)
    (hend : EndsBefore t rest) : tokens (t ++ rest) = t :: tokens rest := by
  induction t with
  | nil => exact absurd rfl ht.ne_nil
  | cons c t ih =>
    have hc : isSeparator c = false := ht.plain c List.mem_cons_self
    rw [List.cons_append, tokens, if_neg (by simp [hc])]
    cases t with
    | nil =>
      have hlast : endsToken c rest = true := endsToken_iff.2 hend
      rw [List.nil_append, if_pos hlast]
    | cons d t =>
      have hd : d ∈ c :: d :: t := List.mem_cons_of_mem c List.mem_cons_self
      have hlast : endsToken c (d :: t ++ rest) = false := by
        simp [endsToken, ht.plain d hd, ht.isDigit_eq List.mem_cons_self hd]
      have htail : IsToken (d :: t) := by
        refine ⟨List.cons_ne_nil d t, fun x hx => ht.plain x (List.mem_cons_of_mem c hx), ?_⟩
        exact ht.alike.imp (fun h x hx => h x (List.mem_cons_of_mem c hx))
          fun h x hx => h x (List.mem_cons_of_mem c hx)
      rw [hlast, if_neg Bool.false_ne_true, ih htail]
      · rfl
      · exact (endsBefore_cons (List.cons_ne_nil d t)).1 hend

/-- A character of the kind of the one behind it belongs to the same token. -/
theorem CutInto.extendFirst {s : List Char} {l : List (List Char)} (h : CutInto s l) {c d : Char}
    (hs : s.head? = some d) (hd : isSeparator d = false) (hc : isSeparator c = false)
    (hkind : isDigit c = isDigit d) : CutInto (c :: s) (Version.extendFirst c l) := by
  cases h with
  | nil => cases hs
  | separator hsep _ =>
    rw [List.head?_cons, Option.some.injEq] at hs
    rw [← hs, hsep] at hd
    cases hd
  | token ht hend hrest =>
    refine CutInto.token (ht.cons hc ?_) ((endsBefore_cons ht.ne_nil).2 hend) hrest
    intro x hx
    rw [List.head?_append, Option.mem_def.1 hx, Option.some_or, Option.some.injEq] at hs
    rw [hs, hkind]

theorem cutInto_tokens (s : List Char) : CutInto s (tokens s) := by
  induction s with
  | nil => exact .nil
  | cons c rest ih =>
    rw [tokens]
    split
    · next hc => exact .separator hc ih
    · next hc =>
      rw [Bool.not_eq_true] at hc
      split
      · next hlast => exact .token (isToken_singleton hc) (endsToken_iff.1 hlast) ih
      · next hlast =>
        cases rest with
        | nil => exact absurd rfl hlast
        | cons d rest =>
          simp only [endsToken, Bool.or_eq_true, bne_iff_ne, not_or, Decidable.not_not,
            Bool.not_eq_true] at hlast
          exact ih.extendFirst rfl hlast.1 hc hlast.2

/-- There is exactly one way to cut a text. -/
theorem cutInto_iff {s : List Char} {l : List (List Char)} : CutInto s l ↔ l = tokens s := by
  constructor
  · intro h
    induction h with
    | nil => rfl
    | separator hc _ ih => rw [tokens_separator hc, ih]
    | token ht hend _ ih => rw [tokens_append_of_endsBefore ht hend, ih]
  · rintro rfl
    exact cutInto_tokens s

/-! ## Reading from left to right -/

namespace Scan

/-- What has been read but not ended is nothing or a token. -/
def IsClean (s : Scan) : Prop := s.token ≠ [] → IsToken s.token

theorem isClean_flush (s : Scan) : s.flush.IsClean := fun h => absurd s.token_flush h

theorem meets_iff {s : Scan} {c : Char} :
    s.meets c = true ↔ ∃ d ∈ s.token.getLast?, isDigit d ≠ isDigit c := by
  simp [meets, Option.any_eq_true]

/-- Where the token has to end, ending it loses nothing. -/
theorem map_tokens_flush {s : Scan} (hs : s.IsClean) {rest : List Char}
    (hend : EndsBefore s.token rest) :
    s.parts ++ (tokens (s.token ++ rest)).map Part.ofToken
      = s.flush.parts ++ (tokens rest).map Part.ofToken := by
  rw [parts_flush]
  by_cases h : s.token = []
  · simp [h]
  · rw [if_neg h, tokens_append_of_endsBefore (hs h) hend, List.map_cons, List.append_assoc]
    rfl

/-- What is read from some state on are the parts of the text that has not ended in this state. -/
theorem parts_foldl_step (rest : List Char) {s : Scan} (hs : s.IsClean) :
    (rest.foldl step s).flush.parts
      = s.parts ++ (tokens (s.token ++ rest)).map Part.ofToken := by
  induction rest generalizing s with
  | nil =>
    have hend : EndsBefore s.token [] := fun d hd => by cases hd
    rw [map_tokens_flush hs hend]
    simp [tokens]
  | cons c rest ih =>
    rw [List.foldl_cons, step]
    by_cases hc : isSeparator c = true
    · have hend : EndsBefore s.token (c :: rest) := fun d hd => by
        obtain rfl := Option.some.inj hd
        exact .inl hc
      rw [if_pos hc, ih s.isClean_flush, token_flush, List.nil_append, map_tokens_flush hs hend,
        tokens_separator hc]
    · rw [if_neg hc]
      rw [Bool.not_eq_true] at hc
      cases hmeets : s.meets c with
      | true =>
        obtain ⟨last, hlast, hkind⟩ := meets_iff.1 hmeets
        have hend : EndsBefore s.token (c :: rest) := fun d hd => by
          obtain rfl := Option.some.inj hd
          refine .inr fun x hx => ?_
          rwa [Option.mem_unique hx hlast]
        have hclean : IsClean { s.flush with token := [c] } := fun _ => isToken_singleton hc
        simp only [if_true, token_flush, List.nil_append]
        rw [ih hclean, map_tokens_flush hs hend]
        rfl
      | false =>
        have hclean : IsClean { s with token := s.token ++ [c] } := fun _ => by
          by_cases h : s.token = []
          · simpa [h] using isToken_singleton hc
          · refine (hs h).concat hc fun d hd => Classical.byContradiction fun hne => ?_
            rw [meets_iff.2 ⟨d, hd, hne⟩] at hmeets
            cases hmeets
        simp only [Bool.false_eq_true, if_false]
        rw [ih hclean, List.append_assoc, List.singleton_append]

end Scan

theorem parts_eq_map_tokens (version : String) :
    parts version = (tokens version.toList).map Part.ofToken := by
  have hclean : Scan.IsClean {} := fun h => absurd rfl h
  rw [parts, Scan.parts_foldl_step _ hclean]
  rfl

example : tokens "1.007rc_+é2-".toList = ["1", "007", "rc", "é", "2"].map String.toList := by
  decide +kernel

/-! ## Parts -/

theorem Part.ofToken_of_digits {token : List Char} (h : ∀ c ∈ token, isDigit c = true) :
    ofToken token = .number (stripZeros token) := by
  rw [ofToken, if_pos (List.all_eq_true.2 h)]

/-- The parts of a version are those of the tokens that its text is cut into, which can be done in
one way only; and digits of any length compare as the numbers that they denote. -/
theorem parts_exact (version : String) :
    (∃ l, CutInto version.toList l ∧ (∀ l', CutInto version.toList l' → l' = l) ∧
        parts version = l.map Part.ofToken) ∧
      ∀ a b : List Char, (∀ c ∈ a, isDigit c = true) → (∀ c ∈ b, isDigit c = true) →
        (Part.ofToken a).order (Part.ofToken b) = compare (digitsValue a) (digitsValue b) := by
  constructor
  · exact ⟨tokens version.toList, cutInto_tokens _, fun _ => cutInto_iff.1,
      parts_eq_map_tokens version⟩
  · intro a b ha hb
    rw [Part.ofToken_of_digits ha, Part.ofToken_of_digits hb, Part.order,
      orderDigits_stripZeros ha hb]

/-- Digits beyond the range of machine words, with leading zeros. -/
theorem parts_exact_padded :
    (∃ l, CutInto "1.007rc_+é2-".toList l ∧
        (∀ l', CutInto "1.007rc_+é2-".toList l' → l' = l) ∧
        parts "1.007rc_+é2-" = l.map Part.ofToken) ∧
      (∀ c ∈ "00099999999999999999999".toList, isDigit c = true) ∧
      (∀ c ∈ "18446744073709551616".toList, isDigit c = true) ∧
      (Part.ofToken "00099999999999999999999".toList).order
        (Part.ofToken "18446744073709551616".toList) = .gt := by
  obtain ⟨hcut, hcompare⟩ := parts_exact "1.007rc_+é2-"
  have ha : ∀ c ∈ "00099999999999999999999".toList, isDigit c = true :=
    List.all_eq_true.1 (by decide +kernel)
  have hb : ∀ c ∈ "18446744073709551616".toList, isDigit c = true :=
    List.all_eq_true.1 (by decide +kernel)
  exact ⟨hcut, ha, hb, (hcompare _ _ ha hb).trans (by decide +kernel)⟩

end VariantGraph.Version
