import VariantGraph.Toml

/-!
# Texts and keys in TOML

Blanks and comments, the four kinds of strings, and keys. A string stands in double quotes with
escapes or in single quotes without; three quotes let it run over several lines. A key is a string
or a bare word, and a dotted key is a path of keys.

Main statements: `length_lt_of_scanEscape` and `length_le_of_scanSimpleKey` say that scanning
consumes, which bounds the loops.
-/

namespace VariantGraph.Toml.Text

/-! ## Blanks, line ends and comments -/

/-- Whether a character separates words of a line. -/
def isBlank (c : Char) : Bool := c == ' ' || c == '\t'

/-- Whether a character may stand in a comment: a tab, or no control character. -/
def isPlain (c : Char) : Bool := c == '\t' || (0x20 ≤ c.toNat && c.toNat != 0x7F)

/-- A text without the blanks at its start. -/
def skipBlanks (s : List Char) : List Char := s.dropWhile isBlank

/-- A text without the line end at its start. -/
def skipNewline? : List Char → Option (List Char)
  | '\n' :: rest => some rest
  | '\r' :: '\n' :: rest => some rest
  | _ => none

/-- A text without the blanks, comments and line ends at its start. -/
def skipGap (inComment : Bool) : List Char → List Char
  | [] => []
  | '\r' :: '\n' :: rest => skipGap false rest
  | c :: rest =>
    if c = '\n' then skipGap false rest
    else if inComment then
      if isPlain c then skipGap true rest else c :: rest
    else if c = '#' then skipGap true rest
    else if isBlank c then skipGap false rest
    else c :: rest

/-- A text without the rest of its first line, in which only blanks and a comment may stand. -/
def skipLineEnd? (s : List Char) : Option (List Char) :=
  let s := match skipBlanks s with
    | '#' :: rest => rest.dropWhile isPlain
    | s => s
  if s.isEmpty then some [] else skipNewline? s

/-! ## Escapes -/

/-- The value of a hexadecimal digit. -/
def hexDigit? (c : Char) : Option Nat :=
  if '0' ≤ c ∧ c ≤ '9' then some (c.toNat - '0'.toNat)
  else if 'a' ≤ c ∧ c ≤ 'f' then some (c.toNat - 'a'.toNat + 10)
  else if 'A' ≤ c ∧ c ≤ 'F' then some (c.toNat - 'A'.toNat + 10)
  else none

/-- The character whose code point is written in hexadecimal digits. -/
def hexChar? (digits : List Char) : Option Char :=
  (digits.mapM hexDigit?).bind fun l =>
    let n := l.foldl (fun n d => 16 * n + d) 0
    if n.isValidChar then some (Char.ofNat n) else none

/-- The character that a code point of some digits at the start of a text names. -/
def scanHex (digits : Nat) (s : List Char) : Option (Char × List Char) :=
  if s.length < digits then none
  else (hexChar? (s.take digits)).map fun c => (c, s.drop digits)

/-- The character that an escape names, behind its backslash. -/
def scanEscape : List Char → Option (Char × List Char)
  | 'b' :: rest => some ('\x08', rest)
  | 't' :: rest => some ('\t', rest)
  | 'n' :: rest => some ('\n', rest)
  | 'f' :: rest => some ('\x0c', rest)
  | 'r' :: rest => some ('\r', rest)
  | '"' :: rest => some ('"', rest)
  | '\\' :: rest => some ('\\', rest)
  | 'u' :: rest => scanHex 4 rest
  | 'U' :: rest => scanHex 8 rest
  | _ => none

theorem length_le_of_scanHex {n : Nat} {s r : List Char} {c : Char}
    (h : scanHex n s = some (c, r)) : r.length ≤ s.length := by
  unfold scanHex at h
  split at h
  · simp at h
  · obtain ⟨c', _, hc⟩ := Option.map_eq_some_iff.1 h
    obtain ⟨_, rfl⟩ := Prod.mk.inj hc
    simp

theorem length_lt_of_scanEscape {s r : List Char} {c : Char} (h : scanEscape s = some (c, r)) :
    r.length < s.length := by
  unfold scanEscape at h
  split at h
  case h_8 => exact Nat.lt_succ_of_le (length_le_of_scanHex h)
  case h_9 => exact Nat.lt_succ_of_le (length_le_of_scanHex h)
  case h_10 => simp at h
  all_goals
    obtain ⟨_, rfl⟩ := Prod.mk.inj (Option.some.inj h)
    exact Nat.lt_succ_self _

/-! ## Strings -/

/-- A string in double quotes on one line, behind its opening quote. -/
def scanBasic (s : List Char) : Option (List Char × List Char) :=
  match s with
  | [] => none
  | '"' :: rest => some ([], rest)
  | '\\' :: rest =>
    match _h : scanEscape rest with
    | none => none
    | some (c, rest) => (scanBasic rest).map fun p => (c :: p.1, p.2)
  | c :: rest => if isPlain c then (scanBasic rest).map fun p => (c :: p.1, p.2) else none
termination_by s.length
decreasing_by
  · have := length_lt_of_scanEscape _h
    simp only [List.length_cons]
    omega
  · simp

/-- A string in single quotes on one line, behind its opening quote. -/
def scanLiteral : List Char → Option (List Char × List Char)
  | [] => none
  | c :: rest =>
    if c = '\x27' then some ([], rest)
    else if isPlain c then (scanLiteral rest).map fun p => (c :: p.1, p.2)
    else none

/-- A text without the blanks and line ends at its start. -/
def skipBlankLines : List Char → List Char
  | [] => []
  | '\r' :: '\n' :: rest => skipBlankLines rest
  | c :: rest => if isBlank c || c == '\n' then skipBlankLines rest else c :: rest

/-- The text behind a backslash that ends its line: all blanks and line ends are passed over. -/
def continuation? (s : List Char) : Option (List Char) :=
  (skipNewline? (skipBlanks s)).map skipBlankLines

theorem length_skipBlankLines_le (s : List Char) : (skipBlankLines s).length ≤ s.length := by
  fun_induction skipBlankLines s with
  | case1 => simp
  | case2 rest ih =>
    simp only [List.length_cons]
    omega
  | case3 c rest _ _ ih =>
    simp only [List.length_cons]
    omega
  | case4 => simp

theorem length_dropWhile_le (p : Char → Bool) (s : List Char) :
    (s.dropWhile p).length ≤ s.length := (List.dropWhile_suffix p).length_le

theorem length_le_of_skipNewline? {s r : List Char} (h : skipNewline? s = some r) :
    r.length ≤ s.length := by
  unfold skipNewline? at h
  split at h
  · obtain rfl := Option.some.inj h
    simp
  · obtain rfl := Option.some.inj h
    simp only [List.length_cons]
    omega
  · simp at h

theorem length_le_of_continuation? {s r : List Char} (h : continuation? s = some r) :
    r.length ≤ s.length := by
  obtain ⟨t, ht, rfl⟩ := Option.map_eq_some_iff.1 h
  have h1 := length_dropWhile_le isBlank s
  have h2 := length_le_of_skipNewline? ht
  have h3 := length_skipBlankLines_le t
  simp only [skipBlanks] at h2
  omega

/-- A string in three double quotes, behind the opening ones. Two quotes may stand right before the
closing ones. -/
def scanLongBasic (s : List Char) : Option (List Char × List Char) :=
  match s with
  | [] => none
  | '"' :: '"' :: '"' :: '"' :: '"' :: rest => some (['"', '"'], rest)
  | '"' :: '"' :: '"' :: '"' :: rest => some (['"'], rest)
  | '"' :: '"' :: '"' :: rest => some ([], rest)
  | '\\' :: rest =>
    match _h : scanEscape rest with
    | some (c, rest) => (scanLongBasic rest).map fun p => (c :: p.1, p.2)
    | none =>
      match _h' : continuation? rest with
      | some rest => scanLongBasic rest
      | none => none
  | '\r' :: '\n' :: rest => (scanLongBasic rest).map fun p => ('\n' :: p.1, p.2)
  | c :: rest =>
    if c = '\n' || isPlain c then (scanLongBasic rest).map fun p => (c :: p.1, p.2) else none
termination_by s.length
decreasing_by
  · have := length_lt_of_scanEscape _h
    simp only [List.length_cons]
    omega
  · have := length_le_of_continuation? _h'
    simp only [List.length_cons]
    omega
  · simp only [List.length_cons]
    omega
  · simp

/-- A string in three single quotes, behind the opening ones. Two quotes may stand right before the
closing ones. -/
def scanLongLiteral : List Char → Option (List Char × List Char)
  | [] => none
  | '\x27' :: '\x27' :: '\x27' :: '\x27' :: '\x27' :: rest => some (['\x27', '\x27'], rest)
  | '\x27' :: '\x27' :: '\x27' :: '\x27' :: rest => some (['\x27'], rest)
  | '\x27' :: '\x27' :: '\x27' :: rest => some ([], rest)
  | '\r' :: '\n' :: rest => (scanLongLiteral rest).map fun p => ('\n' :: p.1, p.2)
  | c :: rest =>
    if c = '\n' || isPlain c then (scanLongLiteral rest).map fun p => (c :: p.1, p.2) else none

/-- A text without a line end at its start, if there is one. -/
def skipFirstNewline (s : List Char) : List Char := (skipNewline? s).getD s

/-- A string of any kind. -/
def scanString : List Char → Option (List Char × List Char)
  | '"' :: '"' :: '"' :: rest => scanLongBasic (skipFirstNewline rest)
  | '\x27' :: '\x27' :: '\x27' :: rest => scanLongLiteral (skipFirstNewline rest)
  | '"' :: rest => scanBasic rest
  | '\x27' :: rest => scanLiteral rest
  | _ => none

/-! ## Keys -/

/-- Whether a character may stand in a bare key. -/
def isBare (c : Char) : Bool :=
  ('a' ≤ c && c ≤ 'z') || ('A' ≤ c && c ≤ 'Z') || ('0' ≤ c && c ≤ '9') || c == '_' || c == '-'

/-- A key without dots. -/
def scanSimpleKey : List Char → Option (List Char × List Char)
  | '"' :: rest => scanBasic rest
  | '\x27' :: rest => scanLiteral rest
  | s =>
    if (s.takeWhile isBare).isEmpty then none
    else some (s.takeWhile isBare, s.dropWhile isBare)

theorem length_le_of_scanBasic {s t r : List Char} (h : scanBasic s = some (t, r)) :
    r.length ≤ s.length := by
  fun_induction scanBasic s generalizing t with
  | case1 => simp at h
  | case2 rest =>
    obtain ⟨_, rfl⟩ := Prod.mk.inj (Option.some.inj h)
    simp
  | case3 => simp at h
  | case4 rest c rest' hc ih =>
    obtain ⟨p, hp, he⟩ := Option.map_eq_some_iff.1 h
    obtain ⟨_, rfl⟩ := Prod.mk.inj he
    have h1 := ih hp
    have h2 := length_lt_of_scanEscape hc
    simp only [List.length_cons]
    omega
  | case5 c rest _ _ _ ih =>
    obtain ⟨p, hp, he⟩ := Option.map_eq_some_iff.1 h
    obtain ⟨_, rfl⟩ := Prod.mk.inj he
    have h1 := ih hp
    simp only [List.length_cons]
    omega
  | case6 => simp at h

theorem length_le_of_scanLiteral {s t r : List Char} (h : scanLiteral s = some (t, r)) :
    r.length ≤ s.length := by
  induction s generalizing t with
  | nil => simp [scanLiteral] at h
  | cons c rest ih =>
    unfold scanLiteral at h
    split at h
    · obtain ⟨_, rfl⟩ := Prod.mk.inj (Option.some.inj h)
      simp
    · split at h
      · obtain ⟨p, hp, he⟩ := Option.map_eq_some_iff.1 h
        obtain ⟨_, rfl⟩ := Prod.mk.inj he
        have h1 := ih hp
        simp only [List.length_cons]
        omega
      · simp at h

theorem length_le_of_scanSimpleKey {s t r : List Char} (h : scanSimpleKey s = some (t, r)) :
    r.length ≤ s.length := by
  unfold scanSimpleKey at h
  split at h
  · have := length_le_of_scanBasic h
    simp only [List.length_cons]
    omega
  · have := length_le_of_scanLiteral h
    simp only [List.length_cons]
    omega
  · split at h
    · simp at h
    · obtain ⟨_, rfl⟩ := Prod.mk.inj (Option.some.inj h)
      exact length_dropWhile_le _ _

/-- A dotted key with the blanks behind it. -/
def scanPath (s : List Char) : Option (List String × List Char) :=
  match _h : scanSimpleKey s with
  | none => none
  | some (k, rest) =>
    match _h' : skipBlanks rest with
    | '.' :: more => (scanPath (skipBlanks more)).map fun p => (String.ofList k :: p.1, p.2)
    | rest => some ([String.ofList k], rest)
termination_by s.length
decreasing_by
  have h1 := length_le_of_scanSimpleKey _h
  have h2 := length_dropWhile_le isBlank rest
  have h3 := length_dropWhile_le isBlank more
  rw [← skipBlanks, _h', List.length_cons] at h2
  rw [← skipBlanks] at h3
  omega

/-- The number of keys that a dotted key may not reach. -/
def pathLimit : Nat := 80

/-- A dotted key that is not too long. -/
def scanKey (s : List Char) : Option (List String × List Char) :=
  (scanPath s).bind fun p => if p.1.length < pathLimit then some p else none

end VariantGraph.Toml.Text
