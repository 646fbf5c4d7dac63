import VariantGraph.Json

/-!
# Strings in JSON

How a text is written between the quotes of a JSON string and what a written string denotes. Writing
escapes quotes, backslashes and control characters and nothing else. Reading also accepts the other
escapes of the grammar; an escaped surrogate has to be one of a pair.

Main statements: `decode?_encode` says that reading undoes writing, `scan_encode` that a written
text ends at its closing quote.
-/

namespace VariantGraph.Json.Text

/-! ## Hexadecimal digits -/

/-- The digit of a value below sixteen, in lower case. -/
def hexDigit (n : Nat) : Char :=
  if n < 10 then Char.ofNat ('0'.toNat + n) else Char.ofNat ('a'.toNat + (n - 10))

/-- The value of a hexadecimal digit in either case. -/
def hexValue? (c : Char) : Option Nat :=
  if '0' ≤ c ∧ c ≤ '9' then some (c.toNat - '0'.toNat)
  else if 'a' ≤ c ∧ c ≤ 'f' then some (c.toNat - 'a'.toNat + 10)
  else if 'A' ≤ c ∧ c ≤ 'F' then some (c.toNat - 'A'.toNat + 10)
  else none

/-- The value of four hexadecimal digits. -/
def hexValue4? (a b c d : Char) : Option Nat :=
  (hexValue? a).bind fun a => (hexValue? b).bind fun b =>
    (hexValue? c).bind fun c => (hexValue? d).map fun d => ((a * 16 + b) * 16 + c) * 16 + d

theorem hexValue?_hexDigit {n : Nat} (h : n < 16) : hexValue? (hexDigit n) = some n := by
  have hall : ∀ n ∈ List.range 16, hexValue? (hexDigit n) = some n := by decide
  exact hall n (List.mem_range.2 h)

/-! ## Writing -/

/-- How a character is written in a string. -/
def encodeChar (c : Char) : List Char :=
  if c = '"' then ['\\', '"']
  else if c = '\\' then ['\\', '\\']
  else if c = '\x08' then ['\\', 'b']
  else if c = '\x0c' then ['\\', 'f']
  else if c = '\n' then ['\\', 'n']
  else if c = '\r' then ['\\', 'r']
  else if c = '\t' then ['\\', 't']
  else if c.toNat < 0x20 then
    ['\\', 'u', '0', '0', hexDigit (c.toNat / 16), hexDigit (c.toNat % 16)]
  else [c]

/-- How a text is written between quotes. -/
def encode (s : List Char) : List Char := s.flatMap encodeChar

/-! ## Reading -/

/-- The character of a short escape. -/
def unescape? (c : Char) : Option Char :=
  if c = '"' then some '"'
  else if c = '\\' then some '\\'
  else if c = '/' then some '/'
  else if c = 'b' then some '\x08'
  else if c = 'f' then some '\x0c'
  else if c = 'n' then some '\n'
  else if c = 'r' then some '\r'
  else if c = 't' then some '\t'
  else none

/-- The first half of a surrogate pair. -/
def isHigh (n : Nat) : Bool := 0xD800 ≤ n && n < 0xDC00

/-- The second half of a surrogate pair. -/
def isLow (n : Nat) : Bool := 0xDC00 ≤ n && n < 0xE000

/-- The text that a written string denotes; `none` if an escape denotes no character. -/
def decode? : List Char → Option (List Char)
  | [] => some []
  | '\\' :: 'u' :: a :: b :: c :: d :: rest =>
    match hexValue4? a b c d with
    | none => none
    | some n =>
      if isHigh n then
        match rest with
        | '\\' :: 'u' :: e :: f :: g :: h :: rest =>
          match hexValue4? e f g h with
          | none => none
          | some m =>
            if isLow m then
              (decode? rest).map (Char.ofNat (0x10000 + (n - 0xD800) * 0x400 + (m - 0xDC00)) :: ·)
            else none
        | _ => none
      else if isLow n then none
      else (decode? rest).map (Char.ofNat n :: ·)
  | '\\' :: c :: rest =>
    match unescape? c with
    | none => none
    | some u => (decode? rest).map (u :: ·)
  | '\\' :: [] => none
  | c :: rest => (decode? rest).map (c :: ·)

/-- Splits what follows an opening quote at the closing one. Escapes have to be well formed, and
control characters have to be escaped. -/
def scan : List Char → Option (List Char × List Char)
  | [] => none
  | '"' :: rest => some ([], rest)
  | '\\' :: 'u' :: a :: b :: c :: d :: rest =>
    if (hexValue4? a b c d).isSome then
      (scan rest).map fun p => ('\\' :: 'u' :: a :: b :: c :: d :: p.1, p.2)
    else none
  | '\\' :: c :: rest =>
    if (unescape? c).isSome then (scan rest).map fun p => ('\\' :: c :: p.1, p.2) else none
  | c :: rest =>
    if c = '\\' ∨ c.toNat < 0x20 then none else (scan rest).map fun p => (c :: p.1, p.2)

theorem length_lt_of_scan {s t r : List Char} (h : scan s = some (t, r)) :
    r.length < s.length := by
  fun_induction scan s generalizing t r with
  | case1 => simp at h
  | case2 => simp_all
  | case3 a b c d rest hx ih =>
    obtain ⟨⟨t', r'⟩, hs, he⟩ := Option.map_eq_some_iff.1 h
    have := ih hs
    obtain ⟨rfl, rfl⟩ := Prod.mk.inj he
    simp only [List.length_cons]
    omega
  | case4 => simp at h
  | case5 c rest _ hx ih =>
    obtain ⟨⟨t', r'⟩, hs, he⟩ := Option.map_eq_some_iff.1 h
    have := ih hs
    obtain ⟨rfl, rfl⟩ := Prod.mk.inj he
    simp only [List.length_cons]
    omega
  | case6 => simp at h
  | case7 => simp at h
  | case8 c rest _ _ _ hx ih =>
    obtain ⟨⟨t', r'⟩, hs, he⟩ := Option.map_eq_some_iff.1 h
    have := ih hs
    obtain ⟨rfl, rfl⟩ := Prod.mk.inj he
    simp only [List.length_cons]
    omega

/-! ## Reading undoes writing -/

theorem hexValue4?_control {n : Nat} (h : n < 0x20) :
    hexValue4? '0' '0' (hexDigit (n / 16)) (hexDigit (n % 16)) = some n := by
  have h0 : hexValue? '0' = some 0 := rfl
  rw [hexValue4?, h0, hexValue?_hexDigit (by omega), hexValue?_hexDigit (by omega)]
  simp only [Option.bind_some, Option.map_some, Option.some.injEq]
  omega

theorem decode?_plain {c : Char} (h : c ≠ '\\') (rest : List Char) :
    decode? (c :: rest) = (decode? rest).map (c :: ·) := by
  rw [decode?]
  all_goals simp_all

theorem scan_plain {c : Char} (hq : c ≠ '"') (hb : c ≠ '\\') (hc : ¬ c.toNat < 0x20)
    (rest : List Char) : scan (c :: rest) = (scan rest).map fun p => (c :: p.1, p.2) := by
  rw [scan]
  · rw [if_neg (not_or.2 ⟨hb, hc⟩)]
  · exact hq
  · exact fun _ _ _ _ _ h _ => hb h
  · exact fun _ _ h _ => hb h

theorem decode?_encodeChar (c : Char) (rest : List Char) :
    decode? (encodeChar c ++ rest) = (decode? rest).map (c :: ·) := by
  unfold encodeChar
  split
  · next h => subst h; rfl
  split
  · next h => subst h; rfl
  split
  · next h => subst h; rfl
  split
  · next h => subst h; rfl
  split
  · next h => subst h; rfl
  split
  · next h => subst h; rfl
  split
  · next h => subst h; rfl
  split
  · next h =>
    simp only [List.cons_append, List.nil_append]
    rw [decode?, hexValue4?_control h]
    have hh : isHigh c.toNat = false := by simp [isHigh]; omega
    have hl : isLow c.toNat = false := by simp [isLow]; omega
    simp [hh, hl]
  · next hq hb _ _ _ _ _ _ =>
    exact decode?_plain hb rest

theorem scan_encodeChar (c : Char) (rest : List Char) :
    scan (encodeChar c ++ rest) = (scan rest).map fun p => (encodeChar c ++ p.1, p.2) := by
  unfold encodeChar
  split
  · rfl
  split
  · rfl
  split
  · rfl
  split
  · rfl
  split
  · rfl
  split
  · rfl
  split
  · rfl
  split
  · next h =>
    simp only [List.cons_append, List.nil_append]
    rw [scan, hexValue4?_control h]
    simp
  · next hq hb _ _ _ _ _ hc =>
    exact scan_plain hq hb hc rest

theorem decode?_encode (s : List Char) : decode? (encode s) = some s := by
  induction s with
  | nil => rfl
  | cons c rest ih =>
    rw [encode, List.flatMap_cons, decode?_encodeChar]
    simp [← encode.eq_def, ih]

theorem scan_encode (s rest : List Char) :
    scan (encode s ++ '"' :: rest) = some (encode s, rest) := by
  induction s with
  | nil => rfl
  | cons c s ih =>
    rw [encode, List.flatMap_cons, List.append_assoc, scan_encodeChar, ← encode.eq_def, ih]
    rfl

end VariantGraph.Json.Text
