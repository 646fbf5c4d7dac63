/-!
# Control sequences of terminals

A text for a terminal holds control sequences, which change how it looks. Away from a terminal only
what they leave to be seen is written. A sequence starts with an escape character, and what follows
decides how far it goes. Line ends and tabs are seen even where they interrupt a sequence, unless it
carries a payload; what follows them is seen too, up to the next control character.

Main statements: `visible_of_printable` says that a text without control characters is seen as it
is, `escape_not_mem_visible` that nothing of the start of a sequence is seen.
-/

namespace VariantGraph.Text

/-! ## Reading control sequences -/

/-- How far a control sequence has been read. -/
inductive ControlState where
  /-- Outside of all sequences. -/
  | ground
  /-- Behind the escape character. -/
  | escape
  /-- In a sequence of the escape character and intermediate ones, up to its last character. -/
  | escapeIntermediate
  /-- In the parameters of a sequence that a bracket introduces. -/
  | control
  /-- In the head of a sequence with a payload: at its start, in its parameters, or behind
  these. -/
  | deviceEntry
  | deviceParameters
  | deviceIntermediate
  /-- In a payload. -/
  | payload
  /-- In a command for the system around the terminal, such as a title. -/
  | system
deriving DecidableEq, Repr

/-- The character that starts a control sequence. -/
def escapeChar : Char := '\x1b'

/-- Makes a text bold on a terminal. -/
def bold (s : String) : String := "\x1b[1m" ++ s ++ "\x1b[0m"

namespace ControlState

/-- Whether a code point lies between two others. -/
def within (low high : Nat) (c : Char) : Bool := low ≤ c.toNat && c.toNat ≤ high

/-- Whether a control character moves what is seen. -/
def isSpacing (c : Char) : Bool := c == '\t' || c == '\n' || c == '\x0c' || c == '\r'

/-- Whether a character is seen outside of all sequences for itself. -/
def isPrintable (c : Char) : Bool := 0x20 ≤ c.toNat && c.toNat != 0x7F

/-- Whether a character is seen. -/
def shows : ControlState → Char → Bool
  | ground, c => isPrintable c || isSpacing c
  | escape, c | escapeIntermediate, c | control, c => isSpacing c
  | _, _ => false

/-- Whether a character ends a payload: one of the bytes that it is written with is the one that
terminates strings. -/
def endsPayload (c : Char) : Bool := 0x80 ≤ c.toNat && (String.utf8EncodeChar c).contains 0x9C

/-- What the character behind the escape character introduces. -/
def introduced (c : Char) : ControlState :=
  if c = '[' then control
  else if c = ']' then system
  else if c = 'P' then deviceEntry
  else if c = 'X' ∨ c = '^' ∨ c = '_' then payload
  else if within 0x20 0x2F c then escapeIntermediate
  else if within 0x30 0x7E c then ground
  else escape

/-- How the head of a sequence with a payload goes on, with the states that numbers and marks of
private parameters lead to. -/
def inHead (s number mark : ControlState) (c : Char) : ControlState :=
  if within 0x40 0x7E c then payload
  else if within 0x20 0x2F c then deviceIntermediate
  else if within 0x30 0x3B c then number
  else if within 0x3C 0x3F c then mark
  else s

/-- The state behind a character. -/
def next (s : ControlState) (c : Char) : ControlState :=
  if c = escapeChar then escape
  else if c = '\x18' ∨ c = '\x1a' then ground
  else
    match s with
    | ground => ground
    | escape => introduced c
    | escapeIntermediate => if within 0x30 0x7E c then ground else s
    | control => if within 0x40 0x7E c then ground else s
    | deviceEntry => inHead s deviceParameters deviceParameters c
    | deviceParameters => inHead s deviceParameters payload c
    | deviceIntermediate => inHead s payload payload c
    | payload => if endsPayload c then ground else s
    | system => if c = '\x07' then ground else s

/-- The state that decides about a character: behind one that is seen there is no sequence. -/
def ahead (s : ControlState) (inText : Bool) : ControlState := if inText then ground else s

/-- What is seen of a text from a state on, where `inText` says that the character before it is
seen. The state is taken up again behind the characters that are seen, unless one of them is not
ASCII. -/
def visibleFrom (s : ControlState) (inText : Bool) : List Char → List Char
  | [] => []
  | c :: rest =>
    if (s.ahead inText).shows c then
      c :: visibleFrom (if 0x80 ≤ c.toNat then ground else s) true rest
    else visibleFrom (s.next c) false rest

end ControlState

/-- What is seen of a text when its control sequences are left out. -/
def visible (s : String) : String := String.ofList (ControlState.ground.visibleFrom false s.toList)

/-! ## What is seen -/

namespace ControlState

theorem visibleFrom_of_printable {s : List Char} (h : ∀ c ∈ s, ground.shows c = true)
    (inText : Bool) : ground.visibleFrom inText s = s := by
  induction s generalizing inText with
  | nil => rfl
  | cons c rest ih =>
    have hc : ground.shows c = true := h c (by simp)
    have hrest := ih fun x hx => h x (List.mem_cons_of_mem _ hx)
    simp [visibleFrom, ahead, hc, hrest]

theorem shows_escapeChar (s : ControlState) : s.shows escapeChar = false := by
  cases s <;> decide

theorem escape_not_mem_visibleFrom (s : ControlState) (inText : Bool) (t : List Char) :
    escapeChar ∉ s.visibleFrom inText t := by
  induction t generalizing s inText with
  | nil => simp [visibleFrom]
  | cons c rest ih =>
    unfold visibleFrom
    split
    · next hs =>
      have hne : escapeChar ≠ c := by
        rintro rfl
        rw [shows_escapeChar] at hs
        exact Bool.noConfusion hs
      simp [hne, ih]
    · exact ih _ _

end ControlState

theorem visible_of_printable {s : String}
    (h : ∀ c ∈ s.toList, ControlState.ground.shows c = true) : visible s = s := by
  rw [visible, ControlState.visibleFrom_of_printable h, String.ofList_toList]

theorem escape_not_mem_visible (s : String) : escapeChar ∉ (visible s).toList := by
  rw [visible, String.toList_ofList]
  exact ControlState.escape_not_mem_visibleFrom _ _ _

end VariantGraph.Text
