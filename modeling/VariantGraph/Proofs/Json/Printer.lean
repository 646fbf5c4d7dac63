import VariantGraph.Json.Reader
import VariantGraph.Proofs.Json.Number

/-!
# Reading printed JSON

A value of texts and 64-bit integers is read again from its indented text, and everything in it
denotes something. The machine is run over characters: whatever it is doing with the arrays and
objects around a value, the text of the value takes it from waiting for a value to having read this
one.

Main statements: `IsWritten.isSound`, `IsWritten.passes`, `parse?_pretty`.
-/

namespace VariantGraph.Json

/-! ## Values of texts and integers -/

/-- The object that has texts as its keys. -/
def ofMembers (members : List (String × Json)) : Json :=
  .object (members.map fun m => member m.1 m.2)

/-- A value whose strings and keys denote texts, whose numbers are 64-bit integers, and whose arrays
and objects are nested up to a number of levels. -/
inductive IsWritten : Nat → Json → Prop where
  | null {levels : Nat} : IsWritten levels .null
  | bool {levels : Nat} (b : Bool) : IsWritten levels (.bool b)
  | ofInt {levels : Nat} {i : Int} (h : i.natAbs < UInt64.size) : IsWritten levels (ofInt i)
  | ofText {levels : Nat} (s : String) : IsWritten levels (ofText s)
  | array {levels : Nat} {items : List Json} (h : ∀ v ∈ items, IsWritten levels v) :
    IsWritten (levels + 1) (.array items)
  | ofMembers {levels : Nat} {members : List (String × Json)}
    (h : ∀ m ∈ members, IsWritten levels m.2) : IsWritten (levels + 1) (ofMembers members)

/-! ## Everything denotes something -/

theorem areSound_of_forall {levels : Nat} {items : List Json}
    (h : ∀ v ∈ items, isSound levels v = true) : areSound levels items = true := by
  induction items with
  | nil => rfl
  | cons v rest ih =>
    obtain ⟨hv, hrest⟩ := List.forall_mem_cons.1 h
    rw [areSound, hv, ih hrest]
    rfl

theorem membersSound_of_forall {levels : Nat} {members : List (String × Json)}
    (h : ∀ m ∈ members, isSound levels m.2 = true) :
    membersSound levels (members.map fun m => member m.1 m.2) = true := by
  induction members with
  | nil => rfl
  | cons m rest ih =>
    obtain ⟨hm, hrest⟩ := List.forall_mem_cons.1 h
    rw [List.map_cons, member, membersSound, String.toList_ofList, Text.decode?_encode, hm,
      ih hrest]
    rfl

/-- Everything in a written value denotes something. -/
theorem IsWritten.isSound {levels : Nat} {j : Json} (h : IsWritten levels j) :
    isSound levels j = true := by
  induction h with
  | null => rfl
  | bool => rfl
  | ofInt h => exact Number.fitsDoubleByParts_toString h
  | ofText s => rw [Json.ofText, Json.isSound, String.toList_ofList, Text.decode?_encode]; rfl
  | array _ ih => simpa [Json.isSound] using areSound_of_forall ih
  | ofMembers _ ih => simpa [Json.isSound, Json.ofMembers] using membersSound_of_forall ih

/-! ## The characters of a printed value -/

section Characters

variable (level : Nat) (rest : List Char)

theorem toList_newline : (newline level).toList = '\n' :: List.replicate (2 * level) ' ' := by
  rw [newline, String.toList_append, String.toList_ofList, String.toList_ofList]
  rfl

theorem pretty_null_append :
    (pretty level .null).toList ++ rest = 'n' :: 'u' :: 'l' :: 'l' :: rest := by
  simp [pretty]

theorem pretty_true_append :
    (pretty level (.bool true)).toList ++ rest = 't' :: 'r' :: 'u' :: 'e' :: rest := by
  simp [pretty]

theorem pretty_false_append :
    (pretty level (.bool false)).toList ++ rest = 'f' :: 'a' :: 'l' :: 's' :: 'e' :: rest := by
  simp [pretty]

theorem pretty_ofText_append (s : String) :
    (pretty level (ofText s)).toList ++ rest = '"' :: (Text.encode s.toList ++ '"' :: rest) := by
  simp [pretty, ofText]

theorem pretty_array_nil_append :
    (pretty level (.array [])).toList ++ rest = '[' :: ']' :: rest := by
  simp [pretty]

theorem pretty_array_cons_append (v : Json) (items : List Json) :
    (pretty level (.array (v :: items))).toList ++ rest
      = '[' :: ((prettyItems (level + 1) (v :: items)).toList
          ++ ((newline level).toList ++ ']' :: rest)) := by
  simp [pretty]

theorem pretty_object_nil_append :
    (pretty level (.object [])).toList ++ rest = '\x7b' :: '\x7d' :: rest := by
  simp [pretty]

theorem pretty_object_cons_append (m : String × Json) (members : List (String × Json)) :
    (pretty level (.object (m :: members))).toList ++ rest
      = '\x7b' :: ((prettyMembers (level + 1) (m :: members)).toList
          ++ ((newline level).toList ++ '\x7d' :: rest)) := by
  simp [pretty]

theorem prettyItems_singleton_append (v : Json) :
    (prettyItems level [v]).toList ++ rest
      = (newline level).toList ++ ((pretty level v).toList ++ rest) := by
  simp [prettyItems]

theorem prettyItems_cons_append (v w : Json) (items : List Json) :
    (prettyItems level (v :: w :: items)).toList ++ rest
      = (newline level).toList ++ ((pretty level v).toList
          ++ ',' :: ((prettyItems level (w :: items)).toList ++ rest)) := by
  simp [prettyItems]

theorem prettyMembers_singleton_append (k : String) (v : Json) :
    (prettyMembers level [member k v]).toList ++ rest
      = (newline level).toList ++ '"' :: (Text.encode k.toList
          ++ '"' :: ':' :: ' ' :: ((pretty level v).toList ++ rest)) := by
  simp [prettyMembers, member]

theorem prettyMembers_cons_append (k : String) (v : Json) (m : String × Json)
    (members : List (String × Json)) :
    (prettyMembers level (member k v :: m :: members)).toList ++ rest
      = (newline level).toList ++ '"' :: (Text.encode k.toList
          ++ '"' :: ':' :: ' ' :: ((pretty level v).toList
            ++ ',' :: ((prettyMembers level (m :: members)).toList ++ rest))) := by
  simp [prettyMembers, member]

end Characters

/-! ## Running the machine over characters -/

namespace Machine

/-- Where the machine gets with the tokens of a text. -/
def run (m : Machine) (s : List Char) : Option Machine := (tokens s).bind fun l => l.foldlM step m

theorem run_nil (m : Machine) : run m [] = some m := by
  rw [run, tokens]
  rfl

theorem run_cons_of_isBlank (m : Machine) {c : Char} (h : isBlank c = true) (s : List Char) :
    run m (c :: s) = run m s := by
  rw [run, tokens, if_pos h]
  rfl

theorem run_of_nextToken (m : Machine) {c : Char} {s rest : List Char} {t : Token}
    (hc : isBlank c = false) (h : nextToken (c :: s) = some (t, rest)) :
    run m (c :: s) = (step m t).bind fun m' => run m' rest := by
  have htokens : tokens (c :: s) = (tokens rest).map (t :: ·) := by
    rw [tokens, hc, if_neg Bool.false_ne_true]
    split
    · next hn => simp [h] at hn
    · next hn =>
      obtain ⟨rfl, rfl⟩ := Prod.mk.inj (Option.some.inj (h.symm.trans hn))
      rfl
  simp only [run, htokens]
  cases tokens rest with
  | none => simp
  | some l => simp [List.foldlM_cons]

/-- The machine takes a single token. -/
theorem run_token {m m' : Machine} {c : Char} {s rest : List Char} {t : Token}
    (hc : isBlank c = false) (h : nextToken (c :: s) = some (t, rest)) (hm : step m t = some m') :
    run m (c :: s) = run m' rest := by
  rw [run_of_nextToken m hc h, hm, Option.bind_some]

/-! ### Single tokens -/

theorem run_newline (m : Machine) (level : Nat) (s : List Char) :
    run m ((newline level).toList ++ s) = run m s := by
  have hspaces : ∀ n, run m (List.replicate n ' ' ++ s) = run m s := fun n => by
    induction n with
    | zero => rfl
    | succ n ih => rw [List.replicate_succ, List.cons_append, run_cons_of_isBlank m rfl, ih]
  rw [toList_newline, List.cons_append, run_cons_of_isBlank m rfl, hspaces]

theorem run_string (m : Machine) (s : List Char) (rest : List Char) :
    run m ('"' :: (Text.encode s ++ '"' :: rest))
      = (step m (.atom (.string (String.ofList (Text.encode s))))).bind fun m' => run m' rest := by
  refine run_of_nextToken m rfl ?_
  rw [nextToken, Text.scan_encode]
  rfl

theorem nextToken_of_number {c : Char} {s : List Char} (h : Text.isDigit c = true ∨ c = '-') :
    nextToken (c :: s)
      = (Number.scan (c :: s)).map fun p => (.atom (.number (String.ofList p.1)), p.2) := by
  have hne : ∀ d, Text.isDigit d = false → d ≠ '-' → c ≠ d := by
    rintro d hd hminus rfl
    exact h.elim (fun h => Bool.false_ne_true (hd.symm.trans h)) hminus
  rw [nextToken]
  · exact fun heq => absurd heq (List.cons_ne_nil c s)
  all_goals
    intro rest heq
    exact hne _ (by decide) (by decide) (List.cons.inj heq).1

theorem run_toString (m : Machine) (i : Int) {rest : List Char} (h : Number.Ends rest) :
    run m ((toString i).toList ++ rest)
      = (step m (.atom (ofInt i))).bind fun m' => run m' rest := by
  obtain ⟨c, s, hs, hc⟩ : ∃ c s, (toString i).toList = c :: s ∧ (Text.isDigit c ∨ c = '-') := by
    cases i with
    | ofNat n =>
      rw [Int.ofNat_eq_natCast, Number.toList_toString_natCast]
      cases hs : Nat.toDigits 10 n with
      | nil => exact absurd hs Nat.toDigits_ne_nil
      | cons c s =>
        exact ⟨c, s, rfl, .inl (Number.isDigit_of_mem_toDigits (hs ▸ List.mem_cons_self))⟩
    | negSucc n => exact ⟨'-', _, Number.toList_toString_negSucc n, .inr rfl⟩
  have hscan := Number.scan_toString i h
  rw [hs, List.cons_append] at hscan ⊢
  have hblank : isBlank c = false := by
    rcases hc with hc | rfl
    · simp only [isBlank, Bool.or_eq_false_iff, beq_eq_false_iff_ne]
      exact ⟨⟨⟨Number.ne_of_isDigit hc rfl, Number.ne_of_isDigit hc rfl⟩,
        Number.ne_of_isDigit hc rfl⟩, Number.ne_of_isDigit hc rfl⟩
    · rfl
  refine run_of_nextToken m hblank ?_
  rw [nextToken_of_number hc, hscan, ← hs]
  simp [ofInt]

end Machine

/-! ## Reading values -/

/-- The text of a value takes the machine past the value. -/
def Passes (level : Nat) (j : Json) : Prop :=
  ∀ stack mayClose rest, Number.Ends rest →
    (Machine.value stack mayClose).run ((pretty level j).toList ++ rest)
      = (Machine.after stack j).run rest

namespace Machine

theorem ends_cons {c : Char} (h : c = '\n' ∨ c = ',') (s : List Char) : Number.Ends (c :: s) := by
  rintro d ⟨⟩
  obtain rfl | rfl := h <;> decide

theorem ends_newline (level : Nat) (s : List Char) : Number.Ends ((newline level).toList ++ s) := by
  rw [toList_newline]
  exact ends_cons (.inl rfl) _

/-- The text of items takes the machine from the start of the first one past the closing bracket,
with the items that it has read before in front. -/
theorem run_prettyItems {level : Nat} (stack : List Frame) (rest : List Char) (items : List Json) :
    ∀ (v : Json) (done : List Json) (mayClose : Bool), (∀ w ∈ v :: items, Passes (level + 1) w) →
      (value (.array done :: stack) mayClose).run
          ((prettyItems (level + 1) (v :: items)).toList ++ ((newline level).toList ++ ']' :: rest))
        = (after stack (.array (done.reverse ++ v :: items))).run rest := by
  induction items with
  | nil =>
    intro v done mayClose h
    have hclose : (after (.array done :: stack) v).run (']' :: rest)
        = (after stack (.array (v :: done).reverse)).run rest := run_token rfl rfl rfl
    rw [prettyItems_singleton_append, run_newline,
      h v List.mem_cons_self _ _ _ (ends_newline _ _), run_newline, hclose, List.reverse_cons]
  | cons w items ih =>
    intro v done mayClose h
    obtain ⟨hv, hrest⟩ := List.forall_mem_cons.1 h
    have hcomma : ∀ s, (after (.array done :: stack) v).run (',' :: s)
        = (value (.array (v :: done) :: stack) false).run s :=
      fun s => run_token rfl rfl rfl
    rw [prettyItems_cons_append, run_newline, hv _ _ _ (ends_cons (.inr rfl) _), hcomma,
      ih w (v :: done) false hrest, List.reverse_cons, List.append_assoc]
    rfl

/-- The text of a key takes the machine to the value. -/
theorem run_key (stack : List Frame) (done : List (String × Json)) (mayClose : Bool) (level : Nat)
    (k : String) (v : Json) (s : List Char) :
    (key stack done mayClose).run
        ((newline level).toList ++ '"' :: (Text.encode k.toList ++ '"' :: ':' :: ' ' :: s))
      = (value (.object done (member k v).1 :: stack) false).run s := by
  have hcolon : (colon stack done (member k v).1).run (':' :: ' ' :: s)
      = (value (.object done (member k v).1 :: stack) false).run (' ' :: s) :=
    run_token rfl rfl rfl
  rw [run_newline, run_string, step, Option.bind_some]
  exact hcolon.trans (run_cons_of_isBlank _ rfl s)

/-- The text of members takes the machine from the start of the first one past the closing brace,
with the members that it has read before in front. -/
theorem run_prettyMembers {level : Nat} (stack : List Frame) (rest : List Char)
    (members : List (String × Json)) :
    ∀ (m : String × Json) (done : List (String × Json)) (mayClose : Bool),
      (∀ m' ∈ m :: members, Passes (level + 1) m'.2) →
      (key stack done mayClose).run
          ((prettyMembers (level + 1) ((m :: members).map fun m => member m.1 m.2)).toList
            ++ ((newline level).toList ++ '\x7d' :: rest))
        = (after stack (.object
            (done.reverse ++ (m :: members).map fun m => member m.1 m.2))).run rest := by
  induction members with
  | nil =>
    intro m done mayClose h
    have hclose : ∀ k, (after (.object done k :: stack) m.2).run ('\x7d' :: rest)
        = (after stack (.object ((k, m.2) :: done).reverse)).run rest :=
      fun k => run_token rfl rfl rfl
    rw [List.map_singleton, prettyMembers_singleton_append, run_key _ _ _ _ _ m.2,
      h m List.mem_cons_self _ _ _ (ends_newline _ _), run_newline, hclose, List.reverse_cons]
    rfl
  | cons m' members ih =>
    intro m done mayClose h
    obtain ⟨hm, hrest⟩ := List.forall_mem_cons.1 h
    have hcomma : ∀ k s, (after (.object done k :: stack) m.2).run (',' :: s)
        = (key stack ((k, m.2) :: done) false).run s :=
      fun k s => run_token rfl rfl rfl
    have ih := ih m' (member m.1 m.2 :: done) false hrest
    rw [List.map_cons, List.map_cons, prettyMembers_cons_append, run_key _ _ _ _ _ m.2,
      hm _ _ _ (ends_cons (.inr rfl) _), hcomma]
    refine ih.trans ?_
    rw [List.reverse_cons, List.append_assoc]
    rfl

end Machine

/-- The induction is on the value; what surrounds it is a stack that the machine leaves alone. -/
theorem IsWritten.passes {levels : Nat} {j : Json} (h : IsWritten levels j) (level : Nat) :
    Passes level j := by
  induction h generalizing level with
  | null =>
    intro stack mayClose rest _
    rw [pretty_null_append]
    exact Machine.run_token rfl rfl rfl
  | bool b =>
    intro stack mayClose rest _
    cases b with
    | true => rw [pretty_true_append]; exact Machine.run_token rfl rfl rfl
    | false => rw [pretty_false_append]; exact Machine.run_token rfl rfl rfl
  | ofInt h =>
    intro stack mayClose rest hends
    exact Machine.run_toString _ _ hends
  | ofText s =>
    intro stack mayClose rest _
    rw [pretty_ofText_append]
    exact Machine.run_string _ _ _
  | @array levels items _ ih =>
    intro stack mayClose rest _
    have hopen : ∀ s, (Machine.value stack mayClose).run ('[' :: s)
        = (Machine.value (.array [] :: stack) true).run s :=
      fun s => Machine.run_token rfl rfl rfl
    cases items with
    | nil =>
      rw [pretty_array_nil_append, hopen]
      exact Machine.run_token rfl rfl rfl
    | cons v items =>
      rw [pretty_array_cons_append, hopen]
      exact Machine.run_prettyItems stack rest items v [] true fun w hw => ih w hw _
  | @ofMembers levels members _ ih =>
    intro stack mayClose rest _
    have hopen : ∀ s, (Machine.value stack mayClose).run ('\x7b' :: s)
        = (Machine.key stack [] true).run s :=
      fun s => Machine.run_token rfl rfl rfl
    cases members with
    | nil =>
      rw [Json.ofMembers, List.map_nil, pretty_object_nil_append, hopen]
      exact Machine.run_token rfl rfl rfl
    | cons m members =>
      rw [Json.ofMembers, List.map_cons, pretty_object_cons_append, hopen]
      exact Machine.run_prettyMembers stack rest members m [] true fun m' hm' => ih m' hm' _

/-- A value is read again from its indented text. -/
theorem parse?_pretty {levels : Nat} {j : Json} (h : IsWritten levels j) :
    parse? (pretty 0 j ++ "\n") = some j := by
  have hrun : Machine.start.run (pretty 0 j ++ "\n").toList = some (.after [] j) :=
    calc Machine.start.run (pretty 0 j ++ "\n").toList
        = Machine.start.run ((pretty 0 j).toList ++ ['\n']) := by
          rw [String.toList_append, String.toList_ofList]
      _ = (Machine.after [] j).run ['\n'] :=
          h.passes 0 [] false _ (Machine.ends_cons (.inl rfl) [])
      _ = some (.after [] j) :=
          (Machine.run_cons_of_isBlank _ rfl []).trans (Machine.run_nil _)
  rw [parse?, ← Option.bind_assoc, ← Machine.run, hrun]
  rfl

end VariantGraph.Json
