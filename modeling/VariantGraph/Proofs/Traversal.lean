import Mathlib.Data.List.Forall2

/-!
# Computations that may fail

When a sequence of computations, a loop or a function applied to the members of a list does not
fail, none of its steps does, and the results belong together step by step.

Main statements: `bind_eq_ok_iff`, `foldlM_ok_induction`, `mapM_eq_ok_iff`.
-/

namespace VariantGraph

theorem bind_eq_ok_iff {α β ε : Type} {x : Except ε α} {f : α → Except ε β} {b : β} :
    x >>= f = .ok b ↔ ∃ a, x = .ok a ∧ f a = .ok b := by
  cases x <;> simp [bind, Except.bind]

theorem exists_bind_eq_ok_iff {α β ε : Type} {x : Except ε α} {f : α → Except ε β} :
    (∃ b, x >>= f = .ok b) ↔ ∃ a, x = .ok a ∧ ∃ b, f a = .ok b := by
  simp only [bind_eq_ok_iff]
  constructor
  · rintro ⟨b, a, ha, hb⟩
    exact ⟨a, ha, b, hb⟩
  · rintro ⟨a, ha, b, hb⟩
    exact ⟨b, a, ha, hb⟩

/-- When what follows fails or not whatever comes first, the two parts are independent. -/
theorem exists_bind_eq_ok_iff_and {α β ε : Type} {x : Except ε α} {f : α → Except ε β} {P : Prop}
    (h : ∀ a, (∃ b, f a = .ok b) ↔ P) : (∃ b, x >>= f = .ok b) ↔ (∃ a, x = .ok a) ∧ P := by
  rw [exists_bind_eq_ok_iff, ← exists_and_right]
  exact exists_congr fun a => and_congr_right fun _ => h a

theorem exists_bind_pure_eq_ok_iff {α β ε : Type} {x : Except ε α} {g : α → β} :
    (∃ b, (x >>= fun a => pure (g a)) = .ok b) ↔ ∃ a, x = .ok a := by
  rw [exists_bind_eq_ok_iff]
  exact exists_congr fun a => and_iff_left ⟨g a, rfl⟩

/-- What every step of a loop that may fail keeps, the loop keeps when it does not fail. -/
theorem foldlM_ok_induction {α β ε : Type} {f : β → α → Except ε β} {P : β → Prop} {l : List α}
    (hstep : ∀ a ∈ l, ∀ b b', P b → f b a = .ok b' → P b') {b b' : β} (hb : P b)
    (h : l.foldlM f b = .ok b') : P b' := by
  induction l generalizing b with
  | nil =>
    obtain rfl : b = b' := Except.ok.inj h
    exact hb
  | cons a rest ih =>
    rw [List.foldlM_cons] at h
    cases hf : f b a with
    | error e =>
      rw [hf] at h
      cases h
    | ok c =>
      rw [hf] at h
      exact ih (fun x hx => hstep x (List.mem_cons_of_mem _ hx))
        (hstep a List.mem_cons_self b c hb hf) h

section MapM

variable {α β ε : Type} {f : α → Except ε β}

theorem mapM_cons_eq_ok_iff {a : α} {l : List α} {l' : List β} :
    (a :: l).mapM f = .ok l' ↔ ∃ b bs, f a = .ok b ∧ l.mapM f = .ok bs ∧ b :: bs = l' := by
  rw [List.mapM_cons]
  cases f a with
  | error e => simp [bind, Except.bind]
  | ok b => cases l.mapM f <;> simp [bind, Except.bind, pure, Except.pure]

/-- A function that does not fail over a list gives the results for its members in their order. -/
theorem mapM_eq_ok_iff {l : List α} {l' : List β} :
    l.mapM f = .ok l' ↔ List.Forall₂ (fun a b => f a = .ok b) l l' := by
  induction l generalizing l' with
  | nil =>
    rw [List.mapM_nil, List.forall₂_nil_left_iff]
    exact ⟨fun h => (Except.ok.inj h).symm, fun h => h ▸ rfl⟩
  | cons a rest ih =>
    rw [mapM_cons_eq_ok_iff, List.forall₂_cons_left_iff]
    constructor
    · rintro ⟨b, bs, ha, hrest, rfl⟩
      exact ⟨b, bs, ha, ih.1 hrest, rfl⟩
    · rintro ⟨b, bs, ha, hrest, rfl⟩
      exact ⟨b, bs, ha, ih.2 hrest, rfl⟩

/-- What holds of a member and the result for it relates a list to the list of its results. -/
theorem forall₂_of_mapM_eq_ok {R : α → β → Prop} {l : List α} {l' : List β}
    (h : l.mapM f = .ok l') (hR : ∀ a ∈ l, ∀ b, f a = .ok b → R a b) : List.Forall₂ R l l' := by
  have hboth : List.Forall₂ (fun a b => (∀ b, f a = .ok b → R a b) ∧ f a = .ok b) l l' :=
    (List.forall₂_and_left l l').2 ⟨hR, mapM_eq_ok_iff.1 h⟩
  exact hboth.imp fun a b hab => hab.1 b hab.2

theorem exists_of_mem_of_forall₂ {R : α → β → Prop} {l : List α} {l' : List β}
    (h : List.Forall₂ R l l') {a : α} (ha : a ∈ l) : ∃ b ∈ l', R a b := by
  induction h with
  | nil => cases ha
  | @cons x y l l' hxy _ ih =>
    rcases List.mem_cons.1 ha with rfl | ha
    · exact ⟨y, List.mem_cons_self, hxy⟩
    · obtain ⟨b, hb, hab⟩ := ih ha
      exact ⟨b, List.mem_cons_of_mem _ hb, hab⟩

/-- A property of the members of a list, where it amounts to one of the related members of
another. -/
theorem forall_mem_iff_of_forall₂ {R : α → β → Prop} {P : α → Prop} {Q : β → Prop} {l : List α}
    {l' : List β} (h : List.Forall₂ R l l') (hPQ : ∀ a b, R a b → (P a ↔ Q b)) :
    (∀ a ∈ l, P a) ↔ ∀ b ∈ l', Q b := by
  induction h with
  | nil => simp
  | cons hab _ ih => rw [List.forall_mem_cons, List.forall_mem_cons, hPQ _ _ hab, ih]

/-- What relates the members of two lists relates the first list to the results for the second. -/
theorem forall₂_of_forall₂_mapM {γ : Type} {R : γ → α → Prop} {S : γ → β → Prop} {k : List γ}
    {l : List α} {l' : List β} (h : List.Forall₂ R k l) (hl : l.mapM f = .ok l')
    (hS : ∀ c ∈ k, ∀ a b, R c a → f a = .ok b → S c b) : List.Forall₂ S k l' := by
  induction h generalizing l' with
  | nil =>
    obtain rfl : [] = l' := Except.ok.inj hl
    exact .nil
  | @cons c a k l hca _ ih =>
    obtain ⟨b, bs, hb, hbs, rfl⟩ := mapM_cons_eq_ok_iff.1 hl
    exact .cons (hS c List.mem_cons_self a b hca hb)
      (ih hbs fun c hc => hS c (List.mem_cons_of_mem _ hc))

theorem map_eq_map_of_mapM_eq_ok {δ : Type} {g : α → δ} {k : β → δ} {l : List α} {l' : List β}
    (h : l.mapM f = .ok l') (hkg : ∀ a ∈ l, ∀ b, f a = .ok b → k b = g a) :
    l'.map k = l.map g := by
  have heq : List.Forall₂ (· = ·) (l.map g) (l'.map k) :=
    List.forall₂_map_left_iff.2 <| List.forall₂_map_right_iff.2 <|
      forall₂_of_mapM_eq_ok h fun a ha b hb => (hkg a ha b hb).symm
  rw [List.forall₂_eq_eq_eq] at heq
  exact heq.symm

theorem mapM_cons_eq_error_iff {a : α} {l : List α} {e : ε} : (a :: l).mapM f = .error e ↔
    f a = .error e ∨ (∃ b, f a = .ok b) ∧ l.mapM f = .error e := by
  rw [List.mapM_cons]
  cases f a with
  | error e' => simp [bind, Except.bind]
  | ok b => cases l.mapM f <;> simp [bind, Except.bind, pure, Except.pure]

/-- A function that does not fail over a list gives a result for each member. -/
theorem exists_of_mapM_eq_ok {l : List α} {l' : List β} (h : l.mapM f = .ok l') :
    ∀ a ∈ l, ∃ b ∈ l', f a = .ok b := by
  induction l generalizing l' with
  | nil => simp
  | cons a rest ih =>
    obtain ⟨b, bs, ha, hrest, rfl⟩ := mapM_cons_eq_ok_iff.1 h
    intro x hx
    rcases List.mem_cons.1 hx with rfl | hx
    · exact ⟨b, List.mem_cons_self, ha⟩
    · obtain ⟨y, hy, hfx⟩ := ih hrest x hx
      exact ⟨y, List.mem_cons_of_mem _ hy, hfx⟩

/-- A list over which a function fails has a member at which it fails so. -/
theorem exists_of_mapM_eq_error {l : List α} {e : ε} (h : l.mapM f = .error e) :
    ∃ a ∈ l, f a = .error e := by
  induction l with
  | nil => cases h
  | cons a rest ih =>
    rcases mapM_cons_eq_error_iff.1 h with ha | ⟨-, hrest⟩
    · exact ⟨a, List.mem_cons_self, ha⟩
    · obtain ⟨x, hx, hfail⟩ := ih hrest
      exact ⟨x, List.mem_cons_of_mem _ hx, hfail⟩

/-- A function does not fail over a list exactly if it fails for none of the members. -/
theorem exists_mapM_eq_ok_iff {l : List α} : (∃ l', l.mapM f = .ok l') ↔ ∀ a ∈ l, ∃ b, f a = .ok b := by
  constructor
  · rintro ⟨l', hl⟩ a ha
    obtain ⟨b, -, hb⟩ := exists_of_mapM_eq_ok hl a ha
    exact ⟨b, hb⟩
  · intro h
    cases hl : l.mapM f with
    | ok l' => exact ⟨l', rfl⟩
    | error e =>
      obtain ⟨a, ha, herror⟩ := exists_of_mapM_eq_error hl
      obtain ⟨b, hb⟩ := h a ha
      rw [herror] at hb
      cases hb

end MapM

end VariantGraph
