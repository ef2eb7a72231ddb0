import Mathlib.Data.List.Forall2

/-!
# Computations that may fail

What is known of a computation that did not fail, and of one that is made on every item
of a list.
-/
namespace JvmLint

variable {ε α β : Type}

theorem exists_of_bind_eq_ok {x : Except ε α} {f : α → Except ε β} {b : β}
    (h : x >>= f = .ok b) : ∃ a, x = .ok a ∧ f a = .ok b := by
  cases x with
  | error e => cases h
  | ok a => exact ⟨a, rfl, h⟩

theorem exists_of_map_eq_ok {x : Except ε α} {f : α → β} {b : β} (h : x.map f = .ok b) :
    ∃ a, x = .ok a ∧ f a = b := by
  cases x with
  | error e => cases h
  | ok a => exact ⟨a, rfl, Except.ok.inj h⟩

theorem eq_ok_of_toOption {x : Except ε α} {a : α} (h : x.toOption = some a) : x = .ok a := by
  cases x with
  | error _ => cases h
  | ok b => exact congrArg Except.ok (Option.some.inj h)

theorem mapM_eq_ok {f : α → Except ε β} {g : α → β} {items : List α}
    (h : ∀ item ∈ items, f item = .ok (g item)) : items.mapM f = .ok (items.map g) := by
  induction items with
  | nil => rfl
  | cons item rest ih =>
    rw [List.forall_mem_cons] at h
    rw [List.mapM_cons, h.1, ih h.2]
    rfl

/-- Either every item has a result, or the first that has none decides the fault. -/
theorem mapM_except_cases (f : α → Except ε β) (items : List α) :
    (∃ results, items.mapM f = .ok results ∧
        List.Forall₂ (fun item result => f item = .ok result) items results) ∨
      ∃ before item after error, items = before ++ item :: after ∧
        (∀ earlier ∈ before, ∃ result, f earlier = .ok result) ∧ f item = .error error ∧
        items.mapM f = .error error := by
  induction items with
  | nil => exact .inl ⟨[], rfl, .nil⟩
  | cons item rest ih =>
    rw [List.mapM_cons]
    cases hitem : f item with
    | error error => exact .inr ⟨[], item, rest, error, rfl, List.forall_mem_nil _, hitem, rfl⟩
    | ok result =>
      obtain ⟨results, hrest, hall⟩ |
        ⟨before, failed, after, error, rfl, hbefore, hfailed, hrest⟩ := ih
      · exact .inl ⟨result :: results, by rw [hrest]; rfl, .cons hitem hall⟩
      · refine .inr ⟨item :: before, failed, after, error, rfl, ?_, hfailed, by rw [hrest]; rfl⟩
        rw [List.forall_mem_cons]
        exact ⟨⟨result, hitem⟩, hbefore⟩

end JvmLint
