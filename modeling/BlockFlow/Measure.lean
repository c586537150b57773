/-!
A measure for searches that mark what they have seen: the number of elements that are still unmarked.
-/

namespace BlockFlow

/-- Fewer elements pass a test that is stricter at one of them. -/
theorem countP_lt_countP {α : Type} {p q : α → Bool} {xs : List α} {a : α} (ha : a ∈ xs) (hq : q a = true)
    (hp : p a = false) (hpq : ∀ x, p x = true → q x = true) : xs.countP p < xs.countP q := by
  induction xs with
  | nil => simp at ha
  | cons x xs ih =>
    have hle : xs.countP p ≤ xs.countP q := List.countP_mono_left fun y _ => hpq y
    rcases List.mem_cons.1 ha with rfl | h
    · simp only [List.countP_cons, hq, hp, if_true]
      simp only [Bool.false_eq_true, if_false]
      omega
    · have := ih h
      simp only [List.countP_cons]
      cases hpx : p x with
      | true => simp [hpq x hpx]; omega
      | false => simp only [Bool.false_eq_true, if_false]; omega

end BlockFlow
