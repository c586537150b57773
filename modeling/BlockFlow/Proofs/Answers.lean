import BlockFlow.Proofs.Ordering
import BlockFlow.Proofs.Transcript

/-!
Values that an answer can hold. An answer has its entries in order, so what it holds must have names that can be compared.

* `Value.Alike`, `Value.less_isOk`: names that can be compared.
* `Value.Sendable`: the value can stand in an answer.
* `Value.sendable_dict`: **a dictionary can be answered exactly if its names are alike and its values can be answered.**
* `Value.IsRead.sendable`: all that is read can be answered.
-/

namespace BlockFlow

/-- An outcome with a result. -/
def Succeeds {α : Type} (outcome : Except Fault α) : Prop := ∃ a, outcome = .ok a

section Succeeds

variable {α β : Type} {step : Except Fault α}

theorem succeeds_bind {next : α → Except Fault β} : Succeeds (step >>= next) ↔ ∃ a, step = .ok a ∧ Succeeds (next a) := by
  simp only [Succeeds, bind_eq_ok]
  exact ⟨fun ⟨b, a, ha, hb⟩ => ⟨a, ha, b, hb⟩, fun ⟨a, ha, b, hb⟩ => ⟨b, a, ha, hb⟩⟩

theorem succeeds_bind_pure {g : α → β} : Succeeds (step >>= fun a => pure (g a)) ↔ Succeeds step := by
  rw [succeeds_bind]
  exact ⟨fun ⟨a, ha, _⟩ => ⟨a, ha⟩, fun ⟨a, ha⟩ => ⟨a, ha, ⟨_, rfl⟩⟩⟩

theorem succeeds_cons {rest : Except Fault (List α)} :
    Succeeds (step >>= fun a => rest >>= fun as => pure (a :: as)) ↔ Succeeds step ∧ Succeeds rest := by
  rw [succeeds_bind]
  constructor
  · rintro ⟨a, ha, hrest⟩
    exact ⟨⟨a, ha⟩, succeeds_bind_pure.1 hrest⟩
  · rintro ⟨⟨a, ha⟩, hrest⟩
    exact ⟨a, ha, succeeds_bind_pure.2 hrest⟩

theorem succeeds_mapM {step : α → Except Fault β} {xs : List α} :
    Succeeds (xs.mapM step) ↔ ∀ x ∈ xs, Succeeds (step x) := by
  induction xs with
  | nil => exact iff_of_true ⟨[], rfl⟩ (by simp)
  | cons x xs ih => rw [List.mapM_cons, succeeds_cons, ih, List.forall_mem_cons]

end Succeeds

namespace Value

/-! ## Names that can be compared -/

/-- Two texts, or two numbers. -/
def Alike (a b : Value) : Prop := a.IsText ∧ b.IsText ∨ a.magnitude?.isSome ∧ b.magnitude?.isSome

theorem Alike.symm {a b : Value} (h : Alike a b) : Alike b a := h.imp And.symm And.symm

theorem Alike.trans {a b c : Value} (hab : Alike a b) (hbc : Alike b c) : Alike a c := by
  rcases hab with ⟨ha, s, rfl⟩ | ⟨ha, hb⟩
  · rcases hbc with ⟨-, hc⟩ | ⟨hb, -⟩
    · exact Or.inl ⟨ha, hc⟩
    · cases hb
  · rcases hbc with ⟨⟨s, rfl⟩, -⟩ | ⟨-, hc⟩
    · cases hb
    · exact Or.inr ⟨ha, hc⟩

theorem alike_texts (s t : String) : Alike (.text s) (.text t) := Or.inl ⟨⟨s, rfl⟩, ⟨t, rfl⟩⟩

/-- What can be written as a name has an order with all that is like it, and with nothing else. -/
theorem less_isOk {a b : Value} (ha : a.IsScalar) (hb : b.IsScalar) : Succeeds (less a b) ↔ Alike a b := by
  obtain ⟨s, hs⟩ := ha
  obtain ⟨t, ht⟩ := hb
  cases a with
  | bytes | list | tuple | dict => cases hs
  | _ =>
    cases b with
    | bytes | list | tuple | dict => cases ht
    | _ => simp [Succeeds, less, atomLess, magnitude?, Alike, IsText]

/-! ## Values in answers -/

/-- The value can stand in an answer. -/
def Sendable (v : Value) : Prop := Succeeds (Json.normal v)

theorem succeeds_normalAll {xs : List Value} : Succeeds (Json.normalAll xs) ↔ ∀ x ∈ xs, x.Sendable := by
  induction xs with
  | nil => exact iff_of_true ⟨[], rfl⟩ (by simp)
  | cons x xs ih =>
    rw [Json.normalAll, succeeds_cons, ih, List.forall_mem_cons]
    rfl

theorem sendable_list {xs : List Value} : (Value.list xs).Sendable ↔ ∀ x ∈ xs, x.Sendable := by
  rw [Sendable, Json.normal, succeeds_bind_pure, succeeds_normalAll]

/-- What becomes of an entry. -/
def normalEntry (e : Value × Value) : Except Fault (Value × Value) := do
  let name ← Json.keyText e.1
  let first ← Json.normal e.2
  return (.text name, first)

theorem normalEntries_eq (es : List (Value × Value)) : Json.normalEntries es = es.map fun e => (e.1, normalEntry e) := by
  induction es with
  | nil => rfl
  | cons e es ih =>
    rw [Json.normalEntries, ih]
    rfl

theorem succeeds_normalEntry {e : Value × Value} (h : e.1.IsScalar) : Succeeds (normalEntry e) ↔ e.2.Sendable := by
  obtain ⟨name, hname⟩ := h
  rw [normalEntry, hname]
  exact succeeds_bind_pure

/-- **A dictionary can be answered exactly if its names are alike and its values can be answered.** -/
theorem sendable_dict {es : List (Value × Value)} (h : ∀ e ∈ es, e.1.IsScalar) :
    (Value.dict es).Sendable ↔ es.Pairwise (fun a b => Alike a.1 b.1) ∧ ∀ e ∈ es, e.2.Sendable := by
  have hscalar : ∀ p ∈ Json.normalEntries es, p.1.IsScalar := by
    rw [normalEntries_eq]
    exact List.forall_mem_map.2 h
  have hlike : Sorting.Likeness (fun a b : Value × Except Fault (Value × Value) => less a.1 b.1)
      (fun a b => Alike a.1 b.1) (· ∈ Json.normalEntries es) :=
    ⟨fun ha hb => less_isOk (hscalar _ ha) (hscalar _ hb), .symm, .trans⟩
  have hsorted := Sorting.sortBy_isOk hlike
  have hpairs : (Json.normalEntries es).Pairwise (fun a b => Alike a.1 b.1) ↔ es.Pairwise (fun a b => Alike a.1 b.1) := by
    rw [normalEntries_eq, List.pairwise_map]
  have hvalues : (∀ p ∈ Json.normalEntries es, Succeeds p.2) ↔ ∀ e ∈ es, e.2.Sendable := by
    rw [normalEntries_eq, List.forall_mem_map]
    exact forall₂_congr fun e he => succeeds_normalEntry (h e he)
  rw [Sendable, Json.normal, succeeds_bind, ← hpairs, ← hsorted, ← hvalues]
  constructor
  · rintro ⟨sorted, hs, hrest⟩
    refine ⟨⟨sorted, hs⟩, fun p hp => ?_⟩
    exact succeeds_mapM.1 (succeeds_bind_pure.1 hrest) p ((Sorting.sortBy_perm hlike hs).mem_iff.2 hp)
  · rintro ⟨⟨sorted, hs⟩, hall⟩
    refine ⟨sorted, hs, succeeds_bind_pure.2 (succeeds_mapM.2 fun p hp => ?_)⟩
    exact hall p ((Sorting.sortBy_perm hlike hs).mem_iff.1 hp)

/-- Texts are all alike, so an object can be answered if its values can. -/
theorem sendable_object {fields : List (String × Value)} :
    (Value.object fields).Sendable ↔ ∀ f ∈ fields, f.2.Sendable := by
  have hscalar : ∀ e ∈ fields.map (fun f => (Value.text f.1, f.2)), e.1.IsScalar :=
    List.forall_mem_map.2 fun f _ => ⟨f.1, rfl⟩
  have halike : (fields.map fun f => (Value.text f.1, f.2)).Pairwise (fun a b => Alike a.1 b.1) := by
    rw [List.pairwise_map]
    exact List.pairwise_of_forall fun f g => alike_texts f.1 g.1
  rw [Value.object, sendable_dict hscalar, List.forall_mem_map]
  exact and_iff_right halike

theorem IsRead.sendable {v : Value} (h : v.IsRead) : v.Sendable := by
  induction h with
  | null | bool | int | real | text => simp [Sendable, Succeeds, Json.normal]
  | list _ ih => exact sendable_list.2 ih
  | object _ _ ih => exact sendable_object.2 ih

end Value

end BlockFlow
