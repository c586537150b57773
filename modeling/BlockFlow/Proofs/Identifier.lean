import BlockFlow.Flow.Basic
import Mathlib.Data.List.Forall2

/-!
Texts as identifiers. On texts the key, the equality of containers and the equality of values all say the same as plain
equality, so that look-ups in a flow of textual identifiers can be read as look-ups by equality.

* `Value.IsText`: the value is a text.
* `Value.HasKey`, `Value.theKey`: the value has a key, and the key it has then.
* `Value.key_eq_text`, `Value.text_equal`: keys and equality at a text.
* `bind_eq_ok`, `mapM_ok`, `forall₂_of_mapM_ok`: two steps after each other, and a step on every element of a list.
* `Flow.ids`, `Flow.pairs`: the identifiers of the blocks and the ends of the edges, in order.
* `Flow.TextEnds`: both ends of every edge are texts.
-/

namespace BlockFlow

namespace Value

/-- The value is a text. -/
def IsText (v : Value) : Prop := ∃ s, v = .text s

@[simp] theorem key_text (s : String) : (Value.text s).key = .ok (.text s) := by
  rw [key]

/-- The key of a tuple is no text. -/
theorem keyOfAll_ne_text (items : List Value) (s : String) : keyOfAll items ≠ .ok (.text s) := by
  cases items with
  | nil => simp [keyOfAll]
  | cons v rest =>
    rw [keyOfAll]
    cases key v with
    | error f => simp
    | ok a => cases keyOfAll rest <;> simp

theorem ofReal_ne_text (x : Binary64) (s : String) : Key.ofReal x ≠ .text s := by
  unfold Key.ofReal
  split <;> simp

/-- Only the text itself has its key. -/
theorem key_eq_text {v : Value} {s : String} : v.key = .ok (.text s) ↔ v = .text s := by
  constructor
  · intro h
    cases v with
    | text t => simpa using h
    | tuple items =>
      rw [key] at h
      exact absurd h (keyOfAll_ne_text items s)
    | real x =>
      simp only [key, Except.ok.injEq] at h
      exact absurd h (ofReal_ne_text x s)
    | _ => simp [key] at h
  · rintro rfl
    exact key_text s

theorem atom?_eq_text {v : Value} {s : String} : v.atom? = some (.text s) ↔ v = .text s := by
  cases v <;> simp [atom?, ofReal_ne_text]

@[simp] theorem text_equal {s : String} {v : Value} : (Value.text s).equal v = true ↔ v = .text s := by
  simp [equal, same, isNan, atom?_eq_text]

/-- Equality of values is equality when the left one is a text. -/
theorem IsText.equal_iff {a b : Value} (h : a.IsText) : a.equal b = true ↔ b = a := by
  obtain ⟨s, rfl⟩ := h
  exact text_equal

/-- The value has a key. -/
def HasKey (v : Value) : Prop := ∃ k, v.key = .ok k

/-- The key of a value that has one. -/
def theKey (v : Value) : Key := v.key.toOption.getD .null

theorem HasKey.key_eq {v : Value} (h : v.HasKey) : v.key = .ok v.theKey := by
  obtain ⟨k, hk⟩ := h
  simp [theKey, hk, Except.toOption]

theorem IsText.hasKey {v : Value} (h : v.IsText) : v.HasKey := by
  obtain ⟨s, rfl⟩ := h
  exact ⟨_, key_text s⟩

@[simp] theorem theKey_text (s : String) : (Value.text s).theKey = .text s := by
  simp [theKey, Except.toOption]

theorem IsText.toValue_theKey {v : Value} (h : v.IsText) : v.theKey.toValue = v := by
  obtain ⟨s, rfl⟩ := h
  simp [Key.toValue]

/-- Among values with keys, only a text has the key of that text. -/
theorem HasKey.theKey_inj {a b : Value} (ha : a.HasKey) (hb : b.IsText) : a.theKey = b.theKey ↔ a = b := by
  obtain ⟨s, rfl⟩ := hb
  rw [theKey_text]
  constructor
  · intro h
    have hkey := ha.key_eq
    rw [h] at hkey
    exact key_eq_text.1 hkey
  · rintro rfl
    exact theKey_text s

/-- Only a text has the key of that text. -/
theorem IsText.theKey_inj {a b : Value} (hb : b.IsText) : a.theKey = b.theKey ↔ a = b := by
  refine ⟨fun h => ?_, congrArg theKey⟩
  cases ha : a.key with
  | ok k => exact (HasKey.theKey_inj ⟨k, ha⟩ hb).1 h
  | error fault =>
    obtain ⟨s, rfl⟩ := hb
    simp [theKey, ha, Except.toOption] at h

end Value

theorem bind_eq_ok {α β : Type} {first : Except Fault α} {next : α → Except Fault β} {b : β} :
    first >>= next = .ok b ↔ ∃ a, first = .ok a ∧ next a = .ok b := by
  cases first with
  | error fault => simp [bind, Except.bind]
  | ok a => simp [bind, Except.bind]

/-- A step that succeeds on every element succeeds on the list. -/
theorem mapM_ok {α β : Type} {step : α → Except Fault β} {result : α → β} {xs : List α}
    (h : ∀ x ∈ xs, step x = .ok (result x)) : xs.mapM step = .ok (xs.map result) := by
  induction xs with
  | nil => rfl
  | cons x xs ih =>
    rw [List.mapM_cons, h x (by simp), ih fun y hy => h y (List.mem_cons_of_mem _ hy)]
    rfl

/-- A step that succeeds on a list succeeds on every element. -/
theorem forall₂_of_mapM_ok {α β : Type} {step : α → Except Fault β} {xs : List α} {ys : List β}
    (h : xs.mapM step = .ok ys) : List.Forall₂ (fun x y => step x = .ok y) xs ys := by
  induction xs generalizing ys with
  | nil =>
    obtain rfl : [] = ys := Except.ok.inj h
    exact .nil
  | cons x xs ih =>
    rw [List.mapM_cons] at h
    obtain ⟨y, hy, h⟩ := bind_eq_ok.1 h
    obtain ⟨rest, hrest, h⟩ := bind_eq_ok.1 h
    obtain rfl : y :: rest = ys := Except.ok.inj h
    exact .cons hy (ih hrest)

theorem exists_of_forall₂ {α β : Type} {R : α → β → Prop} {xs : List α} {ys : List β} (h : List.Forall₂ R xs ys) :
    ∀ x ∈ xs, ∃ y, R x y := by
  induction h with
  | nil => simp
  | cons hxy _ ih => exact List.forall_mem_cons.2 ⟨⟨_, hxy⟩, ih⟩

theorem exists_mem_of_forall₂ {α β : Type} {R : α → β → Prop} {xs : List α} {ys : List β} (h : List.Forall₂ R xs ys) :
    ∀ x ∈ xs, ∃ y ∈ ys, R x y := by
  induction h with
  | nil => simp
  | @cons x y xs ys hxy _ ih =>
    refine List.forall_mem_cons.2 ⟨⟨y, List.mem_cons_self, hxy⟩, fun z hz => ?_⟩
    obtain ⟨t, ht, hzt⟩ := ih z hz
    exact ⟨t, List.mem_cons_of_mem _ ht, hzt⟩

namespace Flow

/-- The identifiers of the blocks, in order. -/
def ids (f : Flow) : List Value := f.blocks.map (·.id)

/-- The ends of the edges, in order. -/
def pairs (f : Flow) : List (Value × Value) := f.edges.map fun e => (e.source, e.target)

/-- Both ends of every edge are texts. -/
def TextEnds (f : Flow) : Prop := ∀ e ∈ f.edges, e.source.IsText ∧ e.target.IsText

end Flow

end BlockFlow
