import BlockFlow.Proofs.Making

/-!
Saves that fail. A flow gets the time of its saving before a table is asked to take it. So a save that fails leaves the
tables as they were, but the flow with a time at which it was not saved.

* `Value.Bindable`, `Flow.Accepted`: values for a column that may stay empty, and flows that a table takes.
* `Flow.succeeds_row`: **a table takes a flow exactly if it can be written and its values can stand in their columns.**
* `Flow.Carries`, `Flow.stamped_eq_self`: flows that the time of their saving does not change.
* `Archive.save_unchanged_iff`: **a save that fails leaves tables and flow as they were exactly if the flow carries the time
  already.**
-/

namespace BlockFlow

/-! ## What a table takes -/

/-- A column that may stay empty takes the value. -/
def Value.Bindable : Value → Prop
  | .null | .real _ => True
  | v => v.Storable

theorem Value.bindable_iff {v : Value} (position : Nat) : v.Bindable ↔ Succeeds (Cell.ofValue position v) := by
  cases v with
  | null => exact iff_of_true trivial ⟨_, rfl⟩
  | real x => exact iff_of_true trivial ⟨_, rfl⟩
  | bool | text | bytes => exact iff_of_true trivial ⟨_, rfl⟩
  | int n =>
    show isWord n = true ↔ _
    rw [Cell.ofValue]
    by_cases hword : isWord n = true
    · rw [if_pos hword]
      exact iff_of_true hword ⟨_, rfl⟩
    · rw [if_neg hword]
      exact iff_of_false hword (not_succeeds_error _)
  | list | tuple | dict => exact iff_of_false not_false (not_succeeds_error _)

/-- A table takes the flow: it can be written, and each value can stand in its column. Only the identifier may be missing. -/
structure Flow.Accepted (f : Flow) : Prop where
  written : Succeeds f.exportText
  id : f.id.Bindable
  name : f.name.Storable
  createdAt : f.createdAt.Storable
  updatedAt : f.updatedAt.Storable

/-- A row is complete exactly if all columns but the identifier are filled. -/
theorem FlowRow.succeeds_check {r : FlowRow} : Succeeds r.check ↔
    r.name.isNull = false ∧ r.createdAt.isNull = false ∧ r.updatedAt.isNull = false ∧ r.document.isNull = false := by
  unfold check missing?
  cases r.name.isNull <;> cases r.createdAt.isNull <;> cases r.updatedAt.isNull <;> cases r.document.isNull <;>
    simp [Succeeds]

/-- **A table takes a flow exactly if it can be written and its values can stand in their columns.** -/
theorem Flow.succeeds_row {f : Flow} : Succeeds f.row ↔ f.Accepted := by
  constructor
  · rintro ⟨r, hr⟩
    obtain ⟨text, htext, hr⟩ := bind_eq_ok.1 hr
    obtain ⟨row, hrow, hr⟩ := bind_eq_ok.1 hr
    obtain ⟨⟨⟩, hcheck, -⟩ := bind_eq_ok.1 hr
    obtain ⟨id, hid, hrow⟩ := bind_eq_ok.1 hrow
    obtain ⟨name, hname, hrow⟩ := bind_eq_ok.1 hrow
    obtain ⟨created, hcreated, hrow⟩ := bind_eq_ok.1 hrow
    obtain ⟨updated, hupdated, hrow⟩ := bind_eq_ok.1 hrow
    obtain ⟨document, -, hrow⟩ := bind_eq_ok.1 hrow
    obtain rfl := Except.ok.inj hrow
    obtain ⟨hnamed, hmade, hchanged, -⟩ := FlowRow.succeeds_check.1 ⟨(), hcheck⟩
    exact ⟨⟨text, htext⟩, (Value.bindable_iff 1).2 ⟨id, hid⟩, (Value.storable_iff 2).2 ⟨name, hname, hnamed⟩,
      (Value.storable_iff 3).2 ⟨created, hcreated, hmade⟩, (Value.storable_iff 4).2 ⟨updated, hupdated, hchanged⟩⟩
  · rintro ⟨⟨text, htext⟩, hid, hname, hcreated, hupdated⟩
    obtain ⟨id, hid⟩ := (Value.bindable_iff 1).1 hid
    obtain ⟨name, hname, hnamed⟩ := (Value.storable_iff 2).1 hname
    obtain ⟨created, hcreated, hmade⟩ := (Value.storable_iff 3).1 hcreated
    obtain ⟨updated, hupdated, hchanged⟩ := (Value.storable_iff 4).1 hupdated
    have hrow : FlowRow.bind f.id f.name f.createdAt f.updatedAt (.text text) =
        .ok ⟨id, name, created, updated, .text text⟩ := by
      rw [FlowRow.bind, hid, hname, hcreated, hupdated]
      rfl
    obtain ⟨⟨⟩, hcheck⟩ := FlowRow.succeeds_check.2
      (show (FlowRow.mk id name created updated (.text text)).name.isNull = false ∧ _ from ⟨hnamed, hmade, hchanged, rfl⟩)
    refine ⟨⟨id, name, created, updated, .text text⟩, ?_⟩
    rw [row, htext]
    show (FlowRow.bind f.id f.name f.createdAt f.updatedAt (.text text) >>= fun row => row.check >>= fun _ => pure row) = _
    rw [hrow]
    show (FlowRow.check _ >>= fun _ => pure _) = _
    rw [hcheck]
    rfl

/-! ## Times of saving -/

/-- The flow has a time of its making, and the time as that of its last saving. -/
def Flow.Carries (f : Flow) (now : String) : Prop := f.createdAt.truthy = true ∧ f.updatedAt = .text now

/-- A flow stays the same with the time of its saving exactly if it carries it. -/
theorem Flow.stamped_eq_self {f : Flow} {now : String} (hnow : now ≠ "") : f.stamped now = f ↔ f.Carries now := by
  constructor
  · intro h
    have hcreated : f.createdAt.orElse (.text now) = f.createdAt := congrArg Flow.createdAt h
    have hupdated : Value.text now = f.updatedAt := congrArg Flow.updatedAt h
    refine ⟨?_, hupdated.symm⟩
    by_contra hfalsy
    rw [Value.orElse, if_neg hfalsy] at hcreated
    apply hfalsy
    rw [← hcreated]
    simpa [Value.truthy] using hnow
  · rintro ⟨hcreated, hupdated⟩
    rw [stamped, Value.orElse, if_pos hcreated, ← hupdated]

/-- A stamp has characters. -/
theorem Instant.savedStamp_ne_empty (t : Instant) : t.savedStamp ≠ "" := by
  intro hempty
  have hlength := congrArg String.length hempty
  simp [savedStamp, Stamp.write] at hlength

namespace Archive

variable {w : Workspace} {t : Instant}

/-- A flow is saved exactly if a table takes it with the time of its saving. -/
theorem succeeds_save (hnow : w.now = t.micros) :
    Succeeds (save w).1 ↔ (w.flow.stamped t.savedStamp).Accepted := by
  rw [save_apply hnow, Store.save_eq_map, ← Flow.succeeds_row]
  cases (w.flow.stamped t.savedStamp).row with
  | error fault => exact iff_of_false (not_succeeds_error fault) (not_succeeds_error fault)
  | ok r => exact iff_of_true ⟨_, rfl⟩ ⟨_, rfl⟩

/-- What a save that fails leaves: the tables, and the flow with the time. -/
theorem save_failed (hnow : w.now = t.micros) (h : ¬ Succeeds (save w).1) :
    (save w).2 = { w with store := some (w.store.getD {}), flow := w.flow.stamped t.savedStamp } := by
  rw [save_apply hnow] at h ⊢
  cases hsave : (w.store.getD {}).save (w.flow.stamped t.savedStamp) with
  | error fault => rfl
  | ok s =>
    rw [hsave] at h
    exact absurd ⟨_, rfl⟩ h

/-- **A save that fails leaves tables and flow as they were exactly if the flow carries the time already.** It fails if the
flow cannot be written, or a value cannot stand in its column. The tables are always left as they were, and so is all else
of the flow. -/
theorem save_unchanged_iff (hnow : w.now = t.micros) :
    (Succeeds (save w).1 ↔ (w.flow.stamped t.savedStamp).Accepted) ∧
      (¬ Succeeds (save w).1 →
        (save w).2 = { w with store := some (w.store.getD {}), flow := w.flow.stamped t.savedStamp } ∧
          ((save w).2.store.getD {} = w.store.getD {} ∧ (save w).2.flow = w.flow ↔ w.flow.Carries t.savedStamp)) := by
  refine ⟨succeeds_save hnow, fun hfail => ⟨save_failed hnow hfail, ?_⟩⟩
  rw [save_failed hnow hfail, ← Flow.stamped_eq_self t.savedStamp_ne_empty]
  exact and_iff_right rfl

/-! ## A name that is a list -/

/-- A flow that no table takes, with times, and a table that has a row of its identifier. -/
def listed (created updated : Value) : Workspace where
  flow := { id := .text "f", name := .list [], createdAt := created, updatedAt := updated }
  store := some { flows := [⟨.text "f", .text "Before", .text "then", .text "then", .text "[]"⟩] }
  now := Service.epoch.micros

theorem not_accepted_listed (created updated : Value) (now : String) :
    ¬ ((listed created updated).flow.stamped now).Accepted := fun h => h.name

/-- Row and flow are left as they were when the flow carries the time of the save. -/
theorem save_unchanged_iff_listed :
    ¬ Succeeds (save (listed (.text "then") (.text Service.epoch.savedStamp))).1 ∧
      (save (listed (.text "then") (.text Service.epoch.savedStamp))).2.store.getD {} =
        { flows := [⟨.text "f", .text "Before", .text "then", .text "then", .text "[]"⟩] } ∧
      (save (listed (.text "then") (.text Service.epoch.savedStamp))).2.flow =
        (listed (.text "then") (.text Service.epoch.savedStamp)).flow := by
  obtain ⟨hsaved, hleft⟩ :=
    save_unchanged_iff (w := listed (.text "then") (.text Service.epoch.savedStamp)) (t := Service.epoch) rfl
  have hfail := mt hsaved.1 (not_accepted_listed _ _ _)
  exact ⟨hfail, (hleft hfail).2.2 ⟨rfl, rfl⟩⟩

/-- **It gets two times when it has none,** though it is not saved. -/
theorem save_restamped :
    ¬ Succeeds (save (listed .null .null)).1 ∧
      (save (listed .null .null)).2.flow.createdAt = .text "1970-01-01T00:00:00.000Z" ∧
        (save (listed .null .null)).2.flow.updatedAt = .text "1970-01-01T00:00:00.000Z" := by
  have hstamp : Service.epoch.savedStamp = "1970-01-01T00:00:00.000Z" := by decide +kernel
  have hfail : ¬ Succeeds (save (listed .null .null)).1 :=
    mt (succeeds_save (t := Service.epoch) rfl).1 (not_accepted_listed _ _ _)
  refine ⟨hfail, ?_⟩
  rw [save_failed (t := Service.epoch) rfl hfail, ← hstamp]
  exact ⟨rfl, rfl⟩

end Archive

end BlockFlow
