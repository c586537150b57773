import BlockFlow.Proofs.FlowMap

/-!
Runs of an archive. Flows of any kind are saved and deleted by any identifiers, each at its instant; a save that fails leaves
the table as it is.

* `Flow.row`, `Store.write`, `Store.save_eq_map`: a flow is saved by writing its row, which does not depend on the table.
* `Store.find?_write_self`, `Store.find?_write_of_ne`, `Store.find?_erase_of_ne`: the row of an identifier after one is
  written or erased.
* `StoreWrite`, `StoreWrite.step`, `StoreWrite.run`: saves and deletions as steps of the archive, and many of them.
* `StoreWrite.change`, `StoreWrite.store_run`: **the table after a run is made by changes of the table alone.**
-/

namespace BlockFlow

/-! ## Rows that are written -/

/-- The row of a flow, if a table takes it. -/
def Flow.row (f : Flow) : Except Fault FlowRow := do
  let text ← f.exportText
  let row ← FlowRow.bind f.id f.name f.createdAt f.updatedAt (.text text)
  row.check
  return row

/-- What is exported of the flow is imported as the other. -/
def Flow.ReadsAs (f g : Flow) : Prop :=
  ∃ text n n', f.exportText = .ok text ∧ Flow.importText (.text text) n = (.ok g, n')

theorem Cell.holds_iff {a b : Cell} : a.holds b = true ↔ a.isNull = false ∧ a = b := by
  simp [Cell.holds]

/-- What the row of a flow holds. -/
theorem Flow.row_eq_ok {f : Flow} {r : FlowRow} (h : f.row = .ok r) :
    ∃ text, f.exportText = .ok text ∧ r.document = .text text ∧ Cell.ofValue 1 f.id = .ok r.id ∧
      Cell.ofValue 3 f.createdAt = .ok r.createdAt ∧ Cell.ofValue 4 f.updatedAt = .ok r.updatedAt ∧ r.check = .ok () := by
  obtain ⟨text, htext, h⟩ := bind_eq_ok.1 h
  obtain ⟨row, hrow, h⟩ := bind_eq_ok.1 h
  obtain ⟨⟨⟩, hcheck, h⟩ := bind_eq_ok.1 h
  obtain rfl := Except.ok.inj h
  obtain ⟨id, hid, hrow⟩ := bind_eq_ok.1 hrow
  obtain ⟨name, -, hrow⟩ := bind_eq_ok.1 hrow
  obtain ⟨created, hcreated, hrow⟩ := bind_eq_ok.1 hrow
  obtain ⟨updated, hupdated, hrow⟩ := bind_eq_ok.1 hrow
  obtain ⟨document, hdocument, hrow⟩ := bind_eq_ok.1 hrow
  obtain rfl := Except.ok.inj hrow
  exact ⟨text, htext, (Except.ok.inj hdocument).symm, hid, hcreated, hupdated, hcheck⟩

namespace Store

variable {s : Store} {r : FlowRow} {c d : Cell}

/-- What is written over a row: all but its identifier and the time of its making. -/
def overwrite (r old : FlowRow) : FlowRow :=
  if old.id.holds r.id then { old with name := r.name, updatedAt := r.updatedAt, document := r.document } else old

/-- The table with a complete row written into it. -/
def write (s : Store) (r : FlowRow) : Store :=
  { s with flows := if (s.find? r.id).isSome then s.flows.map (overwrite r) else s.flows ++ [r] }

theorem put_of_check (h : r.check = .ok ()) (s : Store) : s.put r = .ok (s.write r) := by
  rw [put, h, write]
  cases (s.find? r.id).isSome <;> rfl

/-- **A flow is saved by writing its row.** -/
theorem save_eq_map (s : Store) (f : Flow) : s.save f = f.row.map s.write := by
  rw [save, Flow.row]
  cases f.exportText with
  | error fault => rfl
  | ok text =>
    dsimp only [bind, Except.bind]
    cases FlowRow.bind f.id f.name f.createdAt f.updatedAt (.text text) with
    | error fault => rfl
    | ok row =>
      dsimp only
      cases hcheck : row.check with
      | error fault =>
        rw [put, hcheck]
        rfl
      | ok u => exact put_of_check hcheck s

@[simp] theorem id_overwrite (r old : FlowRow) : (overwrite r old).id = old.id := by
  unfold overwrite
  split <;> rfl

theorem find?_map_overwrite (r : FlowRow) (rows : List FlowRow) (c : Cell) :
    (rows.map (overwrite r)).find? (fun x => x.id.holds c) = (rows.find? fun x => x.id.holds c).map (overwrite r) := by
  rw [List.find?_map]
  simp only [Function.comp_def, id_overwrite]

theorem id_of_find? {x : FlowRow} (h : s.find? c = some x) : x.id.isNull = false ∧ x.id = c :=
  Cell.holds_iff.1 (by simpa using List.find?_some h)

/-- A row that was written is found, with the time of making of the row that it was written over. -/
theorem find?_write_self (hnull : r.id.isNull = false) : (s.write r).find? r.id = some (replacing r (s.find? r.id)) := by
  cases hfind : s.find? r.id with
  | none =>
    have hself : r.id.holds r.id = true := Cell.holds_iff.2 ⟨hnull, rfl⟩
    rw [write, hfind]
    rw [find?] at hfind ⊢
    simp [List.find?_append, hfind, hself, replacing]
  | some old =>
    have hold := id_of_find? hfind
    rw [write, hfind]
    rw [find?] at hfind ⊢
    simp only [Option.isSome_some, if_true, find?_map_overwrite, hfind, Option.map_some, overwrite, Cell.holds_iff.2 hold]
    simp [replacing, hold.2]

/-- A row of another identifier is found as before. -/
theorem find?_write_of_ne (h : r.id ≠ c) : (s.write r).find? c = s.find? c := by
  unfold write
  split
  · change (s.flows.map (overwrite r)).find? (fun x => x.id.holds c) = _
    rw [find?_map_overwrite]
    change (s.find? c).map (overwrite r) = _
    cases hfind : s.find? c with
    | none => rfl
    | some x =>
      have hother : x.id.holds r.id = false := by
        refine Bool.eq_false_iff.2 fun hholds => h ?_
        exact (Cell.holds_iff.1 hholds).2.symm.trans (id_of_find? hfind).2
      rw [Option.map_some, overwrite, hother]
      rfl
  · have hother : r.id.holds c = false := Bool.eq_false_iff.2 fun hholds => h (Cell.holds_iff.1 hholds).2
    simp [find?, List.find?_append, hother]

/-- A row is found as before when one of another identifier is erased. -/
theorem find?_erase_of_ne (h : d ≠ c) : (s.erase d).1.find? c = s.find? c := by
  rw [find?, find?, erase, List.find?_filter]
  congr 1
  funext x
  by_cases hx : x.id.holds c = true
  · have hother : x.id.holds d = false := by
      refine Bool.eq_false_iff.2 fun hholds => h ?_
      exact (Cell.holds_iff.1 hholds).2.symm.trans (Cell.holds_iff.1 hx).2
    simp [hx, hother]
  · simp [hx]

end Store

/-! ## Writes of the store -/

/-- A call of the store that writes: a flow is saved, or an identifier deleted. -/
inductive StoreWrite where
  | save (f : Flow)
  | delete (id : Value)

namespace StoreWrite

/-- The write as a step of the archive. -/
def step : StoreWrite → Work Unit
  | .save f => do
    Work.setFlow f
    Archive.save
  | .delete id => do
    let _ ← Archive.delete id

/-- The table after a write. -/
def change (t : Instant) (s : Store) : StoreWrite → Store
  | .save f =>
    match (f.stamped t.savedStamp).row with
    | .ok r => s.write r
    | .error _ => s
  | .delete id =>
    match Cell.ofValue 1 id with
    | .ok c => (s.erase c).1
    | .error _ => s

/-- A write changes the table as it is told. -/
theorem store_step {w : Workspace} {t : Instant} (hnow : w.now = t.micros) (write : StoreWrite) :
    (write.step w).2.store = some (write.change t (w.store.getD {})) := by
  cases write with
  | save f =>
    rw [step, Act.bind_apply, Work.setFlow_apply]
    dsimp only
    rw [Archive.save_apply (w := { w with flow := f }) hnow, Store.save_eq_map, change]
    cases (f.stamped t.savedStamp).row <;> rfl
  | delete id =>
    rw [step, Act.bind_apply, Archive.delete, Act.bind_apply, Session.store_apply]
    dsimp only
    rw [Act.bind_apply, Act.ofExcept_apply, change]
    cases Cell.ofValue 1 id with
    | error fault => rfl
    | ok c =>
      dsimp only
      cases ((w.store.getD {}).erase c).2 <;> rfl

/-- The workspace after writes, each at its instant. -/
def run (w : Workspace) (writes : List (Instant × StoreWrite)) : Workspace :=
  writes.foldl (fun w p => (p.2.step (w.setClock p.1)).2) w

/-- The table after writes. -/
def changeAll (s : Store) (writes : List (Instant × StoreWrite)) : Store := writes.foldl (fun s p => p.2.change p.1 s) s

/-- **The table after a run is made by changes of the table alone.** -/
theorem store_run (w : Workspace) (writes : List (Instant × StoreWrite)) :
    (run w writes).store.getD {} = changeAll (w.store.getD {}) writes := by
  induction writes generalizing w with
  | nil => rfl
  | cons p writes ih =>
    refine (ih _).trans ?_
    rw [store_step (t := p.1) rfl]
    rfl

end StoreWrite

end BlockFlow
