import BlockFlow.Canvas
import BlockFlow.Proofs.Editing

/-!
Edits as steps in a workspace. Each of them does to the flow what the edit does by itself; marks are drawn one after the
other, so they are fresh.

* `Edit.step`, `Workspace.stepAll`: an edit as a step, and the workspace after many.
* `numbered`: edits with the marks that are drawn for them.
* `Workspace.stepAll_flow`: **steps leave the flow that the numbered edits leave**, also where they fail.
* `marks_numbered`: no mark is drawn twice.
-/

namespace BlockFlow

/-- An edit as a step in a workspace, which draws the mark. -/
def Edit.step : Edit → Work Unit
  | .addBlock _ type position => discard (Canvas.addBlock type position)
  | .setParam id key value => do Work.setFlow (← Act.ofExcept ((← Work.flow).setParam id key value))
  | .amend id position params => do Work.edited ((← Work.flow).amend id position params)
  | .move id position => do Work.setFlow (← Act.ofExcept ((← Work.flow).move id position)).1
  | .removeBlock id => discard (Canvas.removeBlock id)
  | .clear => do Work.setFlow (← Work.flow).clear
  | .connect _ source target => discard (Canvas.connect source target)
  | .addEdge e => Canvas.addEdge e
  | .removeEdge id => discard (Canvas.removeEdge id)
  | .rebuild => do Work.edited (← Work.flow).rebuild

/-- The workspace after steps, one after the other, some of which may fail. -/
def Workspace.stepAll (w : Workspace) (edits : List Edit) : Workspace := edits.foldl (fun w edit => (edit.step w).2) w

/-- The edit with another mark. -/
def Edit.withMark (mark : String) : Edit → Edit
  | .addBlock _ type position => .addBlock mark type position
  | .connect _ source target => .connect mark source target
  | edit => edit

/-- Edits with the numbers that are drawn for them, from one on. -/
def numbered (n : Nat) : List Edit → List Edit
  | [] => []
  | edit :: rest => edit.withMark (intText n) :: numbered (if edit.mark?.isSome then n + 1 else n) rest

/-! ## One step -/

namespace Work

@[simp] theorem setFlow_apply (f : Flow) (w : Workspace) : setFlow f w = (.ok (), { w with flow := f }) := rfl

@[simp] theorem flow_apply (w : Workspace) : Work.flow w = (.ok w.flow, w) := rfl

@[simp] theorem draw_apply (sort : String) (w : Workspace) :
    draw sort w = (.ok (drawnId sort (intText w.serial)), { w with serial := w.serial + 1 }) := rfl

theorem edited_apply {α : Type} (edit : Edited Flow α) (w : Workspace) :
    edited edit w = (edit.2, { w with flow := edit.1 }) := by
  simp [edited, Act.bind_apply]

end Work

theorem Act.discard_apply {σ α : Type} (step : Act σ α) (s : σ) : (discard step s).2 = (step s).2 := by
  have hmap : discard step = (fun _ => ()) <$> step := rfl
  rw [hmap, Act.map_apply]
  rcases step s with ⟨fault | a, s'⟩ <;> rfl

namespace Canvas

/-- Adding an edge leaves the flow alone where it is refused. -/
theorem addEdge_apply (e : Edge) (w : Workspace) :
    ((addEdge e w).2.flow, (addEdge e w).2.serial) = (w.flow.settle (w.flow.addEdge e), w.serial) := by
  unfold addEdge
  cases h : w.flow.addEdge e with
  | ok f => simp [Act.bind_apply, h, Flow.settle]
  | error fault => cases ht : refusal? e fault <;> simp [Act.bind_apply, h, ht, Flow.settle]

theorem connect_apply (source target : Value) (w : Workspace) :
    (connect source target w).2 =
      (addEdge { id := drawnId "edge" (intText w.serial), source, target } { w with serial := w.serial + 1 }).2 := by
  have hnew : newEdge source target w =
      (.ok { id := drawnId "edge" (intText w.serial), source, target }, { w with serial := w.serial + 1 }) := by
    simp [newEdge, Act.map_apply]
  rw [connect, Act.bind_apply, hnew]
  simp only [Act.bind_apply]
  rcases addEdge _ _ with ⟨fault | a, w'⟩ <;> rfl

end Canvas

/-- A step does to the flow what the edit does with the mark that is next, and draws it where there is one. -/
theorem Edit.step_apply (edit : Edit) (w : Workspace) :
    ((edit.step w).2.flow, (edit.step w).2.serial) =
      (w.flow.perform (edit.withMark (intText w.serial)), if edit.mark?.isSome then w.serial + 1 else w.serial) := by
  cases edit with
  | addBlock mark type position =>
    rw [step, Act.discard_apply]
    simp [Canvas.addBlock, Act.bind_apply, Act.map_apply, withMark, mark?, Flow.perform]
  | setParam id key value =>
    cases h : w.flow.setParam id key value <;>
      simp [step, Act.bind_apply, h, withMark, mark?, Flow.perform, Flow.settle]
  | amend id position params =>
    simp [step, Act.bind_apply, Work.edited_apply, withMark, mark?, Flow.perform]
  | move id position =>
    cases h : w.flow.move id position <;>
      simp [step, Act.bind_apply, h, withMark, mark?, Flow.perform, Flow.settle, Except.map]
  | removeBlock id =>
    rw [step, Act.discard_apply]
    cases h : w.flow.block? id <;>
      simp [Canvas.removeBlock, Flow.removeBlock, Act.bind_apply, Act.map_apply, h, withMark, mark?, Flow.perform]
  | clear => rfl
  | connect mark source target =>
    rw [step, Act.discard_apply, Canvas.connect_apply, Canvas.addEdge_apply]
    rfl
  | addEdge e => exact Canvas.addEdge_apply e w
  | removeEdge id =>
    rw [step, Act.discard_apply]
    cases h : w.flow.edge? id <;>
      simp [Canvas.removeEdge, Flow.removeEdge, Act.bind_apply, Act.map_apply, h, withMark, mark?, Flow.perform]
  | rebuild => simp [step, Act.bind_apply, Work.edited_apply, withMark, mark?, Flow.perform]

/-! ## Many steps -/

/-- **Steps leave the flow that the numbered edits leave.** -/
theorem Workspace.stepAll_flow (w : Workspace) (edits : List Edit) :
    (w.stepAll edits).flow = w.flow.performAll (numbered w.serial edits) := by
  induction edits generalizing w with
  | nil => rfl
  | cons edit edits ih =>
    obtain ⟨hflow, hserial⟩ := Prod.mk.inj (edit.step_apply w)
    change ((edit.step w).2.stepAll edits).flow = _
    rw [ih, hflow, hserial]
    rfl

theorem mark?_withMark (mark : String) (edit : Edit) :
    (edit.withMark mark).mark? = if edit.mark?.isSome then some mark else none := by
  cases edit <;> rfl

theorem toList_intText (n : Nat) : (intText n).toList = Nat.toDigits 10 n := by
  rw [intText, String.toList_ofList, intChars, if_neg (by omega), Int.natAbs_natCast]

theorem intText_inj {m n : Nat} (h : intText m = intText n) : m = n := by
  have hdigits : Nat.toDigits 10 m = Nat.toDigits 10 n := by rw [← toList_intText, h, toList_intText]
  rw [← Nat.ofDigitChars_ten_toDigits (n := m), hdigits, Nat.ofDigitChars_ten_toDigits]

/-- The marks of numbered edits are numbers from the first on. -/
theorem mem_marks_numbered {n : Nat} {edits : List Edit} {m : String} (h : m ∈ marks (numbered n edits)) :
    ∃ k, n ≤ k ∧ m = intText k := by
  induction edits generalizing n with
  | nil => simp [numbered, marks] at h
  | cons edit edits ih =>
    rw [numbered, Flow.marks_cons, mark?_withMark] at h
    rcases List.mem_append.1 h with h | h
    · split at h
      · exact ⟨n, Nat.le_refl n, by simpa using h⟩
      · simp at h
    · obtain ⟨k, hk, rfl⟩ := ih h
      refine ⟨k, ?_, rfl⟩
      split at hk <;> omega

/-- **No mark is drawn twice.** -/
theorem marks_numbered (n : Nat) (edits : List Edit) : (marks (numbered n edits)).Nodup := by
  induction edits generalizing n with
  | nil => exact List.nodup_nil
  | cons edit edits ih =>
    rw [numbered, Flow.marks_cons, mark?_withMark]
    split
    · refine List.nodup_cons.2 ⟨fun hmem => ?_, ih (n + 1)⟩
      obtain ⟨k, hk, heq⟩ := mem_marks_numbered hmem
      have := intText_inj heq
      omega
    · exact ih n

end BlockFlow
