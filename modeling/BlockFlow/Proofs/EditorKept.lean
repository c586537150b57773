import BlockFlow.Proofs.Effects

/-!
Steps that keep the state of the editor: the code is run and the archive is looked into, listed and cleared without a change
to the flow being edited and its code.

* `Work.KeepsEditor`: steps that keep the state of the editor, and how they are put together.
* `Session.keepsEditor_run`, `Archive.keepsEditor_load`, `Archive.keepsEditor_list`, `Archive.keepsEditor_delete`: the runner
  and the archive.
* `Archive.served_load`: what is loaded is a served flow.
* `Service.editor_guarded`, `Service.editor_told`: answers leave the editor as the step does that they tell of.
-/

namespace BlockFlow

/-! ## Steps put together -/

namespace Work

/-- The step keeps the state of the editor. -/
def KeepsEditor {α : Type} (step : Work α) : Prop := ∀ w, (step w).2.editor = w.editor

variable {α β : Type}

namespace KeepsEditor

protected theorem of_quiet {step : Work α} (h : Quiet step) : KeepsEditor step := by
  intro w
  obtain ⟨notes, hstep⟩ := h w
  rw [hstep]
  rfl

protected theorem pure (a : α) : KeepsEditor (pure a) := fun _ => rfl

protected theorem get : KeepsEditor (get : Work Workspace) := fun _ => rfl

protected theorem fail (fault : Fault) : KeepsEditor (Act.fail fault : Work α) := fun _ => rfl

protected theorem ofExcept (outcome : Except Fault α) : KeepsEditor (Act.ofExcept outcome) :=
  .of_quiet (quiet_ofExcept outcome)

protected theorem note (speaker : Speaker) (level : Level) (text : String) : KeepsEditor (note speaker level text) :=
  .of_quiet (quiet_note speaker level text)

protected theorem modify {change : Workspace → Workspace} (h : ∀ w, (change w).editor = w.editor) :
    KeepsEditor (modify change : Work Unit) := h

protected theorem drawing (step : Drawing α) : KeepsEditor (drawing step) := fun _ => rfl

protected theorem bind {step : Work α} {next : α → Work β} (h : KeepsEditor step) (hnext : ∀ a, KeepsEditor (next a)) :
    KeepsEditor (step >>= next) := by
  intro w
  have hstep := h w
  rw [Act.bind_apply]
  rcases hrun : step w with ⟨fault | a, v⟩
  · rwa [hrun] at hstep
  · rw [hrun] at hstep
    exact (hnext a v).trans hstep

protected theorem attempt {step : Work α} (h : KeepsEditor step) : KeepsEditor (Act.attempt step) := h

end KeepsEditor

/-- What follows a step and keeps the state of the editor leaves the one of that step. -/
theorem editor_bind {step : Work α} {next : α → Work β} (hnext : ∀ a, KeepsEditor (next a)) (w : Workspace) :
    ((step >>= next) w).2.editor = (step w).2.editor := by
  rw [Act.bind_apply]
  rcases step w with ⟨fault | a, v⟩
  · rfl
  · exact hnext a v

end Work

open Work

/-! ## The runner -/

theorem Runner.keepsEditor_readLimit (raw : Value) : KeepsEditor (Runner.readLimit raw) := by
  unfold Runner.readLimit
  split
  · split
    · exact .bind (.note _ _ _) fun _ => .pure _
    · exact .pure _
  · split
    · exact .bind (.note _ _ _) fun _ => .pure _
    · exact .fail _

theorem Runner.keepsEditor_setting (store : Option Store) (key variableName default : String) :
    KeepsEditor (Runner.setting store key variableName default) :=
  .bind .get fun _ => .ofExcept _

theorem Runner.keepsEditor_make (store : Option Store) (limit command : Value) :
    KeepsEditor (Runner.make store limit command) := by
  have hsetting : KeepsEditor (Runner.settingLimit store) :=
    .bind (keepsEditor_setting _ _ _ _) fun _ => .bind (keepsEditor_readLimit _) fun _ => .pure _
  have hrest (limit : Value) : KeepsEditor (do
      let found := ((← get).machine.found).getD ""
      let command ← if command.truthy then pure command
        else setting store "node_binary" "BLOCKFLOW_NODE_BINARY" found
      return (⟨limit, if command.truthy then some command else none⟩ : Runner)) := by
    refine .bind .get fun w => ?_
    split
    · exact .bind (.pure _) fun _ => .pure _
    · exact .bind (keepsEditor_setting _ _ _ _) fun _ => .pure _
  unfold Runner.make
  dsimp only
  split
  · exact .bind hsetting hrest
  · exact .bind (.pure _) hrest

theorem Runner.keepsEditor_conclude (r : Runner) (conduct : Conduct) (seconds : Binary64) :
    KeepsEditor (r.conclude conduct seconds) := by
  unfold Runner.conclude
  split
  · split
    · exact .pure _
    · exact .bind (.note _ _ _) fun _ => .pure _
  · exact .bind (.note _ _ _) fun _ => .bind (.ofExcept _) fun _ => .pure _
  · exact .bind (.ofExcept _) fun _ => .bind (.note _ _ _) fun _ => .pure _

theorem Runner.keepsEditor_nextOutcome : KeepsEditor Runner.nextOutcome := by
  intro w
  rw [Runner.nextOutcome, Act.bind_apply, Act.get_apply]
  dsimp only
  cases w.machine.outcomes <;> rfl

theorem Runner.keepsEditor_execute (r : Runner) (code : String) : KeepsEditor (r.execute code) := by
  unfold Runner.execute
  split
  · exact .bind (.note _ _ _) fun _ => .pure _
  · refine .bind keepsEditor_nextOutcome fun outcome => ?_
    split
    · exact keepsEditor_conclude _ _ _
    · refine .bind .get fun _ => .bind (.modify fun _ => rfl) fun _ => ?_
      exact .bind .get fun _ => keepsEditor_conclude _ _ _

theorem Session.keepsEditor_run : KeepsEditor Session.run := by
  have hrunner : KeepsEditor Session.runner := by
    refine .bind .get fun w => ?_
    split
    · exact .pure _
    · exact .bind (Runner.keepsEditor_make _ _ _) fun _ => .bind (.modify fun _ => rfl) fun _ => .pure _
  refine .bind hrunner fun r => .bind .get fun w => .bind (Runner.keepsEditor_execute _ _) fun report => ?_
  split
  · exact .pure _
  · exact .pure _

/-! ## The archive -/

namespace Archive

theorem keepsEditor_store : KeepsEditor store := by
  intro w
  rw [Session.store_apply]
  rfl

theorem keepsEditor_setStore (s : Store) : KeepsEditor (setStore s) := .modify fun _ => rfl

theorem keepsEditor_load (id : Value) : KeepsEditor (load id) := by
  refine .bind keepsEditor_store fun s => .bind (.ofExcept _) fun cell => ?_
  split
  · exact .pure _
  · exact .bind (.drawing _) fun _ => .pure _

theorem keepsEditor_readRows (rows : List FlowRow) : KeepsEditor (readRows rows) := by
  induction rows with
  | nil => exact .pure _
  | cons row rows ih =>
    refine .bind (.attempt (.drawing _)) fun outcome => ?_
    split
    · exact .bind ih fun _ => .pure _
    · split
      · exact .bind (.note _ _ _) fun _ => ih
      · exact .fail _

theorem keepsEditor_list : KeepsEditor list := .bind keepsEditor_store fun _ => keepsEditor_readRows _

theorem keepsEditor_delete (id : Value) : KeepsEditor (delete id) := by
  refine .bind keepsEditor_store fun s => .bind (.ofExcept _) fun cell => .bind (keepsEditor_setStore _) fun _ => ?_
  split
  · exact .bind (.note _ _ _) fun _ => .pure _
  · exact .pure _

/-- What is loaded is a served flow. -/
theorem served_load {id : Value} {w v : Workspace} {f : Flow} (h : load id w = (.ok (some f), v)) :
    f.Served Value.IsRead := by
  obtain ⟨s, m, -, h⟩ := Act.bind_eq_ok.1 h
  obtain ⟨cell, -, h⟩ := Act.ofExcept_bind_eq_ok.1 h
  cases hrow : s.find? cell with
  | none =>
    rw [hrow] at h
    cases h
  | some row =>
    rw [hrow] at h
    obtain ⟨g, m', hread, h⟩ := Act.bind_eq_ok.1 h
    obtain rfl := Option.some.inj (Except.ok.inj (Prod.mk.inj h).1)
    have houtcome : (Flow.importText row.document.toValue m.serial).1 = .ok g := congrArg Prod.fst hread
    exact Flow.importText_served (Prod.ext houtcome rfl)

end Archive

/-! ## Answers -/

namespace Service

theorem keepsEditor_json (status : Nat) (fields : List (String × Value)) : KeepsEditor (json status fields) :=
  .bind (.ofExcept _) fun _ => .pure _

theorem keepsEditor_flowDocument : KeepsEditor flowDocument := .bind (fun _ => rfl) fun _ => .ofExcept _

theorem editor_guarded (purpose : String) (step : Work Reply) (w : Workspace) :
    (guarded purpose step w).2.editor = (step w).2.editor := by
  refine (editor_bind (fun outcome => ?_) w : _ = (Act.attempt step w).2.editor)
  split
  · exact .pure _
  · exact .bind (.note _ _ _) fun _ => keepsEditor_json _ _

/-- The flow is told at last. -/
theorem editor_told (step : Work Feedback) (status : Feedback → Nat) (w : Workspace) :
    ((do let f ← step; feedback (status f) f (← flowDocument)) w).2.editor = (step w).2.editor :=
  editor_bind (fun _ => .bind keepsEditor_flowDocument fun _ => keepsEditor_json _ _) w

theorem keepsEditor_withSaved (id : String) {step : Flow → Work Reply} (h : ∀ f, KeepsEditor (step f)) :
    KeepsEditor (withSaved id step) := by
  refine .bind (Archive.keepsEditor_load _) fun found => ?_
  split
  · exact h _
  · exact keepsEditor_json _ _

end Service

end BlockFlow
