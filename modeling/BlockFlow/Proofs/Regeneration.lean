import BlockFlow.Proofs.Calendar
import BlockFlow.Proofs.Documents
import BlockFlow.Proofs.Renaming
import BlockFlow.Proofs.Steps
import BlockFlow.Session

/-!
Code that is made anew. It is made and announced as soon as all identifiers of the flow have keys; otherwise nothing is
changed, so that a flow that was adopted before stays beside the code of the old one.

* `Flow.Keyed`, `Flow.keyed_iff`: the flows that code can be made of.
* `Flow.scriptText`, `Work.generate_now`: the code of a flow at an instant.
* `Session.regenerate_apply`, `Session.regenerate_unkeyed`: all that making the code anew does.
* `Session.whole_iff`: **what is imported or loaded replaces flow and code together or not at all, exactly if it is keyed or
  the flow at hand.**
-/

namespace BlockFlow

open Script

/-! ## Flows that code can be made of -/

/-- All identifiers of blocks, and both ends of every edge, have keys. -/
structure Flow.Keyed (f : Flow) : Prop where
  ids : ∀ v ∈ f.ids, v.HasKey
  ends : f.KeyedEnds

theorem exists_ok_of_mapM {α β : Type} {step : α → Except Fault β} {xs : List α} {ys : List β} (h : xs.mapM step = .ok ys) :
    ∀ x ∈ xs, ∃ y, step x = .ok y := exists_of_forall₂ (forall₂_of_mapM_ok h)

/-- A flow has a plan exactly if it is keyed. -/
theorem Flow.keyed_iff {f : Flow} : f.Keyed ↔ ∃ p, Plan.ofFlow f = .ok p := by
  constructor
  · rintro ⟨hids, hends⟩
    exact ⟨f.plan, Flow.ofFlow_eq_plan hids hends⟩
  · rintro ⟨p, hp⟩
    obtain ⟨sites, hsites, hp⟩ := bind_eq_ok.1 hp
    obtain ⟨sources, hsources, hp⟩ := bind_eq_ok.1 hp
    obtain ⟨targets, htargets, -⟩ := bind_eq_ok.1 hp
    refine ⟨List.forall_mem_map.2 fun b hb => ?_, fun e he => ?_⟩
    · obtain ⟨s, hs⟩ := exists_ok_of_mapM hsites b hb
      cases hkey : b.id.key with
      | error fault =>
        rw [hkey] at hs
        cases hs
      | ok k => exact ⟨k, hkey⟩
    · exact ⟨exists_ok_of_mapM hsources e he, exists_ok_of_mapM htargets e he⟩

/-! ## Making code -/

/-- The code of a flow at an instant. -/
def Flow.scriptText (f : Flow) (indent : Int) (t : Instant) : String :=
  (assemble f f.plan.body (Stamp.write 1 (Clock.ofInstant t.micros))).render indent

namespace Work

variable {f : Flow} {w : Workspace} {t : Instant}

theorem generate_keyed (h : f.Keyed) {given : Option Moment}
    (hstamp : w.scriptStamp given = .ok (Stamp.write 1 (Clock.ofInstant t.micros))) (indent : Int) :
    (generate f indent given w).1 = .ok (f.scriptText indent t) := by
  rw [generate_fst (Flow.ofFlow_eq_plan h.ids h.ends), hstamp]
  rfl

/-- Code for a given time. -/
theorem generate_at (h : f.Keyed) (indent : Int) :
    (generate f indent (some t.moment) w).1 = .ok (f.scriptText indent t) :=
  generate_keyed h (show w.scriptStamp (some t.moment) = _ from t.generated) indent

/-- Code for the time of the clock. -/
theorem generate_now (h : f.Keyed) (hnow : w.now = t.micros) (indent : Int) :
    (generate f indent none w).1 = .ok (f.scriptText indent t) := by
  refine generate_keyed h ?_ indent
  rw [Workspace.scriptStamp, hnow, t.ofInstant?]
  exact t.generated

/-- The step leaves notes and changes nothing else. -/
def Quiet {α : Type} (step : Work α) : Prop := ∀ w, ∃ notes, (step w).2 = { w with notes := notes }

theorem quiet_ofExcept {α : Type} (outcome : Except Fault α) : Quiet (Act.ofExcept outcome) := fun w =>
  ⟨w.notes, by rw [Act.ofExcept_apply]⟩

theorem quiet_pure {α : Type} (a : α) : Quiet (pure a) := fun w => ⟨w.notes, rfl⟩

theorem quiet_note (speaker : Speaker) (level : Level) (text : String) : Quiet (note speaker level text) := fun _ =>
  ⟨_, rfl⟩

theorem quiet_bind {α β : Type} {step : Work α} {next : α → Work β} (h : Quiet step) (hnext : ∀ a, Quiet (next a)) :
    Quiet (step >>= next) := by
  intro w
  obtain ⟨notes, hstep⟩ := h w
  rw [Act.bind_apply]
  rcases hrun : step w with ⟨fault | a, w'⟩
  · exact ⟨notes, by rwa [hrun] at hstep⟩
  · rw [hrun] at hstep
    obtain rfl : w' = { w with notes := notes } := hstep
    obtain ⟨more, hmore⟩ := hnext a { w with notes := notes }
    exact ⟨more, hmore⟩

theorem quiet_moment : Quiet moment := by
  intro w
  cases hclock : Clock.ofInstant? w.now with
  | ok clock => exact ⟨w.notes, by rw [moment_apply clock hclock]⟩
  | error fault => exact ⟨w.notes, by simp [moment, Act.bind_apply, Act.map_apply, hclock]⟩

/-- Making code leaves notes and changes nothing else. -/
theorem quiet_generate (f : Flow) (indent : Int) (given : Option Moment) : Quiet (generate f indent given) := by
  refine quiet_bind (quiet_bind (quiet_ofExcept _) fun plan => ?_) fun _ => quiet_pure _
  have htail (step : Work Moment) (hstep : Quiet step) : Quiet (do
      note .script .debug (summaryNote f plan plan.body)
      return assemble f plan.body (← Act.ofExcept (Stamp.generated (← step)))) :=
    quiet_bind (quiet_note _ _ _) fun _ => quiet_bind hstep fun _ => quiet_bind (quiet_ofExcept _) fun _ => quiet_pure _
  cases fallbackNote? f plan with
  | none =>
    cases given with
    | some m => exact htail _ (quiet_pure m)
    | none => exact htail _ quiet_moment
  | some text =>
    refine quiet_bind (quiet_note _ _ _) fun _ => ?_
    cases given with
    | some m => exact htail _ (quiet_pure m)
    | none => exact htail _ quiet_moment

theorem generate_unkeyed (h : ¬ f.Keyed) (indent : Int) (given : Option Moment) (w : Workspace) :
    ∃ fault, generate f indent given w = (.error fault, w) := by
  cases hp : Plan.ofFlow f with
  | ok p => exact absurd (Flow.keyed_iff.2 ⟨p, hp⟩) h
  | error fault =>
    refine ⟨fault, ?_⟩
    simp [generate, build, Act.bind_apply, hp]

end Work

/-- The workspace at an instant. -/
def Workspace.setClock (w : Workspace) (t : Instant) : Workspace := { w with now := t.micros }

/-! ## Making code anew -/

theorem Act.bind_pure_snd {σ α β : Type} (step : Act σ α) (answer : α → β) (s : σ) :
    ((step >>= fun a => pure (answer a)) s).2 = (step s).2 := by
  rw [Act.bind_apply]
  rcases step s with ⟨fault | a, s'⟩ <;> rfl

namespace Session

variable {f : Flow} {w w' : Workspace} {t : Instant}

/-- The code is made anew and announced to whoever listens. -/
theorem regenerate_apply (h : w.flow.Keyed) (hnow : w.now = t.micros) :
    ∃ notes, regenerate w = (.ok (), { w with
      notes := notes
      code := w.flow.scriptText w.indent t
      announced := if w.listening then w.announced.push ⟨w.flow.id, w.flow.scriptText w.indent t⟩ else w.announced }) := by
  obtain ⟨notes, hstate⟩ := Work.quiet_generate w.flow w.indent none w
  have hgenerate : Work.generate w.flow w.indent none w = (.ok (w.flow.scriptText w.indent t), { w with notes := notes }) :=
    Prod.ext (Work.generate_now h hnow w.indent) hstate
  refine ⟨notes, ?_⟩
  rw [regenerate, Act.bind_apply, Act.get_apply]
  dsimp only
  rw [Act.bind_apply, hgenerate]
  cases w.listening <;> rfl

/-- Code that cannot be made stays as it is. -/
theorem regenerate_unkeyed (h : ¬ w.flow.Keyed) : ∃ fault, regenerate w = (.error fault, w) := by
  obtain ⟨fault, hgenerate⟩ := Work.generate_unkeyed h w.indent none w
  refine ⟨fault, ?_⟩
  rw [regenerate, Act.bind_apply, Act.get_apply]
  dsimp only
  rw [Act.bind_apply, hgenerate]

/-! ## Flows that replace the one at hand -/

theorem adopt_apply (f : Flow) (w : Workspace) : adopt f w = regenerate { w with flow := f } := by
  rw [adopt, Act.bind_apply, Work.setFlow_apply]

/-- Flow and code are as before, or both are those of the flow that was read. -/
def Whole (w : Workspace) (read : Except Fault (Option Flow)) (w' : Workspace) : Prop :=
  w'.flow = w.flow ∧ w'.code = w.code ∨
    ∃ f, read = .ok (some f) ∧ w'.flow = f ∧ (Work.generate f w.indent none w).1 = .ok w'.code

/-- The workspaces agree in all that code is made from, the flow apart, and in the code. -/
structure Beside (w w' : Workspace) : Prop where
  flow : w'.flow = w.flow
  code : w'.code = w.code
  indent : w'.indent = w.indent
  now : w'.now = w.now

/-- A flow that is adopted comes with its code if it is keyed, and beside the old code if it is not. -/
theorem whole_adopt_iff (h : Beside w w') (hnow : w.now = t.micros) :
    Whole w (.ok (some f)) (adopt f w').2 ↔ f.Keyed ∨ f = w.flow := by
  rw [adopt_apply]
  by_cases hkeyed : f.Keyed
  · refine iff_of_true (Or.inr ⟨f, rfl, ?_⟩) (Or.inl hkeyed)
    obtain ⟨notes, hregenerate⟩ := regenerate_apply (w := { w' with flow := f }) hkeyed (h.now.trans hnow)
    rw [hregenerate, Work.generate_now hkeyed hnow]
    exact ⟨rfl, by rw [h.indent]⟩
  · obtain ⟨fault, hregenerate⟩ := regenerate_unkeyed (w := { w' with flow := f }) hkeyed
    rw [hregenerate]
    -- the flow is replaced before its code turns out not to exist
    constructor
    · rintro (⟨hflow, -⟩ | ⟨g, hg, -, hcode⟩)
      · exact Or.inr hflow
      · obtain rfl : f = g := by simpa using hg
        obtain ⟨late, hgenerate⟩ := Work.generate_unkeyed hkeyed w.indent none w
        rw [hgenerate] at hcode
        cases hcode
    · rintro (hkeyed' | rfl)
      · exact absurd hkeyed' hkeyed
      · exact Or.inl ⟨rfl, h.code⟩

/-- What is read by a step that keeps flow and code, and adopted where it is a flow. -/
theorem whole_iff_of_read {read : Except Fault (Option Flow)} {after : Workspace} (h : Beside w w') (hnow : w.now = t.micros)
    (hsome : ∀ f, read = .ok (some f) → after = (adopt f w').2)
    (hnone : (∀ f, read ≠ .ok (some f)) → after.flow = w.flow ∧ after.code = w.code) :
    Whole w read after ↔ ∀ f, read = .ok (some f) → f.Keyed ∨ f = w.flow := by
  by_cases hread : ∃ f, read = .ok (some f)
  · obtain ⟨f, rfl⟩ := hread
    rw [hsome f rfl, whole_adopt_iff h hnow]
    simp
  · have hnever : ∀ f, read ≠ .ok (some f) := fun f hf => hread ⟨f, hf⟩
    exact iff_of_true (Or.inl (hnone hnever)) fun f hf => absurd hf (hnever f)

theorem whole_importText (text : Value) (hnow : w.now = t.micros) :
    Whole w ((Flow.importText text w.serial).1.map some) (importText text w).2 ↔
      ∀ f, (Flow.importText text w.serial).1 = .ok f → f.Keyed ∨ f = w.flow := by
  have hbeside : Beside w { w with serial := (Flow.importText text w.serial).2 } := ⟨rfl, rfl, rfl, rfl⟩
  have hattempt : Act.attempt (Work.drawing (Flow.importText text)) w =
      (.ok (Flow.importText text w.serial).1, { w with serial := (Flow.importText text w.serial).2 }) := rfl
  rw [importText, Act.bind_apply, hattempt, whole_iff_of_read hbeside hnow]
  · cases (Flow.importText text w.serial).1 <;> simp [Except.map]
  · intro f hf
    cases hread : (Flow.importText text w.serial).1 with
    | error fault => simp [hread, Except.map] at hf
    | ok g =>
      obtain rfl : g = f := by simpa [hread, Except.map] using hf
      exact Act.bind_pure_snd (adopt g) _ _
  · intro hnever
    cases hread : (Flow.importText text w.serial).1 with
    | ok g => exact absurd (by rw [hread]; rfl) (hnever g)
    | error fault =>
      dsimp only
      split <;> exact ⟨rfl, rfl⟩

/-- The store is there, or an empty one is taken. -/
theorem store_apply (w : Workspace) :
    Archive.store w = (.ok (w.store.getD {}), { w with store := some (w.store.getD {}) }) := by
  obtain ⟨f, c, i, _ | s, r, m, e, l, a, ns, n, t⟩ := w <;> rfl

/-- Loading a flow draws identifiers and may take an empty store; it changes nothing else. -/
theorem load_snd (id : Value) (w : Workspace) : Beside w (Archive.load id w).2 := by
  rw [Archive.load, Act.bind_apply, store_apply]
  dsimp only
  rw [Act.bind_apply, Act.ofExcept_apply]
  cases Cell.ofValue 1 id with
  | error fault => exact ⟨rfl, rfl, rfl, rfl⟩
  | ok cell =>
    dsimp only
    cases (w.store.getD {}).find? cell with
    | none => exact ⟨rfl, rfl, rfl, rfl⟩
    | some row =>
      dsimp only
      rw [Act.bind_pure_snd]
      exact ⟨rfl, rfl, rfl, rfl⟩

theorem whole_load (id : Value) (hnow : w.now = t.micros) :
    Whole w (Archive.load id w).1 (load id w).2 ↔
      ∀ f, (Archive.load id w).1 = .ok (some f) → f.Keyed ∨ f = w.flow := by
  have hbeside := load_snd id w
  rw [load, Act.bind_apply]
  rcases hload : Archive.load id w with ⟨outcome, w'⟩
  rw [hload] at hbeside
  refine whole_iff_of_read hbeside hnow ?_ ?_
  · rintro f rfl
    exact Act.bind_pure_snd (adopt f) _ _
  · intro hnever
    rcases outcome with fault | _ | f
    · exact ⟨hbeside.flow, hbeside.code⟩
    · exact ⟨hbeside.flow, hbeside.code⟩
    · exact absurd rfl (hnever f)

/-- **A flow that is imported or loaded comes with its code, or nothing is changed, exactly if it is keyed or the flow at
hand.** This holds of every text, and of every identifier and every store, whether the step answers or fails. -/
theorem whole_iff (w : Workspace) (t : Instant) :
    (∀ text, Whole (w.setClock t) ((Flow.importText text w.serial).1.map some) (importText text (w.setClock t)).2 ↔
      ∀ f, (Flow.importText text w.serial).1 = .ok f → f.Keyed ∨ f = w.flow) ∧
    ∀ id, Whole (w.setClock t) (Archive.load id (w.setClock t)).1 (load id (w.setClock t)).2 ↔
      ∀ f, (Archive.load id (w.setClock t)).1 = .ok (some f) → f.Keyed ∨ f = w.flow :=
  ⟨fun text => whole_importText text rfl, fun id => whole_load id rfl⟩

/-- A flow of one block whose identifier is a list. -/
def listedId : String :=
  "\x7b\"id\": \"f\", \"blocks\": [\x7b\"id\": [\"a\"], \"type\": \"return\", \"connections\": \x7b\x7d\x7d], " ++
    "\"edges\": []\x7d"

/-- A session that was just started. -/
def justStarted : Workspace := (start none { flow := { id := .null } }).2

/-- An identifier that is a list comes into the flow, and the code stays that of the flow before. -/
theorem importText_torn :
    ¬ Whole justStarted ((Flow.importText (.text listedId) justStarted.serial).1.map some)
      (importText (.text listedId) justStarted).2 := by
  rintro (⟨hflow, -⟩ | ⟨f, -, rfl, hcode⟩)
  · exact absurd (congrArg (fun f => f.blocks.length) hflow) (by decide +kernel)
  · have hfailure : failure? (Work.generate (importText (.text listedId) justStarted).2.flow justStarted.indent none
        justStarted).1 = some .type := by decide +kernel
    rw [hcode] at hfailure
    cases hfailure

end Session

end BlockFlow
