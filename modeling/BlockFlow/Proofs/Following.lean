import BlockFlow.Proofs.Regeneration
import BlockFlow.Proofs.Sound

/-!
Code that follows the flow. In a session that starts on a new flow all identifiers stay texts, so code can always be made;
the actions that do not make it anew leave alone all that it is made from.

* `Flow.Textual`, `Flow.Textual.change`: identifiers are texts, and stay so.
* `Flow.SameScript`, `Flow.SameScript.scriptText_eq`: flows that differ only in what is not in the code.
* `Action`, `Action.step`, `Action.renews`: the actions of a session, and whether one makes the code anew.
* `Action.step_spec`: **what one action does to the code.**
* `Following`, `Session.code_follows`: **after any actions the code is that of the flow, and every change of it was announced
  once.**
-/

namespace BlockFlow

open Script

/-! ## Flows whose identifiers are texts -/

/-- The identifiers of the blocks and the ends of the edges are texts. -/
structure Flow.Textual (f : Flow) : Prop where
  ids : ∀ v ∈ f.ids, v.IsText
  ends : f.TextEnds

namespace Flow

variable {f g : Flow}

theorem Textual.keyed (h : f.Textual) : f.Keyed :=
  ⟨fun v hv => (h.ids v hv).hasKey, fun e he => ⟨(h.ends e he).1.hasKey, (h.ends e he).2.hasKey⟩⟩

theorem textual_of_empty (hb : f.blocks = []) (he : f.edges = []) : f.Textual := by
  constructor
  · simp [ids, hb]
  · simp [TextEnds, he]

theorem Textual.link (h : f.Textual) {e : Edge} (ha : f.Admits e) : (f.link e).Textual := by
  refine ⟨fun v hv => h.ids v (by rwa [ids_link] at hv), fun x hx => ?_⟩
  rw [edges_link] at hx
  rcases List.mem_append.1 hx with hx | hx
  · exact h.ends x hx
  · obtain rfl := List.mem_singleton.1 hx
    exact ⟨h.ids _ ((block?_isSome h.ids).1 ha.source), h.ids _ ((block?_isSome h.ids).1 ha.target)⟩

/-- What an edit makes of such a flow is such a flow: an edge is let in only between blocks of the flow. -/
theorem Textual.change (h : f.Textual) {edit : Edit} (hc : f.Change edit g) : g.Textual := by
  have hids : ∀ v ∈ g.ids, v.IsText := by
    intro v hv
    rcases hc.ids hv with hv | ⟨m, -, rfl⟩
    · exact h.ids v hv
    · exact ⟨_, rfl⟩
  cases hc with
  | alike ha => exact ⟨hids, fun e he => h.ends e (ha.2 ▸ he)⟩
  | caches => exact ⟨hids, fun e he => h.ends e (edges_rebuild f ▸ he)⟩
  | block type position hm => exact ⟨hids, h.ends⟩
  | dropped id => exact ⟨hids, fun e he => h.ends e (List.mem_filter.1 he).1⟩
  | cleared => exact textual_of_empty rfl rfl
  | linked _ ha => exact h.link ha
  | unlinked id => exact ⟨hids, fun e he => h.ends e ((edges_removeEdge f id).subset he)⟩

/-! ## Flows with the same code -/

/-- What the code of a block is made from. -/
def codeView (b : Block) : Value × Value × Value := (b.id, b.type, b.params)

/-- The flows differ in nothing that the code is made from. -/
structure SameScript (f g : Flow) : Prop where
  name : g.name = f.name
  blocks : g.blocks.map codeView = f.blocks.map codeView
  edges : g.edges = f.edges

theorem SameScript.refl (f : Flow) : SameScript f f := ⟨rfl, rfl, rfl⟩

theorem sameScript_move {id position : Value} {moved : Flow × Bool} (h : f.move id position = .ok moved) :
    f.SameScript moved.1 := by
  unfold move at h
  split at h
  · obtain rfl := Except.ok.inj h
    exact .refl f
  · split at h
    · cases h
    · obtain rfl := Except.ok.inj h
      refine ⟨rfl, ?_, rfl⟩
      exact map_modifyFirst codeView (by intro b; rfl) f.blocks

theorem sameScript_stamped (f : Flow) (now : String) : f.SameScript (f.stamped now) := ⟨rfl, rfl, rfl⟩

theorem renamed_self {v : Value} (h : v.HasKey) : v.Renamed (fun k => k) v := h.imp fun _ hk => ⟨hk, hk⟩

theorem renamed_of_codeView {bs cs : List Block} (h : cs.map codeView = bs.map codeView) (hkeyed : ∀ b ∈ bs, b.id.HasKey) :
    List.Forall₂ (Block.Renamed fun k => k) bs cs := by
  induction bs generalizing cs with
  | nil =>
    obtain rfl := List.map_eq_nil_iff.1 h
    exact .nil
  | cons b bs ih =>
    obtain ⟨c, cs, rfl, hview, hrest⟩ := List.map_eq_cons_iff.1 h
    obtain ⟨hid, htype, hparams⟩ : c.id = b.id ∧ c.type = b.type ∧ c.params = b.params := by simpa [codeView] using hview
    refine .cons ⟨?_, htype, hparams⟩ (ih hrest fun x hx => hkeyed x (List.mem_cons_of_mem _ hx))
    rw [hid]
    exact renamed_self (hkeyed b List.mem_cons_self)

theorem SameScript.redrawn (h : f.SameScript g) (hkeyed : f.Keyed) : f.Redrawn (fun k => k) g := by
  have hedges : List.Forall₂ (Edge.Renamed fun k => k) f.edges f.edges :=
    List.forall₂_same.2 fun e he => ⟨renamed_self (hkeyed.ends e he).1, renamed_self (hkeyed.ends e he).2⟩
  have hblocks := renamed_of_codeView h.blocks (List.forall_mem_map.1 hkeyed.ids)
  exact ⟨h.name, hblocks, f.edges, hedges, h.edges ▸ .refl _, fun k => by rw [h.edges]⟩

/-- Flows that differ in nothing that the code is made from have the same code. -/
theorem SameScript.scriptText_eq (h : f.SameScript g) (hkeyed : f.Keyed) (indent : Int) (t : Instant) :
    g.scriptText indent t = f.scriptText indent t :=
  (h.redrawn hkeyed).render_eq Function.injective_id _ indent

theorem SameScript.textual (h : f.SameScript g) (htext : f.Textual) : g.Textual := by
  have hids : g.ids = f.ids := by
    have hview := congrArg (List.map (·.1)) h.blocks
    simpa [ids, codeView, Function.comp_def] using hview
  exact ⟨hids ▸ htext.ids, fun e he => htext.ends e (h.edges ▸ he)⟩

end Flow

/-! ## Actions -/

/-- An action of a session. -/
inductive Action where
  | addBlock (type position : Value)
  | setParam (id key value : Value)
  | move (id position : Value)
  | removeBlock (id : Value)
  | addEdge (e : Edge)
  | connect (source target : Value)
  | removeEdge (id : Value)
  | newFlow (name : Value)
  | clear
  | rename (name : Value)
  | save

namespace Action

/-- The action as a step that tells whether it succeeds. -/
def step : Action → Work Bool
  | .addBlock type position => do
    let _ ← Session.addBlock type position
    return true
  | .setParam id key value => Session.setParam id key value
  | .move id position => Session.move id position
  | .removeBlock id => return (← Session.removeBlock id).ok
  | .addEdge e => return (← Session.addEdge e).1
  | .connect source target => return (← Session.connect source target).2.1
  | .removeEdge id => Session.removeEdge id
  | .newFlow name => return (← Session.newFlow name).ok
  | .clear => return (← Session.clear).ok
  | .rename name => do
    Session.rename name
    return true
  | .save => return (← Session.save).ok

/-- Positions and times are not in the code. -/
def touchesCode : Action → Bool
  | .move _ _ => false
  | .save => false
  | _ => true

/-- The action reports success. -/
def succeeds (a : Action) (w : Workspace) : Bool :=
  match (a.step w).1 with
  | .ok answer => answer
  | .error _ => false

/-- The action makes the code anew. -/
def renews (a : Action) (w : Workspace) : Bool := a.touchesCode && a.succeeds w

end Action

/-! ## What an action does to the code -/

/-- Between the workspaces nothing was announced, and the code is made in the same way. -/
structure Workspace.Tuned (w w' : Workspace) : Prop where
  indent : w'.indent = w.indent
  listening : w'.listening = w.listening
  announced : w'.announced = w.announced

/-- The code was made anew at the instant, and announced to whoever listens. -/
structure Workspace.Renewed (t : Instant) (w w' : Workspace) : Prop where
  textual : w'.flow.Textual
  code : w'.code = w'.flow.scriptText w.indent t
  announced : w'.announced = if w.listening then w.announced.push ⟨w'.flow.id, w'.code⟩ else w.announced
  indent : w'.indent = w.indent
  listening : w'.listening = w.listening

/-- The code and all that it is made from stay as they are, and nothing was announced. -/
structure Workspace.Still (w w' : Workspace) : Prop where
  flow : w.flow.SameScript w'.flow
  code : w'.code = w.code
  tuned : w.Tuned w'

theorem Workspace.Still.refl (w : Workspace) : w.Still w := ⟨.refl _, rfl, rfl, rfl, rfl⟩

open Workspace (Tuned Renewed Still)

namespace Action

variable {a : Action} {w w' : Workspace} {t : Instant}

/-- What an action does to the code: it makes it anew, or leaves it alone with all that it is made from. -/
def Spec (a : Action) (t : Instant) (w : Workspace) : Prop :=
  if a.renews w then Renewed t w (a.step w).2 else Still w (a.step w).2

/-- An action that edits the flow and makes the code anew. -/
theorem spec_of_edit (ha : a.touchesCode = true) (w' : Workspace) (htuned : w.Tuned w') (htext : w'.flow.Textual)
    (hnow : w'.now = t.micros) (hstep : ∀ w'', Session.regenerate w' = (.ok (), w'') → a.step w = (.ok true, w'')) :
    a.Spec t w := by
  obtain ⟨notes, hregenerate⟩ := Session.regenerate_apply htext.keyed hnow
  have hstep := hstep _ hregenerate
  have hrenews : a.renews w = true := by
    rw [renews, succeeds, ha, hstep]
    rfl
  rw [Spec, if_pos hrenews, hstep]
  refine ⟨htext, ?_, ?_, htuned.indent, htuned.listening⟩
  · rw [htuned.indent]
  · rw [htuned.listening, htuned.announced]

/-- An action that reports no success. -/
theorem spec_of_refused {outcome : Except Fault Bool} (hstep : a.step w = (outcome, w')) (hno : outcome ≠ .ok true)
    (h : w.Still w') : a.Spec t w := by
  have hrenews : a.renews w = false := by
    rw [renews, succeeds, hstep]
    rcases outcome with fault | _ | _
    · simp
    · simp
    · exact absurd rfl hno
  rw [Spec, hrenews, hstep]
  exact h

/-- An action that does not touch the code. -/
theorem spec_of_untouched (ha : a.touchesCode = false) (h : w.Still (a.step w).2) : a.Spec t w := by
  have hrenews : a.renews w = false := by
    rw [renews, ha]
    rfl
  rw [Spec, hrenews]
  exact h

section Spec

variable (htext : w.flow.Textual) (hnow : w.now = t.micros)
include htext hnow

theorem spec_addBlock (type position : Value) : (addBlock type position).Spec t w := by
  have htext' := htext.change (Flow.perform_change w.flow (.addBlock (intText w.serial) type position))
  refine spec_of_edit rfl (Canvas.addBlock type position w).2 ⟨rfl, rfl, rfl⟩ htext' hnow fun w'' hregenerate => ?_
  have hcanvas : ∃ b, Canvas.addBlock type position w = (.ok b, (Canvas.addBlock type position w).2) := ⟨_, rfl⟩
  obtain ⟨b, hcanvas⟩ := hcanvas
  rw [step, Act.bind_apply, Session.addBlock, Act.bind_apply, hcanvas]
  dsimp only
  rw [Act.bind_apply, hregenerate]
  rfl

theorem spec_setParam (id key value : Value) : (setParam id key value).Spec t w := by
  have hchange := htext.change (Flow.perform_change w.flow (.setParam id key value))
  cases hblock : w.flow.block? id with
  | none =>
    have hstep : (setParam id key value).step w = (.ok false, w) := by
      simp [step, Session.setParam, Act.bind_apply, hblock]
    exact spec_of_refused hstep (by simp) (.refl w)
  | some b =>
    cases hset : w.flow.setParam id key value with
    | error fault =>
      have hstep : (setParam id key value).step w = (.error fault, w) := by
        simp [step, Session.setParam, Act.bind_apply, hblock, hset]
      exact spec_of_refused hstep (by simp) (.refl w)
    | ok g =>
      have htext' : g.Textual := by simpa [Flow.perform, hset, Flow.settle] using hchange
      refine spec_of_edit rfl { w with flow := g } ⟨rfl, rfl, rfl⟩ htext' hnow fun w'' hregenerate => ?_
      simp [step, Session.setParam, Act.bind_apply, Act.map_apply, hblock, hset, hregenerate]

theorem spec_removeBlock (id : Value) : (removeBlock id).Spec t w := by
  have hchange := htext.change (Flow.perform_change w.flow (.removeBlock id))
  cases hblock : w.flow.block? id with
  | none =>
    have hstep : (removeBlock id).step w = (.ok false, w) := by
      simp [step, Session.removeBlock, Act.bind_apply, hblock]
    exact spec_of_refused hstep (by simp) (.refl w)
  | some b =>
    have htext' : (w.flow.dropBlock id).Textual := by simpa [Flow.perform, Flow.removeBlock, hblock] using hchange
    obtain ⟨count, notes, hcanvas⟩ : ∃ count notes, Canvas.removeBlock id w =
        (.ok count, { w with flow := w.flow.dropBlock id, notes := notes }) := by
      simp only [Canvas.removeBlock, Flow.removeBlock, Act.bind_apply, Work.flow_apply, hblock]
      exact ⟨_, _, rfl⟩
    refine spec_of_edit rfl { w with flow := w.flow.dropBlock id, notes := notes } ⟨rfl, rfl, rfl⟩ htext' hnow
      fun w'' hregenerate => ?_
    simp [step, Session.removeBlock, Act.bind_apply, Act.map_apply, hblock, hcanvas, hregenerate]

/-- An action that tries to add an edge, and may draw its identifier before. -/
theorem spec_of_edge (ha : a.touchesCode = true) (n : Nat) (e : Edge)
    (hstep : a.step w = (do return (← Session.addEdge e).1) { w with serial := n }) : a.Spec t w := by
  cases hadd : w.flow.addEdge e with
  | ok g =>
    obtain ⟨hadmits, rfl⟩ := Flow.addEdge_eq_ok.1 hadd
    obtain ⟨notes, hcanvas⟩ : ∃ notes, Canvas.addEdge e { w with serial := n } =
        (.ok (), { w with serial := n, flow := w.flow.link e, notes := notes }) := by
      simp only [Canvas.addEdge, Act.bind_apply, Work.flow_apply, hadd]
      exact ⟨_, rfl⟩
    refine spec_of_edit ha { w with serial := n, flow := w.flow.link e, notes := notes } ⟨rfl, rfl, rfl⟩ (htext.link hadmits)
      hnow fun w'' hregenerate => ?_
    rw [hstep]
    simp [Session.addEdge, Act.bind_apply, Act.map_apply, Act.attempt, hcanvas, hregenerate]
  | error fault =>
    obtain ⟨notes, hcanvas⟩ : ∃ notes, Canvas.addEdge e { w with serial := n } =
        (.error fault, { w with serial := n, notes := notes }) := by
      simp only [Canvas.addEdge, Act.bind_apply, Work.flow_apply, hadd]
      cases Canvas.refusal? e fault with
      | none => exact ⟨_, rfl⟩
      | some text => exact ⟨_, rfl⟩
    -- a refusal is answered, any other fault is passed on; the flow is the same after both
    have hstill : w.Still { w with serial := n, notes := notes } := ⟨.refl _, rfl, rfl, rfl, rfl⟩
    cases hrefusal : Session.refusal? fault with
    | none =>
      have hfail : a.step w = (.error fault, { w with serial := n, notes := notes }) := by
        rw [hstep]
        simp [Session.addEdge, Act.bind_apply, Act.attempt, hcanvas, hrefusal]
      exact spec_of_refused hfail (by simp) hstill
    | some feedback =>
      have hanswer : a.step w = (.ok false, { w with serial := n, notes := notes }) := by
        rw [hstep]
        simp [Session.addEdge, Act.bind_apply, Act.attempt, hcanvas, hrefusal]
      exact spec_of_refused hanswer (by simp) hstill

theorem spec_addEdge (e : Edge) : (addEdge e).Spec t w := spec_of_edge htext hnow rfl w.serial e rfl

theorem spec_connect (source target : Value) : (connect source target).Spec t w := by
  refine spec_of_edge htext hnow rfl (w.serial + 1) { id := drawnId "edge" (intText w.serial), source, target } ?_
  have hnew : Canvas.newEdge source target w =
      (.ok { id := drawnId "edge" (intText w.serial), source, target }, { w with serial := w.serial + 1 }) := rfl
  rw [step, Act.bind_apply, Session.connect, Act.bind_apply, hnew]
  dsimp only
  rw [Act.bind_apply, Act.bind_apply]
  rcases Session.addEdge _ _ with ⟨fault | answer, w'⟩ <;> rfl

theorem spec_removeEdge (id : Value) : (removeEdge id).Spec t w := by
  have htext' := htext.change (Flow.perform_change w.flow (.removeEdge id))
  rcases hremove : w.flow.removeEdge id with ⟨g, _ | e⟩
  · have hstep : (removeEdge id).step w = (.ok false, w) := by
      simp [step, Session.removeEdge, Canvas.removeEdge, Act.bind_apply, hremove]
    exact spec_of_refused hstep (by simp) (.refl w)
  · rw [Flow.perform, hremove] at htext'
    obtain ⟨notes, hcanvas⟩ : ∃ notes, Canvas.removeEdge id w = (.ok (some e), { w with flow := g, notes := notes }) := by
      simp only [Canvas.removeEdge, Act.bind_apply, Work.flow_apply, hremove]
      exact ⟨_, rfl⟩
    refine spec_of_edit rfl { w with flow := g, notes := notes } ⟨rfl, rfl, rfl⟩ htext' hnow fun w'' hregenerate => ?_
    simp [step, Session.removeEdge, Act.bind_apply, Act.map_apply, hcanvas, hregenerate]

omit htext in
theorem spec_newFlow (name : Value) : (newFlow name).Spec t w := by
  refine spec_of_edit rfl { w with flow := { id := drawnId "flow" (intText w.serial), name }, serial := w.serial + 1 }
    ⟨rfl, rfl, rfl⟩ (Flow.textual_of_empty rfl rfl) hnow fun w'' hregenerate => ?_
  simp [step, Session.newFlow, Act.bind_apply, Act.map_apply, hregenerate]

omit htext in
theorem spec_clear : clear.Spec t w := by
  refine spec_of_edit rfl { w with flow := w.flow.clear } ⟨rfl, rfl, rfl⟩ (Flow.textual_of_empty rfl rfl) hnow
    fun w'' hregenerate => ?_
  simp [step, Session.clear, Act.bind_apply, Act.map_apply, hregenerate]

theorem spec_rename (name : Value) : (rename name).Spec t w := by
  refine spec_of_edit rfl { w with flow := { w.flow with name } } ⟨rfl, rfl, rfl⟩ ⟨htext.ids, htext.ends⟩ hnow
    fun w'' hregenerate => ?_
  simp [step, Session.rename, Act.bind_apply, hregenerate]

omit htext hnow in
theorem spec_move (id position : Value) : (move id position).Spec t w := by
  refine spec_of_untouched rfl ?_
  cases hmove : w.flow.move id position with
  | error fault =>
    have hstep : (move id position).step w = (.error fault, w) := by
      simp [step, Session.move, Act.bind_apply, hmove]
    rw [hstep]
    exact .refl w
  | ok moved =>
    have hstep : (move id position).step w = (.ok moved.2, { w with flow := moved.1 }) := by
      simp [step, Session.move, Act.bind_apply, Act.map_apply, hmove]
    rw [hstep]
    exact ⟨Flow.sameScript_move hmove, rfl, rfl, rfl, rfl⟩

omit htext hnow in
/-- Saving a flow puts the time into it, also where the store refuses it. -/
theorem still_save (w : Workspace) : w.Still (Archive.save w).2 := by
  rw [Archive.save, Act.bind_apply, Session.store_apply]
  dsimp only
  rw [Act.bind_apply]
  have hstamp (w₁ : Workspace) : Work.stamp w₁ = (Stamp.saved w₁.now, w₁) := by simp [Work.stamp, Act.bind_apply]
  rw [hstamp]
  cases Stamp.saved w.now with
  | error fault => exact ⟨.refl _, rfl, rfl, rfl, rfl⟩
  | ok now =>
    simp only [Act.bind_apply, Work.flow_apply, Work.setFlow_apply, Act.ofExcept_apply]
    cases (w.store.getD {}).save (w.flow.stamped now) with
    | error fault => exact ⟨Flow.sameScript_stamped _ _, rfl, rfl, rfl, rfl⟩
    | ok s => exact ⟨Flow.sameScript_stamped _ _, rfl, rfl, rfl, rfl⟩

omit htext hnow in
theorem spec_save : save.Spec t w := by
  refine spec_of_untouched rfl ?_
  have hsave : (Session.save w).2 = (Archive.save w).2 := by
    rw [Session.save, Act.bind_apply]
    rcases Archive.save w with ⟨fault | u, w'⟩ <;> rfl
  rw [step, Act.bind_pure_snd, hsave]
  exact still_save w

/-- **What an action does to the code.** -/
theorem step_spec (a : Action) : a.Spec t w := by
  cases a with
  | addBlock type position => exact spec_addBlock htext hnow type position
  | setParam id key value => exact spec_setParam htext hnow id key value
  | move id position => exact spec_move id position
  | removeBlock id => exact spec_removeBlock htext hnow id
  | addEdge e => exact spec_addEdge htext hnow e
  | connect source target => exact spec_connect htext hnow source target
  | removeEdge id => exact spec_removeEdge htext hnow id
  | newFlow name => exact spec_newFlow hnow name
  | clear => exact spec_clear hnow
  | rename name => exact spec_rename htext hnow name
  | save => exact spec_save

end Spec

end Action

/-! ## Sessions -/

/-- A session, with the instant at which its code was made last. -/
structure Following where
  workspace : Workspace
  made : Instant

namespace Following

/-- The session after an action at an instant. -/
def step (s : Following) (t : Instant) (a : Action) : Following :=
  let w := s.workspace.setClock t
  ⟨(a.step w).2, if a.renews w then t else s.made⟩

/-- The session after actions, each at its instant. -/
def run (s : Following) (actions : List (Instant × Action)) : Following := actions.foldl (fun s p => s.step p.1 p.2) s

/-- The code of the session is that of its flow when it was made last, and what was announced last is the code. Where nobody
listens nothing was announced. -/
structure Current (width : Int) (heard : Bool) (s : Following) : Prop where
  textual : s.workspace.flow.Textual
  code : s.workspace.code = s.workspace.flow.scriptText width s.made
  last : ∀ a, s.workspace.announced.back? = some a → a.code = s.workspace.code
  unheard : heard = false → s.workspace.announced = #[]
  indent : s.workspace.indent = width
  listening : s.workspace.listening = heard

variable {width : Int} {heard : Bool} {s : Following}

/-- An action announces the code once if it makes it anew, and nothing otherwise. -/
theorem Current.announced (h : Current width heard s) (t : Instant) (a : Action) :
    (s.step t a).workspace.announced =
      if heard && a.renews (s.workspace.setClock t) then
        s.workspace.announced.push ⟨(s.step t a).workspace.flow.id, (s.step t a).workspace.code⟩
      else s.workspace.announced := by
  have hspec := Action.step_spec (w := s.workspace.setClock t) h.textual rfl a
  unfold Action.Spec at hspec
  cases hrenews : a.renews (s.workspace.setClock t) with
  | true =>
    rw [if_pos hrenews] at hspec
    rw [Bool.and_true, ← h.listening]
    exact hspec.announced
  | false =>
    rw [hrenews] at hspec
    rw [Bool.and_false]
    exact hspec.tuned.announced

/-- One action keeps the code current. -/
theorem Current.step (h : Current width heard s) (t : Instant) (a : Action) : Current width heard (s.step t a) := by
  have hspec := Action.step_spec (w := s.workspace.setClock t) h.textual rfl a
  have hannounced := h.announced t a
  unfold Action.Spec at hspec
  have hunheard : heard = false → (s.step t a).workspace.announced = #[] := by
    rintro rfl
    exact hannounced.trans (h.unheard rfl)
  cases hrenews : a.renews (s.workspace.setClock t) with
  | true =>
    have hmade : (s.step t a).made = t := if_pos hrenews
    rw [if_pos hrenews] at hspec
    refine ⟨hspec.textual, ?_, fun x hx => ?_, hunheard, hspec.indent.trans h.indent, hspec.listening.trans h.listening⟩
    · rw [hmade, ← h.indent]
      exact hspec.code
    · cases heard with
      | false => simp [hunheard rfl] at hx
      | true =>
        rw [hannounced, hrenews, Bool.true_and, if_pos rfl, Array.back?_push] at hx
        exact Option.some.inj hx ▸ rfl
  | false =>
    have hmade : (s.step t a).made = s.made := if_neg (by simp [hrenews])
    rw [hrenews] at hspec
    refine ⟨hspec.flow.textual h.textual, ?_, fun x hx => ?_, hunheard, hspec.tuned.indent.trans h.indent,
      hspec.tuned.listening.trans h.listening⟩
    · -- the flow may differ in positions and times, which are not in the code
      rw [hmade]
      exact hspec.code.trans (h.code.trans (hspec.flow.scriptText_eq h.textual.keyed width s.made).symm)
    · rw [hannounced, hrenews, Bool.and_false] at hx
      exact (h.last x hx).trans hspec.code.symm

/-- Actions keep the code current. -/
theorem Current.run (h : Current width heard s) (actions : List (Instant × Action)) :
    Current width heard (s.run actions) := by
  induction actions generalizing s with
  | nil => exact h
  | cons p actions ih => exact ih (h.step p.1 p.2)

end Following

namespace Session

/-- The workspace in which a session starts on a new flow: nobody listens yet. -/
def startOn (w : Workspace) (t : Instant) : Except Fault Unit × Workspace :=
  start none { w.setClock t with listening := false }

/-- A session on a new flow, before the first action. -/
def opened (w : Workspace) (t : Instant) (heard : Bool) : Following :=
  ⟨{ (startOn w t).2 with listening := heard, announced := #[] }, t⟩

theorem startOn_apply (w : Workspace) (t : Instant) :
    (startOn w t).1 = .ok () ∧ ∀ heard, (opened w t heard).Current w.indent heard := by
  let new : Flow := { id := drawnId "flow" (intText w.serial) }
  have htext : new.Textual := Flow.textual_of_empty rfl rfl
  have hstart : startOn w t = regenerate { w.setClock t with listening := false, serial := w.serial + 1, flow := new } := rfl
  obtain ⟨notes, hregenerate⟩ := regenerate_apply
    (w := { w.setClock t with listening := false, serial := w.serial + 1, flow := new }) htext.keyed rfl
  rw [hregenerate] at hstart
  refine ⟨by rw [hstart], fun heard => ?_⟩
  rw [opened, hstart]
  exact ⟨htext, rfl, by simp, fun _ => rfl, rfl, rfl⟩

/-- **The code follows the flow.** A session starts on a new flow, and whatever actions follow, at whatever instants,
accepted, refused or failing: its code is that of its flow at the instant at which it was made last, what was announced last
is the code, and the next action announces its code once if it reports success and is no move and no save, and nothing
otherwise. -/
theorem code_follows (w : Workspace) (t : Instant) (heard : Bool) (actions : List (Instant × Action)) :
    let s := (opened w t heard).run actions
    (startOn w t).1 = .ok () ∧
      (Work.generate s.workspace.flow w.indent (some s.made.moment) s.workspace).1 = .ok s.workspace.code ∧
      (∀ a, s.workspace.announced.back? = some a → a.code = s.workspace.code) ∧
      ∀ t' a, (s.step t' a).workspace.announced =
        if heard && a.renews (s.workspace.setClock t') then
          s.workspace.announced.push ⟨(s.step t' a).workspace.flow.id, (s.step t' a).workspace.code⟩
        else s.workspace.announced := by
  intro s
  obtain ⟨hstart, hopened⟩ := startOn_apply w t
  have hcurrent : s.Current w.indent heard := (hopened heard).run actions
  refine ⟨hstart, ?_, hcurrent.last, fun t' a => hcurrent.announced t' a⟩
  rw [Work.generate_at hcurrent.textual.keyed, hcurrent.code]

end Session

end BlockFlow
