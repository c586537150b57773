import BlockFlow.Proofs.Regeneration
import BlockFlow.Proofs.Served
import BlockFlow.Service.Basic

/-!
What the endpoints of the flow do. The effect of a request is that the flow becomes another one and that some blocks are
told. This goes wrong where code cannot be made of the new flow, or where a block cannot be answered, and what was changed
until then stays.

* `EditorState`, `EditorState.put`, `EditorState.renew`: the state of the editor, with another flow, and with its code made
  anew.
* `Effect`, `Endpoint.effect`: the effect of a request, by the fields of its body and the flow at hand.
* `Effect.Ends`: the outcome, and the state of the editor after it.
* `Session.Renews`: steps that make the code anew.
* `Service.serve_effect`: **the endpoints of the flow have these effects.**
-/

namespace BlockFlow

/-! ## The state of the editor -/

/-- The state of the editor: the flow with its code, what was announced, and all that code is made by. -/
structure EditorState where
  flow : Flow
  code : String
  announced : Array Announcement
  indent : Int
  listening : Bool
  now : Int

def Workspace.editor (w : Workspace) : EditorState := ⟨w.flow, w.code, w.announced, w.indent, w.listening, w.now⟩

namespace EditorState

/-- The editor with another flow beside the code. -/
def put (d : EditorState) (f : Flow) : EditorState := { d with flow := f }

/-- The editor with another flow and its code, which is announced to whoever listens. -/
def renew (d : EditorState) (t : Instant) (f : Flow) : EditorState :=
  { d with
    flow := f
    code := f.scriptText d.indent t
    announced := if d.listening then d.announced.push ⟨f.id, f.scriptText d.indent t⟩ else d.announced }

end EditorState

/-! ## Effects of requests -/

/-- The effect of a request: a fault, or an answer of a status that tells some blocks, once the flow is another one and its
code is made anew where that is called for. -/
inductive Effect where
  | escape
  | reply (flow : Flow) (anew : Bool) (told : List Block) (status : Nat)

namespace Effect

/-- An answer that leaves the flow alone and tells no block. -/
def stay (f : Flow) (status : Nat) : Effect := .reply f false [] status

/-- The effect of a request with a position, which has to be readable. -/
def placing (f : Flow) (raw : Value) (next : Value → Effect) : Effect :=
  match Service.position raw with
  | .ok p => next p
  | .error fault => if Flow.isUnreadable fault then stay f 400 else escape

end Effect

/-- The edge that a body asks for, by its fields. -/
def Edge.wanted (es : List (Value × Value)) (serial : Nat) : Edge where
  id := (Entries.fieldD es "id" .null).orElse (drawnId "edge" (intText serial))
  source := Entries.fieldD es "source" .null
  target := Entries.fieldD es "target" .null

namespace Effect

/-- The code is told, with all that is wrong with the flow. -/
def ofCode (f : Flow) : Effect :=
  match Session.findings f with
  | .ok _ => stay f 200
  | .error _ => escape

def ofRename (es : List (Value × Value)) (f : Flow) : Effect :=
  if (Entries.fieldD es "name" .null).truthy then
    .reply { f with name := .text (Entries.fieldD es "name" .null).display } true f.blocks 200
  else stay f 400

def ofAddBlock (es : List (Value × Value)) (serial : Nat) (f : Flow) : Effect :=
  if (Entries.fieldD es "type" .null).truthy then
    placing f (Entries.fieldD es "position" .null) fun p =>
      .reply (f.addBlock (drawnId "block" (intText serial)) (Entries.fieldD es "type" .null) p) true [] 201
  else stay f 400

def ofSetParam (es : List (Value × Value)) (f : Flow) (id : String) : Effect :=
  match Entries.field? es "key", f.block? (.text id) with
  | none, _ => stay f 400
  | some _, none => stay f 404
  | some key, some b =>
    match b.params.assign key (Entries.fieldD es "value" .null) with
    | .error _ => escape
    | .ok params => .reply (f.updateBlock (.text id) fun b => { b with params }) true [{ b with params }] 200

def ofMove (es : List (Value × Value)) (f : Flow) (id : String) : Effect :=
  placing f (Entries.fieldD es "position" (.list [.int 0, .int 0])) fun p =>
    match f.move (.text id) p with
    | .error _ => escape
    | .ok (_, false) => stay f 404
    | .ok (g, true) => .reply g false [] 200

def ofRemoveBlock (f : Flow) (id : String) : Effect :=
  match f.block? (.text id) with
  | none => stay f 404
  | some _ => .reply (f.dropBlock (.text id)) true [] 200

/-- An edge that is refused is answered as such. -/
def ofAddEdge (es : List (Value × Value)) (serial : Nat) (f : Flow) : Effect :=
  if (Edge.wanted es serial).source.truthy && (Edge.wanted es serial).target.truthy then
    match f.addEdge (Edge.wanted es serial) with
    | .ok g => .reply g true [] 201
    | .error fault => if (Session.refusal? fault).isSome then stay f 409 else escape
  else stay f 400

def ofRemoveEdge (f : Flow) (id : String) : Effect :=
  match f.removeEdge (.text id) with
  | (_, none) => stay f 404
  | (g, some _) => .reply g true [] 200

end Effect

/-- The effect of a request to an endpoint of the flow, by the fields of its body and the number of the next identifier. -/
def Endpoint.effect (es : List (Value × Value)) (serial : Nat) (f : Flow) : Endpoint → Option Effect
  | .flow | .blocks => some (.reply f false f.blocks 200)
  | .exportFlow | .edges => some (.stay f 200)
  | .code => some (.ofCode f)
  | .rename => some (.ofRename es f)
  | .newFlow =>
    some (.reply
      { id := drawnId "flow" (intText serial), name := (Entries.fieldD es "name" .null).orElse (.text "My Flow") }
      true [] 200)
  | .clear => some (.reply f.clear true [] 200)
  | .addBlock => some (.ofAddBlock es serial f)
  | .setParam id => some (.ofSetParam es f id)
  | .move id => some (.ofMove es f id)
  | .removeBlock id => some (.ofRemoveBlock f id)
  | .addEdge => some (.ofAddEdge es serial f)
  | .removeEdge id => some (.ofRemoveEdge f id)
  | _ => none

/-! ## Outcomes -/

theorem not_succeeds_iff {α : Type} {outcome : Except Fault α} : ¬ Succeeds outcome ↔ ∃ fault, outcome = .error fault := by
  cases outcome <;> simp [Succeeds]

theorem not_succeeds_error {α : Type} (fault : Fault) : ¬ Succeeds (.error fault : Except Fault α) :=
  not_succeeds_iff.2 ⟨fault, rfl⟩

theorem Flow.setParam_eq {f : Flow} {id : Value} {b : Block} (h : f.block? id = some b) (key value : Value) :
    f.setParam id key value =
      (b.params.assign key value).map fun params => f.updateBlock id fun b => { b with params } := by
  rw [setParam, h]
  dsimp only
  cases b.params.assign key value <;> rfl

/-- A block that is changed in place is found as it is then. -/
theorem Flow.block?_updateBlock {f : Flow} {id : Value} {b : Block} (h : f.block? id = some b) {change : Block → Block}
    (hid : ∀ c, (change c).id = c.id) : (f.updateBlock id change).block? id = some (change b) := by
  unfold block? updateBlock at *
  dsimp only
  generalize f.blocks = blocks at h
  induction blocks with
  | nil => cases h
  | cons c blocks ih =>
    rw [List.find?_cons] at h
    rw [modifyFirst]
    split at h
    · rename_i hc
      obtain rfl := Option.some.inj h
      rw [if_pos hc, List.find?_cons, hid, hc]
    · rename_i hc
      rw [if_neg (by simp [hc]), List.find?_cons, hc]
      exact ih h

namespace Effect

/-- An answer of the status comes exactly if all blocks that it tells can be told. -/
def Answered (told : List Block) (status : Nat) (outcome : Except Fault Reply) : Prop :=
  (Succeeds outcome ↔ ∀ b ∈ told, b.Orderly) ∧ ∀ reply, outcome = .ok reply → reply.status = status

/-- The outcome of an effect, and the state of the editor after it. A flow that no code can be made of is put into the editor
all the same. -/
def Ends (t : Instant) (d : EditorState) (outcome : Except Fault Reply) (after : EditorState) : Effect → Prop
  | .escape => ¬ Succeeds outcome ∧ after = d
  | .reply g false told status => after = d.put g ∧ Answered told status outcome
  | .reply g true told status =>
    (g.Keyed → after = d.renew t g ∧ Answered told status outcome) ∧ (¬ g.Keyed → after = d.put g ∧ ¬ Succeeds outcome)

end Effect

/-! ## Steps that make the code anew -/

namespace Session

/-- The step puts a flow into the editor and makes its code anew, and then gives a value; if no code can be made, it
fails. -/
def Renews {α : Type} (t : Instant) (d : EditorState) (g : Flow) (value : α) (step : Work α) (w : Workspace) : Prop :=
  (g.Keyed ∧ ∃ w', step w = (.ok value, w') ∧ w'.editor = d.renew t g) ∨
    (¬ g.Keyed ∧ ∃ fault w', step w = (.error fault, w') ∧ w'.editor = d.put g)

variable {α β : Type} {t : Instant} {d : EditorState} {g : Flow} {w v : Workspace}

theorem renews_regenerate (h : w.editor = d.put g) (hnow : d.now = t.micros) : Renews t d g () regenerate w := by
  obtain ⟨hflow, hcode, hannounced, hindent, hlistening, hclock⟩ := EditorState.mk.inj h
  have hflow : w.flow = g := hflow
  by_cases hkeyed : g.Keyed
  · obtain ⟨notes, hrun⟩ := regenerate_apply (w := w) (t := t) (hflow ▸ hkeyed) (hclock.trans hnow)
    refine Or.inl ⟨hkeyed, _, hrun, ?_⟩
    simp only [Workspace.editor, EditorState.renew, hflow, hannounced, hindent, hlistening, hclock]
  · obtain ⟨fault, hrun⟩ := regenerate_unkeyed (w := w) (hflow ▸ hkeyed)
    exact Or.inr ⟨hkeyed, fault, w, hrun, h⟩

/-- The value may be another one. -/
theorem Renews.map {a : α} {step : Work α} (h : Renews t d g a step w) (answer : α → β) :
    Renews t d g (answer a) (step >>= fun a => pure (answer a)) w := by
  rcases h with ⟨hkeyed, w', hrun, heditor⟩ | ⟨hkeyed, fault, w', hrun, heditor⟩
  · exact Or.inl ⟨hkeyed, w', by rw [Act.bind_apply, hrun]; rfl, heditor⟩
  · exact Or.inr ⟨hkeyed, fault, w', by rw [Act.bind_apply, hrun], heditor⟩

/-- A step that comes to an end may stand in front. -/
theorem Renews.after {first : Work α} {next : α → Work β} {a : α} {b : β} (hfirst : first w = (.ok a, v))
    (h : Renews t d g b (next a) v) : Renews t d g b (first >>= next) w := by
  unfold Renews at h ⊢
  rw [Act.bind_apply, hfirst]
  exact h

end Session

/-! ## Edits of the flow in the editor -/

namespace Canvas

variable {w : Workspace} {f : Flow} {id : Value}

theorem removeBlock_put {b : Block} (h : w.flow.block? id = some b) :
    ∃ w', removeBlock id w = (.ok (w.flow.touching id).length, w') ∧ w'.editor = w.editor.put (w.flow.dropBlock id) := by
  have hremoved : w.flow.removeBlock id = (w.flow.dropBlock id, some (w.flow.touching id).length) := by
    rw [Flow.removeBlock, h]
  rw [removeBlock, Act.bind_apply, Work.flow_apply]
  dsimp only
  rw [hremoved]
  exact ⟨_, rfl, rfl⟩

theorem removeEdge_put {e : Edge} (h : w.flow.removeEdge id = (f, some e)) :
    ∃ w', removeEdge id w = (.ok (some e), w') ∧ w'.editor = w.editor.put f := by
  rw [removeEdge, Act.bind_apply, Work.flow_apply]
  dsimp only
  rw [h]
  exact ⟨_, rfl, rfl⟩

theorem addEdge_put {e : Edge} (h : w.flow.addEdge e = .ok f) :
    ∃ w', addEdge e w = (.ok (), w') ∧ w'.editor = w.editor.put f := by
  rw [addEdge, Act.bind_apply, Work.flow_apply]
  dsimp only
  rw [h]
  exact ⟨_, rfl, rfl⟩

theorem addEdge_refused {e : Edge} {fault : Fault} (h : w.flow.addEdge e = .error fault) :
    ∃ w', addEdge e w = (.error fault, w') ∧ w'.editor = w.editor := by
  rw [addEdge, Act.bind_apply, Work.flow_apply]
  dsimp only
  rw [h]
  cases hrefusal : refusal? e fault with
  | none => exact ⟨w, by simp [hrefusal], rfl⟩
  | some text =>
    exact ⟨{ w with notes := w.notes.push ⟨.canvas, .warning, text⟩ }, by simp [hrefusal, Act.bind_apply], rfl⟩

end Canvas

theorem Edge.sendable_wanted {es : List (Value × Value)} (hread : (Value.dict es).IsRead) (n : Nat) :
    (Edge.wanted es n).document.Sendable := by
  have htext (s : String) : (Value.text s).Sendable := (Value.IsRead.text s).sendable
  refine Value.sendable_object.2 ?_
  simp only [List.forall_mem_cons, List.not_mem_nil, false_implies, implies_true, and_true]
  exact ⟨((hread.fieldD "id" .null).orElse (.text _)).sendable, (hread.fieldD "source" .null).sendable, htext _,
    (hread.fieldD "target" .null).sendable, htext _⟩

namespace Service

open Session

variable {α : Type} {t : Instant} {d : EditorState} {g : Flow} {w : Workspace} {told : List Block} {status : Nat}

/-! ## Answers -/

/-- The step only answers. -/
def Answers (told : List Block) (status : Nat) (step : Work Reply) (w : Workspace) : Prop :=
  (step w).2 = w ∧ Effect.Answered told status (step w).1

theorem json_apply (status : Nat) (fields : List (String × Value)) (w : Workspace) :
    json status fields w = ((Json.normal (.object fields)).map fun v => ⟨status, .json v⟩, w) := by
  rw [json, Act.bind_apply, Act.ofExcept_apply]
  cases Json.normal (.object fields) <;> rfl

theorem answers_json {fields : List (String × Value)} (h : (∀ f ∈ fields, f.2.Sendable) ↔ ∀ b ∈ told, b.Orderly) :
    Answers told status (json status fields) w := by
  rw [← Value.sendable_object] at h
  unfold Answers
  rw [json_apply]
  refine ⟨rfl, ?_, fun reply hreply => ?_⟩
  · rw [← h, Value.Sendable]
    cases Json.normal (.object fields) <;> simp [Succeeds, Except.map]
  · dsimp only at hreply
    cases hnormal : Json.normal (.object fields) with
    | error fault =>
      rw [hnormal] at hreply
      cases hreply
    | ok v =>
      rw [hnormal] at hreply
      obtain rfl := Except.ok.inj hreply
      rfl

theorem sendable_bool (b : Bool) : (Value.bool b).Sendable := (Value.IsRead.bool b).sendable

theorem sendable_text (s : String) : (Value.text s).Sendable := (Value.IsRead.text s).sendable

theorem answers_data {v : Value} (h : v.Sendable ↔ ∀ b ∈ told, b.Orderly) : Answers told status (data status v) w := by
  refine answers_json ?_
  simpa [sendable_bool] using h

theorem answers_error (message : String) : Answers [] status (error status message) w := by
  refine answers_json ?_
  simp [sendable_bool, sendable_text]

theorem answers_verdict (name : String) (found : Bool) :
    Answers [] (if found then 200 else 404) (verdict name found) w := by
  refine answers_json ?_
  simp [sendable_bool, Value.sendable_object]

theorem answers_feedback (f : Feedback) {fields : List (Value × Value)}
    (h : (Value.dict fields).Sendable ↔ ∀ b ∈ told, b.Orderly) :
    Answers told status (feedback status f (.dict fields)) w := by
  refine answers_json ?_
  rw [Value.orElse_dict]
  simpa [sendable_bool, sendable_text, Feedback.document, Value.sendable_object] using h

/-- A step that comes to an end and changes nothing may stand in front. -/
theorem Answers.after {first : Work α} {next : α → Work Reply} {a : α} (hfirst : first w = (.ok a, w))
    (h : Answers told status (next a) w) : Answers told status (first >>= next) w := by
  unfold Answers at h ⊢
  rw [Act.bind_apply, hfirst]
  exact h

theorem flowDocument_apply (w : Workspace) : flowDocument w = (w.flow.document, w) := by
  rw [flowDocument, Act.bind_apply, Work.flow_apply]
  exact Act.ofExcept_apply _ _

/-- The flow is answered. -/
theorem answers_flow {answer : Value → Work Reply} (h : w.flow.Served Value.IsRead)
    (hanswer : ∀ fields, ((Value.object fields).Sendable ↔ ∀ b ∈ w.flow.blocks, b.Orderly) →
      Answers w.flow.blocks status (answer (.object fields)) w) :
    Answers w.flow.blocks status (flowDocument >>= answer) w := by
  obtain ⟨docs, hdocs, -⟩ := h.sendable_blocks
  obtain ⟨doc, hdoc, hsend⟩ := h.sendable_document
  obtain rfl := Except.ok.inj ((Flow.document_eq hdocs).symm.trans hdoc)
  have hrun : flowDocument w = (.ok (.object (w.flow.documentFields docs)), w) := by rw [flowDocument_apply, hdoc]
  exact Answers.after hrun (hanswer _ hsend)

/-! ## Steps with an effect -/

/-- The step has the effect. -/
def Meets (t : Instant) (w : Workspace) (step : Work Reply) (effect : Effect) : Prop :=
  effect.Ends t w.editor (step w).1 (step w).2.editor

theorem Answers.meets {step : Work Reply} (h : Answers told status step w) :
    Meets t w step (.reply w.flow false told status) := by
  unfold Meets
  rw [h.1]
  exact ⟨rfl, h.2⟩

theorem meets_escape {step : Work Reply} (fault : Fault) {v : Workspace} (h : step w = (.error fault, v))
    (heditor : v.editor = w.editor) : Meets t w step .escape := by
  unfold Meets
  rw [h]
  exact ⟨not_succeeds_error fault, heditor⟩

/-- A step that comes to an end and leaves the editor alone may stand in front. -/
theorem Meets.after {first : Work α} {next : α → Work Reply} {a : α} {v : Workspace} {effect : Effect}
    (hfirst : first w = (.ok a, v)) (heditor : v.editor = w.editor) (h : Meets t v (next a) effect) :
    Meets t w (first >>= next) effect := by
  unfold Meets at h ⊢
  rwa [Act.bind_apply, hfirst, ← heditor]

/-- A flow is put into the editor, and then the answer is given. -/
theorem meets_put {first : Work α} {next : α → Work Reply} {a : α} {w' : Workspace} (hfirst : first w = (.ok a, w'))
    (heditor : w'.editor = w.editor.put g) (h : Answers told status (next a) w') :
    Meets t w (first >>= next) (.reply g false told status) := by
  unfold Meets
  rw [Act.bind_apply, hfirst]
  dsimp only
  rw [h.1]
  exact ⟨heditor, h.2⟩

/-- A field is looked up first. -/
theorem Meets.get {es : List (Value × Value)} {name : String} {other : Value} {next : Value → Work Reply} {effect : Effect}
    (h : Meets t w (next (Entries.fieldD es name other)) effect) :
    Meets t w (Act.ofExcept ((Value.dict es).get name other) >>= next) effect :=
  .after (by rw [Value.get_dict, Act.ofExcept_apply]) rfl h

/-- The code is made anew, and then the answer is given. -/
theorem meets_of_renews {step : Work α} {next : α → Work Reply} {a : α} (h : Renews t w.editor g a step w)
    (hnext : ∀ w' : Workspace, w'.flow = g → Answers told status (next a) w') :
    Meets t w (step >>= next) (.reply g true told status) := by
  unfold Meets
  rw [Act.bind_apply]
  rcases h with ⟨hkeyed, w', hrun, heditor⟩ | ⟨hkeyed, fault, w', hrun, heditor⟩
  · rw [hrun]
    have hanswers := hnext w' (congrArg EditorState.flow heditor)
    refine ⟨fun _ => ?_, fun hunkeyed => absurd hkeyed hunkeyed⟩
    dsimp only
    rw [hanswers.1]
    exact ⟨heditor, hanswers.2⟩
  · rw [hrun]
    exact ⟨fun h => absurd h hkeyed, fun _ => ⟨heditor, not_succeeds_error fault⟩⟩

/-- A position that cannot be read is answered at once. -/
theorem meets_placing {raw : Value} {step : Value → Work Reply} {next : Value → Effect}
    (h : ∀ p, position raw = .ok p → Meets t w (step p) (next p)) :
    Meets t w (withPosition raw step) (.placing w.flow raw next) := by
  unfold withPosition Effect.placing
  cases hposition : position raw with
  | ok p => exact h p hposition
  | error fault =>
    dsimp only
    split
    · exact (answers_error _).meets
    · exact meets_escape fault (Act.fail_apply fault w) rfl

/-- A position that is read is none, or a pair of coordinates. -/
theorem place_of_position {raw p : Value} (h : position raw = .ok p) : p = .null ∨ ∃ x y, p = .place x y := by
  unfold position at h
  split at h
  · exact Or.inl (Except.ok.inj h).symm
  · obtain ⟨x, -, h⟩ := bind_eq_ok.1 h
    obtain ⟨y, -, h⟩ := bind_eq_ok.1 h
    exact Or.inr ⟨x, y, (Except.ok.inj h).symm⟩
  · exact Or.inr (Flow.Served.place_of_readPosition h)

/-! ## The endpoints of the flow -/

section Endpoints

variable {es : List (Value × Value)} {id : String} (hflow : w.flow.Served Value.IsRead)
  (hnow : w.now = t.micros)

include hflow

theorem meets_flow : Meets t w (flowDocument >>= data 200) (.reply w.flow false w.flow.blocks 200) :=
  (answers_flow hflow fun _ hsend => answers_data hsend).meets

theorem meets_blocks : Meets t w (do data 200 (.list (← Act.ofExcept ((← Work.flow).blocks.mapM Block.document))))
    (.reply w.flow false w.flow.blocks 200) := by
  obtain ⟨docs, hdocs, hsend⟩ := hflow.sendable_blocks
  refine Answers.meets (.after rfl (.after (a := docs) ?_ (answers_data ?_)))
  · rw [Act.ofExcept_apply, Block.mapM_document hdocs]
  · rw [Value.sendable_list, hsend]

theorem meets_edges : Meets t w (do data 200 (.list ((← Work.flow).edges.map Edge.document))) (.stay w.flow 200) := by
  refine Answers.meets (.after rfl (answers_data (iff_of_true ?_ (List.forall_mem_nil _))))
  rw [Value.sendable_list]
  exact List.forall_mem_map.2 fun e he => (hflow.edges e he).sendable

theorem meets_exportFlow : Meets t w (do return ⟨200, .text (← Session.exportText)⟩) (.stay w.flow 200) := by
  obtain ⟨text, htext, -⟩ := hflow.writable.importText_reread
  have hexport : Session.exportText w = (.ok text, w) := by
    rw [Session.exportText, Act.bind_apply, Work.flow_apply]
    dsimp only
    rw [Act.ofExcept_apply, htext]
  refine Answers.meets (.after hexport ⟨rfl, iff_of_true ⟨_, rfl⟩ (List.forall_mem_nil _), fun reply hreply => ?_⟩)
  obtain rfl := Except.ok.inj hreply
  rfl

omit hflow in
theorem meets_code : Meets t w code (.ofCode w.flow) := by
  have hwarnings : Session.warnings w = (Session.findings w.flow, w) := by
    rw [Session.warnings, Act.bind_apply, Work.flow_apply]
    exact Act.ofExcept_apply _ _
  refine .after (v := w) rfl rfl ?_
  unfold Effect.ofCode
  split
  · rename_i warnings hfindings
    refine Answers.meets (.after (a := warnings) (by rw [hwarnings, hfindings]) (answers_data ?_))
    simp [Value.sendable_object, Value.sendable_list, sendable_text]
  · rename_i fault hfindings
    refine meets_escape fault (v := w) ?_ rfl
    rw [Act.bind_apply, hwarnings, hfindings]

include hnow

theorem meets_rename : Meets t w (rename (.dict es)) (.ofRename es w.flow) := by
  refine .get ?_
  unfold Effect.ofRename
  by_cases htruthy : (Entries.fieldD es "name" .null).truthy
  · rw [if_pos htruthy, if_pos htruthy]
    refine meets_of_renews (a := ()) (.after rfl (.after rfl (renews_regenerate rfl hnow))) fun w' hw' => ?_
    have hserved : w'.flow.Served Value.IsRead := by
      rw [hw']
      exact hflow.rename _
    have hblocks : w'.flow.blocks = w.flow.blocks := by rw [hw']
    rw [← hblocks]
    exact answers_flow hserved fun _ hsend => answers_data hsend
  · rw [if_neg htruthy, if_neg htruthy]
    exact (answers_error _).meets

theorem meets_clear : Meets t w (do feedback 200 (← Session.clear) (← flowDocument)) (.reply w.flow.clear true [] 200) := by
  refine meets_of_renews (.after rfl (.after rfl (.map (renews_regenerate rfl hnow) _))) fun w' hw' => ?_
  have hserved : w'.flow.Served Value.IsRead := by
    rw [hw']
    exact hflow.clear
  have hblocks : w'.flow.blocks = [] := by rw [hw']; rfl
  rw [← hblocks]
  exact answers_flow hserved fun _ hsend => answers_feedback _ hsend

omit hflow in
theorem meets_newFlow (hread : (Value.dict es).IsRead) : Meets t w (newFlow (.dict es))
    (.reply { id := drawnId "flow" (intText w.serial), name := (Entries.fieldD es "name" .null).orElse (.text "My Flow") }
      true [] 200) := by
  refine .get (meets_of_renews (.after rfl (.after rfl (.map (renews_regenerate rfl hnow) _))) fun w' hw' => ?_)
  have hname : ((Entries.fieldD es "name" .null).orElse (.text "My Flow")).IsRead := (hread.fieldD _ .null).orElse (.text _)
  have hserved : w'.flow.Served Value.IsRead := by
    rw [hw']
    exact Flow.served_fresh (truthy_drawnId _ _) (.text _) hname
  have hblocks : w'.flow.blocks = [] := by rw [hw']
  rw [← hblocks]
  exact answers_flow hserved fun _ hsend => answers_feedback _ hsend

theorem meets_addBlock (hread : (Value.dict es).IsRead) :
    Meets t w (addBlock (.dict es)) (.ofAddBlock es w.serial w.flow) := by
  refine .get ?_
  unfold Effect.ofAddBlock
  by_cases htruthy : (Entries.fieldD es "type" .null).truthy
  · rw [if_pos htruthy, if_pos htruthy]
    refine .get (meets_placing fun p hp => ?_)
    generalize htype : Entries.fieldD es "type" .null = type at htruthy
    have hid : (drawnId "block" (intText w.serial)).IsRead := .text _
    have hserved := hflow.addBlock hid (htype ▸ hread.fieldD "type" .null) (place_of_position hp)
    have hb := hserved.blocks (Block.fresh (drawnId "block" (intText w.serial)) type (p.orElse defaultPosition))
      (by simp [Flow.addBlock])
    obtain ⟨doc, hdoc⟩ := hb.framed.document
    refine meets_of_renews (.after rfl (.map (renews_regenerate rfl hnow) _)) fun w' hw' => ?_
    refine .after (a := doc) (by rw [Act.ofExcept_apply, hdoc.written]) (answers_data ?_)
    exact iff_of_true ((hb.sendable hdoc.written).2 ⟨[], rfl, .nil⟩) (List.forall_mem_nil _)
  · rw [if_neg htruthy, if_neg htruthy]
    exact (answers_error _).meets

omit hflow hnow in
theorem meets_move : Meets t w (move id (.dict es)) (.ofMove es w.flow id) := by
  refine .get (meets_placing fun p hp => ?_)
  have hrun : Session.move (.text id) p w = match w.flow.move (.text id) p with
      | .error fault => (.error fault, w)
      | .ok (g, found) => (.ok found, { w with flow := g }) := by
    unfold Session.move
    simp only [Act.bind_apply, Work.flow_apply, Act.ofExcept_apply]
    cases w.flow.move (.text id) p <;> rfl
  split
  · rename_i fault hmove
    refine meets_escape fault (v := w) ?_ rfl
    rw [Act.bind_apply, hrun, hmove]
  · rename_i g hmove
    rw [hmove] at hrun
    have hsame : g = w.flow := by
      unfold Flow.move at hmove
      split at hmove
      · exact (Prod.mk.inj (Except.ok.inj hmove)).1.symm
      · split at hmove
        · cases hmove
        · cases hmove
    exact meets_put hrun (by rw [hsame]; rfl) (answers_verdict "moved" false)
  · rename_i g hmove
    rw [hmove] at hrun
    exact meets_put hrun rfl (answers_verdict "moved" true)

omit hflow in
theorem meets_removeBlock : Meets t w (removeBlock id) (.ofRemoveBlock w.flow id) := by
  have hnone : (Value.dict []).Sendable ↔ ∀ b ∈ ([] : List Block), b.Orderly :=
    iff_of_true Json.isRead_empty.sendable (List.forall_mem_nil _)
  unfold Effect.ofRemoveBlock
  split
  · rename_i hblock
    refine .after (a := ⟨"Block not found", "No block with id " ++ (Value.text id).display ++ ".", false⟩) (v := w) ?_
      rfl ?_
    · rw [Session.removeBlock, Act.bind_apply, Work.flow_apply]
      dsimp only
      rw [hblock]
      rfl
    · exact (answers_feedback _ hnone).meets
  · rename_i b hblock
    refine meets_of_renews (a := ⟨"Block removed",
      "Block removed with " ++ intText (w.flow.touching (.text id)).length ++ " connection(s).", true⟩)
      (.after (v := w) (a := w.flow) rfl ?_) fun w' _ => answers_feedback _ hnone
    obtain ⟨w', hrun, heditor⟩ := Canvas.removeBlock_put hblock
    rw [hblock]
    exact .after hrun (.map (renews_regenerate heditor hnow) _)

omit hflow in
theorem meets_removeEdge :
    Meets t w (do verdict "removed" (← Session.removeEdge (.text id))) (.ofRemoveEdge w.flow id) := by
  unfold Effect.ofRemoveEdge
  split
  · rename_i g hedge
    refine .after (a := false) (v := w) ?_ rfl (answers_verdict "removed" false).meets
    rw [Session.removeEdge, Act.bind_apply, Canvas.removeEdge, Act.bind_apply, Work.flow_apply]
    dsimp only
    rw [hedge]
    rfl
  · rename_i g e hedge
    obtain ⟨w', hrun, heditor⟩ := Canvas.removeEdge_put hedge
    exact meets_of_renews (a := true) (.after hrun (.map (renews_regenerate heditor hnow) _))
      fun w' _ => answers_verdict "removed" true

theorem meets_setParam (hread : (Value.dict es).IsRead) :
    Meets t w (setParam id (.dict es)) (.ofSetParam es w.flow id) := by
  have hcontains : (Value.dict es).contains (.text "key") = .ok (Entries.field? es "key").isSome := by
    have hsome : Entries.contains es (.text "key") = (Entries.field? es "key").isSome := by
      rw [Bool.eq_iff_iff, Entries.contains_text, Option.isSome_iff_exists]
    rw [Value.contains, Value.key_text, hsome]
  refine .after (v := w) (a := (Entries.field? es "key").isSome) (by rw [hcontains, Act.ofExcept_apply]) rfl ?_
  generalize heffect : Effect.ofSetParam es w.flow id = effect
  unfold Effect.ofSetParam at heffect
  split at heffect
  · rename_i hkey
    subst heffect
    rw [hkey]
    exact (answers_error _).meets
  · rename_i key hkey hblock
    subst heffect
    rw [hkey]
    refine .after (v := w) (a := key) (by rw [Value.require_dict hkey, Act.ofExcept_apply]) rfl (.get ?_)
    refine .after (v := w) (a := false) ?_ rfl (answers_error _).meets
    rw [Session.setParam, Act.bind_apply, Work.flow_apply]
    dsimp only
    rw [hblock]
    rfl
  · rename_i key b hkey hblock
    rw [hkey]
    refine .after (v := w) (a := key) (by rw [Value.require_dict hkey, Act.ofExcept_apply]) rfl (.get ?_)
    have hedited := Flow.setParam_eq hblock key (Entries.fieldD es "value" .null)
    split at heffect
    · rename_i fault hassign
      subst heffect
      rw [hassign, Except.map] at hedited
      refine meets_escape fault (v := w) ?_ rfl
      rw [Act.bind_apply, Session.setParam, Act.bind_apply, Work.flow_apply]
      dsimp only
      rw [hblock]
      simp [Act.bind_apply, hedited]
    · rename_i params hassign
      subst heffect
      rw [hassign, Except.map] at hedited
      have hserved := hflow.setParam (hread.field? hkey) (hread.fieldD "value" .null) hedited
      have hchanged : (w.flow.updateBlock (.text id) fun b => { b with params }).block? (.text id) =
          some { b with params } := Flow.block?_updateBlock hblock fun _ => rfl
      have hb := hserved.blocks _ (List.mem_of_find?_eq_some hchanged)
      obtain ⟨doc, hdoc⟩ := hb.framed.document
      refine meets_of_renews (a := true) (.after (v := w) (a := w.flow) rfl ?_) fun w' hw' => ?_
      · rw [hblock]
        refine .after (a := w.flow.updateBlock (.text id) fun b => { b with params }) (v := w) ?_ ?_
        · rw [Act.ofExcept_apply, hedited]
        · exact .after rfl (.map (renews_regenerate rfl hnow) _)
      · refine .after (a := w'.flow) rfl ?_
        rw [hw', hchanged]
        refine .after (a := doc) (by rw [Act.ofExcept_apply, hdoc.written]) (answers_data ?_)
        rw [hb.sendable hdoc.written, List.forall_mem_singleton]

omit hflow in
theorem meets_addEdge (hread : (Value.dict es).IsRead) :
    Meets t w (addEdge (.dict es)) (.ofAddEdge es w.serial w.flow) := by
  refine .get (.get ?_)
  have hsend := Edge.sendable_wanted hread w.serial
  generalize heffect : Effect.ofAddEdge es w.serial w.flow = effect
  unfold Effect.ofAddEdge at heffect
  split at heffect
  · rename_i hgiven
    refine (if_pos hgiven).symm ▸ .after rfl rfl (.get ?_)
    show Meets t { w with serial := w.serial + 1 } (Session.addEdge (Edge.wanted es w.serial) >>= _) effect
    split at heffect
    · rename_i g hadded
      subst heffect
      obtain ⟨w', hrun, heditor⟩ := Canvas.addEdge_put (w := { w with serial := w.serial + 1 }) hadded
      refine meets_of_renews (.after (a := .ok ()) (v := w') ?_ (.map (renews_regenerate heditor hnow) _)) fun w' _ => ?_
      · rw [Act.attempt, hrun]
      · exact answers_feedback _ (iff_of_true hsend (List.forall_mem_nil _))
    · rename_i fault hrefused
      obtain ⟨w', hrun, heditor⟩ := Canvas.addEdge_refused (w := { w with serial := w.serial + 1 }) hrefused
      have hattempt : Act.attempt (Canvas.addEdge (Edge.wanted es w.serial)) { w with serial := w.serial + 1 } =
          (.ok (.error fault), w') := by rw [Act.attempt, hrun]
      cases hrefusal : Session.refusal? fault with
      | some f =>
        obtain rfl : Effect.stay w.flow 409 = effect := by simpa [hrefusal] using heffect
        refine .after (a := (false, f)) (v := w') ?_ heditor ?_
        · rw [Session.addEdge, Act.bind_apply, hattempt]
          simp [hrefusal]
        · have hsame : w'.flow = w.flow := congrArg EditorState.flow heditor
          rw [← hsame]
          exact (answers_feedback _ (iff_of_true Json.isRead_empty.sendable (List.forall_mem_nil _))).meets
      | none =>
        obtain rfl : Effect.escape = effect := by simpa [hrefusal] using heffect
        refine meets_escape fault (v := w') ?_ heditor
        rw [Act.bind_apply, Session.addEdge, Act.bind_apply, hattempt]
        simp [hrefusal]
  · rename_i hgiven
    subst heffect
    exact (if_neg hgiven).symm ▸ (answers_error _).meets

end Endpoints

/-- **The endpoints of the flow have these effects.** -/
theorem serve_effect {r : Request} {es : List (Value × Value)} {e : Endpoint} {effect : Effect}
    (hflow : w.flow.Served Value.IsRead) (hnow : w.now = t.micros) (hdata : r.data = .dict es)
    (hread : (Value.dict es).IsRead) (h : e.effect es w.serial w.flow = some effect) : Meets t w (serve r e) effect := by
  cases e with
  | flow => exact Option.some.inj h ▸ meets_flow hflow
  | blocks => exact Option.some.inj h ▸ meets_blocks hflow
  | edges => exact Option.some.inj h ▸ meets_edges hflow
  | exportFlow => exact Option.some.inj h ▸ meets_exportFlow hflow
  | code => exact Option.some.inj h ▸ meets_code
  | rename =>
    rw [serve, hdata]
    exact Option.some.inj h ▸ meets_rename hflow hnow
  | newFlow =>
    rw [serve, hdata]
    exact Option.some.inj h ▸ meets_newFlow hnow hread
  | clear => exact Option.some.inj h ▸ meets_clear hflow hnow
  | addBlock =>
    rw [serve, hdata]
    exact Option.some.inj h ▸ meets_addBlock hflow hnow hread
  | setParam id =>
    rw [serve, hdata]
    exact Option.some.inj h ▸ meets_setParam hflow hnow hread
  | move id =>
    rw [serve, hdata]
    exact Option.some.inj h ▸ meets_move
  | removeBlock id => exact Option.some.inj h ▸ meets_removeBlock hnow
  | addEdge =>
    rw [serve, hdata]
    exact Option.some.inj h ▸ meets_addEdge hnow hread
  | removeEdge id => exact Option.some.inj h ▸ meets_removeEdge hnow
  | _ => cases h

end Service

end BlockFlow
