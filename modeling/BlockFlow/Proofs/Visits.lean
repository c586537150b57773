import BlockFlow.Proofs.EditorKept
import BlockFlow.Proofs.FlowMap
import BlockFlow.Proofs.Surrogates

/-!
Requests that are answered one after the other, each at its instant. Whatever is asked of a service, its flow is a served
one and it keeps telling what it makes; as long as only the flow is edited, all identifiers are texts.

* `Effect.Makes`, `Effect.Makes.served`: all that is made of a flow, and that a served flow becomes a served flow.
* `EditorState.Open`, `Service.open_serve`: what all requests keep.
* `Endpoint.OfFlow`: the endpoints of the flow; `Request.Asks`, `Request.AsksFlow`: the requests to them.
* `Service.fresh`, `Service.reached`: a service that was just started, and after requests.
* `Service.open_reached`, `Service.drawn_reached`: **what holds after all requests, and after requests to the endpoints of
  the flow.**
-/

namespace BlockFlow

/-! ## What is made of a served flow -/

/-- A sort of identifiers that has all texts, and all that was read and equals one of its own. -/
structure Identifying (I : Value → Prop) : Prop where
  text : ∀ s, I (.text s)
  equal : ∀ {a b : Value}, I a → a.equal b = true → b.IsRead → I b

theorem identifying_isRead : Identifying Value.IsRead := ⟨.text, fun _ _ hb => hb⟩

theorem identifying_isText : Identifying Value.IsText :=
  ⟨fun s => ⟨s, rfl⟩, fun ha hab _ => ha.equal_iff.1 hab ▸ ha⟩

theorem Value.truthy_orElse {v other : Value} (h : other.truthy = true) : (v.orElse other).truthy = true := by
  unfold Value.orElse
  split
  · assumption
  · exact h

section Effect

variable {I : Value → Prop} {es : List (Value × Value)} {f g : Flow} {told : List Block} {anew : Bool} {status : Nat}

theorem Identifying.of_block? (hI : Identifying I) (hf : f.Served I) {v : Value} (hv : v.IsRead)
    (h : (f.block? v).isSome = true) : I v := by
  obtain ⟨b, hb⟩ := Option.isSome_iff_exists.1 h
  exact hI.equal (hf.blocks b (List.mem_of_find?_eq_some hb)).id (by simpa using List.find?_some hb) hv

/-- An edge that is asked for and let in is one of a served flow. -/
theorem Flow.Admits.served (hI : Identifying I) (hf : f.Served I) (hread : (Value.dict es).IsRead) {n : Nat}
    (h : f.Admits (Edge.wanted es n)) : (Edge.wanted es n).Served I :=
  ⟨Value.truthy_orElse (truthy_drawnId _ _), (hread.fieldD _ .null).orElse (.text _),
    hI.of_block? hf (hread.fieldD "source" .null) h.source, hI.of_block? hf (hread.fieldD "target" .null) h.target, .text _,
    .text _⟩

/-- All effects that there are. Only a block that is moved changes the flow without its code. -/
inductive Effect.Makes (es : List (Value × Value)) (n : Nat) (f : Flow) : Effect → Prop
  | escape : Makes es n f .escape
  | same {told : List Block} {status : Nat} (h : status ∈ [200, 400, 404, 409]) : Makes es n f (.reply f false told status)
  | moved {id p : Value} {g : Flow} (h : f.move id p = .ok (g, true)) : Makes es n f (.reply g false [] 200)
  | renamed (name : String) : Makes es n f (.reply { f with name := .text name } true f.blocks 200)
  | fresh : Makes es n f
    (.reply
      { id := drawnId "flow" (intText n), name := (Entries.fieldD es "name" .null).orElse (.text "My Flow") } true [] 200)
  | cleared : Makes es n f (.reply f.clear true [] 200)
  | added {raw p : Value} (h : Service.position raw = .ok p) :
    Makes es n f (.reply (f.addBlock (drawnId "block" (intText n)) (Entries.fieldD es "type" .null) p) true [] 201)
  | set {id key params : Value} {b : Block} (hkey : Entries.field? es "key" = some key)
    (h : f.setParam id key (Entries.fieldD es "value" .null) = .ok (f.updateBlock id fun b => { b with params })) :
    Makes es n f (.reply (f.updateBlock id fun b => { b with params }) true [{ b with params }] 200)
  | dropped (id : Value) : Makes es n f (.reply (f.dropBlock id) true [] 200)
  | linked (h : f.Admits (Edge.wanted es n)) : Makes es n f (.reply (f.link (Edge.wanted es n)) true [] 201)
  | unlinked (id : Value) : Makes es n f (.reply (f.removeEdge id).1 true [] 200)

theorem Effect.makes_placing {n : Nat} {raw : Value} {next : Value → Effect}
    (h : ∀ p, Service.position raw = .ok p → Makes es n f (next p)) : Makes es n f (placing f raw next) := by
  unfold placing
  split
  · rename_i p hp
    exact h p hp
  · split
    · exact .same (by simp)
    · exact .escape

/-- The effect of an endpoint is one of these. -/
theorem Endpoint.effect_makes {e : Endpoint} {n : Nat} {effect : Effect} (h : e.effect es n f = some effect) :
    effect.Makes es n f := by
  cases e with
  | flow | blocks | exportFlow | edges =>
    cases h
    exact .same (by simp)
  | code =>
    cases h
    unfold Effect.ofCode
    split
    · exact .same (by simp)
    · exact .escape
  | rename =>
    cases h
    unfold Effect.ofRename
    split
    · exact .renamed _
    · exact .same (by simp)
  | newFlow =>
    cases h
    exact .fresh
  | clear =>
    cases h
    exact .cleared
  | addBlock =>
    cases h
    unfold Effect.ofAddBlock
    split
    · exact Effect.makes_placing fun p hp => .added hp
    · exact .same (by simp)
  | setParam id =>
    cases h
    unfold Effect.ofSetParam
    split
    · exact .same (by simp)
    · exact .same (by simp)
    · rename_i key b hkey hblock
      have hedited := Flow.setParam_eq hblock key (Entries.fieldD es "value" .null)
      split
      · exact .escape
      · rename_i params hassign
        rw [hassign] at hedited
        exact .set hkey hedited
  | move id =>
    cases h
    refine Effect.makes_placing fun p _ => ?_
    split
    · exact .escape
    · exact .same (by simp)
    · rename_i moved hmove
      exact .moved hmove
  | removeBlock id =>
    cases h
    unfold Effect.ofRemoveBlock
    split
    · exact .same (by simp)
    · exact .dropped _
  | addEdge =>
    cases h
    unfold Effect.ofAddEdge
    split
    · split
      · rename_i linked hadded
        obtain ⟨hadmits, rfl⟩ := Flow.addEdge_eq_ok.1 hadded
        exact .linked hadmits
      · split
        · exact .same (by simp)
        · exact .escape
    · exact .same (by simp)
  | removeEdge id =>
    cases h
    unfold Effect.ofRemoveEdge
    split
    · exact .same (by simp)
    · rename_i unlinked e hedge
      have hmade : Effect.Makes es n f (.reply (f.removeEdge (.text id)).1 true [] 200) := .unlinked _
      rwa [hedge] at hmade
  | _ => cases h

namespace Effect.Makes

variable {n : Nat} (h : Makes es n f (.reply g anew told status))

include h

/-- **What is made of a served flow is a served flow.** -/
theorem served (hI : Identifying I) (hread : (Value.dict es).IsRead) (hf : f.Served I) : g.Served I := by
  cases h with
  | same => exact hf
  | moved hmove => exact hf.move hmove
  | renamed name => exact hf.rename name
  | fresh => exact Flow.served_fresh (truthy_drawnId _ _) (hI.text _) ((hread.fieldD _ .null).orElse (.text _))
  | cleared => exact hf.clear
  | added hp => exact hf.addBlock (hI.text _) (hread.fieldD _ .null) (Service.place_of_position hp)
  | set hkey hedited => exact hf.setParam (hread.field? hkey) (hread.fieldD _ .null) hedited
  | dropped id => exact hf.dropBlock id
  | linked hadmits => exact hf.link (hadmits.served hI hf hread)
  | unlinked id => exact hf.removeEdge id

/-- A flow that was never saved has no time of its making. -/
theorem createdAt (hf : f.createdAt = .null) : g.createdAt = .null := by
  cases h with
  | same | renamed | cleared | added | set | dropped | linked => exact hf
  | fresh => rfl
  | moved hmove =>
    unfold Flow.move at hmove
    split at hmove
    · cases hmove
    · split at hmove
      · cases hmove
      · cases hmove
        exact hf
  | unlinked id =>
    unfold Flow.removeEdge
    split
    · exact hf
    · exact hf

end Effect.Makes

end Effect

open Work

/-! ## What all requests keep -/

theorem Request.isRead_data (r : Request) : r.data.IsRead := by
  unfold Request.data
  refine Value.IsRead.orElse ?_ Json.isRead_empty
  unfold Request.json?
  split
  · cases hparse : Json.parse (.bytes (Request.utf8Bytes (r.body.getD "").toList)) with
    | error fault => exact .null
    | ok v => exact Json.parse_isRead hparse
  · exact .null

/-- The fields of the body, where it is an object. -/
def Request.fields (r : Request) : List (Value × Value) :=
  match r.data with
  | .dict es => es
  | _ => []

theorem Request.data_eq {r : Request} (h : r.data.isDict = true) : r.data = .dict r.fields := by
  unfold Request.fields
  cases hdata : r.data with
  | dict es => rfl
  | _ =>
    rw [hdata] at h
    cases h

theorem Request.isRead_fields {r : Request} (h : r.data.isDict = true) : (Value.dict r.fields).IsRead :=
  Request.data_eq h ▸ r.isRead_data

/-- The flow is a served one, and what is made of it is announced. -/
structure EditorState.Open (d : EditorState) : Prop where
  flow : d.flow.Served Value.IsRead
  listening : d.listening = true

theorem EditorState.Open.put {d : EditorState} (h : d.Open) {f : Flow} (hf : f.Served Value.IsRead) : (d.put f).Open :=
  ⟨hf, h.listening⟩

theorem EditorState.Open.renew {d : EditorState} (h : d.Open) {f : Flow} (hf : f.Served Value.IsRead) (t : Instant) :
    (d.renew t f).Open := ⟨hf, h.listening⟩

/-- After an effect the editor is as it was, or it has the new flow. -/
theorem Effect.Ends.editor {t : Instant} {d after : EditorState} {outcome : Except Fault Reply} {effect : Effect}
    (h : effect.Ends t d outcome after) :
    after = d ∨ ∃ g anew told status, effect = .reply g anew told status ∧ (after = d.put g ∨ after = d.renew t g) := by
  cases effect with
  | escape => exact Or.inl h.2
  | reply g anew told status =>
    refine Or.inr ⟨g, anew, told, status, rfl, ?_⟩
    cases anew with
    | false => exact Or.inl h.1
    | true =>
      by_cases hkeyed : g.Keyed
      · exact Or.inr (h.1 hkeyed).1
      · exact Or.inl (h.2 hkeyed).1

theorem Effect.Ends.flow {t : Instant} {d after : EditorState} {outcome : Except Fault Reply} {g : Flow} {anew : Bool}
    {told : List Block} {status : Nat} (h : (Effect.reply g anew told status).Ends t d outcome after) : after.flow = g := by
  cases anew with
  | false =>
    rw [h.1]
    rfl
  | true =>
    by_cases hkeyed : g.Keyed
    · rw [(h.1 hkeyed).1]
      rfl
    · rw [(h.2 hkeyed).1]
      rfl

namespace Service

open Session

variable {w : Workspace} {t : Instant} {r : Request} {e : Endpoint}

/-- A body that is no object is refused before anything is changed, where it is looked at. -/
theorem serve_unread (h : r.data.isDict = false) (e : Endpoint) (w : Workspace) :
    (serve r e w).2 = w ∨ e = .importFlow ∨ serve r e = serve { method := "", address := "" } e := by
  have hget (name : String) (other : Value) : ∃ fault, r.data.get name other = .error fault := by
    cases hdata : r.data with
    | dict es => simp [hdata, Value.isDict] at h
    | _ => exact ⟨_, rfl⟩
  have hrequire (name : String) : ∃ fault, r.data.require name = .error fault := by
    cases hdata : r.data with
    | dict es => simp [hdata, Value.isDict] at h
    | _ => exact ⟨_, rfl⟩
  cases e with
  | rename =>
    obtain ⟨fault, hfault⟩ := hget "name" .null
    exact Or.inl (by simp [serve, rename, Act.bind_apply, hfault])
  | newFlow =>
    obtain ⟨fault, hfault⟩ := hget "name" .null
    exact Or.inl (by simp [serve, newFlow, Act.bind_apply, hfault])
  | addBlock =>
    obtain ⟨fault, hfault⟩ := hget "type" .null
    exact Or.inl (by simp [serve, addBlock, Act.bind_apply, hfault])
  | move id =>
    obtain ⟨fault, hfault⟩ := hget "position" (.list [.int 0, .int 0])
    exact Or.inl (by simp [serve, move, Act.bind_apply, hfault])
  | addEdge =>
    obtain ⟨fault, hfault⟩ := hget "source" .null
    exact Or.inl (by simp [serve, addEdge, Act.bind_apply, hfault])
  | setParam id =>
    left
    obtain ⟨fault, hfault⟩ := hrequire "key"
    rw [serve, setParam, Act.bind_apply, Act.ofExcept_apply]
    rcases r.data.contains (.text "key") with fault | _ | _
    · rfl
    · exact (answers_error _).1
    · simp [Act.bind_apply, hfault]
  | importFlow => exact Or.inr (Or.inl rfl)
  | _ => exact Or.inr (Or.inr rfl)

end Service

namespace Endpoint

/-- The endpoint is one of the flow being edited. -/
def OfFlow (e : Endpoint) : Prop := ∃ verb parts, (verb, e) ∈ inFlow parts

/-- The endpoint is about something else than the flow being edited. -/
def isBeside : Endpoint → Bool
  | .health | .palette | .run | .savedFlows | .saveFlow | .savedFlow _ | .loadFlow _ | .deleteFlow _ | .exportSaved _
  | .importFlow | .asset => true
  | _ => false

theorem OfFlow.not_beside {e : Endpoint} (h : e.OfFlow) : e.isBeside = false := by
  obtain ⟨verb, parts, h⟩ := h
  unfold inFlow at h
  split at h
  case h_6 | h_7 | h_8 | h_10 =>
    split at h
    · cases h
    · obtain ⟨-, rfl⟩ := Prod.mk.inj (List.mem_singleton.1 h)
      rfl
  case h_1 | h_5 | h_9 =>
    rcases List.mem_cons.1 h with h | h
    · obtain ⟨-, rfl⟩ := Prod.mk.inj h
      rfl
    · obtain ⟨-, rfl⟩ := Prod.mk.inj (List.mem_singleton.1 h)
      rfl
  case h_2 | h_3 | h_4 =>
    obtain ⟨-, rfl⟩ := Prod.mk.inj (List.mem_singleton.1 h)
    rfl
  case h_11 => cases h

theorem exists_effect {e : Endpoint} (h : e.isBeside = false) (es : List (Value × Value)) (n : Nat) (f : Flow) :
    ∃ effect, e.effect es n f = some effect := by
  cases e with
  | health | palette | run | savedFlows | saveFlow | savedFlow | loadFlow | deleteFlow | exportSaved | importFlow | asset =>
    cases h
  | _ => exact ⟨_, rfl⟩

end Endpoint

namespace Service

open Session

variable {w : Workspace} {t : Instant} {r : Request} {e : Endpoint}

theorem open_effect (hopen : w.editor.Open) (hnow : w.now = t.micros) (he : e.isBeside = false) (hr : r.data.isDict = true) :
    (serve r e w).2.editor.Open := by
  have hread := Request.isRead_fields hr
  obtain ⟨effect, heffect⟩ := e.exists_effect he r.fields w.serial w.flow
  rcases (serve_effect hopen.flow hnow (Request.data_eq hr) hread heffect).editor with
    hsame | ⟨g, anew, told, status, rfl, hafter⟩
  · rwa [hsame]
  · have hg := (Endpoint.effect_makes heffect).served identifying_isRead hread hopen.flow
    rcases hafter with hafter | hafter
    · rw [hafter]
      exact hopen.put hg
    · rw [hafter]
      exact hopen.renew hg t

theorem open_adopt (hopen : w.editor.Open) (hnow : w.now = t.micros) {f : Flow} (hf : f.Served Value.IsRead) :
    (adopt f w).2.editor.Open := by
  rw [adopt_apply]
  rcases renews_regenerate (w := { w with flow := f }) (d := w.editor) rfl hnow with
    ⟨-, v, hrun, heditor⟩ | ⟨-, fault, v, hrun, heditor⟩
  · rw [hrun, heditor]
    exact hopen.renew hf t
  · rw [hrun, heditor]
    exact hopen.put hf

theorem open_load (hopen : w.editor.Open) (hnow : w.now = t.micros) (id : Value) : (Session.load id w).2.editor.Open := by
  have hload := Archive.keepsEditor_load id w
  rw [Session.load, Act.bind_apply]
  rcases hrun : Archive.load id w with ⟨fault | found, v⟩
  · rw [hrun] at hload
    exact hload.symm ▸ hopen
  · rw [hrun] at hload
    cases found with
    | none => exact hload.symm ▸ hopen
    | some f =>
      have hopen' : v.editor.Open := hload.symm ▸ hopen
      have hclock : v.now = t.micros := (congrArg EditorState.now hload).trans hnow
      dsimp only
      rw [Work.editor_bind fun _ => .pure _]
      exact open_adopt hopen' hclock (Archive.served_load hrun)

theorem open_import (hopen : w.editor.Open) (hnow : w.now = t.micros) (text : Value) :
    (Session.importText text w).2.editor.Open := by
  have hattempt : Act.attempt (Work.drawing (Flow.importText text)) w =
      (.ok (Flow.importText text w.serial).1, { w with serial := (Flow.importText text w.serial).2 }) := rfl
  rw [Session.importText, Act.bind_apply, hattempt]
  dsimp only
  cases hread : (Flow.importText text w.serial).1 with
  | ok f =>
    dsimp only
    rw [Work.editor_bind fun _ => .pure _]
    exact open_adopt (w := { w with serial := (Flow.importText text w.serial).2 }) hopen hnow
      (Flow.importText_served (Prod.ext hread rfl))
  | error fault =>
    dsimp only
    split
    · exact hopen
    · exact hopen

/-- Saving puts the time into the flow, whether it comes to an end or not. -/
theorem editor_save (hnow : w.now = t.micros) : (Archive.save w).2.editor = w.editor.put (w.flow.stamped t.savedStamp) := by
  rw [Archive.save_apply hnow]
  cases (w.store.getD {}).save (w.flow.stamped t.savedStamp) <;> rfl

/-- **Whatever is asked, the flow is a served one, and the service goes on telling.** -/
theorem open_serve (hopen : w.editor.Open) (hnow : w.now = t.micros) (r : Request) (e : Endpoint) :
    (serve r e w).2.editor.Open := by
  by_cases he : e.isBeside = false
  · by_cases hr : r.data.isDict = true
    · exact open_effect hopen hnow he hr
    · rcases serve_unread (Bool.not_eq_true _ ▸ hr) e w with hsame | rfl | hsame
      · rwa [hsame]
      · cases he
      · rw [hsame]
        exact open_effect hopen hnow he rfl
  · have hkeeps {step : Work Reply} (h : KeepsEditor step) : (step w).2.editor.Open := by rwa [h w]
    cases e with
    | health => exact hkeeps (keepsEditor_json _ _)
    | palette => exact hkeeps (keepsEditor_json _ _)
    | run => exact hkeeps (.bind keepsEditor_run fun _ => keepsEditor_json _ _)
    | savedFlows =>
      rw [serve, editor_guarded]
      exact hkeeps (.bind Archive.keepsEditor_list fun _ => keepsEditor_json _ _)
    | saveFlow =>
      rw [serve, editor_guarded, editor_told _ fun _ => 200, Session.save,
        Work.editor_bind fun _ => .bind (fun _ => rfl) fun _ => .pure _, editor_save hnow]
      exact hopen.put (hopen.flow.stamped _)
    | savedFlow id => exact hkeeps (keepsEditor_withSaved _ fun _ => .bind (.ofExcept _) fun _ => keepsEditor_json _ _)
    | loadFlow id =>
      rw [serve, loadFlow, editor_told]
      exact open_load hopen hnow _
    | deleteFlow id => exact hkeeps (.bind (Archive.keepsEditor_delete _) fun _ => keepsEditor_json _ _)
    | exportSaved id => exact hkeeps (keepsEditor_withSaved _ fun _ => .bind (.ofExcept _) fun _ => .pure _)
    | importFlow =>
      rw [serve, importFlow, editor_told]
      exact open_import hopen hnow _
    | asset => exact hkeeps (.pure _)
    | _ => exact absurd rfl he

/-! ## Requests and visits -/

theorem status_forVerb (verb : String) (reply : Reply) : (forVerb verb reply).status = reply.status := by
  unfold forVerb
  split
  · rfl
  · split <;> rfl

/-- A request that leads to an endpoint is answered by it; a fault is noted, and is an answer of status 500. -/
theorem respond_apply (h : Route.find r.verb r.path = .to e) (w : Workspace) :
    ∃ reply notes, respond r w = (.ok reply, { (serve r e w).2 with notes }) ∧
      (∀ own, (serve r e w).1 = .ok own → reply.status = own.status) ∧
      (¬ Succeeds (serve r e w).1 → reply.status = 500) := by
  unfold respond
  generalize Route.find r.verb r.path = route at h
  subst h
  dsimp only
  rw [Act.bind_apply, Act.attempt]
  rcases serve r e w with ⟨fault | own, v⟩
  · exact ⟨⟨500, .page⟩, _, rfl, fun own hown => (by cases hown), fun _ => rfl⟩
  · refine ⟨forVerb r.verb own, v.notes, rfl, fun own' hown => ?_, fun hfail => absurd ⟨own, rfl⟩ hfail⟩
    obtain rfl := Except.ok.inj hown
    exact status_forVerb _ _

theorem respond_to (h : Route.find r.verb r.path = .to e) (w : Workspace) :
    ∃ reply after, respond r w = (.ok reply, after) ∧ after.editor = (serve r e w).2.editor ∧
      (∀ own, (serve r e w).1 = .ok own → reply.status = own.status) ∧
      (¬ Succeeds (serve r e w).1 → reply.status = 500) := by
  obtain ⟨reply, notes, hrun, hstatus⟩ := respond_apply h w
  exact ⟨reply, _, hrun, rfl, hstatus⟩

theorem respond_elsewhere (h : ∀ e, Route.find r.verb r.path ≠ .to e) (w : Workspace) : (respond r w).2 = w := by
  unfold respond
  generalize Route.find r.verb r.path = route at h
  rcases route with e | _ | _ | _ | _
  · exact absurd rfl (h e)
  all_goals rfl

theorem open_respond (hopen : w.editor.Open) (hnow : w.now = t.micros) (r : Request) : (respond r w).2.editor.Open := by
  by_cases h : ∃ e, Route.find r.verb r.path = .to e
  · obtain ⟨e, he⟩ := h
    obtain ⟨reply, after, hrun, heditor, -⟩ := respond_to he w
    rw [hrun, heditor]
    exact open_serve hopen hnow r e
  · rwa [respond_elsewhere fun e he => h ⟨e, he⟩]

/-- A service that was started at an instant, on a new flow. -/
def fresh (w : Workspace) (t : Instant) : Workspace := ((do Session.start none; start) (w.setClock t)).2

/-- The workspace after requests, each at its instant. -/
def visit (w : Workspace) (visits : List (Instant × Request)) : Workspace :=
  visits.foldl (fun w v => (respond v.2 (w.setClock v.1)).2) w

/-- A service that was started and has answered requests, at an instant. -/
def reached (w : Workspace) (start : Instant) (visits : List (Instant × Request)) (t : Instant) : Workspace :=
  (visit (fresh w start) visits).setClock t

/-- What one request keeps, many keep. -/
theorem visit_induction {P : EditorState → Prop} {A : Request → Prop}
    (hclock : ∀ (w : Workspace) t, P w.editor → P (w.setClock t).editor)
    (hstep : ∀ (w : Workspace) (t : Instant) r, P w.editor → w.now = t.micros → A r → P (respond r w).2.editor)
    {visits : List (Instant × Request)} (hvisits : ∀ v ∈ visits, A v.2) (h : P w.editor) : P (visit w visits).editor := by
  induction visits generalizing w with
  | nil => exact h
  | cons v visits ih =>
    obtain ⟨hv, hrest⟩ := List.forall_mem_cons.1 hvisits
    have hnext : P (respond v.2 (w.setClock v.1)).2.editor := hstep (w.setClock v.1) v.1 v.2 (hclock w v.1 h) rfl hv
    rw [visit, List.foldl_cons]
    exact ih hrest hnext

theorem keyed_of_empty {f : Flow} (hblocks : f.blocks = []) (hedges : f.edges = []) : f.Keyed := by
  refine ⟨?_, ?_⟩
  · rw [Flow.ids, hblocks]
    exact List.forall_mem_nil _
  · unfold Flow.KeyedEnds
    rw [hedges]
    exact List.forall_mem_nil _

/-- A setting whose name is a text can be looked up. -/
theorem resolveSetting_ok (env : Environment) (s : Store) (key variableName : String) (default : Value) :
    ∃ v, resolveSetting env (some s) (.text key) variableName default = .ok v := by
  have hsetting : s.setting? (.text key) = .ok ((s.settings.find? fun r => r.key.holds (.text (Text.lower key))).map
    fun r => r.value.toValue) := rfl
  rw [resolveSetting]
  dsimp only
  rw [hsetting]
  cases (s.settings.find? fun r => r.key.holds (.text (Text.lower key))).map fun r => r.value.toValue <;> exact ⟨_, rfl⟩

/-- A service that was just started has an empty flow and tells what it makes. -/
theorem editor_fresh (w : Workspace) (t : Instant) :
    (fresh w t).editor.flow = { id := drawnId "flow" (intText w.serial) } ∧ (fresh w t).editor.listening = true := by
  have hrenews : Renews t (w.setClock t).editor { id := drawnId "flow" (intText w.serial) } () (Session.start none)
      (w.setClock t) := .after rfl (.after rfl (renews_regenerate rfl rfl))
  rcases hrenews with ⟨-, v, hrun, heditor⟩ | ⟨hkeyed, -⟩
  · obtain ⟨secret, hsecret⟩ := resolveSetting_ok v.environment (v.store.getD {}) "secret_key" "BLOCKFLOW_SECRET_KEY"
      (.text "block-coding-secret-key")
    have hflow : v.flow = { id := drawnId "flow" (intText w.serial) } := congrArg EditorState.flow heditor
    rw [fresh, Act.bind_apply, hrun]
    dsimp only
    rw [start, Act.bind_apply, store_apply]
    dsimp only
    rw [Act.bind_apply, Act.get_apply]
    dsimp only
    rw [Act.bind_apply, Act.ofExcept_apply, hsecret]
    exact ⟨hflow, rfl⟩
  · exact absurd (keyed_of_empty rfl rfl) hkeyed

theorem open_fresh (w : Workspace) (t : Instant) : (fresh w t).editor.Open := by
  obtain ⟨hflow, hlistening⟩ := editor_fresh w t
  exact ⟨hflow ▸ Flow.served_fresh (truthy_drawnId _ _) (.text _) (.text _), hlistening⟩

theorem now_reached (w : Workspace) (start : Instant) (visits : List (Instant × Request)) (t : Instant) :
    (reached w start visits t).now = t.micros := rfl

/-- **After any requests the flow is a served one, and the service goes on telling.** -/
theorem open_reached (w : Workspace) (start : Instant) (visits : List (Instant × Request)) (t : Instant) :
    (reached w start visits t).editor.Open := by
  have hvisit : (visit (fresh w start) visits).editor.Open :=
    visit_induction (A := fun _ => True) (fun _ _ h => ⟨h.flow, h.listening⟩)
      (fun _ _ r h hnow _ => open_respond h hnow r) (fun _ _ => trivial) (open_fresh w start)
  exact ⟨hvisit.flow, hvisit.listening⟩

end Service

/-! ## What requests to the flow keep -/

/-- The request has an object for its body and leads to the endpoint. Bodies whose value has a surrogate that stands alone
are left out: no text here can hold it, and a service that keeps it can neither save nor export what it got. -/
structure Request.Asks (r : Request) (e : Endpoint) : Prop where
  object : r.data.isDict = true
  paired : r.Paired
  route : Route.find r.verb r.path = .to e

/-- The request has an object for its body, without surrogates that stand alone, and leads to an endpoint of the flow. -/
def Request.AsksFlow (r : Request) : Prop := ∃ e, r.Asks e ∧ e.OfFlow

namespace Flow.Served

variable {f : Flow} (h : f.Served Value.IsText)

include h

theorem texts : ∀ v ∈ f.ids, v.IsText := by
  intro v hv
  obtain ⟨b, hb, rfl⟩ := mem_ids.1 hv
  exact (h.blocks b hb).id

theorem textEnds : f.TextEnds := fun e he => ⟨(h.edges e he).source, (h.edges e he).target⟩

theorem keyed : f.Keyed :=
  ⟨fun v hv => (h.texts v hv).hasKey, fun e he => ⟨(h.textEnds e he).1.hasKey, (h.textEnds e he).2.hasKey⟩⟩

end Flow.Served

/-- The flow is a served one whose identifiers are texts, and it was never saved. -/
structure EditorState.Drawn (d : EditorState) : Prop where
  flow : d.flow.Served Value.IsText
  unsaved : d.flow.createdAt = .null

namespace Service

open Session

variable {w : Workspace} {t : Instant} {r : Request}

theorem drawn_fresh (w : Workspace) (t : Instant) : (fresh w t).editor.Drawn := by
  obtain ⟨hflow, -⟩ := editor_fresh w t
  exact ⟨hflow ▸ Flow.served_fresh (truthy_drawnId _ _) ⟨_, rfl⟩ (.text _), by rw [hflow]⟩

theorem drawn_respond (hdrawn : w.editor.Drawn) (hnow : w.now = t.micros) (hr : r.AsksFlow) :
    (respond r w).2.editor.Drawn := by
  obtain ⟨e, ⟨hobject, -, hroute⟩, he⟩ := hr
  have hread := Request.isRead_fields hobject
  obtain ⟨effect, heffect⟩ := e.exists_effect he.not_beside r.fields w.serial w.flow
  obtain ⟨reply, after, hrun, heditor, -⟩ := respond_to hroute w
  rw [hrun, heditor]
  have hmeets := serve_effect (hdrawn.flow.mono fun _ => Value.IsText.isRead) hnow (Request.data_eq hobject) hread heffect
  rcases hmeets.editor with hsame | ⟨g, anew, told, status, rfl, hafter⟩
  · rwa [hsame]
  · have hmakes := Endpoint.effect_makes heffect
    have hg := hmakes.served identifying_isText hread hdrawn.flow
    have hunsaved := hmakes.createdAt hdrawn.unsaved
    rcases hafter with hafter | hafter
    · rw [hafter]
      exact ⟨hg, hunsaved⟩
    · rw [hafter]
      exact ⟨hg, hunsaved⟩

/-- **After requests to the endpoints of the flow all identifiers are texts.** -/
theorem drawn_reached (w : Workspace) (start : Instant) {visits : List (Instant × Request)}
    (h : ∀ v ∈ visits, v.2.AsksFlow) (t : Instant) : (reached w start visits t).editor.Drawn := by
  have hvisit : (visit (fresh w start) visits).editor.Drawn :=
    visit_induction (fun _ _ h => ⟨h.flow, h.unsaved⟩) (fun _ _ _ h hnow hr => drawn_respond h hnow hr) h
      (drawn_fresh w start)
  exact ⟨hvisit.flow, hvisit.unsaved⟩

/-! ## Some services -/

/-- A request with a document. -/
def ask (method address body : String) : Request :=
  { method, address, body := some body, contentType := some "application/json" }

/-- The start of 1970. -/
def epoch : Instant := ⟨0, by decide +kernel⟩

/-- A new service that was asked for some things, all at one instant. -/
def asked (requests : List Request) : Workspace :=
  reached { flow := { id := .null } } epoch (requests.map fun r => (epoch, r)) epoch

/-- An answer whose status is known. -/
theorem exists_reply {a : Except Fault Reply × Workspace} {n : Nat} (h : a.1.toOption.map (·.status) = some n) :
    ∃ reply after, a = (.ok reply, after) ∧ reply.status = n := by
  obtain ⟨fault | reply, after⟩ := a
  · cases h
  · exact ⟨reply, after, rfl, Option.some.inj h⟩

/-- A block is asked for. -/
def placed : Request := ask "POST" "/api/flow/blocks" "\x7b\"type\": \"print\"\x7d"

theorem asks_placed : placed.Asks .addBlock where
  object := by decide +kernel
  paired := Request.paired_of_withoutSurrogates (by decide +kernel) (by decide +kernel)
  route := by decide +kernel

theorem asksFlow_placed : ∀ v ∈ [(epoch, placed)], v.2.AsksFlow :=
  List.forall_mem_singleton.2 ⟨.addBlock, asks_placed, "POST", ["blocks"], by decide⟩

end Service

end BlockFlow
