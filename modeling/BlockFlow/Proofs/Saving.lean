import BlockFlow.Proofs.Visits
import Mathlib.Data.List.Nodup

/-!
A flow that is saved and loaded again. What is written of it comes back as the same flow unless a parameter has a name that
is no text or a coordinate is no number of a document; and a table takes it only if its name can stand in a column.

* `Flow.Same`: flows that agree in all their parts.
* `Value.Storable`, `Block.Kept`, `Flow.Kept`: what a column takes, and the flows that come back.
* `Flow.Served.same_reread_iff`: **what comes back is the same exactly if all blocks are kept.**
* `Store.succeeds_save`, `Store.find?_save`: when a table takes a flow, and that it is found then.
* `Service.saved_loaded_iff`: **a flow that was edited is saved and comes back by its identifier exactly if it is kept.**
-/

namespace BlockFlow

/-! ## The same in all parts -/

structure Block.Same (b c : Block) : Prop where
  id : b.id.same c.id = true
  type : b.type.same c.type = true
  position : b.position.same c.position = true
  params : b.params.same c.params = true
  inputs : Value.sameAll b.cache.inputs c.cache.inputs = true
  outputs : Value.sameAll b.cache.outputs c.cache.outputs = true

structure Edge.Same (e d : Edge) : Prop where
  id : e.id.same d.id = true
  source : e.source.same d.source = true
  target : e.target.same d.target = true
  sourceHandle : e.sourceHandle.same d.sourceHandle = true
  targetHandle : e.targetHandle.same d.targetHandle = true

/-- The flows agree in all their parts, blocks and edges in their order. -/
structure Flow.Same (f g : Flow) : Prop where
  id : f.id.same g.id = true
  name : f.name.same g.name = true
  blocks : List.Forall₂ Block.Same f.blocks g.blocks
  edges : List.Forall₂ Edge.Same f.edges g.edges
  createdAt : f.createdAt.same g.createdAt = true
  updatedAt : f.updatedAt.same g.updatedAt = true

namespace Value

theorem sameAll_self {xs : List Value} (h : ∀ v ∈ xs, v.same v = true) : sameAll xs xs = true := by
  induction xs with
  | nil => rfl
  | cons v xs ih =>
    obtain ⟨hv, hxs⟩ := List.forall_mem_cons.1 h
    rw [sameAll, hv, ih hxs]
    rfl

theorem sameEntries_iff {es fs : List (Value × Value)} :
    sameEntries es fs = true ↔ ∀ e ∈ es, ∃ f ∈ fs, e.1.same f.1 = true ∧ e.2.same f.2 = true := by
  induction es with
  | nil => simp [sameEntries]
  | cons e es ih => simp [sameEntries, ih]

theorem same_self_of_entries {es : List (Value × Value)} (h : ∀ e ∈ es, e.1.same e.1 = true ∧ e.2.same e.2 = true) :
    (Value.dict es).same (.dict es) = true := by
  rw [same, beq_self_eq_true, Bool.true_and, sameEntries_iff]
  exact fun e he => ⟨e, he, h e he⟩

theorem same_real {x y : Binary64} : (Value.real x).same (.real y) = true ↔ Key.ofReal y = Key.ofReal x := by
  simp [same, atom?]

theorem IsRead.same_self {v : Value} (h : v.IsRead) : v.same v = true := by
  induction h with
  | null | bool | int | real | text => simp [same, atom?]
  | list _ ih =>
    rw [same]
    exact sameAll_self ih
  | object _ _ ih =>
    refine same_self_of_entries (List.forall_mem_map.2 fun f hf => ⟨?_, ih f hf⟩)
    rw [Json.same_text]
    exact beq_self_eq_true _

theorem same_place {x y x' y' : Binary64} :
    (Value.place x y).same (.place x' y') = true ↔
      (Value.real x).same (.real x') = true ∧ (Value.real y).same (.real y') = true := by
  simp [place, same, sameAll]

/-- A number comes back as the same number exactly if it is one of a document. -/
theorem same_reread_real {x : Binary64} : (Value.real x.reread).same (.real x) = true ↔ x.reread = x := by
  rw [same_real]
  refine ⟨fun h => ?_, fun h => by rw [h]⟩
  cases x with
  | nan mark =>
    have hkey (m : Nat) : Key.ofReal (.nan m) = .real (.nan m) := rfl
    rw [Binary64.reread, hkey, hkey] at h
    exact (Key.real.inj h).symm
  | infinite | finite => rfl

theorem same_text_iff {s : String} {v : Value} : (Value.text s).same v = true ↔ v = .text s := by
  simp [same, atom?_eq_text]

end Value

theorem Json.nodup_gather (fields : List (String × Value)) : ((gather fields).map (·.1)).Nodup := by
  have hfold : ∀ done : List (String × Value), (done.map (·.1)).Nodup → ((fields.foldl putField done).map (·.1)).Nodup := by
    induction fields with
    | nil => exact fun done hdone => hdone
    | cons f fields ih => exact fun done hdone => ih _ (nodup_putField hdone f)
  exact hfold [] List.nodup_nil

/-- **Entries come back the same only if all their names are texts.** The names of what comes back are distinct texts, as
many as there were names. -/
theorem Value.texts_of_same_reread {es : List (Value × Value)} (h : (Value.dict es).reread.same (.dict es) = true) :
    ∀ e ∈ es, e.1.IsText := by
  rw [reread, Value.object, same, Bool.and_eq_true, sameEntries_iff, beq_iff_eq, List.length_map] at h
  obtain ⟨hlength, hsame⟩ := h
  have hnodup := (Json.nodup_gather (rereadEntries es)).map fun s t hst => Value.text.inj hst
  have hsub : ((Json.gather (rereadEntries es)).map (·.1)).map Value.text ⊆ es.map (·.1) := by
    intro v hv
    obtain ⟨s, hs, rfl⟩ := List.mem_map.1 hv
    obtain ⟨field, hfield, rfl⟩ := List.mem_map.1 hs
    obtain ⟨e, he, hname, -⟩ := hsame _ (List.mem_map_of_mem hfield)
    exact List.mem_map.2 ⟨e, he, same_text_iff.1 hname⟩
  have hperm := (hnodup.subperm hsub).perm_of_length_le (by simp [hlength])
  intro e he
  obtain ⟨s, -, hs⟩ := List.mem_map.1 (hperm.mem_iff.2 (List.mem_map_of_mem he))
  exact ⟨s, hs.symm⟩

/-! ## What comes back -/

/-- A column that has to be filled takes the value. -/
def Value.Storable : Value → Prop
  | .bool _ | .text _ | .bytes _ => True
  | .int n => isWord n = true
  | .real x => x.isNan = false
  | _ => False

theorem Value.storable_iff {v : Value} (position : Nat) :
    v.Storable ↔ ∃ c, Cell.ofValue position v = .ok c ∧ c.isNull = false := by
  cases v with
  | null => simp [Storable, Cell.ofValue, Cell.isNull]
  | bool | text | bytes => simp [Storable, Cell.ofValue, Cell.isNull]
  | int n =>
    rw [Storable, Cell.ofValue]
    split
    · simp [*, Cell.isNull]
    · simp [*]
  | real x =>
    rw [Storable, Cell.ofValue]
    cases x.isNan <;> simp [Cell.isNull]
  | list | tuple | dict => simp [Storable, Cell.ofValue]

/-- The names of the entries. -/
def Value.names : Value → List Value
  | .dict es => es.map (·.1)
  | _ => []

/-- The numbers among the parts of a position. -/
def Value.coordinates : Value → List Binary64
  | .tuple xs => xs.filterMap fun
    | .real x => some x
    | _ => none
  | _ => []

/-- All names of parameters are texts, and the coordinates are numbers of a document. -/
structure Block.Kept (b : Block) : Prop where
  names : ∀ name ∈ b.params.names, name.IsText
  coordinates : ∀ x ∈ b.position.coordinates, x.reread = x

/-- The flow can be saved, and comes back as it is. -/
structure Flow.Kept (f : Flow) : Prop where
  name : f.name.Storable
  blocks : ∀ b ∈ f.blocks, b.Kept

instance : DecidablePred Value.IsText
  | .text s => isTrue ⟨s, rfl⟩
  | .null | .bool _ | .int _ | .real _ | .bytes _ | .list _ | .tuple _ | .dict _ => isFalse fun ⟨_, h⟩ => (by cases h)

instance : DecidablePred Value.Storable
  | .bool _ | .text _ | .bytes _ => isTrue trivial
  | .int n => inferInstanceAs (Decidable (Value.isWord n = true))
  | .real x => inferInstanceAs (Decidable (x.isNan = false))
  | .null | .list _ | .tuple _ | .dict _ => isFalse not_false

instance : DecidablePred Block.Kept := fun _ =>
  decidable_of_iff (_ ∧ _) ⟨fun ⟨hnames, hplace⟩ => ⟨hnames, hplace⟩, fun h => ⟨h.names, h.coordinates⟩⟩

instance : DecidablePred Flow.Kept := fun _ =>
  decidable_of_iff (_ ∧ _) ⟨fun ⟨hname, hblocks⟩ => ⟨hname, hblocks⟩, fun h => ⟨h.name, h.blocks⟩⟩

theorem Block.Kept.texts {b : Block} (h : b.Kept) {es : List (Value × Value)} (hparams : b.params = .dict es) :
    ∀ e ∈ es, e.1.IsText := by
  have hnames := h.names
  rw [hparams] at hnames
  exact List.forall_mem_map.1 hnames

theorem Value.forall_coordinates {x y : Binary64} {P : Binary64 → Prop} :
    (∀ z ∈ (Value.place x y).coordinates, P z) ↔ P x ∧ P y := by
  simp [place, coordinates]

theorem Entries.Served.isRead {es : List (Value × Value)} (h : Entries.Served es) (hnames : ∀ e ∈ es, e.1.IsText) :
    (Value.dict es).IsRead := by
  refine Json.isRead_dict.2 ⟨es.map fun e => (e.1.keyName, e.2), ?_, ?_, List.forall_mem_map.2 h.values⟩
  · rw [List.map_map]
    conv_lhs => rw [← List.map_id es]
    refine List.map_congr_left fun e he => ?_
    obtain ⟨s, hs⟩ := hnames e he
    simp [hs, Prod.ext_iff]
  · rw [List.map_map, List.Nodup, List.pairwise_map]
    refine h.distinct.imp_of_mem fun {a b} ha hb hdistinct => ?_
    obtain ⟨s, hs⟩ := hnames a ha
    obtain ⟨t, ht⟩ := hnames b hb
    rw [hs, ht, Json.same_text] at hdistinct
    simpa [hs, ht] using hdistinct

theorem Block.Kept.orderly {I : Value → Prop} {b : Block} (h : b.Kept) (hb : b.Served I) : b.Orderly := by
  obtain ⟨es, hparams, -⟩ := hb.params
  refine ⟨es, hparams, List.pairwise_of_forall_mem_list fun x hx y hy => Or.inl ?_⟩
  exact ⟨h.texts hparams x hx, h.texts hparams y hy⟩

theorem Block.Served.isRead {b : Block} (hb : b.Served Value.IsRead) (h : b.Kept) : b.IsRead := by
  obtain ⟨x, y, hposition⟩ := hb.position
  obtain ⟨es, hparams, hserved⟩ := hb.params
  have hplace := h.coordinates
  rw [hposition, Value.forall_coordinates] at hplace
  exact ⟨hb.id, hb.type, ⟨x, y, hposition, hplace⟩, ⟨es, hparams, hserved.isRead (h.texts hparams)⟩, hb.inputs, hb.outputs⟩

theorem Block.IsRead.same_self {b : Block} (h : b.IsRead) : b.Same b := by
  obtain ⟨x, y, hposition, -⟩ := h.position
  obtain ⟨es, hparams, hread⟩ := h.params
  refine ⟨h.id.same_self, h.type.same_self, ?_, hparams ▸ hread.same_self,
    Value.sameAll_self fun v hv => (h.inputs v hv).same_self, Value.sameAll_self fun v hv => (h.outputs v hv).same_self⟩
  rw [hposition, Value.same_place, Value.same_real, Value.same_real]
  exact ⟨rfl, rfl⟩

theorem Edge.IsRead.same_self {e : Edge} (h : e.IsRead) : e.Same e :=
  ⟨h.id.same_self, h.source.same_self, h.target.same_self, h.sourceHandle.same_self, h.targetHandle.same_self⟩

theorem Flow.IsRead.same_self {f : Flow} (h : f.IsRead) : f.Same f :=
  ⟨h.id.same_self, h.name.same_self, List.forall₂_same.2 fun b hb => (h.blocks b hb).same_self,
    List.forall₂_same.2 fun e he => (h.edges e he).same_self, h.createdAt.same_self, h.updatedAt.same_self⟩

/-- What comes back of a block is the same only if the block is kept. -/
theorem Block.Served.kept_of_same {I : Value → Prop} {b : Block} (hb : b.Served I) (h : b.reread.Same b) : b.Kept := by
  obtain ⟨x, y, hposition⟩ := hb.position
  obtain ⟨es, hparams, -⟩ := hb.params
  have hplace := h.position
  have hentries := h.params
  rw [Block.position_reread hposition, hposition, Value.same_place, Value.same_reread_real,
    Value.same_reread_real] at hplace
  rw [Block.reread, hparams] at hentries
  refine ⟨?_, ?_⟩
  · rw [hparams]
    exact List.forall_mem_map.2 (Value.texts_of_same_reread hentries)
  · rwa [hposition, Value.forall_coordinates]

namespace Flow.Served

variable {f : Flow} (hf : f.Served Value.IsRead)

include hf

theorem isRead (h : ∀ b ∈ f.blocks, b.Kept) : f.IsRead :=
  ⟨hf.given, hf.id, hf.name, fun b hb => (hf.blocks b hb).isRead (h b hb),
    fun e he => ⟨(hf.edges e he).given, (hf.edges e he).id, (hf.edges e he).source, (hf.edges e he).target,
      (hf.edges e he).sourceHandle, (hf.edges e he).targetHandle⟩, hf.createdAt, hf.updatedAt⟩

/-- **What comes back of a flow is the same exactly if all blocks are kept.** It is the very flow then. -/
theorem same_reread_iff : f.reread.Same f ↔ ∀ b ∈ f.blocks, b.Kept := by
  constructor
  · intro h b hb
    have hblocks := h.blocks
    rw [Flow.reread, List.forall₂_map_left_iff, List.forall₂_same] at hblocks
    exact (hf.blocks b hb).kept_of_same (hblocks b hb)
  · intro h
    rw [(hf.isRead h).reread_eq]
    exact (hf.isRead h).same_self

end Flow.Served

/-! ## Tables -/

namespace Store

variable {s s' : Store} {r : FlowRow} {f : Flow} {id : String}

theorem succeeds_put : Succeeds (s.put r) ↔ r.missing? = none := by
  rw [put, FlowRow.check]
  cases r.missing? with
  | some column => exact iff_of_false (not_succeeds_error _) (by simp)
  | none =>
    refine iff_of_true ?_ rfl
    cases hfound : (s.find? r.id).isSome <;> exact ⟨_, rfl⟩

/-- Rows that are written over in place are found where they were. -/
theorem find?_write {write : FlowRow → FlowRow} (h : ∀ x, (write x).id = x.id) (rows : List FlowRow) (id : String) :
    (rows.map write).find? (fun x => decide (x.id = .text id)) =
      (rows.find? fun x => decide (x.id = .text id)).map write := by
  rw [List.find?_map]
  simp only [Function.comp_def, h]

/-- A row that was written is found by its identifier, with its document. -/
theorem find?_put (hid : r.id = .text id) (hput : s.put r = .ok s') :
    ∃ row, s'.find? (.text id) = some row ∧ row.document = r.document := by
  have hcheck : r.check = .ok () := by
    rw [FlowRow.check, succeeds_put.1 ⟨s', hput⟩]
  rw [put_eq hcheck hid] at hput
  obtain rfl := Except.ok.inj hput
  rw [find?_text]
  dsimp only
  cases hfind : s.find? r.id with
  | none =>
    rw [hid, find?_eq_none] at hfind
    refine ⟨r, ?_, rfl⟩
    rw [List.find?_append, List.find?_eq_none.2 (by simpa using hfind)]
    simp [hid]
  | some old =>
    rw [hid, find?_text] at hfind
    have hold : old.id = .text id := by simpa using List.find?_some hfind
    dsimp only
    rw [find?_write fun x => ?_, hfind]
    · exact ⟨_, rfl, by simp [hold]⟩
    · split <;> rfl

section Save

variable {created updated : String} (hf : f.Writable) (hid : f.id = .text id) (hcreated : f.createdAt = .text created)
  (hupdated : f.updatedAt = .text updated)

include hf hid hcreated hupdated

/-- Of a flow that can be written, only the name is looked at. What is written is read as what comes back of the flow. -/
theorem save_apply (s : Store) :
    ∃ text, (∀ n, Flow.importText (.text text) n = (.ok f.reread, n)) ∧
      s.save f = Cell.ofValue 2 f.name >>= fun name =>
        s.put ⟨.text id, name, .text created, .text updated, .text text⟩ := by
  obtain ⟨text, htext, hread⟩ := hf.importText_reread
  refine ⟨text, hread, ?_⟩
  rw [save, htext, hid, hcreated, hupdated]
  unfold FlowRow.bind
  cases Cell.ofValue 2 f.name <;> rfl

/-- **A table takes a flow exactly if its name can stand in a column.** -/
theorem succeeds_save (s : Store) : Succeeds (s.save f) ↔ f.name.Storable := by
  obtain ⟨text, -, hsave⟩ := save_apply hf hid hcreated hupdated s
  rw [hsave, succeeds_bind, Value.storable_iff 2]
  refine exists_congr fun name => and_congr_right fun _ => ?_
  rw [succeeds_put, FlowRow.missing?]
  cases name <;> simp [Cell.isNull]

/-- A flow that a table took is found by its identifier, and read as what comes back of it. -/
theorem find?_save (h : s.save f = .ok s') :
    ∃ row, s'.find? (.text id) = some row ∧ ∀ n, Flow.importText row.document.toValue n = (.ok f.reread, n) := by
  obtain ⟨text, hread, hsave⟩ := save_apply hf hid hcreated hupdated s
  rw [hsave] at h
  obtain ⟨name, -, hput⟩ := bind_eq_ok.1 h
  obtain ⟨row, hrow, hdocument⟩ := find?_put rfl hput
  exact ⟨row, hrow, by rw [hdocument]; exact hread⟩

end Save

end Store

/-! ## Saving and loading over the service -/

namespace Session

variable {w : Workspace} {t : Instant}

/-- The flow is stamped, whether it can be saved or not. -/
theorem save_error {fault : Fault} (hnow : w.now = t.micros)
    (h : (w.store.getD {}).save (w.flow.stamped t.savedStamp) = .error fault) :
    ∃ v, save w = (.error fault, v) ∧ v.flow = w.flow.stamped t.savedStamp := by
  rw [save, Act.bind_apply, Archive.save_apply hnow, h]
  exact ⟨_, rfl, rfl⟩

theorem save_ok {s : Store} (hnow : w.now = t.micros)
    (h : (w.store.getD {}).save (w.flow.stamped t.savedStamp) = .ok s) :
    ∃ told v, save w = (.ok told, v) ∧ v.flow = w.flow.stamped t.savedStamp ∧ v.store = some s := by
  rw [save, Act.bind_apply, Archive.save_apply hnow, h]
  exact ⟨_, _, rfl, rfl, rfl⟩

end Session

namespace Service

open Session

variable {w : Workspace} {t : Instant}

/-- A step whose faults are answered is answered; a fault is noted, and is an answer of status 500. -/
theorem guarded_apply (purpose : String) (step : Work Reply) (w : Workspace) :
    ∃ own notes, guarded purpose step w = (.ok own, { (step w).2 with notes }) ∧
      (∀ reply, (step w).1 = .ok reply → own = reply) ∧ (¬ Succeeds (step w).1 → own.status = 500) := by
  rw [guarded, Act.bind_apply, Act.attempt]
  rcases step w with ⟨fault | reply, v⟩
  · generalize hnotes : v.notes.push ⟨.service, .error, "Failed to " ++ purpose ++ ": " ++ fault.message⟩ = notes
    have hanswers : Answers [] 500 (error 500 fault.message) { v with notes } := answers_error _
    obtain ⟨own, hown⟩ := hanswers.2.1.2 (List.forall_mem_nil _)
    refine ⟨own, notes, ?_, fun reply hreply => (by cases hreply), fun _ => hanswers.2.2 own hown⟩
    dsimp only
    rw [Act.bind_apply, Work.note_apply, hnotes]
    exact Prod.ext hown hanswers.1
  · exact ⟨reply, v.notes, rfl, fun own hown => Except.ok.inj hown, fun hfail => absurd ⟨reply, rfl⟩ hfail⟩

/-- Saving stamps the flow. What comes of it is answered, and the table is the one that took the flow if one did. -/
theorem saveFlow_apply (hflow : w.flow.Served Value.IsRead) (hnow : w.now = t.micros) (r : Request) :
    ∃ own after, serve r .saveFlow w = (.ok own, after) ∧ after.flow = w.flow.stamped t.savedStamp ∧
      (∀ s, (w.store.getD {}).save (w.flow.stamped t.savedStamp) = .ok s →
        after.store = some s ∧ (own.status = 200 ↔ ∀ b ∈ w.flow.blocks, b.Orderly)) ∧
      (¬ Succeeds ((w.store.getD {}).save (w.flow.stamped t.savedStamp)) → own.status = 500) := by
  obtain ⟨own, notes, hrun, hown, hfault⟩ :=
    guarded_apply "save flow" (do feedback 200 (← Session.save) (← flowDocument)) w
  refine ⟨own, _, hrun, ?_⟩
  rw [Act.bind_apply] at hown hfault ⊢
  cases hsaved : (w.store.getD {}).save (w.flow.stamped t.savedStamp) with
  | error fault =>
    obtain ⟨v, hsave, hv⟩ := save_error hnow hsaved
    rw [hsave] at hfault ⊢
    exact ⟨hv, fun s hs => (by cases hs), fun _ => hfault (not_succeeds_error fault)⟩
  | ok s =>
    obtain ⟨told, v, hsave, hv, hstore⟩ := save_ok hnow hsaved
    rw [hsave] at hown hfault ⊢
    have hblocks : v.flow.blocks = w.flow.blocks := by
      rw [hv]
      rfl
    have hanswers : Answers v.flow.blocks 200 (flowDocument >>= fun doc => feedback 200 told doc) v :=
      answers_flow (hv ▸ hflow.stamped _) fun fields hsend => answers_feedback _ hsend
    rw [hblocks] at hanswers
    dsimp only at hown hfault ⊢
    rw [hanswers.1]
    refine ⟨hv, fun s' hs' => ⟨hstore.trans (congrArg some (Except.ok.inj hs')), fun hstatus => ?_, fun horderly => ?_⟩,
      fun hfail => absurd ⟨s, rfl⟩ hfail⟩
    · by_contra horderly
      rw [hfault (mt hanswers.2.1.1 horderly)] at hstatus
      cases hstatus
    · obtain ⟨reply, hreply⟩ := hanswers.2.1.2 horderly
      rw [hown reply hreply]
      exact hanswers.2.2 reply hreply

/-- **A flow that was saved is loaded as what comes back of it.** -/
theorem meets_loadFlow {s : Store} {row : FlowRow} {f : Flow} {id : String} (hstore : w.store = some s)
    (hrow : s.find? (.text id) = some row) (hread : ∀ n, Flow.importText row.document.toValue n = (.ok f, n))
    (hnow : w.now = t.micros) : Meets t w (loadFlow id) (.reply f true f.blocks 200) := by
  have hload : Archive.load (.text id) w = (.ok (some f), w) := by
    have hdrawing (v : Workspace) : Work.drawing (Flow.importText row.document.toValue) v =
        ((Flow.importText row.document.toValue v.serial).1,
          { v with serial := (Flow.importText row.document.toValue v.serial).2 }) := rfl
    rw [Archive.load_apply, hstore, Option.getD_some, hrow]
    dsimp only
    rw [hdrawing, hread, ← hstore]
  have hrenews : Renews t w.editor f ⟨"Flow loaded", "Flow \"" ++ f.name.display ++ "\" has been loaded.", true⟩
      (Session.load (.text id)) w := .after hload (.map (.after rfl (renews_regenerate rfl hnow)) _)
  refine meets_of_renews hrenews fun w' hw' => ?_
  subst hw'
  exact answers_flow (Flow.importText_served (hread 0)) fun fields hsend => answers_feedback _ hsend

/-- **A flow that was edited is saved and comes back by its identifier exactly if it is kept.** It is the very flow that was
saved then. Edits with surrogates that stand alone are left out. -/
theorem saved_loaded_iff (w : Workspace) (start : Instant) {visits : List (Instant × Request)}
    (hvisits : ∀ v ∈ visits, v.2.AsksFlow) (t later : Instant) {save load : Request} {id : String}
    (hid : (reached w start visits t).flow.id = .text id) (hsave : Route.find save.verb save.path = .to .saveFlow)
    (hload : Route.find load.verb load.path = .to (.loadFlow id)) :
    ∃ saved between loaded after, respond save (reached w start visits t) = (.ok saved, between) ∧
      respond load (between.setClock later) = (.ok loaded, after) ∧
      between.flow = (reached w start visits t).flow.stamped t.savedStamp ∧
      (saved.status = 200 ∧ after.flow.Same between.flow ↔ (reached w start visits t).flow.Kept) ∧
      ((reached w start visits t).flow.Kept → loaded.status = 200 ∧ after.flow = between.flow) := by
  have hdrawn : (reached w start visits t).editor.Drawn := drawn_reached w start hvisits t
  have hnow := now_reached w start visits t
  generalize reached w start visits t = before at hdrawn hnow hid
  have hflow : before.flow.Served Value.IsRead := hdrawn.flow.mono fun _ => Value.IsText.isRead
  have hg := hflow.stamped t.savedStamp
  have hcreated : (before.flow.stamped t.savedStamp).createdAt = .text t.savedStamp := by
    show before.flow.createdAt.orElse _ = _
    rw [show before.flow.createdAt = .null from hdrawn.unsaved]
    rfl
  obtain ⟨own, v, hserved, hv, hok, hfail⟩ := saveFlow_apply hflow hnow save
  obtain ⟨saved, notes, hrun, hown, -⟩ := respond_apply hsave before
  rw [hserved] at hrun hown
  have hstatus : saved.status = own.status := hown own rfl
  obtain ⟨loaded, notes', hrun', hown', -⟩ := respond_apply hload (({ v with notes } : Workspace).setClock later)
  have hsucceeds := Store.succeeds_save hg.writable hid hcreated rfl (before.store.getD {})
  -- Once the flow is in the table, loading puts into the editor what comes back of it.
  have hback (h : Succeeds ((before.store.getD {}).save (before.flow.stamped t.savedStamp))) :
      Meets later (({ v with notes } : Workspace).setClock later) (serve load (.loadFlow id))
        (.reply (before.flow.stamped t.savedStamp).reread true (before.flow.stamped t.savedStamp).reread.blocks 200) := by
    obtain ⟨s, hs⟩ := h
    obtain ⟨row, hrow, hread⟩ := Store.find?_save hg.writable hid hcreated rfl hs
    exact meets_loadFlow (hok s hs).1 hrow hread rfl
  have hkept (h : before.flow.Kept) : (before.flow.stamped t.savedStamp).reread = before.flow.stamped t.savedStamp :=
    (hg.isRead h.blocks).reread_eq
  have horderly (h : before.flow.Kept) : ∀ b ∈ before.flow.blocks, b.Orderly := fun b hb =>
    (h.blocks b hb).orderly (hflow.blocks b hb)
  refine ⟨saved, _, loaded, _, hrun, hrun', hv, ⟨fun ⟨h200, hsame⟩ => ?_, fun h => ?_⟩, fun h => ?_⟩
  · have hsaved : Succeeds ((before.store.getD {}).save (before.flow.stamped t.savedStamp)) := by
      by_contra hrefused
      rw [hstatus, hfail hrefused] at h200
      cases h200
    have hflows := (hback hsaved).flow
    refine ⟨hsucceeds.1 hsaved, hg.same_reread_iff.1 ?_⟩
    rw [← hflows, ← hv]
    exact hsame
  · obtain ⟨s, hs⟩ := hsucceeds.2 h.name
    have hsame := hg.same_reread_iff.2 h.blocks
    rw [← (hback ⟨s, hs⟩).flow, ← hv] at hsame
    exact ⟨hstatus.trans ((hok s hs).2.2 (horderly h)), hsame⟩
  · have hends := hback (hsucceeds.2 h.name)
    have hflows := hends.flow.trans ((hkept h).trans hv.symm)
    rw [Meets, hkept h] at hends
    obtain ⟨-, hanswered⟩ := hends.1 (hdrawn.flow.stamped _).keyed
    obtain ⟨reply, hreply⟩ := hanswered.1.2 (horderly h)
    exact ⟨(hown' reply hreply).trans (hanswered.2 reply hreply), hflows⟩

/-- The flow is to be saved. -/
def stored : Request := ask "POST" "/api/flows" "\x7b\x7d"

/-- The first flow is to be loaded. -/
def fetched : Request := ask "POST" "/api/flows/flow-1/load" "\x7b\x7d"

theorem saved_loaded_placed :
    (∀ v ∈ [(epoch, placed)], v.2.AsksFlow) ∧ (asked [placed]).flow.id = .text "flow-1" ∧
      Route.find stored.verb stored.path = .to .saveFlow ∧
      Route.find fetched.verb fetched.path = .to (.loadFlow "flow-1") ∧
      ∃ saved between loaded after, respond stored (asked [placed]) = (.ok saved, between) ∧
        respond fetched (between.setClock epoch) = (.ok loaded, after) ∧ saved.status = 200 ∧ loaded.status = 200 ∧
        after.flow = between.flow := by
  have hid : (asked [placed]).flow.id = .text "flow-1" := Value.text_equal.1 (by decide +kernel)
  have hsave : Route.find stored.verb stored.path = .to .saveFlow := by decide +kernel
  have hload : Route.find fetched.verb fetched.path = .to (.loadFlow "flow-1") := by decide +kernel
  have hkept : (asked [placed]).flow.Kept := by decide +kernel
  obtain ⟨saved, between, loaded, after, hsaved, hloaded, -, hiff, hback⟩ :=
    saved_loaded_iff { flow := { id := .null } } epoch asksFlow_placed epoch epoch hid hsave hload
  exact ⟨asksFlow_placed, hid, hsave, hload, saved, between, loaded, after, hsaved, hloaded, (hiff.2 hkept).1, hback hkept⟩

/-- A new flow is asked for whose name is a list. -/
def listed : Request := ask "POST" "/api/flow/new" "\x7b\"name\": [\"a\"]\x7d"

theorem asks_listed : listed.Asks .newFlow where
  object := by decide +kernel
  paired := Request.paired_of_withoutSurrogates (by decide +kernel) (by decide +kernel)
  route := by decide +kernel

/-- Not every flow that was edited can be saved. -/
theorem unsaved_listed : ¬ ∀ (w : Workspace) (start : Instant) (visits : List (Instant × Request)) (t : Instant)
    (save : Request) (saved : Reply) (between : Workspace), (∀ v ∈ visits, v.2.AsksFlow) →
    Route.find save.verb save.path = .to .saveFlow → respond save (reached w start visits t) = (.ok saved, between) →
    saved.status = 200 := by
  intro hall
  have hvisits : ∀ v ∈ [(epoch, listed)], v.2.AsksFlow :=
    List.forall_mem_singleton.2 ⟨.newFlow, asks_listed, "POST", ["new"], by decide⟩
  obtain ⟨saved, between, hrun, hstatus⟩ :=
    exists_reply (a := respond stored (asked [listed])) (n := 500) (by decide +kernel)
  have h200 := hall _ _ _ _ stored saved between hvisits (by decide +kernel) hrun
  cases hstatus.symm.trans h200

end Service

end BlockFlow
