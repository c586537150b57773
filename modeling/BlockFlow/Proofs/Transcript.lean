import BlockFlow.Proofs.Rereading

/-!
Flows written and read again. A document tells all of a flow, so what comes back is the flow with each of its values reread.

* `Block.Framed`, `Flow.Framed`, `Flow.ofData_framed`: **the document of a flow is read as the flow.**
* `Flow.Writable`, `Flow.reread`: flows that can be exported, and what they are imported as.
* `Flow.Writable.importText_reread`: **a flow that is exported is imported as its reread form.**
* `Flow.IsRead`, `Flow.IsRead.importText_eq`: flows that come back as they were.
-/

namespace BlockFlow

/-! ## Fields of an object -/

section Fields

variable {fields : List (String × Value)} {name : String} {v : Value}

theorem Entries.field?_object (fields : List (String × Value)) (name : String) :
    Entries.field? (fields.map fun f => (.text f.1, f.2)) name = fields.lookup name := by
  induction fields with
  | nil => rfl
  | cons f fields ih =>
    rw [Entries.field?, Entries.get?] at ih
    rw [Entries.field?, Entries.get?, List.map_cons, List.find?_cons, Json.same_text, List.lookup_cons]
    by_cases hname : name = f.1
    · simp [hname]
    · rw [beq_false_of_ne hname, beq_false_of_ne (Ne.symm hname)]
      exact ih

theorem Value.get_object (fields : List (String × Value)) (name : String) (other : Value) :
    (Value.object fields).get name other = .ok ((fields.lookup name).getD other) := by
  rw [Value.object, Value.get_dict, Entries.fieldD, Entries.field?_object]

theorem Value.require_object (h : fields.lookup name = some v) : (Value.object fields).require name = .ok v :=
  Value.require_dict (by rwa [Entries.field?_object])

theorem Value.orElse_dict (es : List (Value × Value)) : (Value.dict es).orElse (.dict []) = .dict es := by
  cases es <;> rfl

theorem Flow.hasFields_object {names : List String} (h : ∀ name ∈ names, (fields.lookup name).isSome) :
    Flow.hasFields (.object fields) names = true := by
  refine Flow.hasFields_iff.2 ⟨_, rfl, fun name hname => ?_⟩
  rw [Entries.field?_object]
  exact Option.isSome_iff_exists.1 (h name hname)

end Fields

/-! ## Blocks -/

/-- Two coordinates. -/
def Value.place (x y : Binary64) : Value := .tuple [.real x, .real y]

/-- The position is a pair of coordinates, and the parameters are a dictionary. -/
structure Block.Framed (b : Block) : Prop where
  position : ∃ x y, b.position = .place x y
  params : ∃ es, b.params = .dict es

/-- The document is one of the block: it passes the checks, and it is read as the block. -/
structure Block.Documents (b : Block) (doc : Value) : Prop where
  written : b.document = .ok doc
  checked : Flow.hasFields doc ["id", "type"] = true
  complete : lacksConnections doc = false
  read : Block.ofDocument doc = .ok b

/-- The fields of the document of a block. -/
def Block.documentFields (b : Block) (x y : Binary64) (es : List (Value × Value)) : List (String × Value) :=
  [("id", b.id), ("type", b.type), ("position", .object [("x", .real x), ("y", .real y)]), ("params", .dict es),
    ("connections", .object [("inputs", .list b.cache.inputs), ("outputs", .list b.cache.outputs)])]

theorem Block.document_eq {b : Block} {x y : Binary64} {es : List (Value × Value)} (hposition : b.position = .place x y)
    (hparams : b.params = .dict es) : b.document = .ok (.object (b.documentFields x y es)) := by
  rw [Block.document, hposition, hparams]
  rfl

theorem Block.ofDocument_eq {b : Block} {x y : Binary64} {es : List (Value × Value)} (hposition : b.position = .place x y)
    (hparams : b.params = .dict es) : Block.ofDocument (.object (b.documentFields x y es)) = .ok b := by
  have hplace : documentPosition (.object [("x", .real x), ("y", .real y)]) = b.position := hposition.symm
  have hread : readPosition b.position = .ok b.position := by
    rw [hposition]
    rfl
  have hpair : (Value.object [("x", .real x), ("y", .real y)]).orElse (.dict []) =
      .object [("x", .real x), ("y", .real y)] := rfl
  have hlinks : (Value.object [("inputs", .list b.cache.inputs), ("outputs", .list b.cache.outputs)]).orElse (.dict []) =
      .object [("inputs", .list b.cache.inputs), ("outputs", .list b.cache.outputs)] := rfl
  have hentries : (Value.dict es).toEntries = .ok es := rfl
  have hlist (xs : List Value) : (Value.list xs).toList = .ok xs := rfl
  simp only [Block.ofDocument, Block.documentFields, bind_eq_ok, Value.get_object, List.lookup_cons, beq_self_eq_true,
    String.reduceBEq, Option.getD_some, Value.orElse_dict, hpair, hlinks, hplace, hread, hentries, hlist, Except.ok.injEq,
    exists_eq_left']
  refine ⟨b.id, Value.require_object rfl, b.type, Value.require_object rfl, ?_⟩
  rw [← hparams]
  rfl

theorem Block.Framed.document {b : Block} (h : b.Framed) : ∃ doc, b.Documents doc := by
  obtain ⟨x, y, hposition⟩ := h.position
  obtain ⟨es, hparams⟩ := h.params
  exact ⟨_, document_eq hposition hparams, Flow.hasFields_object (by simp [documentFields, List.lookup_cons]), rfl,
    ofDocument_eq hposition hparams⟩

/-- Blocks have documents one by one, and so together. -/
theorem Block.Framed.mapM {blocks : List Block} (h : ∀ b ∈ blocks, b.Framed) :
    ∃ docs, List.Forall₂ Block.Documents blocks docs := by
  induction blocks with
  | nil => exact ⟨[], .nil⟩
  | cons b blocks ih =>
    obtain ⟨doc, hb⟩ := (h b List.mem_cons_self).document
    obtain ⟨docs, hblocks⟩ := ih fun c hc => h c (List.mem_cons_of_mem _ hc)
    exact ⟨doc :: docs, .cons hb hblocks⟩

section Documents

variable {blocks : List Block} {docs : List Value} (h : List.Forall₂ Block.Documents blocks docs)

include h

theorem Block.mapM_document : blocks.mapM Block.document = .ok docs := by
  induction h with
  | nil => rfl
  | cons hb _ ih =>
    rw [List.mapM_cons, hb.written, ih]
    rfl

theorem Block.mapM_ofDocument : docs.mapM Block.ofDocument = .ok blocks := by
  induction h with
  | nil => rfl
  | cons hb _ ih =>
    rw [List.mapM_cons, hb.read, ih]
    rfl

theorem Block.exists_documents : ∀ doc ∈ docs, ∃ b ∈ blocks, Block.Documents b doc := exists_mem_of_forall₂ h.flip

end Documents

/-! ## Edges -/

/-- An edge whose identifier counts as given is read as it was. -/
theorem Edge.ofDocument_document {e : Edge} (h : e.id.truthy = true) (n : Nat) :
    Edge.ofDocument e.document n = (.ok e, n) := by
  have hgiven : e.document.get "id" .null = .ok e.id := Value.get_object _ _ _
  have hsource : e.document.require "source" = .ok e.source := Value.require_object rfl
  have htarget : e.document.require "target" = .ok e.target := Value.require_object rfl
  have hsourceHandle : e.document.get "sourceHandle" (.text "output") = .ok e.sourceHandle := Value.get_object _ _ _
  have htargetHandle : e.document.get "targetHandle" (.text "input") = .ok e.targetHandle := Value.get_object _ _ _
  rw [Edge.ofDocument]
  simp only [Act.bind_apply, Act.ofExcept_apply, hgiven, h, if_true, Act.pure_apply, hsource, htarget, hsourceHandle,
    htargetHandle]

theorem Edge.ofDocuments_document {edges : List Edge} (h : ∀ e ∈ edges, e.id.truthy = true) (n : Nat) :
    Edge.ofDocuments (edges.map Edge.document) n = (.ok edges, n) := by
  induction edges with
  | nil => rfl
  | cons e edges ih =>
    rw [List.map_cons, Edge.ofDocuments, Act.bind_apply, Edge.ofDocument_document (h e List.mem_cons_self)]
    dsimp only
    rw [Act.bind_apply, ih fun c hc => h c (List.mem_cons_of_mem _ hc)]
    rfl

/-! ## Flows -/

namespace Flow

/-- The flow has all that a document needs. -/
structure Framed (f : Flow) : Prop where
  id : f.id.truthy = true
  blocks : ∀ b ∈ f.blocks, b.Framed
  edges : ∀ e ∈ f.edges, e.id.truthy = true

theorem timeField_of_ne {v : Value} (h : v ≠ .null) (name : String) : timeField name v = [(name, v)] := by
  cases v with
  | null => exact absurd rfl h
  | _ => rfl

/-- The fields of the document of a flow, given the documents of its blocks. -/
def documentFields (f : Flow) (docs : List Value) : List (String × Value) :=
  [("id", f.id), ("name", f.name), ("blocks", .list docs), ("edges", .list (f.edges.map Edge.document))] ++
    timeField "createdAt" f.createdAt ++ timeField "updatedAt" f.updatedAt

/-- The times are read as they were, also where they are left out. -/
theorem lookup_times (f : Flow) (docs : List Value) :
    ((f.documentFields docs).lookup "createdAt").getD .null = f.createdAt ∧
      ((f.documentFields docs).lookup "updatedAt").getD .null = f.updatedAt := by
  unfold documentFields
  by_cases hc : f.createdAt = .null <;> by_cases hu : f.updatedAt = .null
  · rw [hc, hu]
    exact ⟨rfl, rfl⟩
  · rw [hc, timeField_of_ne hu]
    exact ⟨rfl, rfl⟩
  · rw [hu, timeField_of_ne hc]
    exact ⟨rfl, rfl⟩
  · rw [timeField_of_ne hc, timeField_of_ne hu]
    exact ⟨rfl, rfl⟩

theorem documentFields_nodup (f : Flow) (docs : List Value) : ((f.documentFields docs).map (·.1)).Nodup := by
  unfold documentFields
  by_cases hc : f.createdAt = .null <;> by_cases hu : f.updatedAt = .null
  · simp [hc, hu, timeField]
  · simp [hc, timeField]
  · simp [hu, timeField]
  · simp [timeField_of_ne hc, timeField_of_ne hu]

section Documents

variable {f : Flow} {docs : List Value} (hdocs : List.Forall₂ Block.Documents f.blocks docs)

include hdocs

theorem document_eq : f.document = .ok (.object (f.documentFields docs)) := by
  rw [document, Block.mapM_document hdocs]
  rfl

theorem checked_framed (h : f.Framed) :
    Checked ((f.documentFields docs).map fun f => (.text f.1, f.2)) docs (f.edges.map Edge.document) := by
  refine ⟨?_, ?_, ?_, fun doc hdoc => ?_, fun doc hdoc => ?_⟩
  · rw [Entries.fieldD, Entries.field?_object]
    exact h.id
  · rw [Entries.field?_object]
    rfl
  · rw [Entries.field?_object]
    rfl
  · obtain ⟨b, -, hb⟩ := Block.exists_documents hdocs doc hdoc
    exact hb.checked
  · obtain ⟨e, -, rfl⟩ := List.mem_map.1 hdoc
    exact hasFields_object (by simp [List.lookup_cons])

/-- **The document of a flow is read as the flow.** -/
theorem ofData_framed (h : f.Framed) (n : Nat) : ofData (.object (f.documentFields docs)) n = (.ok f, n) := by
  have hchecked := checked_framed hdocs h
  have hcheck : checkData (.object (f.documentFields docs)) = .ok () := checkData_eq_ok.2 ⟨_, _, _, rfl, hchecked⟩
  rw [ofData, Act.bind_apply, Act.ofExcept_apply, hcheck]
  dsimp only
  have hid : Entries.field? ((f.documentFields docs).map fun f => (.text f.1, f.2)) "id" = some f.id := by
    rw [Entries.field?_object]
    rfl
  have hcomplete : docs.any lacksConnections = false := by
    simp only [List.any_eq_false, Bool.not_eq_true]
    intro doc hdoc
    obtain ⟨b, -, hb⟩ := Block.exists_documents hdocs doc hdoc
    exact hb.complete
  have hname : ((f.documentFields docs).lookup "name").getD (.text "My Flow") = f.name := rfl
  obtain ⟨hcreated, hupdated⟩ := lookup_times f docs
  rw [Act.tryCatch_apply, Value.object, ofDocument_apply hchecked hid (Edge.ofDocuments_document h.edges n),
    Block.mapM_ofDocument hdocs]
  simp only [hcomplete, Bool.false_eq_true, if_false, Entries.fieldD, Entries.field?_object, hname, hcreated, hupdated]

end Documents

end Flow

/-! ## Reread flows -/

theorem Json.foldl_putField_ne_nil {done : List (String × Value)} (h : done ≠ []) (fields : List (String × Value)) :
    fields.foldl putField done ≠ [] := by
  induction fields generalizing done with
  | nil => exact h
  | cons f fields ih =>
    refine ih fun hnil => ?_
    unfold putField at hnil
    split at hnil
    · exact h (List.map_eq_nil_iff.1 hnil)
    · simp at hnil

/-- A value counts as given before it is reread exactly if it does so after. -/
theorem Value.truthy_reread (v : Value) : v.reread.truthy = v.truthy := by
  cases v with
  | real x => cases x <;> rfl
  | list xs | tuple xs => cases xs <;> rfl
  | dict es =>
    cases es with
    | nil => rfl
    | cons e es =>
      have hgather : Json.gather (rereadEntries (e :: es)) =
          (rereadEntries es).foldl Json.putField [(e.1.keyName, e.2.reread)] := by
        rw [Json.gather, rereadEntries, List.foldl_cons]
        rfl
      have hne : Json.gather (rereadEntries (e :: es)) ≠ [] := by
        rw [hgather]
        exact Json.foldl_putField_ne_nil (by simp) _
      rw [reread, Value.object]
      simpa [truthy] using hne
  | null | bool | int | text | bytes => rfl

/-- The coordinates of a position, reread. -/
def Value.rereadPlace : Value → Value
  | .tuple xs => .tuple (xs.map reread)
  | v => v

/-- The block that comes back. -/
def Block.reread (b : Block) : Block :=
  ⟨b.id.reread, b.type.reread, b.position.rereadPlace, b.params.reread,
    ⟨b.cache.inputs.map Value.reread, b.cache.outputs.map Value.reread⟩⟩

/-- The edge that comes back. -/
def Edge.reread (e : Edge) : Edge :=
  ⟨e.id.reread, e.source.reread, e.target.reread, e.sourceHandle.reread, e.targetHandle.reread⟩

/-- The flow that comes back. -/
def Flow.reread (f : Flow) : Flow :=
  ⟨f.id.reread, f.name.reread, f.blocks.map Block.reread, f.edges.map Edge.reread, f.createdAt.reread, f.updatedAt.reread⟩

/-- The block can be written. -/
structure Block.Writable (b : Block) : Prop where
  framed : b.Framed
  id : b.id.Writable
  type : b.type.Writable
  params : b.params.Writable
  inputs : ∀ v ∈ b.cache.inputs, v.Writable
  outputs : ∀ v ∈ b.cache.outputs, v.Writable

/-- The edge can be written, with an identifier that counts as given. -/
structure Edge.Writable (e : Edge) : Prop where
  given : e.id.truthy = true
  id : e.id.Writable
  source : e.source.Writable
  target : e.target.Writable
  sourceHandle : e.sourceHandle.Writable
  targetHandle : e.targetHandle.Writable

/-- The flow can be exported. -/
structure Flow.Writable (f : Flow) : Prop where
  given : f.id.truthy = true
  id : f.id.Writable
  name : f.name.Writable
  blocks : ∀ b ∈ f.blocks, b.Writable
  edges : ∀ e ∈ f.edges, e.Writable
  createdAt : f.createdAt.Writable
  updatedAt : f.updatedAt.Writable

theorem Value.Writable.object {fields : List (String × Value)} (h : ∀ f ∈ fields, f.2.Writable) :
    (Value.object fields).Writable :=
  .dict (List.forall_mem_map.2 fun f _ => ⟨f.1, rfl⟩) (List.forall_mem_map.2 h)

theorem Block.position_reread {b : Block} {x y : Binary64} (h : b.position = .place x y) :
    b.reread.position = .place x.reread y.reread := by
  rw [Block.reread, h]
  rfl

theorem Block.params_reread {b : Block} {es : List (Value × Value)} (h : b.params = .dict es) :
    b.reread.params = .object (Json.gather (Value.rereadEntries es)) := by
  rw [Block.reread, h, Value.reread]

namespace Block.Writable

variable {b : Block} (h : b.Writable)
include h

theorem framed_reread : b.reread.Framed := by
  obtain ⟨x, y, hposition⟩ := h.framed.position
  obtain ⟨es, hparams⟩ := h.framed.params
  exact ⟨⟨_, _, position_reread hposition⟩, ⟨_, params_reread hparams⟩⟩

theorem document {doc : Value} (hdoc : b.document = .ok doc) :
    doc.Writable ∧ b.reread.document = .ok doc.reread := by
  obtain ⟨x, y, hposition⟩ := h.framed.position
  obtain ⟨es, hparams⟩ := h.framed.params
  obtain rfl := Except.ok.inj ((document_eq hposition hparams).symm.trans hdoc)
  have hdict := h.params
  rw [hparams] at hdict
  constructor
  · refine .object ?_
    simp only [documentFields, List.forall_mem_cons, List.not_mem_nil, false_implies, implies_true, and_true]
    refine ⟨h.id, h.type, .object ?_, hdict, .object ?_⟩
    · simpa using ⟨.real x, .real y⟩
    · simpa using ⟨.list h.inputs, .list h.outputs⟩
  · rw [document_eq (position_reread hposition) (params_reread hparams), Value.reread_object (by simp [documentFields])]
    simp only [documentFields, List.map_cons, List.map_nil]
    rw [Value.reread_object (by simp), Value.reread_object (by simp)]
    simp only [List.map_cons, List.map_nil, Value.reread, Value.rereadAll_eq]
    rfl

end Block.Writable

namespace Edge.Writable

variable {e : Edge} (h : e.Writable)
include h

theorem document : e.document.Writable := by
  refine .object ?_
  simp only [List.forall_mem_cons, List.not_mem_nil, false_implies, implies_true, and_true]
  exact ⟨h.id, h.source, h.sourceHandle, h.target, h.targetHandle⟩

omit h in
theorem document_reread (e : Edge) : e.document.reread = e.reread.document := by
  rw [Edge.document, Value.reread_object (by simp)]
  rfl

end Edge.Writable

namespace Flow

theorem timeField_reread (name : String) (v : Value) :
    (timeField name v).map (fun f => (f.1, f.2.reread)) = timeField name v.reread := by
  cases v with
  | null | bool | int | real | text | bytes | list | tuple => rfl
  | dict es =>
    rw [timeField_of_ne (by simp), timeField_of_ne (by simp [Value.reread, Value.object])]
    rfl

namespace Writable

variable {f : Flow} (h : f.Writable)
include h

theorem framed : f.Framed :=
  ⟨h.given, fun b hb => (h.blocks b hb).framed, fun e he => (h.edges e he).given⟩

theorem framed_reread : f.reread.Framed := by
  refine ⟨?_, List.forall_mem_map.2 fun b hb => (h.blocks b hb).framed_reread, List.forall_mem_map.2 fun e he => ?_⟩
  · exact (Value.truthy_reread f.id).trans h.given
  · exact (Value.truthy_reread e.id).trans (h.edges e he).given

/-- The documents of the blocks that come back are the reread documents. -/
theorem documents_reread {docs : List Value} (hdocs : List.Forall₂ Block.Documents f.blocks docs) :
    List.Forall₂ Block.Documents f.reread.blocks (docs.map Value.reread) := by
  have hblocks := h.blocks
  rw [reread]
  generalize f.blocks = blocks at hdocs hblocks
  induction hdocs with
  | nil => exact .nil
  | @cons b doc blocks docs hb _ ih =>
    obtain ⟨hwritable, hrest⟩ := List.forall_mem_cons.1 hblocks
    obtain ⟨doc', hdoc'⟩ := hwritable.framed_reread.document
    obtain rfl := Except.ok.inj (hdoc'.written.symm.trans (hwritable.document hb.written).2)
    exact .cons hdoc' (ih hrest)

theorem document {docs : List Value} (hdocs : List.Forall₂ Block.Documents f.blocks docs) :
    (Value.object (f.documentFields docs)).Writable := by
  refine .object ?_
  have htime {name : String} {v : Value} (hv : v.Writable) : ∀ x ∈ timeField name v, x.2.Writable := by
    intro x hx
    by_cases hnull : v = .null
    · rw [hnull] at hx
      cases hx
    · rw [timeField_of_ne hnull] at hx
      exact List.mem_singleton.1 hx ▸ hv
  simp only [documentFields, List.forall_mem_append, List.forall_mem_cons, List.not_mem_nil, false_implies, implies_true,
    and_true]
  refine ⟨⟨⟨h.id, h.name, .list fun doc hdoc => ?_, .list fun doc hdoc => ?_⟩, htime h.createdAt⟩, htime h.updatedAt⟩
  · obtain ⟨b, hb, hwritten⟩ := Block.exists_documents hdocs doc hdoc
    exact ((h.blocks b hb).document hwritten.written).1
  · obtain ⟨e, he, rfl⟩ := List.mem_map.1 hdoc
    exact (h.edges e he).document

omit h in
theorem documentFields_reread (f : Flow) (docs : List Value) :
    (Value.object (f.documentFields docs)).reread = .object (f.reread.documentFields (docs.map Value.reread)) := by
  have hedges : (f.edges.map Edge.document).map Value.reread = f.reread.edges.map Edge.document := by
    simp only [Flow.reread, List.map_map]
    exact List.map_congr_left fun e _ => Edge.Writable.document_reread e
  rw [Value.reread_object (documentFields_nodup f docs)]
  simp only [documentFields, List.map_append, List.map_cons, List.map_nil, timeField_reread, Value.reread,
    Value.rereadAll_eq, hedges]
  rfl

/-- **A flow that is exported is imported as its reread form.** -/
theorem importText_reread : ∃ text, f.exportText = .ok text ∧ ∀ n, importText (.text text) n = (.ok f.reread, n) := by
  obtain ⟨docs, hdocs⟩ := Block.Framed.mapM h.framed.blocks
  obtain ⟨text, htext, hparse⟩ := Json.parse_indented_reread (h.document hdocs)
  refine ⟨text, ?_, fun n => ?_⟩
  · rw [exportText, document_eq hdocs]
    exact htext
  · rw [importText, hparse, documentFields_reread]
    exact ofData_framed (h.documents_reread hdocs) h.framed_reread n

end Writable

end Flow

/-! ## Flows that come back as they were -/

/-- All of the block is as the reader gives it. -/
structure Block.IsRead (b : Block) : Prop where
  id : b.id.IsRead
  type : b.type.IsRead
  position : ∃ x y, b.position = .place x y ∧ x.reread = x ∧ y.reread = y
  params : ∃ es, b.params = .dict es ∧ (Value.dict es).IsRead
  inputs : ∀ v ∈ b.cache.inputs, v.IsRead
  outputs : ∀ v ∈ b.cache.outputs, v.IsRead

/-- All of the edge is as the reader gives it, and its identifier counts as given. -/
structure Edge.IsRead (e : Edge) : Prop where
  given : e.id.truthy = true
  id : e.id.IsRead
  source : e.source.IsRead
  target : e.target.IsRead
  sourceHandle : e.sourceHandle.IsRead
  targetHandle : e.targetHandle.IsRead

/-- All of the flow is as the reader gives it, and its identifier counts as given. -/
structure Flow.IsRead (f : Flow) : Prop where
  given : f.id.truthy = true
  id : f.id.IsRead
  name : f.name.IsRead
  blocks : ∀ b ∈ f.blocks, b.IsRead
  edges : ∀ e ∈ f.edges, e.IsRead
  createdAt : f.createdAt.IsRead
  updatedAt : f.updatedAt.IsRead

theorem Value.map_reread_eq {xs : List Value} (h : ∀ v ∈ xs, v.IsRead) : xs.map reread = xs := by
  rw [List.map_congr_left fun v hv => (h v hv).reread_eq, List.map_id']

theorem Block.IsRead.writable {b : Block} (h : b.IsRead) : b.Writable := by
  obtain ⟨x, y, hposition, -⟩ := h.position
  obtain ⟨es, hparams, hread⟩ := h.params
  exact ⟨⟨⟨x, y, hposition⟩, ⟨es, hparams⟩⟩, h.id.writable, h.type.writable, hparams ▸ hread.writable,
    fun v hv => (h.inputs v hv).writable, fun v hv => (h.outputs v hv).writable⟩

theorem Block.IsRead.reread_eq {b : Block} (h : b.IsRead) : b.reread = b := by
  obtain ⟨x, y, hposition, hx, hy⟩ := h.position
  obtain ⟨es, hparams, hread⟩ := h.params
  have hplace : b.reread.position = b.position := by rw [position_reread hposition, hx, hy, hposition]
  have hdict : b.reread.params = b.params := by
    rw [Block.reread, hparams]
    exact hread.reread_eq
  rw [Block.reread] at hplace hdict ⊢
  dsimp only at hplace hdict
  rw [hplace, hdict, h.id.reread_eq, h.type.reread_eq, Value.map_reread_eq h.inputs, Value.map_reread_eq h.outputs]

theorem Edge.IsRead.writable {e : Edge} (h : e.IsRead) : e.Writable :=
  ⟨h.given, h.id.writable, h.source.writable, h.target.writable, h.sourceHandle.writable, h.targetHandle.writable⟩

theorem Edge.IsRead.reread_eq {e : Edge} (h : e.IsRead) : e.reread = e := by
  rw [Edge.reread, h.id.reread_eq, h.source.reread_eq, h.target.reread_eq, h.sourceHandle.reread_eq,
    h.targetHandle.reread_eq]

namespace Flow.IsRead

variable {f : Flow} (h : f.IsRead)
include h

theorem writable : f.Writable :=
  ⟨h.given, h.id.writable, h.name.writable, fun b hb => (h.blocks b hb).writable, fun e he => (h.edges e he).writable,
    h.createdAt.writable, h.updatedAt.writable⟩

theorem reread_eq : f.reread = f := by
  have hblocks : f.blocks.map Block.reread = f.blocks := by
    rw [List.map_congr_left fun b hb => (h.blocks b hb).reread_eq, List.map_id']
  have hedges : f.edges.map Edge.reread = f.edges := by
    rw [List.map_congr_left fun e he => (h.edges e he).reread_eq, List.map_id']
  rw [Flow.reread, h.id.reread_eq, h.name.reread_eq, hblocks, hedges, h.createdAt.reread_eq, h.updatedAt.reread_eq]

/-- **A flow that is as the reader gives it is exported and imported as it is.** -/
theorem importText_eq : ∃ text, f.exportText = .ok text ∧ ∀ n, importText (.text text) n = (.ok f, n) := by
  have hreread := h.writable.importText_reread
  rwa [h.reread_eq] at hreread

end Flow.IsRead

end BlockFlow
