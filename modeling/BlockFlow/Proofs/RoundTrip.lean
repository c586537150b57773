import BlockFlow.Proofs.Transcript

/-!
Documents written and read back. A JSON value that is written over several lines is read as the value it was, and so is
a flow whose fields are of the sorts that a document has.

* `Value.IsJson`: the JSON values, with distinct names in every object.
* `Json.parse_indented`: **what is written of a JSON value is read as the value.**
* `Block.Documentable`, `Edge.Documentable`, `Flow.Documentable`: blocks, edges and flows that fit into a document.
* `Flow.importText_exportText`: **a flow that is exported and imported is the same flow.**
-/

namespace BlockFlow

/-- A JSON value. Its integers are within the limit of the reader, and what is no number is left out. -/
inductive Value.IsJson : Value → Prop
  | null : IsJson .null
  | bool (b : Bool) : IsJson (.bool b)
  | int {n : Int} (digits : (Nat.toDigits 10 n.natAbs).length ≤ 4300) : IsJson (.int n)
  | real {x : Binary64} (number : x.isNan = false) : IsJson (.real x)
  | text (s : String) : IsJson (.text s)
  | list {xs : List Value} (items : ∀ x ∈ xs, IsJson x) : IsJson (.list xs)
  | object {fields : List (String × Value)} (names : (fields.map (·.1)).Nodup) (values : ∀ f ∈ fields, IsJson f.2) :
    IsJson (.object fields)

theorem Value.IsJson.isRead {v : Value} (h : v.IsJson) : v.IsRead := by
  induction h with
  | null => exact .null
  | bool b => exact .bool b
  | int digits => exact .int digits
  | real number =>
    refine .real fun mark hx => ?_
    simp [hx, Binary64.isNan] at number
  | text s => exact .text s
  | list _ ih => exact .list ih
  | object names _ ih => exact .object names ih

/-- **What is written of a JSON value is read as the value.** -/
theorem Json.parse_indented {v : Value} (h : v.IsJson) :
    ∃ text, indented v = .ok text ∧ parse (.text text) = .ok v := by
  have hreread := parse_indented_reread h.isRead.writable
  rwa [h.isRead.reread_eq] at hreread

/-! ## Blocks -/

theorem Value.IsText.isJson {v : Value} (h : v.IsText) : v.IsJson := by
  obtain ⟨s, rfl⟩ := h
  exact .text s

/-- The block fits into a document. -/
structure Block.Documentable (b : Block) : Prop where
  id : b.id.IsText
  type : b.type.IsText
  position : ∃ x y, b.position = .tuple [.real x, .real y] ∧ x.isNan = false ∧ y.isNan = false
  params : ∃ fields, b.params = .object fields ∧ (Value.object fields).IsJson
  inputs : ∀ v ∈ b.cache.inputs, v.IsText
  outputs : ∀ v ∈ b.cache.outputs, v.IsText

theorem Value.IsJson.texts {xs : List Value} (h : ∀ v ∈ xs, v.IsText) : (Value.list xs).IsJson :=
  .list fun v hv => (h v hv).isJson

namespace Block.Documentable

variable {b : Block} (h : b.Documentable)
include h

theorem framed : b.Framed := by
  obtain ⟨x, y, hposition, -⟩ := h.position
  obtain ⟨fields, hparams, -⟩ := h.params
  exact ⟨⟨x, y, hposition⟩, ⟨_, hparams⟩⟩

theorem isJson {doc : Value} (hdoc : b.document = .ok doc) : doc.IsJson := by
  obtain ⟨x, y, hposition, hx, hy⟩ := h.position
  obtain ⟨fields, hparams, hfields⟩ := h.params
  obtain rfl := Except.ok.inj ((document_eq hposition hparams).symm.trans hdoc)
  refine .object (by simp [documentFields]) ?_
  simp only [documentFields, List.forall_mem_cons, List.not_mem_nil, false_implies, implies_true, and_true]
  refine ⟨h.id.isJson, h.type.isJson, .object (by simp) ?_, hfields, .object (by simp) ?_⟩
  · simpa using ⟨.real hx, .real hy⟩
  · simpa using ⟨.texts h.inputs, .texts h.outputs⟩

theorem isRead : b.IsRead := by
  obtain ⟨x, y, hposition, hx, hy⟩ := h.position
  obtain ⟨fields, hparams, hfields⟩ := h.params
  have hnumber {x : Binary64} (hx : x.isNan = false) : x.reread = x := by
    cases x with
    | nan => cases hx
    | infinite | finite => rfl
  exact ⟨h.id.isJson.isRead, h.type.isJson.isRead, ⟨x, y, hposition, hnumber hx, hnumber hy⟩, ⟨_, hparams, hfields.isRead⟩,
    fun v hv => (h.inputs v hv).isJson.isRead, fun v hv => (h.outputs v hv).isJson.isRead⟩

end Block.Documentable

/-- Blocks that fit into documents have them. -/
theorem Block.document_mapM {blocks : List Block} (h : ∀ b ∈ blocks, b.Documentable) :
    ∃ docs, blocks.mapM Block.document = .ok docs ∧ List.Forall₂ Block.Documents blocks docs := by
  obtain ⟨docs, hdocs⟩ := Block.Framed.mapM fun b hb => (h b hb).framed
  exact ⟨docs, Block.mapM_document hdocs, hdocs⟩

/-! ## Edges -/

/-- The edge fits into a document. An identifier that is empty would be drawn anew. -/
structure Edge.Documentable (e : Edge) : Prop where
  id : ∃ s, e.id = .text s ∧ s ≠ ""
  source : e.source.IsText
  target : e.target.IsText
  sourceHandle : e.sourceHandle.IsText
  targetHandle : e.targetHandle.IsText

theorem Value.truthy_text {s : String} (h : s ≠ "") : (Value.text s).truthy = true := by
  simpa [Value.truthy] using h

theorem Edge.Documentable.isJson {e : Edge} (h : e.Documentable) : e.document.IsJson := by
  obtain ⟨s, hs, -⟩ := h.id
  refine .object (by simp) ?_
  simp only [List.forall_mem_cons, List.not_mem_nil, false_implies, implies_true, and_true]
  exact ⟨hs ▸ .text s, h.source.isJson, h.sourceHandle.isJson, h.target.isJson, h.targetHandle.isJson⟩

/-! ## Flows -/

namespace Flow

/-- A time that fits into a document: a text, or nothing. -/
def TimeField (v : Value) : Prop := v = .null ∨ v.IsText

/-- The flow fits into a document. -/
structure Documentable (f : Flow) : Prop where
  id : ∃ s, f.id = .text s ∧ s ≠ ""
  name : f.name.IsText
  blocks : ∀ b ∈ f.blocks, b.Documentable
  edges : ∀ e ∈ f.edges, e.Documentable
  createdAt : TimeField f.createdAt
  updatedAt : TimeField f.updatedAt

theorem isJson_timeField {v : Value} (h : TimeField v) {name : String} : ∀ x ∈ timeField name v, x.2.IsJson := by
  rcases h with rfl | ⟨s, rfl⟩
  · simp [timeField]
  · simpa [timeField] using .text s

section Documents

variable {f : Flow} (h : f.Documentable) {docs : List Value} (hdocs : List.Forall₂ Block.Documents f.blocks docs)
include h

theorem Documentable.framed : f.Framed := by
  obtain ⟨s, hid, hne⟩ := h.id
  refine ⟨hid ▸ Value.truthy_text hne, fun b hb => (h.blocks b hb).framed, fun e he => ?_⟩
  obtain ⟨t, hid, hne⟩ := (h.edges e he).id
  exact hid ▸ Value.truthy_text hne

include hdocs

theorem isJson_document : (Value.object (f.documentFields docs)).IsJson := by
  obtain ⟨s, hid, -⟩ := h.id
  refine .object (documentFields_nodup f docs) ?_
  simp only [documentFields, List.forall_mem_append, List.forall_mem_cons, List.not_mem_nil, false_implies, implies_true,
    and_true]
  refine ⟨⟨⟨hid ▸ .text s, h.name.isJson, .list fun doc hdoc => ?_, .list fun doc hdoc => ?_⟩, ?_⟩, ?_⟩
  · obtain ⟨b, hb, hwritten⟩ := Block.exists_documents hdocs doc hdoc
    exact (h.blocks b hb).isJson hwritten.written
  · obtain ⟨e, he, rfl⟩ := List.mem_map.1 hdoc
    exact (h.edges e he).isJson
  · exact isJson_timeField h.createdAt
  · exact isJson_timeField h.updatedAt

/-- The document of a flow is read as the flow. -/
theorem ofData_document (n : Nat) : ofData (.object (f.documentFields docs)) n = (.ok f, n) :=
  ofData_framed hdocs h.framed n

end Documents

theorem Documentable.isRead {f : Flow} (h : f.Documentable) : f.IsRead := by
  have htime {v : Value} (hv : TimeField v) : v.IsRead := by
    rcases hv with rfl | hv
    · exact .null
    · exact hv.isJson.isRead
  have htext {v : Value} (hv : ∃ s, v = .text s ∧ s ≠ "") : v.IsRead ∧ v.truthy = true := by
    obtain ⟨s, rfl, hne⟩ := hv
    exact ⟨.text s, Value.truthy_text hne⟩
  refine ⟨(htext h.id).2, (htext h.id).1, h.name.isJson.isRead, fun b hb => (h.blocks b hb).isRead, fun e he => ?_,
    htime h.createdAt, htime h.updatedAt⟩
  have he := h.edges e he
  exact ⟨(htext he.id).2, (htext he.id).1, he.source.isJson.isRead, he.target.isJson.isRead, he.sourceHandle.isJson.isRead,
    he.targetHandle.isJson.isRead⟩

/-- **A flow that is exported and imported is the same flow.** -/
theorem importText_exportText {f : Flow} (h : f.Documentable) (n : Nat) :
    ∃ text, f.exportText = .ok text ∧ importText (.text text) n = (.ok f, n) := by
  obtain ⟨docs, hmapM, hdocs⟩ := Block.document_mapM h.blocks
  have hdocument : f.document = .ok (.object (f.documentFields docs)) := by
    rw [document, hmapM]
    rfl
  obtain ⟨text, htext, hparse⟩ := Json.parse_indented (isJson_document h hdocs)
  refine ⟨text, ?_, ?_⟩
  · rw [exportText, hdocument]
    exact htext
  · rw [importText, hparse]
    exact ofData_document h hdocs n

/-- Parameters of all sorts, in the order in which they were set. -/
def keptParams : List (String × Value) :=
  [("zeta", .text "a \"quote\"\n"),
    ("alpha", .list [.null, .int (-30), .real (.infinite true), .object [("", .bool false)]])]

/-- Two blocks of which one has an empty identifier, an edge, and one known time. -/
def kept : Flow where
  id := .text "flow-1"
  name := .text ""
  blocks := [⟨.text "", .text "print", defaultPosition, .object keptParams, ⟨[], [.text "b"]⟩⟩,
    ⟨.text "b", .text "return", defaultPosition, .object [], ⟨[.text ""], []⟩⟩]
  edges := [⟨.text "edge-1", .text "", .text "b", .text "output", .text "input"⟩]
  updatedAt := .text "2024-01-02T03:04:05.678Z"

theorem isJson_keptParams : (Value.object keptParams).IsJson := by
  refine .object (by simp [keptParams]) ?_
  simp only [keptParams, List.forall_mem_cons, List.not_mem_nil, false_implies, implies_true, and_true]
  refine ⟨.text _, .list ?_⟩
  simp only [List.forall_mem_cons, List.not_mem_nil, false_implies, implies_true, and_true]
  exact ⟨.null, .int (by decide), .real rfl, .object (by simp) (by simpa using .bool false)⟩

theorem documentable_kept : kept.Documentable := by
  have hplace : ∃ x y, defaultPosition = .tuple [.real x, .real y] ∧ x.isNan = false ∧ y.isNan = false :=
    ⟨_, _, rfl, by decide +kernel, by decide +kernel⟩
  refine ⟨⟨"flow-1", rfl, by decide⟩, ⟨_, rfl⟩, ?_, ?_, Or.inl rfl, Or.inr ⟨_, rfl⟩⟩
  · simp only [kept, List.forall_mem_cons, List.not_mem_nil, false_implies, implies_true, and_true]
    exact ⟨⟨⟨_, rfl⟩, ⟨_, rfl⟩, hplace, ⟨_, rfl, isJson_keptParams⟩, by simp, by simp [Value.IsText]⟩,
      ⟨⟨_, rfl⟩, ⟨_, rfl⟩, hplace, ⟨_, rfl, .object (by simp) (by simp)⟩, by simp [Value.IsText], by simp⟩⟩
  · simp only [kept, List.forall_mem_cons, List.not_mem_nil, false_implies, implies_true, and_true]
    exact ⟨⟨"edge-1", rfl, by decide⟩, ⟨_, rfl⟩, ⟨_, rfl⟩, ⟨_, rfl⟩, ⟨_, rfl⟩⟩

theorem importText_exportText_kept :
    kept.Documentable ∧ ∃ text, kept.exportText = .ok text ∧ importText (.text text) 1 = (.ok kept, 1) :=
  ⟨documentable_kept, importText_exportText documentable_kept 1⟩

end Flow

end BlockFlow
