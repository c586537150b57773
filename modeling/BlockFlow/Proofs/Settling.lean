import BlockFlow.Proofs.Saving
import Mathlib.Algebra.Order.BigOperators.Group.List

/-!
Texts that are exported again. What is imported of an exported text is written as that text unless a block has parameters
that are written under one name: of these only the last comes back, so the next text is shorter. That one stays.

* `Value.Settled`: values whose dictionaries have no two names that are written alike.
* `Json.length_block`, `Json.Rewritten`: how long a text is, and what becomes of it when its value is reread.
* `Value.Writable.rewritten`: **a reread value is written as before if it is settled, and shorter otherwise.**
* `Flow.exportText_settles_iff`: **what was imported is exported as one text for good exactly if no block has parameters of
  one name.**
-/

namespace BlockFlow

/-! ## Settled values -/

/-- No dictionary of the value has two names that are written alike. -/
inductive Value.Settled : Value → Prop
  | null : Settled .null
  | bool (b : Bool) : Settled (.bool b)
  | int (n : Int) : Settled (.int n)
  | real (x : Binary64) : Settled (.real x)
  | text (s : String) : Settled (.text s)
  | list {xs : List Value} (items : ∀ x ∈ xs, Settled x) : Settled (.list xs)
  | tuple {xs : List Value} (items : ∀ x ∈ xs, Settled x) : Settled (.tuple xs)
  | dict {es : List (Value × Value)} (names : (es.map fun e => e.1.keyName).Nodup) (values : ∀ e ∈ es, Settled e.2) :
    Settled (.dict es)

namespace Value

theorem settled_list {xs : List Value} : (Value.list xs).Settled ↔ ∀ x ∈ xs, x.Settled := by
  refine ⟨fun h => ?_, .list⟩
  cases h with
  | list items => exact items

theorem settled_dict {es : List (Value × Value)} :
    (Value.dict es).Settled ↔ (es.map fun e => e.1.keyName).Nodup ∧ ∀ e ∈ es, e.2.Settled := by
  refine ⟨fun h => ?_, fun h => .dict h.1 h.2⟩
  cases h with
  | dict names values => exact ⟨names, values⟩

theorem settled_object {fields : List (String × Value)} :
    (Value.object fields).Settled ↔ (fields.map (·.1)).Nodup ∧ ∀ f ∈ fields, f.2.Settled := by
  rw [Value.object, settled_dict, List.map_map, List.forall_mem_map]
  rfl

theorem IsRead.settled {v : Value} (h : v.IsRead) : v.Settled := by
  induction h with
  | null => exact .null
  | bool b => exact .bool b
  | int => exact .int _
  | real => exact .real _
  | text s => exact .text s
  | list _ ih => exact .list ih
  | object names _ ih => exact settled_object.2 ⟨names, ih⟩

/-- What comes back is as the reader gives it. -/
theorem Writable.isRead_reread {v : Value} (h : v.Writable) : v.reread.IsRead := by
  obtain ⟨text, -, hparse⟩ := Json.parse_indented_reread h
  exact Json.parse_isRead hparse

end Value

namespace Json

/-! ## The length of a text -/

theorem length_breakAt (level : Nat) : (breakAt level).length = 2 * level + 1 := by
  rw [← String.length_toList, toList_breakAt, List.length_cons, List.length_replicate]

theorem length_intercalate (gap first : String) (items : List String) :
    (gap.intercalate (first :: items)).length =
      first.length + items.length * gap.length + (items.map String.length).sum := by
  induction items generalizing first with
  | nil => simp
  | cons second items ih =>
    rw [String.intercalate_cons_cons, String.length_append, String.length_append, ih, List.length_cons, List.map_cons,
      List.sum_cons, add_one_mul]
    omega

/-- Each item takes a line break with its blanks, and a comma or the last break. -/
theorem length_block (opening closing : String) (level : Nat) (items : List String) :
    (block opening closing level items).length = opening.length + closing.length +
      if items.isEmpty then 0 else items.length * (2 * level + 4) + 2 * level + (items.map String.length).sum := by
  cases items with
  | nil => simp [block]
  | cons first items =>
    have hgap : ("," ++ breakAt (level + 1)).length = 2 * level + 4 := by
      rw [String.length_append, length_breakAt]
      have hcomma : ",".length = 1 := rfl
      omega
    simp only [block, List.isEmpty_cons, Bool.false_eq_true, if_false, String.length_append, length_breakAt,
      length_intercalate, hgap, List.length_cons, List.map_cons, List.sum_cons, add_one_mul]
    omega

/-! ## Texts of values that can be written -/

/-- The text of a value at a level. It is empty if the value cannot be written. -/
def textAt (level : Nat) (v : Value) : String :=
  match indentedAt level v with
  | .ok text => text
  | .error _ => ""

/-- A field as it stands between the brackets of an object. -/
def fieldText (level : Nat) (f : String × Value) : String := quote f.1 ++ ": " ++ textAt level f.2

theorem indentedAt_eq {v : Value} (h : v.Writable) (level : Nat) : indentedAt level v = .ok (textAt level v) := by
  obtain ⟨text, htext, -⟩ := indentedAt_reread h level
  rw [textAt, htext]

theorem indentedAll_eq {xs : List Value} (h : ∀ x ∈ xs, x.Writable) (level : Nat) :
    indentedAll level xs = .ok (xs.map (textAt level)) := by
  induction xs with
  | nil => rfl
  | cons x xs ih =>
    obtain ⟨hx, hxs⟩ := List.forall_mem_cons.1 h
    rw [indentedAll, indentedAt_eq hx, ih hxs]
    rfl

theorem indentedEntries_eq {es : List (Value × Value)} (hkeys : ∀ e ∈ es, e.1.IsScalar) (h : ∀ e ∈ es, e.2.Writable)
    (level : Nat) : indentedEntries level es = .ok (es.map fun e => fieldText level (e.1.keyName, e.2)) := by
  induction es with
  | nil => rfl
  | cons e es ih =>
    obtain ⟨⟨name, hname⟩, hkeys⟩ := List.forall_mem_cons.1 hkeys
    obtain ⟨he, hes⟩ := List.forall_mem_cons.1 h
    rw [indentedEntries, hname, indentedAt_eq he, ih hkeys hes, List.map_cons, fieldText, Value.keyName, hname]
    rfl

theorem textAt_list {xs : List Value} (h : ∀ x ∈ xs, x.Writable) (level : Nat) :
    textAt level (.list xs) = block "[" "]" level (xs.map (textAt (level + 1))) := by
  rw [textAt, indentedAt, indentedAll_eq h]
  rfl

theorem textAt_tuple {xs : List Value} (h : ∀ x ∈ xs, x.Writable) (level : Nat) :
    textAt level (.tuple xs) = block "[" "]" level (xs.map (textAt (level + 1))) := by
  rw [textAt, indentedAt, indentedAll_eq h]
  rfl

theorem textAt_dict {es : List (Value × Value)} (hkeys : ∀ e ∈ es, e.1.IsScalar) (h : ∀ e ∈ es, e.2.Writable)
    (level : Nat) :
    textAt level (.dict es) = block "\x7b" "\x7d" level (es.map fun e => fieldText (level + 1) (e.1.keyName, e.2)) := by
  rw [textAt, indentedAt, indentedEntries_eq hkeys h]
  rfl

/-! ## Texts of reread values -/

/-- The reread value has a text that is no longer. It is the same text if the value is settled, and only then it is as
long. -/
structure Rewritten (level : Nat) (v : Value) : Prop where
  le : (textAt level v.reread).length ≤ (textAt level v).length
  settled : (textAt level v).length ≤ (textAt level v.reread).length → v.Settled
  same : v.Settled → textAt level v.reread = textAt level v

theorem mem_gather {fields : List (String × Value)} {f : String × Value} (h : f ∈ gather fields) : f ∈ fields := by
  have hfold : ∀ done : List (String × Value), f ∈ fields.foldl putField done → f ∈ done ∨ f ∈ fields := by
    clear h
    induction fields with
    | nil => exact fun done hf => Or.inl hf
    | cons g fields ih =>
      intro done hf
      rcases ih _ hf with hf | hf
      · rcases mem_putField hf with rfl | hf
        · exact Or.inr List.mem_cons_self
        · exact Or.inl hf
      · exact Or.inr (List.mem_cons_of_mem _ hf)
  exact (hfold [] h).resolve_left (List.not_mem_nil)

/-- The fields that are gathered are some of those that there were. -/
theorem gather_subperm (fields : List (String × Value)) : (gather fields).Subperm fields :=
  ((nodup_gather fields).of_map _).subperm fun _ => mem_gather

/-- All fields are gathered only if their names are distinct. -/
theorem nodup_of_length_gather {fields : List (String × Value)} (h : fields.length ≤ (gather fields).length) :
    (fields.map (·.1)).Nodup :=
  (((gather_subperm fields).perm_of_length_le h).map _).nodup_iff.1 (nodup_gather fields)

theorem sum_gather_le (fields : List (String × Value)) (size : String × Value → Nat) :
    ((gather fields).map size).sum ≤ (fields.map size).sum := by
  obtain ⟨some, hperm, hsub⟩ := List.subperm_iff.1 (gather_subperm fields)
  calc ((gather fields).map size).sum ≤ (some.map size).sum := (hsub.map size).sum_le_sum fun _ _ => Nat.zero_le _
    _ = (fields.map size).sum := (hperm.map size).sum_eq

/-- Fewer and shorter items make a shorter text; one as long has as many items of the same length. -/
theorem length_block_le (opening closing : String) (level : Nat) {items items' : List String}
    (hempty : items'.isEmpty = items.isEmpty) (hlength : items'.length ≤ items.length)
    (hsum : (items'.map String.length).sum ≤ (items.map String.length).sum) :
    (block opening closing level items').length ≤ (block opening closing level items).length ∧
      ((block opening closing level items).length ≤ (block opening closing level items').length →
        items.length ≤ items'.length ∧ (items.map String.length).sum ≤ (items'.map String.length).sum) := by
  have hbreaks : items'.length * (2 * level + 4) ≤ items.length * (2 * level + 4) := Nat.mul_le_mul_right _ hlength
  rw [length_block, length_block, hempty]
  by_cases hnil : items.isEmpty
  · rw [List.isEmpty_iff] at hnil
    simp [hnil]
  · rw [if_neg hnil, if_neg hnil]
    refine ⟨by omega, fun hle => ⟨?_, by omega⟩⟩
    have hbreaks' : items.length * (2 * level + 4) ≤ items'.length * (2 * level + 4) := by omega
    exact Nat.le_of_mul_le_mul_right hbreaks' (by omega)

theorem forall_le_of_sum_le {α : Type} {xs : List α} {f g : α → Nat} (hle : ∀ x ∈ xs, f x ≤ g x)
    (hsum : (xs.map g).sum ≤ (xs.map f).sum) : ∀ x ∈ xs, g x ≤ f x := by
  by_contra hlt
  push Not at hlt
  exact absurd (List.sum_lt_sum f g hle hlt) (by omega)

/-- Items that get shorter one by one. -/
theorem length_block_map_le {α : Type} (opening closing : String) (level : Nat) {xs : List α} {f g : α → String}
    (h : ∀ x ∈ xs, (f x).length ≤ (g x).length) :
    (block opening closing level (xs.map f)).length ≤ (block opening closing level (xs.map g)).length ∧
      ((block opening closing level (xs.map g)).length ≤ (block opening closing level (xs.map f)).length →
        ∀ x ∈ xs, (g x).length ≤ (f x).length) := by
  have hsum : ((xs.map f).map String.length).sum ≤ ((xs.map g).map String.length).sum := by
    rw [List.map_map, List.map_map]
    exact List.sum_le_sum h
  have hempty : (xs.map f).isEmpty = (xs.map g).isEmpty := by simp
  have hlength : (xs.map f).length ≤ (xs.map g).length := by simp
  have hblock := length_block_le opening closing level hempty hlength hsum
  refine ⟨hblock.1, fun hle => ?_⟩
  have hback := (hblock.2 hle).2
  rw [List.map_map, List.map_map] at hback
  exact forall_le_of_sum_le h hback

theorem isEmpty_gather (fields : List (String × Value)) : (gather fields).isEmpty = fields.isEmpty := by
  cases fields with
  | nil => rfl
  | cons f fields =>
    have hne : gather (f :: fields) ≠ [] := foldl_putField_ne_nil (by simp [putField]) fields
    simpa using hne

/-- Fields that are gathered take less room unless their names are distinct. -/
theorem length_block_gather_le (opening closing : String) (level : Nat) (fields : List (String × Value))
    (f : String × Value → String) :
    (block opening closing level ((gather fields).map f)).length ≤ (block opening closing level (fields.map f)).length ∧
      ((block opening closing level (fields.map f)).length ≤ (block opening closing level ((gather fields).map f)).length →
        (fields.map (·.1)).Nodup) := by
  have hempty : ((gather fields).map f).isEmpty = (fields.map f).isEmpty := by
    rw [List.isEmpty_map, List.isEmpty_map, isEmpty_gather]
  have hlength : ((gather fields).map f).length ≤ (fields.map f).length := by
    rw [List.length_map, List.length_map]
    exact (gather_subperm fields).length_le
  have hsum : (((gather fields).map f).map String.length).sum ≤ ((fields.map f).map String.length).sum := by
    rw [List.map_map, List.map_map]
    exact sum_gather_le fields _
  have hblock := length_block_le opening closing level hempty hlength hsum
  refine ⟨hblock.1, fun hle => nodup_of_length_gather ?_⟩
  have hcount := (hblock.2 hle).1
  rwa [List.length_map, List.length_map] at hcount

section Items

variable {level : Nat} {xs : List Value} (hwritable : ∀ x ∈ xs, x.Writable) (h : ∀ x ∈ xs, Rewritten (level + 1) x)

include hwritable

theorem textAt_reread_list :
    textAt level (Value.list xs).reread = block "[" "]" level (xs.map fun x => textAt (level + 1) x.reread) := by
  have hreread : ∀ x ∈ xs.map Value.reread, x.Writable :=
    List.forall_mem_map.2 fun x hx => (hwritable x hx).isRead_reread.writable
  rw [Value.reread, Value.rereadAll_eq, textAt_list hreread, List.map_map]
  rfl

include h

theorem rewritten_list : Rewritten level (.list xs) := by
  have hblock := length_block_map_le "[" "]" level fun x hx => (h x hx).le
  rw [← textAt_reread_list hwritable, ← textAt_list hwritable] at hblock
  refine ⟨hblock.1, fun hle => .list fun x hx => (h x hx).settled (hblock.2 hle x hx), fun hsettled => ?_⟩
  rw [textAt_reread_list hwritable, textAt_list hwritable]
  exact congrArg _ (List.map_congr_left fun x hx => (h x hx).same (Value.settled_list.1 hsettled x hx))

theorem rewritten_tuple : Rewritten level (.tuple xs) := by
  have hlist := rewritten_list hwritable h
  have htext : textAt level (.tuple xs) = textAt level (.list xs) := by rw [textAt_tuple hwritable, textAt_list hwritable]
  have hreread : (Value.tuple xs).reread = (Value.list xs).reread := by rw [Value.reread, Value.reread]
  refine ⟨?_, fun hle => ?_, fun hsettled => ?_⟩
  · rw [htext, hreread]
    exact hlist.le
  · rw [htext, hreread] at hle
    exact .tuple (Value.settled_list.1 (hlist.settled hle))
  · rw [htext, hreread]
    cases hsettled with
    | tuple items => exact hlist.same (.list items)

end Items

theorem length_fieldText (level : Nat) (name : String) (v : Value) :
    (fieldText level (name, v)).length = (quote name).length + 2 + (textAt level v).length := by
  have hcolon : ": ".length = 2 := rfl
  rw [fieldText, String.length_append, String.length_append, hcolon]

section Fields

variable {level : Nat} {es : List (Value × Value)} (hkeys : ∀ e ∈ es, e.1.IsScalar) (hwritable : ∀ e ∈ es, e.2.Writable)
  (h : ∀ e ∈ es, Rewritten (level + 1) e.2)

include hwritable

theorem textAt_reread_dict :
    textAt level (Value.dict es).reread =
      block "\x7b" "\x7d" level ((gather (es.map fun e => (e.1.keyName, e.2.reread))).map (fieldText (level + 1))) := by
  rw [Value.reread, Value.rereadEntries_eq, Value.object, textAt_dict, List.map_map]
  · rfl
  · exact List.forall_mem_map.2 fun f _ => ⟨f.1, rfl⟩
  · refine List.forall_mem_map.2 fun f hf => ?_
    obtain ⟨e, he, rfl⟩ := List.mem_map.1 (mem_gather hf)
    exact (hwritable e he).isRead_reread.writable

include hkeys h

/-- The fields of a dictionary get shorter one by one, and then some of them are left out. -/
theorem rewritten_dict : Rewritten level (.dict es) := by
  have hshorter : ∀ e ∈ es, (fieldText (level + 1) (e.1.keyName, e.2.reread)).length ≤
      (fieldText (level + 1) (e.1.keyName, e.2)).length := by
    intro e he
    rw [length_fieldText, length_fieldText]
    exact Nat.add_le_add_left (h e he).le _
  have hfields := length_block_map_le "\x7b" "\x7d" level hshorter
  have hgather := length_block_gather_le "\x7b" "\x7d" level (es.map fun e => (e.1.keyName, e.2.reread))
    (fieldText (level + 1))
  rw [← textAt_reread_dict hwritable, List.map_map, List.map_map] at hgather
  rw [← textAt_dict hkeys hwritable] at hfields
  refine ⟨hgather.1.trans hfields.1, fun hle => .dict (hgather.2 (hfields.1.trans hle)) fun e he => ?_, fun hsettled => ?_⟩
  · have hback := hfields.2 (hle.trans hgather.1) e he
    rw [length_fieldText, length_fieldText] at hback
    exact (h e he).settled (Nat.le_of_add_le_add_left hback)
  · obtain ⟨hnames, hvalues⟩ := Value.settled_dict.1 hsettled
    rw [textAt_reread_dict hwritable, textAt_dict hkeys hwritable, gather_of_nodup (by rwa [List.map_map]), List.map_map]
    refine congrArg _ (List.map_congr_left fun e he => ?_)
    rw [Function.comp_apply, fieldText, fieldText, (h e he).same (hvalues e he)]

end Fields

end Json

/-- **A reread value is written as before if it is settled, and shorter otherwise.** -/
theorem Value.Writable.rewritten {v : Value} (h : v.Writable) (level : Nat) : Json.Rewritten level v := by
  induction h generalizing level with
  | null => exact ⟨le_rfl, fun _ => .null, fun _ => rfl⟩
  | bool b => exact ⟨le_rfl, fun _ => .bool b, fun _ => rfl⟩
  | int => exact ⟨le_rfl, fun _ => .int _, fun _ => rfl⟩
  | text s => exact ⟨le_rfl, fun _ => .text s, fun _ => rfl⟩
  | real x =>
    have hsame : Json.textAt level (Value.real x).reread = Json.textAt level (.real x) := by cases x <;> rfl
    exact ⟨hsame ▸ le_rfl, fun _ => .real x, fun _ => hsame⟩
  | list items ih => exact Json.rewritten_list items fun x hx => ih x hx (level + 1)
  | tuple items ih => exact Json.rewritten_tuple items fun x hx => ih x hx (level + 1)
  | dict keys values ih => exact Json.rewritten_dict keys values fun e he => ih e he (level + 1)

/-- **A value that can be written is written again as it was exactly if it is settled.** -/
theorem Json.indented_reread_iff {v : Value} (h : v.Writable) {text again : String} (htext : indented v = .ok text)
    (hagain : indented v.reread = .ok again) : again = text ↔ v.Settled := by
  obtain rfl := Except.ok.inj ((indentedAt_eq h 0).symm.trans htext)
  obtain rfl := Except.ok.inj ((indentedAt_eq h.isRead_reread.writable 0).symm.trans hagain)
  have hrewritten := h.rewritten 0
  exact ⟨fun heq => hrewritten.settled (heq ▸ le_rfl), hrewritten.same⟩

/-! ## What comes back of a flow -/

theorem Binary64.reread_reread (x : Binary64) : x.reread.reread = x.reread := by
  cases x <;> rfl

theorem Value.isRead_map_reread {xs : List Value} (h : ∀ v ∈ xs, v.Writable) : ∀ v ∈ xs.map reread, v.IsRead :=
  List.forall_mem_map.2 fun v hv => (h v hv).isRead_reread

theorem Block.Writable.isRead_reread {b : Block} (h : b.Writable) : b.reread.IsRead := by
  obtain ⟨x, y, hposition⟩ := h.framed.position
  obtain ⟨es, hparams⟩ := h.framed.params
  have hdict := h.params.isRead_reread
  rw [hparams, Value.reread] at hdict
  exact ⟨h.id.isRead_reread, h.type.isRead_reread,
    ⟨_, _, position_reread hposition, x.reread_reread, y.reread_reread⟩, ⟨_, params_reread hparams, hdict⟩,
    Value.isRead_map_reread h.inputs, Value.isRead_map_reread h.outputs⟩

theorem Edge.Writable.isRead_reread {e : Edge} (h : e.Writable) : e.reread.IsRead :=
  ⟨(Value.truthy_reread e.id).trans h.given, h.id.isRead_reread, h.source.isRead_reread, h.target.isRead_reread,
    h.sourceHandle.isRead_reread, h.targetHandle.isRead_reread⟩

theorem Flow.Writable.isRead_reread {f : Flow} (h : f.Writable) : f.reread.IsRead :=
  ⟨(Value.truthy_reread f.id).trans h.given, h.id.isRead_reread, h.name.isRead_reread,
    List.forall_mem_map.2 fun b hb => (h.blocks b hb).isRead_reread,
    List.forall_mem_map.2 fun e he => (h.edges e he).isRead_reread, h.createdAt.isRead_reread, h.updatedAt.isRead_reread⟩

/-! ## Flows exported again -/

/-- No two parameters of the block are written under one name. -/
def Block.Apart (b : Block) : Prop := (b.params.names.map Value.keyName).Nodup

instance : DecidablePred Block.Apart := fun b => inferInstanceAs (Decidable (b.params.names.map Value.keyName).Nodup)

theorem Block.Served.settled_document {b : Block} (h : b.Served Value.IsRead) {doc : Value} (hdoc : b.document = .ok doc) :
    doc.Settled ↔ b.Apart := by
  obtain ⟨x, y, hposition⟩ := h.position
  obtain ⟨es, hparams, hserved⟩ := h.params
  obtain rfl := Except.ok.inj ((document_eq hposition hparams).symm.trans hdoc)
  have hplace : (Value.object [("x", .real x), ("y", .real y)]).Settled :=
    Value.settled_object.2 ⟨by simp, by simpa using ⟨.real x, .real y⟩⟩
  have hlinks : (Value.object [("inputs", .list b.cache.inputs), ("outputs", .list b.cache.outputs)]).Settled := by
    refine Value.settled_object.2 ⟨by simp, ?_⟩
    simp only [List.forall_mem_cons, List.not_mem_nil, false_implies, implies_true, and_true]
    exact ⟨.list fun v hv => (h.inputs v hv).settled, .list fun v hv => (h.outputs v hv).settled⟩
  have hdict : (Value.dict es).Settled ↔ b.Apart := by
    rw [Value.settled_dict, and_iff_left fun e he => (hserved.values e he).settled, Apart, hparams, Value.names,
      List.map_map]
    rfl
  rw [Value.settled_object, documentFields, and_iff_right (by simp)]
  simp only [List.forall_mem_cons, List.not_mem_nil, false_implies, implies_true, and_true, h.id.settled, h.type.settled,
    hplace, hlinks, hdict, true_and]

namespace Flow

theorem Served.settled_document {f : Flow} (h : f.Served Value.IsRead) {docs : List Value}
    (hdocs : List.Forall₂ Block.Documents f.blocks docs) :
    (Value.object (f.documentFields docs)).Settled ↔ ∀ b ∈ f.blocks, b.Apart := by
  have htime {name : String} {v : Value} (hv : v.IsRead) : ∀ x ∈ timeField name v, x.2.Settled := by
    intro x hx
    by_cases hnull : v = .null
    · rw [hnull] at hx
      cases hx
    · rw [timeField_of_ne hnull] at hx
      exact List.mem_singleton.1 hx ▸ hv.settled
  have hedges : ∀ doc ∈ f.edges.map Edge.document, doc.Settled := by
    refine List.forall_mem_map.2 fun e he => Value.settled_object.2 ⟨by simp, ?_⟩
    have he := h.edges e he
    simp only [List.forall_mem_cons, List.not_mem_nil, false_implies, implies_true, and_true]
    exact ⟨he.id.settled, he.source.settled, he.sourceHandle.settled, he.target.settled, he.targetHandle.settled⟩
  have hblocks : (∀ doc ∈ docs, doc.Settled) ↔ ∀ b ∈ f.blocks, b.Apart := by
    constructor
    · intro hall b hb
      obtain ⟨doc, hdoc, hwritten⟩ := exists_mem_of_forall₂ hdocs b hb
      exact ((h.blocks b hb).settled_document hwritten.written).1 (hall doc hdoc)
    · intro hall doc hdoc
      obtain ⟨b, hb, hwritten⟩ := Block.exists_documents hdocs doc hdoc
      exact ((h.blocks b hb).settled_document hwritten.written).2 (hall b hb)
  rw [Value.settled_object, and_iff_right (documentFields_nodup f docs), documentFields]
  simp only [List.forall_mem_append, List.forall_mem_cons, List.not_mem_nil, false_implies, implies_true, and_true,
    h.id.settled, h.name.settled, Value.settled_list, hblocks, true_and]
  rw [and_iff_left (htime h.updatedAt), and_iff_left (htime h.createdAt), and_iff_left hedges]

/-- The text that is exported of what comes back of a flow is that of the flow exactly if no block has parameters of one
name. -/
theorem Served.exportText_reread_iff {f : Flow} (h : f.Served Value.IsRead) {text again : String}
    (htext : f.exportText = .ok text) (hagain : f.reread.exportText = .ok again) :
    again = text ↔ ∀ b ∈ f.blocks, b.Apart := by
  have hwritable := h.writable
  obtain ⟨docs, hdocs⟩ := Block.Framed.mapM hwritable.framed.blocks
  rw [exportText, document_eq hdocs] at htext
  rw [exportText, document_eq (hwritable.documents_reread hdocs), ← Writable.documentFields_reread] at hagain
  rw [Json.indented_reread_iff (hwritable.document hdocs) htext hagain, h.settled_document hdocs]

/-- **What was imported is exported as one text for good exactly if no block has parameters of one name.** Its text can be
imported in every case, and from the next text on nothing changes. -/
theorem exportText_settles_iff {source : Value} {n n' : Nat} {f : Flow} (h : importText source n = (.ok f, n')) :
    ∃ text back again, f.exportText = .ok text ∧ (∀ m, importText (.text text) m = (.ok back, m)) ∧
      back.exportText = .ok again ∧ (∀ m, importText (.text again) m = (.ok back, m)) ∧
      (again = text ↔ ∀ b ∈ f.blocks, b.Apart) := by
  have hserved := importText_served h
  obtain ⟨text, htext, hback⟩ := hserved.writable.importText_reread
  obtain ⟨again, hagain, hstays⟩ := hserved.writable.isRead_reread.importText_eq
  exact ⟨text, f.reread, again, htext, hback, hagain, hstays, hserved.exportText_reread_iff htext hagain⟩

/-- A text is imported as a flow that passes a test. -/
def importsTo (test : Flow → Bool) (text : String) : Bool :=
  match (importText (.text text) 1).1 with
  | .ok f => test f
  | .error _ => false

theorem exists_of_importsTo {test : Flow → Bool} {text : String} (h : importsTo test text = true) :
    ∃ f n, importText (.text text) 1 = (.ok f, n) ∧ test f = true := by
  rw [importsTo] at h
  rcases hread : importText (.text text) 1 with ⟨fault | f, n⟩
  · rw [hread] at h
    cases h
  · rw [hread] at h
    exact ⟨f, n, rfl, h⟩

/-- Parameters in pairs of which one has a number for its name, whole coordinates, an edge without identifier, and nothing
known of the connections. -/
def loose : String :=
  "\x7b\"id\": 7, \"blocks\": [\x7b\"id\": \"a\", \"type\": null, \"position\": [1, \"2\"], " ++
    "\"params\": [[1, \"x\"], \"bc\"]\x7d], \"edges\": [\x7b\"id\": 0, \"source\": \"a\", \"target\": \"b\"\x7d]\x7d"

theorem exportText_settles_loose :
    ∃ f n text back, importText (.text loose) 1 = (.ok f, n) ∧ (∀ b ∈ f.blocks, b.Apart) ∧ f.exportText = .ok text ∧
      importText (.text text) 1 = (.ok back, 1) ∧ back.exportText = .ok text := by
  obtain ⟨f, n, hf, hapart⟩ : ∃ f n, importText (.text loose) 1 = (.ok f, n) ∧ decide (∀ b ∈ f.blocks, b.Apart) = true :=
    exists_of_importsTo (by decide +kernel)
  rw [decide_eq_true_iff] at hapart
  obtain ⟨text, back, again, htext, hback, hagain, -, hiff⟩ := exportText_settles_iff hf
  obtain rfl := hiff.2 hapart
  exact ⟨f, n, again, back, hf, hapart, htext, hback 1, hagain⟩

/-- Parameters in pairs, under a number and under the text of that number. -/
def clashing : String :=
  "\x7b\"id\": \"f\", \"blocks\": [\x7b\"id\": \"a\", \"type\": \"return\", " ++
    "\"params\": [[1, \"x\"], [\"1\", \"y\"]]\x7d], \"edges\": []\x7d"

/-- Not every text that is exported of an imported flow is exported again as it is. -/
theorem exportText_unsettled :
    ¬ ∀ (source : String) (f back : Flow) (n : Nat) (text : String), importText (.text source) 1 = (.ok f, n) →
      f.exportText = .ok text → importText (.text text) 1 = (.ok back, 1) → back.exportText = .ok text := by
  intro hall
  obtain ⟨f, n, hf, hclash⟩ : ∃ f n, importText (.text clashing) 1 = (.ok f, n) ∧
      (!decide (∀ b ∈ f.blocks, b.Apart)) = true := exists_of_importsTo (by decide +kernel)
  have hserved := importText_served hf
  obtain ⟨text, htext, hback⟩ := hserved.writable.importText_reread
  have hagain := hall clashing f f.reread n text hf htext (hback 1)
  rw [Bool.not_eq_true', decide_eq_false_iff_not] at hclash
  exact hclash ((hserved.exportText_reread_iff htext hagain).1 rfl)

end Flow

end BlockFlow
