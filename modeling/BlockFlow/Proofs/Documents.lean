import BlockFlow.Flow.Document
import BlockFlow.Proofs.Identifier

/-!
What can go wrong when a flow is read. Most faults of reading are told as complaints about the format. Two escape: a
coordinate that is an integer too large for a floating-point number, and connections that are given and no dictionary.

* `Fault.Told`, `Escapes`: faults that are told as complaints about the format, and steps that fail with another one.
* `escapes_bind`, `escapes_mapM`: where a fault escapes from, in steps one after the other.
* `Flow.checkData_eq_ok`: what a document that passes the checks has.
* `Block.escapes_ofDocument`: the documents of blocks from which a fault escapes.
* `Flow.importText_told_iff`: **when a text is read, all faults are told but those of such a block.**
-/

namespace BlockFlow

open BlockFlow.Flow (badFormat isUnreadable asFormat)

/-- The fault is a complaint about the format of a flow. -/
def Fault.IsFormat (f : Fault) : Prop := ∃ reason details, f = badFormat reason details

/-- The fault is told as a complaint about the format of a flow. -/
def Fault.Told (f : Fault) : Prop := isUnreadable f = true ∨ f.IsFormat

theorem isFormat_asFormat {f : Fault} : (asFormat f).IsFormat ↔ f.Told := by
  rw [asFormat, Fault.Told]
  split
  · rename_i h
    exact iff_of_true ⟨_, _, rfl⟩ (Or.inl h)
  · rename_i h
    simp [h]

/-! ## Steps from which a fault escapes -/

variable {α β : Type}

/-- The step fails with a fault that is not told. -/
def Escapes (outcome : Except Fault α) : Prop := ∃ f, outcome = .error f ∧ ¬ f.Told

@[simp] theorem escapes_ok (a : α) : ¬ Escapes (.ok a : Except Fault α) := by
  rintro ⟨f, hf, -⟩
  cases hf

@[simp] theorem escapes_pure (a : α) : ¬ Escapes (pure a : Except Fault α) := escapes_ok a

@[simp] theorem escapes_error (f : Fault) : Escapes (.error f : Except Fault α) ↔ ¬ f.Told := by
  simp [Escapes]

theorem not_escapes {outcome : Except Fault α} (h : ∀ f, outcome = .error f → isUnreadable f = true) :
    ¬ Escapes outcome := by
  rintro ⟨f, hf, htold⟩
  exact htold (Or.inl (h f hf))

theorem escapes_bind {step : Except Fault α} {next : α → Except Fault β} :
    Escapes (step >>= next) ↔ Escapes step ∨ ∃ a, step = .ok a ∧ Escapes (next a) := by
  cases step with
  | error f => simp [bind, Except.bind]
  | ok a => simp [bind, Except.bind]

/-- A fault escapes from the first element that does not succeed. -/
theorem escapes_mapM {step : α → Except Fault β} {xs : List α} :
    Escapes (xs.mapM step) ↔
      ∃ before x after, xs = before ++ x :: after ∧ (∀ y ∈ before, ∃ b, step y = .ok b) ∧ Escapes (step x) := by
  induction xs with
  | nil => simp
  | cons x xs ih =>
    rw [List.mapM_cons, escapes_bind]
    simp only [escapes_bind, ih, escapes_pure, and_false, exists_false, or_false]
    constructor
    · rintro (hx | ⟨b, hb, before, y, after, rfl, hbefore, hy⟩)
      · exact ⟨[], x, xs, rfl, by simp, hx⟩
      · exact ⟨x :: before, y, after, rfl, by simpa using ⟨⟨b, hb⟩, hbefore⟩, hy⟩
    · rintro ⟨before, y, after, hxs, hbefore, hy⟩
      cases before with
      | nil =>
        obtain ⟨rfl, -⟩ := List.cons.inj hxs
        exact Or.inl hy
      | cons z before =>
        obtain ⟨rfl, rfl⟩ := List.cons.inj hxs
        obtain ⟨b, hb⟩ := hbefore x List.mem_cons_self
        exact Or.inr ⟨b, hb, before, y, after, rfl, fun w hw => hbefore w (List.mem_cons_of_mem _ hw), hy⟩

/-- The family of the fault with which a step fails. -/
def failure? (outcome : Except Fault α) : Option Family :=
  match outcome with
  | .ok _ => none
  | .error f => some f.family

theorem exists_of_failure? {outcome : Except Fault α} {family : Family} (h : failure? outcome = some family)
    (hfamily : family ≠ .complaint) : ∃ fault, outcome = .error fault ∧ fault.family = family ∧ ¬ fault.IsFormat := by
  cases outcome with
  | ok a => cases h
  | error fault =>
    refine ⟨fault, rfl, Option.some.inj h, ?_⟩
    rintro ⟨reason, details, rfl⟩
    exact hfamily (Option.some.inj h).symm

/-! ## Readers from which no fault escapes -/

namespace Value

mutual

/-- A value without key is a list or a dictionary, or holds one. -/
theorem key_error : ∀ {v : Value} {f : Fault}, v.key = .error f → isUnreadable f = true
  | .list _, f, h => by
    obtain rfl := Except.error.inj h
    rfl
  | .dict _, f, h => by
    obtain rfl := Except.error.inj h
    rfl
  | .tuple items, f, h => keyOfAll_error (by rwa [key] at h)
  | .null, _, h | .bool _, _, h | .int _, _, h | .real _, _, h | .text _, _, h | .bytes _, _, h => by cases h

theorem keyOfAll_error : ∀ {items : List Value} {f : Fault}, keyOfAll items = .error f → isUnreadable f = true
  | [], _, h => by cases h
  | v :: rest, f, h => by
    rw [keyOfAll] at h
    cases hv : key v with
    | error g =>
      rw [hv] at h
      obtain rfl := Except.error.inj h
      exact key_error hv
    | ok a =>
      rw [hv] at h
      cases hrest : keyOfAll rest with
      | error g =>
        rw [hrest] at h
        obtain rfl := Except.error.inj h
        exact keyOfAll_error hrest
      | ok b =>
        rw [hrest] at h
        cases h

end

theorem toPair_error {position : Nat} {v : Value} {f : Fault} (h : toPair position v = .error f) :
    isUnreadable f = true := by
  unfold toPair at h
  split at h <;> cases h <;> rfl

theorem mergePairs_error {entries : List (Value × Value)} {position : Nat} {items : List Value} {f : Fault}
    (h : (mergePairs entries position items).2 = .error f) : isUnreadable f = true := by
  fun_induction mergePairs entries position items with
  | case1 => cases h
  | case2 _ _ _ _ g hg =>
    cases h
    exact toPair_error hg
  | case3 _ _ _ _ a b _ g hg =>
    cases h
    unfold insertEntry at hg
    split at hg
    · cases hg
    · rename_i hkey
      cases hg
      exact key_error hkey
  | case4 _ _ _ _ _ _ _ _ _ ih => exact ih h

theorem toEntries_error {v : Value} {f : Fault} (h : v.toEntries = .error f) : isUnreadable f = true := by
  unfold toEntries at h
  split at h
  · cases h
  · split at h
    · cases h
    · rename_i hnodict _ _ hmerge
      cases h
      unfold mergeInto at hmerge
      split at hmerge
      · cases hmerge
      · split at hmerge
        · cases hmerge
          rfl
        · exact mergePairs_error (congrArg Prod.snd hmerge)

theorem toList_error {v : Value} {f : Fault} (h : v.toList = .error f) : isUnreadable f = true := by
  unfold toList at h
  split at h <;> cases h
  rfl

theorem nth_error {v : Value} {position : Nat} {f : Fault} (h : v.nth position = .error f) : isUnreadable f = true := by
  unfold nth item at h
  cases v with
  | dict es =>
    simp only [key] at h
    split at h <;> cases h
    rfl
  | list xs | tuple xs | text s | bytes bs =>
    simp only [index?, toIndex] at h
    split at h
    · simp only [bind, Except.bind] at h
      split at h <;> cases h
      rfl
    · cases h
      rfl
  | _ =>
    cases h
    rfl

end Value

/-! ## Texts -/

namespace Json

theorem value_error {n : Numeral} {f : Fault} (h : n.value = .error f) : isUnreadable f = true := by
  unfold Numeral.value at h
  split at h
  · split at h <;> cases h
    rfl
  · cases h

/-- Of the faults that are no flaws of a text there is one: an integer of too many digits. -/
theorem openValue_fault {lone : Char} {frames : List Frame} {position : Nat} {cs : List Char} {f : Fault}
    (h : openValue lone frames position cs = .error (.fault f)) : isUnreadable f = true := by
  unfold openValue at h
  split at h
  · cases h
  · split_ifs at h
    · split at h <;> cases h
    · split at h
      · cases h
      · split at h
        · cases h
        · split at h
          · rename_i hvalue
            cases h
            exact value_error hvalue
          · cases h

theorem openKey_fault {lone : Char} {frames : List Frame} {entries : List (Value × Value)} {position : Nat}
    {cs : List Char} {f : Fault} : openKey lone frames entries position cs ≠ .error (.fault f) := by
  intro h
  unfold openKey at h
  split at h
  · split_ifs at h
    · split at h <;> cases h
    · cases h
  · cases h

theorem afterValue_fault {frames : List Frame} {v : Value} {position : Nat} {cs : List Char} {f : Fault} :
    afterValue frames v position cs ≠ .error (.fault f) := by
  intro h
  unfold afterValue at h
  split at h
  · cases h
  · split at h <;> cases h
  · dsimp only at h
    split at h <;> cases h

theorem advance_fault {lone : Char} {s : State} {position : Nat} {cs : List Char} {f : Fault}
    (h : advance lone s position cs = .error (.fault f)) : isUnreadable f = true := by
  unfold advance at h
  split at h
  · exact openValue_fault h
  · split at h
    · cases h
    · exact openValue_fault h
  · split at h
    · cases h
    · exact absurd h openKey_fault
  · exact absurd h openKey_fault
  · split at h <;> cases h
  · exact absurd h afterValue_fault

theorem run_fault {lone : Char} {s : State} {position : Nat} {cs : List Char} {f : Fault}
    (h : run lone s position cs = .error (.fault f)) : isUnreadable f = true := by
  fun_induction run lone s position cs with
  | case1 => cases h
  | case2 _ _ _ _ _ g hg =>
    cases h
    exact advance_fault hg
  | case3 _ _ _ _ _ _ _ _ _ ih => exact ih h
  | case4 => cases h

theorem readChars_error {lone : Char} {cs : List Char} {f : Fault} (h : readChars lone cs = .error f) :
    isUnreadable f = true := by
  unfold readChars at h
  split at h
  · cases h
  · rename_i hrun
    cases h
    exact run_fault hrun
  · cases h
    rfl

theorem parse_error {source : Value} {f : Fault} (h : parse source = .error f) : isUnreadable f = true := by
  unfold parse at h
  split at h
  · unfold read at h
    dsimp only at h
    split at h
    · cases h
      rfl
    · exact readChars_error h
  · split at h
    · exact readChars_error h
    · cases h
      rfl
  · cases h
    rfl

end Json

/-! ## Positions -/

/-- An integer that is too large for a floating-point number. -/
def Value.Oversized (v : Value) : Prop := ∃ n, v = .int n ∧ Binary64.ofInt? n = none

example : (Value.int (Int.pow 10 309)).Oversized := ⟨_, rfl, by decide +kernel⟩

theorem tooLarge_not_told : ¬ Fault.tooLarge.Told := by
  rintro (h | ⟨reason, details, h⟩) <;> cases h

theorem noAttribute_not_told (kind : Value.Kind) (name : String) : ¬ (Fault.noAttribute kind name).Told := by
  rintro (h | ⟨reason, details, h⟩) <;> cases h

theorem escapes_toReal {v : Value} : Escapes v.toReal ↔ v.Oversized := by
  unfold Value.toReal Value.Oversized
  cases v with
  | int n => cases hn : Binary64.ofInt? n <;> simp [hn, tooLarge_not_told]
  | real x | bool b => simp
  | text s | bytes bs =>
    simp only [reduceCtorEq, false_and, exists_false, iff_false]
    split
    · exact escapes_ok _
    · exact not_escapes fun f hf => by cases hf; rfl
  | null | list xs | tuple xs | dict es =>
    simp only [reduceCtorEq, false_and, exists_false, iff_false]
    exact not_escapes fun f hf => by cases hf; rfl

/-- The first coordinate of the position that is no floating-point number is an integer that is too large for one. -/
def OversizedPosition (position : Value) : Prop :=
  ∃ x, position.nth 0 = .ok x ∧
    (x.Oversized ∨ (∃ r, x.toReal = .ok r) ∧ ∃ y, position.nth 1 = .ok y ∧ y.Oversized)

theorem escapes_readPosition {position : Value} : Escapes (readPosition position) ↔ OversizedPosition position := by
  have hnth (i : Nat) : ¬ Escapes (position.nth i) := not_escapes fun _ => Value.nth_error
  simp only [readPosition, escapes_bind, hnth, false_or, escapes_toReal, escapes_pure, and_false, exists_false, or_false,
    OversizedPosition]
  constructor
  · rintro ⟨x, hx, h | ⟨r, hr, y, hy⟩⟩
    · exact ⟨x, hx, Or.inl h⟩
    · exact ⟨x, hx, Or.inr ⟨⟨r, hr⟩, y, hy⟩⟩
  · rintro ⟨x, hx, h | ⟨⟨r, hr⟩, y, hy⟩⟩
    · exact ⟨x, hx, Or.inl h⟩
    · exact ⟨x, hx, Or.inr ⟨r, hr, y, hy⟩⟩

/-! ## Documents that pass the checks -/

section Fields

variable {entries : List (Value × Value)} {name : String} {v : Value}

theorem Entries.contains_text :
    Entries.contains entries (.text name) = true ↔ ∃ v, Entries.field? entries name = some v := by
  rw [Entries.contains, Entries.field?, Entries.get?, ← Option.isSome_iff_exists, Option.isSome_map, List.find?_isSome]
  simp

theorem Entries.fieldD_eq (h : Entries.field? entries name = some v) (other : Value) :
    Entries.fieldD entries name other = v := by
  rw [Entries.fieldD, h]
  rfl

theorem Value.require_dict (h : Entries.field? entries name = some v) : (Value.dict entries).require name = .ok v := by
  rw [Entries.field?] at h
  rw [Value.require, Value.item, Value.key_text, h]

theorem Flow.hasFields_iff {doc : Value} {names : List String} :
    Flow.hasFields doc names = true ↔
      ∃ entries, doc = .dict entries ∧ ∀ name ∈ names, ∃ v, Entries.field? entries name = some v := by
  unfold Flow.hasFields
  split
  · simp [Entries.contains_text]
  · rename_i hdict
    simp only [Bool.false_eq_true, false_iff]
    rintro ⟨entries, rfl, -⟩
    exact hdict entries rfl

end Fields

namespace Flow

theorem checkFields_eq_ok {label needs : String} {names : List String} {position : Nat} {docs : List Value} :
    checkFields label needs names position docs = .ok () ↔ ∀ doc ∈ docs, hasFields doc names = true := by
  induction docs generalizing position with
  | nil => simp [checkFields]
  | cons doc docs ih =>
    rw [checkFields, List.forall_mem_cons]
    split
    · rename_i h
      rw [ih]
      simp [h]
    · rename_i h
      simp [h]

theorem checkFields_error {label needs : String} {names : List String} {position : Nat} {docs : List Value} {f : Fault}
    (h : checkFields label needs names position docs = .error f) : f.IsFormat := by
  induction docs generalizing position with
  | nil => cases h
  | cons doc docs ih =>
    rw [checkFields] at h
    split at h
    · exact ih h
    · cases h
      exact ⟨_, _, rfl⟩

/-- What a document that passes the checks has: an identifier, and lists of blocks and edges with the fields that they
need. -/
structure Checked (entries : List (Value × Value)) (blockDocs edgeDocs : List Value) : Prop where
  id : (Entries.fieldD entries "id" .null).truthy = true
  blocks : Entries.field? entries "blocks" = some (.list blockDocs)
  edges : Entries.field? entries "edges" = some (.list edgeDocs)
  named : ∀ doc ∈ blockDocs, hasFields doc ["id", "type"] = true
  ended : ∀ doc ∈ edgeDocs, hasFields doc ["source", "target"] = true

theorem field?_of_fieldD {entries : List (Value × Value)} {name : String} {xs : List Value}
    (h : Entries.fieldD entries name .null = .list xs) : Entries.field? entries name = some (.list xs) := by
  rw [Entries.fieldD] at h
  cases hf : Entries.field? entries name with
  | none =>
    rw [hf] at h
    cases h
  | some v =>
    rw [hf] at h
    exact congrArg some h

theorem Checked.exists_id {entries : List (Value × Value)} {blockDocs edgeDocs : List Value}
    (h : Checked entries blockDocs edgeDocs) : ∃ id, Entries.field? entries "id" = some id := by
  have hid := h.id
  rw [Entries.fieldD] at hid
  cases hfield : Entries.field? entries "id" with
  | none => simp [hfield, Value.truthy] at hid
  | some id => exact ⟨id, rfl⟩

theorem checkData_eq_ok {doc : Value} :
    checkData doc = .ok () ↔ ∃ entries blocks edges, doc = .dict entries ∧ Checked entries blocks edges := by
  constructor
  · intro h
    unfold checkData at h
    split at h
    · rename_i entries
      split at h
      · cases h
      · rename_i hid
        split at h
        · rename_i blocks edges hblocks hedges
          obtain ⟨⟨⟩, hnamed, hended⟩ := bind_eq_ok.1 h
          exact ⟨entries, blocks, edges, rfl, by simpa using hid, field?_of_fieldD hblocks, field?_of_fieldD hedges,
            checkFields_eq_ok.1 hnamed, checkFields_eq_ok.1 hended⟩
        · cases h
    · cases h
  · rintro ⟨entries, blocks, edges, rfl, h⟩
    rw [checkData, h.id, Entries.fieldD_eq h.blocks, Entries.fieldD_eq h.edges]
    exact bind_eq_ok.2 ⟨(), checkFields_eq_ok.2 h.named, checkFields_eq_ok.2 h.ended⟩

theorem checkData_error {doc : Value} {f : Fault} (h : checkData doc = .error f) : f.IsFormat := by
  unfold checkData at h
  split at h
  · split at h
    · cases h
      exact ⟨_, _, rfl⟩
    · split at h
      · rename_i blocks edges _ _
        cases hblocks : checkFields "blocks" "an id and a type" ["id", "type"] 0 blocks with
        | error g =>
          rw [hblocks] at h
          cases h
          exact checkFields_error hblocks
        | ok u =>
          rw [hblocks] at h
          exact checkFields_error h
      · cases h
        exact ⟨_, _, rfl⟩
  · cases h
    exact ⟨_, _, rfl⟩

end Flow

/-! ## Blocks -/

/-- The document of a block from which a fault escapes: its position is too large, or its position and its parameters can be
read and its connections are given and no dictionary. -/
def Block.Faulty (entries : List (Value × Value)) : Prop :=
  let position := documentPosition ((Entries.fieldD entries "position" .null).orElse (.dict []))
  let params := (Entries.fieldD entries "params" .null).orElse (.dict [])
  let connections := (Entries.fieldD entries "connections" .null).orElse (.dict [])
  OversizedPosition position ∨
    (∃ place, readPosition position = .ok place) ∧ (∃ es, params.toEntries = .ok es) ∧ connections.isDict = false

theorem Value.get_dict (entries : List (Value × Value)) (name : String) (other : Value) :
    (Value.dict entries).get name other = .ok (Entries.fieldD entries name other) := rfl

/-- A fault escapes from a field that is asked of a value exactly if the value is no dictionary. -/
theorem escapes_get {v : Value} {name : String} {other : Value} : Escapes (v.get name other) ↔ v.isDict = false := by
  cases v <;> simp [Value.get, Value.entriesFor, Value.isDict, noAttribute_not_told]

theorem Block.escapes_ofDocument {entries : List (Value × Value)}
    (h : Flow.hasFields (.dict entries) ["id", "type"] = true) :
    Escapes (Block.ofDocument (.dict entries)) ↔ Block.Faulty entries := by
  obtain ⟨entries', heq, hfields⟩ := Flow.hasFields_iff.1 h
  obtain rfl := Value.dict.inj heq
  obtain ⟨id, hid⟩ := hfields "id" (by simp)
  obtain ⟨type, htype⟩ := hfields "type" (by simp)
  have hentries (v : Value) : ¬ Escapes v.toEntries := not_escapes fun _ => Value.toEntries_error
  have hlist (v : Value) : ¬ Escapes v.toList := not_escapes fun _ => Value.toList_error
  simp only [Block.ofDocument, Value.get_dict, Value.require_dict hid, Value.require_dict htype, escapes_bind, escapes_ok,
    Except.ok.injEq, exists_eq_left', false_or, escapes_readPosition, hentries, hlist, escapes_get, escapes_pure, and_false,
    exists_false, or_false, Block.Faulty]
  constructor
  · rintro (hposition | ⟨place, hplace, es, hes, hdict | ⟨-, -, -, -, hdict⟩⟩)
    · exact Or.inl hposition
    · exact Or.inr ⟨⟨place, hplace⟩, ⟨es, hes⟩, hdict⟩
    · exact Or.inr ⟨⟨place, hplace⟩, ⟨es, hes⟩, hdict⟩
  · rintro (hposition | ⟨⟨place, hplace⟩, ⟨es, hes⟩, hdict⟩)
    · exact Or.inl hposition
    · exact Or.inr ⟨place, hplace, es, hes, Or.inl hdict⟩

/-! ## Edges and flows -/

/-- The document of an edge that passes the checks can be read. -/
theorem Edge.ofDocument_ok {doc : Value} (h : Flow.hasFields doc ["source", "target"] = true) (n : Nat) :
    ∃ e n', Edge.ofDocument doc n = (.ok e, n') := by
  obtain ⟨entries, rfl, hfields⟩ := Flow.hasFields_iff.1 h
  obtain ⟨source, hsource⟩ := hfields "source" (by simp)
  obtain ⟨target, htarget⟩ := hfields "target" (by simp)
  rw [Edge.ofDocument]
  simp only [Act.bind_apply, Act.ofExcept_apply, Value.get_dict, Value.require_dict hsource, Value.require_dict htarget]
  split
  · exact ⟨_, _, rfl⟩
  · exact ⟨_, _, rfl⟩

theorem Edge.ofDocuments_ok {docs : List Value}
    (h : ∀ doc ∈ docs, Flow.hasFields doc ["source", "target"] = true) (n : Nat) :
    ∃ edges n', Edge.ofDocuments docs n = (.ok edges, n') := by
  induction docs generalizing n with
  | nil => exact ⟨[], n, rfl⟩
  | cons doc docs ih =>
    obtain ⟨e, m, he⟩ := Edge.ofDocument_ok (h doc List.mem_cons_self) n
    obtain ⟨edges, n', hedges⟩ := ih (fun d hd => h d (List.mem_cons_of_mem _ hd)) m
    refine ⟨e :: edges, n', ?_⟩
    rw [Edge.ofDocuments, Act.bind_apply, he]
    dsimp only
    rw [Act.bind_apply, hedges]
    rfl

namespace Flow

theorem rememberAll_error {blocks : List (Key × Block)} {edges : List Edge} {f : Fault}
    (h : (rememberAll blocks edges).2 = .error f) : isUnreadable f = true := by
  fun_induction rememberAll blocks edges with
  | case1 => cases h
  | case2 _ _ _ g hg =>
    cases h
    exact Value.key_error hg
  | case3 _ _ _ _ _ _ g hg =>
    cases h
    exact Value.key_error hg
  | case4 _ _ _ _ _ _ _ _ ih => exact ih h

/-- No fault escapes when the caches are made anew. -/
theorem not_escapes_rebuild (f : Flow) : ¬ Escapes f.rebuild.2 := by
  unfold rebuild
  split
  · rename_i g hg
    have hkeys : ¬ Escapes (f.blocks.mapM fun b => b.id.key.map fun k => (k, b)) := by
      rw [escapes_mapM]
      rintro ⟨-, b, -, -, -, hb⟩
      cases hkey : b.id.key with
      | error fault =>
        refine not_escapes (fun g hg => ?_) hb
        rw [hkey] at hg
        cases hg
        exact Value.key_error hkey
      | ok k =>
        rw [hkey] at hb
        exact escapes_ok _ hb
    simpa [hg] using hkeys
  · exact not_escapes fun _ => rememberAll_error

variable {entries : List (Value × Value)} {blockDocs edgeDocs : List Value}

/-- What a document that passes the checks is read as, once its edges are read. -/
theorem ofDocument_apply (h : Checked entries blockDocs edgeDocs) {id : Value} (hid : Entries.field? entries "id" = some id)
    {edges : List Edge} {n n' : Nat} (hedges : Edge.ofDocuments edgeDocs n = (.ok edges, n')) :
    ofDocument (.dict entries) n =
      match blockDocs.mapM Block.ofDocument with
      | .error f => (.error f, n)
      | .ok blocks =>
        let f : Flow := ⟨id, Entries.fieldD entries "name" (.text "My Flow"), blocks, edges,
          Entries.fieldD entries "createdAt" .null, Entries.fieldD entries "updatedAt" .null⟩
        (if blockDocs.any lacksConnections then f.rebuild.2.map fun _ => f.rebuild.1 else .ok f, n') := by
  have hblocks := Entries.fieldD_eq h.blocks
  have hedgeDocs := Entries.fieldD_eq h.edges
  have hlist (xs : List Value) : (Value.list xs).toList = .ok xs := rfl
  simp only [ofDocument, Act.bind_apply, Act.ofExcept_apply, Value.get_dict, hblocks, hedgeDocs, hlist,
    Value.require_dict hid]
  cases blockDocs.mapM Block.ofDocument with
  | error f => rfl
  | ok blocks =>
    dsimp only
    rw [hedges]
    dsimp only
    split
    · generalize (Flow.mk _ _ _ _ _ _).rebuild = edited
      obtain ⟨rebuilt, fault | u⟩ := edited <;> rfl
    · rfl

/-- From a document that passes the checks, a fault escapes only where its blocks are read. -/
theorem escapes_ofDocument (h : Checked entries blockDocs edgeDocs) (n : Nat) :
    Escapes (ofDocument (.dict entries) n).1 ↔ Escapes (blockDocs.mapM Block.ofDocument) := by
  obtain ⟨id, hid⟩ := h.exists_id
  obtain ⟨edges, n', hedges⟩ := Edge.ofDocuments_ok h.ended n
  rw [ofDocument_apply h hid hedges]
  cases blockDocs.mapM Block.ofDocument with
  | error f => simp
  | ok blocks =>
    dsimp only
    simp only [escapes_ok, iff_false]
    split
    · generalize hf : Flow.mk _ _ _ _ _ _ = f
      have hrebuild := not_escapes_rebuild f
      cases hout : f.rebuild.2 with
      | error g => simpa [hout, Except.map] using hrebuild
      | ok u => exact escapes_ok _
    · exact escapes_ok _

/-- A document is refused with a complaint about its format unless a fault escapes where it is read. -/
theorem ofData_told_iff (doc : Value) (n : Nat) :
    (∀ fault, (ofData doc n).1 = .error fault → fault.IsFormat) ↔
      ¬ (checkData doc = .ok () ∧ Escapes (ofDocument doc n).1) := by
  rw [ofData, Act.bind_apply, Act.ofExcept_apply]
  cases hcheck : checkData doc with
  | error f => simpa using checkData_error hcheck
  | ok u =>
    dsimp only
    rw [Act.tryCatch_apply]
    rcases ofDocument doc n with ⟨f | flow, n'⟩
    · simp [isFormat_asFormat]
    · simp

/-- **A text is read as a flow or refused with a complaint about its format, unless the first block that cannot be read is a
faulty one.** -/
theorem importText_told_iff (source : Value) (n : Nat) :
    (∀ fault, (importText source n).1 = .error fault → fault.IsFormat) ↔
      ¬ ∃ entries before block after, Json.parse source = .ok (.dict entries) ∧ checkData (.dict entries) = .ok () ∧
        Entries.field? entries "blocks" = some (.list (before ++ .dict block :: after)) ∧
        (∀ doc ∈ before, ∃ b, Block.ofDocument doc = .ok b) ∧ Block.Faulty block := by
  rw [importText]
  cases hparse : Json.parse source with
  | error f => simp [isFormat_asFormat, Fault.Told, Json.parse_error hparse]
  | ok doc =>
    dsimp only
    rw [ofData_told_iff, not_iff_not]
    constructor
    · rintro ⟨hcheck, hescapes⟩
      obtain ⟨entries, blockDocs, edgeDocs, rfl, h⟩ := checkData_eq_ok.1 hcheck
      obtain ⟨before, doc, after, rfl, hbefore, hdoc⟩ := escapes_mapM.1 ((escapes_ofDocument h n).1 hescapes)
      have hfields := h.named doc (by simp)
      obtain ⟨block, rfl, -⟩ := hasFields_iff.1 hfields
      exact ⟨entries, before, block, after, rfl, hcheck, h.blocks, hbefore, (Block.escapes_ofDocument hfields).1 hdoc⟩
    · rintro ⟨entries, before, block, after, hdoc, hcheck, hblocks, hbefore, hfaulty⟩
      obtain rfl := Except.ok.inj hdoc
      refine ⟨hcheck, ?_⟩
      obtain ⟨entries', blockDocs, edgeDocs, heq, h⟩ := checkData_eq_ok.1 hcheck
      obtain rfl := Value.dict.inj heq
      obtain rfl : before ++ .dict block :: after = blockDocs := by simpa [hblocks] using h.blocks
      rw [escapes_ofDocument h, escapes_mapM]
      exact ⟨before, .dict block, after, rfl, hbefore, (Block.escapes_ofDocument (h.named _ (by simp))).2 hfaulty⟩

/-- A flow of one block whose connections are a list. -/
def listedConnections : String :=
  "\x7b\"id\": \"f\", \"blocks\": [\x7b\"id\": \"a\", \"type\": \"return\", \"connections\": [1]\x7d], \"edges\": []\x7d"

/-- Connections that are a list are no complaint about the format. -/
theorem importText_untold :
    ∃ fault, (importText (.text listedConnections) 1).1 = .error fault ∧ fault.family = .attribute ∧ ¬ fault.IsFormat :=
  exists_of_failure? (by decide +kernel) (by decide)

end Flow

end BlockFlow
