import BlockFlow.Proofs.Made
import BlockFlow.Proofs.RoundTrip

/-!
Literals in scripts. A message is written as JSON text on one line, and the value of a text variable between quotes. No
text inside can end the literal, or the line that it is on.

* `Json.Unbroken`: characters among which there are no controls, and so no line breaks.
* `Json.compact_reread`: **a value on one line is unbroken, and read as it would be from several lines.**
* `Script.Literal`: an unbroken text that is read as a value.
* `Work.build_literals`: **the literals of a script are read as the values they were written for.**
-/

namespace BlockFlow

namespace Json

/-! ## Texts without controls -/

/-- There are no control characters, and so no line breaks. A separator of lines or paragraphs may stand between quotes,
where it breaks nothing. -/
def Unbroken (cs : List Char) : Prop := ∀ c ∈ cs, 0x20 ≤ c.toNat

instance (cs : List Char) : Decidable (Unbroken cs) := List.decidableBAll (fun c : Char => 0x20 ≤ c.toNat) cs

@[simp] theorem unbroken_nil : Unbroken [] := by simp [Unbroken]

@[simp] theorem unbroken_cons {c : Char} {cs : List Char} : Unbroken (c :: cs) ↔ 0x20 ≤ c.toNat ∧ Unbroken cs :=
  List.forall_mem_cons

@[simp] theorem unbroken_append {cs ds : List Char} : Unbroken (cs ++ ds) ↔ Unbroken cs ∧ Unbroken ds :=
  List.forall_mem_append

theorem unbroken_intercalate {gap : List Char} (hgap : Unbroken gap) {parts : List (List Char)}
    (h : ∀ part ∈ parts, Unbroken part) : Unbroken (gap.intercalate parts) := by
  induction parts with
  | nil => exact unbroken_nil
  | cons part rest ih =>
    obtain ⟨hpart, hrest⟩ := List.forall_mem_cons.1 h
    cases rest with
    | nil => rwa [List.intercalate_singleton]
    | cons next rest =>
      rw [List.intercalate_cons_cons, unbroken_append, unbroken_append]
      exact ⟨⟨hpart, hgap⟩, ih hrest⟩

/-- What stands for a character between quotes is no control. -/
theorem unbroken_escapeChar (c : Char) : Unbroken (escapeChar c) := by
  have hdigits : ∀ n < 0x20, Unbroken (Text.hexDigits 4 n) := by decide
  unfold escapeChar
  split_ifs with hquote hslash hn hr ht hb hf hcontrol
  · decide
  · decide
  · decide
  · decide
  · decide
  · decide
  · decide
  · exact unbroken_cons.2 ⟨by decide, unbroken_cons.2 ⟨by decide, hdigits _ hcontrol⟩⟩
  · exact unbroken_cons.2 ⟨Nat.not_lt.1 hcontrol, unbroken_nil⟩

theorem unbroken_quoteChars (cs : List Char) : Unbroken (quoteChars cs) := by
  have hinner : Unbroken (cs.flatMap escapeChar) := by
    intro d hd
    obtain ⟨c, -, hc⟩ := List.mem_flatMap.1 hd
    exact unbroken_escapeChar c d hc
  simp [quoteChars, hinner]

theorem unbroken_digits {cs : List Char} (h : Number.Digits cs) : Unbroken cs := by
  intro c hc
  have hdigit := h c hc
  simp only [Number.isDigit, Bool.and_eq_true, decide_eq_true_eq, Char.le_def, UInt32.le_iff_toNat_le] at hdigit
  have hzero : ('0' : Char).val.toNat = 48 := rfl
  have hcode : c.toNat = c.val.toNat := rfl
  omega

theorem Numeral.WellFormed.unbroken {n : Numeral} (h : n.WellFormed) : Unbroken n.chars := by
  have hsign : Unbroken (signChars n.negative) := by cases n.negative <;> decide
  have hfraction : Unbroken (fractionChars n.fraction) := by
    unfold fractionChars
    split
    · exact unbroken_nil
    · exact unbroken_cons.2 ⟨by decide, unbroken_digits h.fraction⟩
  have hexponent : Unbroken (exponentChars n.exponent) := by
    cases hn : n.exponent with
    | none => exact unbroken_nil
    | some part =>
      obtain ⟨negative, digits⟩ := part
      have hsign : 0x20 ≤ (if negative then '-' else '+').toNat := by cases negative <;> decide
      exact unbroken_cons.2 ⟨by decide, unbroken_cons.2 ⟨hsign, unbroken_digits (h.exponent _ hn).2⟩⟩
  simp only [Numeral.chars, unbroken_append]
  exact ⟨hsign, unbroken_digits h.whole, hfraction, hexponent⟩

theorem unbroken_real (x : Binary64) : Unbroken (Layout.json.chars x) := by
  cases x with
  | nan mark =>
    have hname : Unbroken "NaN".toList := by decide
    exact hname
  | infinite s => cases s <;> decide
  | finite s m e hnormal =>
    obtain ⟨n, hn, hchars, -⟩ := exists_numeral (s := s) hnormal
    exact hchars ▸ hn.unbroken

theorem unbroken_scalar {v : Value} {text : String} (h : scalar v = .ok text) : Unbroken text.toList := by
  cases v with
  | null =>
    obtain rfl := Except.ok.inj h
    decide
  | bool b =>
    obtain rfl := Except.ok.inj h
    cases b <;> decide
  | int n =>
    obtain rfl := Except.ok.inj h
    rw [intText, String.toList_ofList, ← Numeral.chars_ofInt]
    exact (Numeral.wellFormed_ofInt n).unbroken
  | real x =>
    obtain rfl := Except.ok.inj h
    rw [Layout.write, String.toList_ofList]
    exact unbroken_real x
  | text s =>
    obtain rfl := Except.ok.inj h
    rw [quote, String.toList_ofList]
    exact unbroken_quoteChars _
  | bytes | list | tuple | dict => cases h

/-! ## Values on one line -/

/-- The text is unbroken, and read as the value. -/
structure Compact (v : Value) (text : String) : Prop where
  readable : Readable v text.toList
  unbroken : Unbroken text.toList

/-- The text is unbroken, and read as the entry of an object. -/
structure CompactField (field : String × Value) (text : String) : Prop where
  readable : ReadableField field text.toList
  unbroken : Unbroken text.toList

/-- Parts between brackets, on one line. -/
def bracketed (opening closing : String) (parts : List String) : String := opening ++ ", ".intercalate parts ++ closing

theorem toList_bracketed (opening closing : String) (parts : List String) :
    (bracketed opening closing parts).toList =
      opening.toList ++ (inside [] [' '] [] (parts.map String.toList) ++ closing.toList) := by
  cases parts with
  | nil => simp [bracketed, inside]
  | cons part rest => simp [bracketed, inside, String.toList_intercalate]

theorem unbroken_bracketed {opening closing : String} (hopening : Unbroken opening.toList)
    (hclosing : Unbroken closing.toList) {parts : List String} (h : ∀ part ∈ parts, Unbroken part.toList) :
    Unbroken (bracketed opening closing parts).toList := by
  have hparts : Unbroken (", ".toList.intercalate (parts.map String.toList)) :=
    unbroken_intercalate (by decide) (List.forall_mem_map.2 h)
  rw [bracketed, String.toList_append, String.toList_append, String.toList_intercalate, unbroken_append, unbroken_append]
  exact ⟨⟨hopening, hparts⟩, hclosing⟩

theorem Compact.list {vs : List Value} {texts : List String} (h : List.Forall₂ Compact vs texts) :
    Compact (.list vs) (bracketed "[" "]" texts) := by
  refine ⟨?_, unbroken_bracketed (by decide) (by decide) fun text htext => ?_⟩
  · have hitems : List.Forall₂ Readable vs (texts.map String.toList) :=
      List.forall₂_map_right_iff.2 (h.imp fun _ _ hv => hv.readable)
    rw [toList_bracketed]
    exact readable_list (by simp [Blanks, isSpace]) blanks_nil blanks_nil hitems
  · obtain ⟨v, -, hv⟩ := exists_mem_of_forall₂ h.flip text htext
    exact Compact.unbroken hv

theorem Compact.object {fields : List (String × Value)} {texts : List String} (h : List.Forall₂ CompactField fields texts) :
    Compact (.object (gather fields)) (bracketed "\x7b" "\x7d" texts) := by
  refine ⟨?_, unbroken_bracketed (by decide) (by decide) fun text htext => ?_⟩
  · have hfields : List.Forall₂ ReadableField fields (texts.map String.toList) :=
      List.forall₂_map_right_iff.2 (h.imp fun _ _ hf => hf.readable)
    rw [toList_bracketed]
    exact readable_gather (by simp [Blanks, isSpace]) blanks_nil blanks_nil hfields
  · obtain ⟨field, -, hf⟩ := exists_mem_of_forall₂ h.flip text htext
    exact CompactField.unbroken hf

/-- A value that is not a container is written on one line as it is over several. -/
theorem compact_scalar {v : Value} (h : v.Writable) (hcompact : compact v = scalar v)
    (hindented : indentedAt 0 v = scalar v) : ∃ text, compact v = .ok text ∧ Compact v.reread text := by
  obtain ⟨text, htext, hread⟩ := indentedAt_reread h 0
  rw [hindented] at htext
  exact ⟨text, hcompact.trans htext, hread, unbroken_scalar htext⟩

/-- Elements that can be written one by one can be written together. -/
theorem compactAll_reread {xs : List Value} (h : ∀ x ∈ xs, ∃ text, compact x = .ok text ∧ Compact x.reread text) :
    ∃ texts, compactAll xs = .ok texts ∧ List.Forall₂ Compact (xs.map Value.reread) texts := by
  induction xs with
  | nil => exact ⟨[], rfl, .nil⟩
  | cons x xs ih =>
    obtain ⟨text, htext, hx⟩ := h x List.mem_cons_self
    obtain ⟨texts, htexts, hxs⟩ := ih fun y hy => h y (List.mem_cons_of_mem _ hy)
    refine ⟨text :: texts, ?_, .cons hx hxs⟩
    rw [compactAll, htext, htexts]
    rfl

/-- Entries whose names can be written, likewise. -/
theorem compactEntries_reread {es : List (Value × Value)} (hkeys : ∀ e ∈ es, e.1.IsScalar)
    (h : ∀ e ∈ es, ∃ text, compact e.2 = .ok text ∧ Compact e.2.reread text) :
    ∃ texts, compactEntries es = .ok texts ∧
      List.Forall₂ CompactField (es.map fun e => (e.1.keyName, e.2.reread)) texts := by
  induction es with
  | nil => exact ⟨[], rfl, .nil⟩
  | cons e es ih =>
    obtain ⟨name, hname⟩ := hkeys e List.mem_cons_self
    obtain ⟨text, htext, he⟩ := h e List.mem_cons_self
    obtain ⟨texts, htexts, hes⟩ := ih (fun d hd => hkeys d (List.mem_cons_of_mem _ hd))
      fun d hd => h d (List.mem_cons_of_mem _ hd)
    refine ⟨(quote name ++ ": " ++ text) :: texts, ?_, .cons ⟨⟨[' '], text.toList, ?_, he.readable, ?_⟩, ?_⟩ hes⟩
    · rw [compactEntries, hname, htext, htexts]
      rfl
    · simp [Blanks, isSpace]
    · simp [quote, Value.keyName, hname]
    · have hcolon : Unbroken ": ".toList := by decide
      rw [String.toList_append, String.toList_append, quote, String.toList_ofList, unbroken_append, unbroken_append]
      exact ⟨⟨unbroken_quoteChars _, hcolon⟩, he.unbroken⟩

/-- **A value on one line is unbroken**, and the reader gets its reread form. -/
theorem compact_reread {v : Value} (h : v.Writable) : ∃ text, compact v = .ok text ∧ Compact v.reread text := by
  induction h with
  | null => exact compact_scalar .null rfl rfl
  | bool b => exact compact_scalar (.bool b) rfl rfl
  | int digits => exact compact_scalar (.int digits) rfl rfl
  | real x => exact compact_scalar (.real x) rfl rfl
  | text s => exact compact_scalar (.text s) rfl rfl
  | list _ ih =>
    obtain ⟨texts, htexts, hitems⟩ := compactAll_reread ih
    refine ⟨bracketed "[" "]" texts, by rw [compact, htexts]; rfl, ?_⟩
    rw [Value.reread, Value.rereadAll_eq]
    exact Compact.list hitems
  | tuple _ ih =>
    obtain ⟨texts, htexts, hitems⟩ := compactAll_reread ih
    refine ⟨bracketed "[" "]" texts, by rw [compact, htexts]; rfl, ?_⟩
    rw [Value.reread, Value.rereadAll_eq]
    exact Compact.list hitems
  | dict hkeys _ ih =>
    obtain ⟨texts, htexts, hfields⟩ := compactEntries_reread hkeys ih
    refine ⟨bracketed "\x7b" "\x7d" texts, by rw [compact, htexts]; rfl, ?_⟩
    rw [Value.reread, Value.rereadEntries_eq]
    exact Compact.object hfields

end Json

namespace Script

/-! ## Literals in statements -/

/-- The text is a literal of the value: it is unbroken, and what is read from it is the value. -/
structure Literal (text : String) (v : Value) : Prop where
  unbroken : Json.Unbroken text.toList
  parse : Json.parse (.text text) = .ok v

/-- A JSON value other than `null` is written as a literal of itself. -/
theorem literal_isJson {v : Value} (h : v.IsJson) (hv : v ≠ .null) : Literal (literal v) v := by
  obtain ⟨text, htext, hcompact⟩ := Json.compact_reread h.isRead.writable
  have hliteral : literal v = text := by
    cases v with
    | null => exact absurd rfl hv
    | bool | int | real | text | list | tuple | dict | bytes => simp [literal, htext]
  rw [hliteral]
  exact ⟨hcompact.unbroken, h.isRead.reread_eq ▸ hcompact.readable.read⟩

/-- A text between quotes is a literal of the text. -/
theorem literal_quote (s : String) : Literal (Json.quote s) (.text s) := by
  have hchars : (Json.quote s).toList = Json.quoteChars s.toList := by simp [Json.quote]
  have hreadable : Json.Readable (.text s) (Json.quote s).toList := hchars ▸ Json.readable_text s
  exact ⟨hchars ▸ Json.unbroken_quoteChars _, hreadable.read⟩

namespace Node.MadeFor

variable {node : Node} {b : Block} {text : String}

theorem eq_statement (h : node.MadeFor b) (hc : Plan.isControl b = false) (htext : statement? b = some text) :
    node = .statement text b.id := by
  rw [MadeFor, hc, if_neg (by simp)] at h
  rw [h, Plan.statementNode, htext]

/-- What logs a JSON value has a literal of it. -/
theorem log (h : node.MadeFor b) (htype : typeName b = "console.log") (hjson : (param b "message").IsJson)
    (hnull : param b "message" ≠ .null) :
    ∃ text, node = .statement ("console.log(" ++ text ++ ");") b.id ∧ Literal text (param b "message") := by
  have hc : Plan.isControl b = false := by rw [Plan.isControl, htype]; decide
  exact ⟨_, h.eq_statement hc (by simp [statement?, htype, logStatement]), literal_isJson hjson hnull⟩

/-- A variable that is a text has a literal of it. -/
theorem textVariable (h : node.MadeFor b) (htype : typeName b = "variable") (htext : param b "type" = .text "String") :
    ∃ text, node = .statement ("let " ++ arg b "name" ++ " = " ++ text ++ ";") b.id ∧
      Literal text (.text (inline (param b "value"))) := by
  have hc : Plan.isControl b = false := by rw [Plan.isControl, htype]; decide
  refine ⟨_, h.eq_statement hc ?_, literal_quote _⟩
  simp [statement?, htype, variableStatement, htext, Value.isText, arg]

end Node.MadeFor

end Script

/-! ## Literals in scripts -/

namespace Work

open Script

variable {f : Flow} {w : Workspace} {given : Option Moment} {stamp : String}

/-- **The literals of a script are read as the values they were written for.** All code in the script is that of blocks of
the flow, and if their keys are different, all blocks have code in it. The code of a block that logs a JSON value is that
statement with a literal of the value, and that of a text variable has a literal of the text of its value. -/
theorem build_literals (hids : ∀ v ∈ f.ids, v.HasKey) (hends : f.KeyedEnds) (hstamp : w.scriptStamp given = .ok stamp) :
    ∃ program w', Work.build f given w = (.ok program, w') ∧
      (∀ node ∈ Node.flatAll program.body, node.blockId? ≠ none → ∃ b ∈ f.blocks, node.MadeFor b) ∧
      ((f.ids.map Value.theKey).Nodup → ∀ b ∈ f.blocks, Node.Holds program.body b) ∧
      ∀ node ∈ Node.flatAll program.body, ∀ b, node.MadeFor b →
        (typeName b = "console.log" → (param b "message").IsJson → param b "message" ≠ .null →
          ∃ text, node = .statement ("console.log(" ++ text ++ ");") b.id ∧ Literal text (param b "message")) ∧
        (typeName b = "variable" → param b "type" = .text "String" →
          ∃ text, node = .statement ("let " ++ arg b "name" ++ " = " ++ text ++ ";") b.id ∧
            Literal text (.text (inline (param b "value")))) := by
  obtain ⟨w', hbuild⟩ := build_eq_ok (Flow.ofFlow_eq_plan hids hends) hstamp
  refine ⟨_, w', hbuild, fun node hnode hid => Flow.madeFor_of_mem_body hnode hid,
    fun hkeys b hb => Flow.holds_block hkeys hb, fun node _ b hmade => ?_⟩
  exact ⟨hmade.log, hmade.textVariable⟩

/-- A message that holds quotes, a backslash and a line break, in a name and in a list. -/
def message : Value := .object [("\x22\n", .list [.text "a\x22);\n\\", .int (-3), .null]), ("", .bool true)]

/-- A block that logs the message, and a text variable whose value has a line break. -/
def noted : Flow :=
  { id := .text "flow-1"
    blocks :=
      [{ Block.fresh (.text "a") (.text "console.log") .null with params := .object [("message", message)] },
        { Block.fresh (.text "b") (.text "variable") .null with
          params := .object [("name", .text "x"), ("type", .text "String"), ("value", .text "1;\n2")] }] }

theorem build_literals_noted :
    (∀ v ∈ noted.ids, v.HasKey) ∧ noted.KeyedEnds ∧
      Workspace.scriptStamp { flow := noted } none = .ok "1970-01-01T00:00:00.000Z" ∧
      ∃ program w', Work.build noted none { flow := noted } = (.ok program, w') ∧
        (∃ text, .statement ("console.log(" ++ text ++ ");") (.text "a") ∈ Node.flatAll program.body ∧
          Literal text message) ∧
        ∃ text, .statement ("let x = " ++ text ++ ";") (.text "b") ∈ Node.flatAll program.body ∧
          Literal text (.text "1;\n2") := by
  have hids : ∀ v ∈ noted.ids, v.HasKey := by simp [noted, Flow.ids, Block.fresh, Value.HasKey]
  have hends : noted.KeyedEnds := by simp [noted, Flow.KeyedEnds]
  have hstamp : Workspace.scriptStamp { flow := noted } none = .ok "1970-01-01T00:00:00.000Z" := by rfl
  have hkeys : (noted.ids.map Value.theKey).Nodup := by decide +kernel
  have hjson : message.IsJson := by
    refine .object (by decide) ?_
    simp only [List.forall_mem_cons, List.not_mem_nil, false_implies, implies_true, and_true]
    refine ⟨.list ?_, .bool true⟩
    simp only [List.forall_mem_cons, List.not_mem_nil, false_implies, implies_true, and_true]
    exact ⟨.text _, .int (by decide), .null⟩
  have hnull : message ≠ .null := by simp [message, Value.object]
  obtain ⟨program, w', hbuild, -, hheld, hread⟩ := build_literals hids hends hstamp
  obtain ⟨log, hlog, hmadeLog⟩ := hheld hkeys _ List.mem_cons_self
  obtain ⟨binding, hbinding, hmadeBinding⟩ := hheld hkeys _ (List.mem_cons_of_mem _ List.mem_cons_self)
  obtain ⟨text, rfl, htext⟩ := (hread log hlog _ hmadeLog).1 rfl hjson hnull
  obtain ⟨text', rfl, htext'⟩ := (hread binding hbinding _ hmadeBinding).2 rfl rfl
  exact ⟨hids, hends, hstamp, program, w', hbuild, ⟨text, hlog, htext⟩, text', hbinding, htext'⟩

end Work

end BlockFlow
