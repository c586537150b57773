import BlockFlow.Proofs.Documents
import BlockFlow.Proofs.Reading
import Mathlib.Data.Nat.Digits.Defs

/-!
What becomes of values that are written and read again. The reader gives texts as the only names of entries and one value
that is no number; whatever else is written comes back in that form.

* `Value.IsRead`, `Json.parse_isRead`: **what the reader gives**, for every text.
* `Value.Writable`, `Value.reread`: the values that can be written, and what they are read as.
* `Json.parse_indented_reread`: **what is written of a value is read as its reread form.**
* `Value.IsRead.reread_eq`: what was read once stays as it is.
-/

namespace BlockFlow

/-! ## Values that are read -/

/-- A value as the reader gives it: integers within its limit, one value that is no number, distinct texts as names. -/
inductive Value.IsRead : Value → Prop
  | null : IsRead .null
  | bool (b : Bool) : IsRead (.bool b)
  | int {n : Int} (digits : (Nat.toDigits 10 n.natAbs).length ≤ 4300) : IsRead (.int n)
  | real {x : Binary64} (mark : ∀ m, x = .nan m → m = 0) : IsRead (.real x)
  | text (s : String) : IsRead (.text s)
  | list {xs : List Value} (items : ∀ x ∈ xs, IsRead x) : IsRead (.list xs)
  | object {fields : List (String × Value)} (names : (fields.map (·.1)).Nodup) (values : ∀ f ∈ fields, IsRead f.2) :
    IsRead (.object fields)

namespace Binary64

theorem pack_ne_nan (s : Bool) (m : Nat) (e : Int) (mark : Nat) : pack s m e ≠ .nan mark := by
  unfold pack
  split <;> simp

theorem ofRatio_ne_nan (s : Bool) (num den mark : Nat) : ofRatio s num den ≠ .nan mark := by
  unfold ofRatio
  split
  · simp [zero]
  · dsimp only
    split <;> exact pack_ne_nan _ _ _ _

theorem ofDecimal_ne_nan (s : Bool) (c : Nat) (e : Int) (mark : Nat) : ofDecimal s c e ≠ .nan mark := by
  unfold ofDecimal
  dsimp only
  split_ifs
  · simp [zero]
  · simp
  · simp [zero]
  · exact ofRatio_ne_nan _ _ _ _
  · exact ofRatio_ne_nan _ _ _ _

end Binary64

namespace Number

theorem digit_lt {c : Char} (h : isDigit c = true) : c.toNat - '0'.toNat < 10 := by
  simp only [isDigit, Bool.and_eq_true, decide_eq_true_eq, Char.le_def, UInt32.le_iff_toNat_le] at h
  have hc : c.toNat ≤ 57 := h.2
  have hzero : '0'.toNat = 48 := rfl
  omega

theorem foldl_digits_lt {cs : List Char} (h : Digits cs) (n : Nat) :
    cs.foldl (fun n c => 10 * n + (c.toNat - '0'.toNat)) n < (n + 1) * 10 ^ cs.length := by
  induction cs generalizing n with
  | nil => simp
  | cons c cs ih =>
    have hc := digit_lt (h c List.mem_cons_self)
    have hcs : Digits cs := fun d hd => h d (List.mem_cons_of_mem _ hd)
    rw [List.foldl_cons, List.length_cons, pow_succ', ← mul_assoc]
    refine (ih hcs _).trans_le (Nat.mul_le_mul_right _ ?_)
    omega

/-- A number has no more digits than it is written with. -/
theorem length_toDigits_digitsValue {cs : List Char} (h : Digits cs) (hne : cs ≠ []) :
    (Nat.toDigits 10 (digitsValue cs)).length ≤ cs.length := by
  have hlt := foldl_digits_lt h 0
  rw [zero_add, one_mul] at hlt
  exact Nat.toDigits_length 10 _ _ (List.length_pos_iff.2 hne) hlt

theorem natAbs_signedValue (negative : Bool) (digits : List Char) :
    (signedValue negative digits).natAbs = digitsValue digits := by
  cases negative <;> simp [signedValue]

end Number

namespace Json

theorem isRead_of_scanName {cs : List Char} {v : Value} {width : Nat} {tail : List Char}
    (h : scanName cs = some (v, width, tail)) : v.IsRead := by
  obtain ⟨n, hn, heq⟩ := Option.map_eq_some_iff.1 h
  obtain ⟨rfl, -⟩ := Prod.mk.inj heq
  have hmem := List.mem_of_find?_eq_some hn
  simp only [names, List.mem_cons, List.not_mem_nil, or_false] at hmem
  rcases hmem with rfl | rfl | rfl | rfl | rfl | rfl
  · exact .null
  · exact .bool true
  · exact .bool false
  · exact .real fun m hm => by cases hm; rfl
  · exact .real fun m hm => by cases hm
  · exact .real fun m hm => by cases hm

theorem digits_takeWhile (cs : List Char) : Number.Digits (cs.takeWhile Number.isDigit) :=
  List.all_eq_true.1 List.all_takeWhile

/-- The whole digits of a number are digits, and there is one at least. -/
theorem whole_of_scanNumber {cs : List Char} {n : Numeral} {width : Nat} {tail : List Char}
    (h : scanNumber cs = some (n, width, tail)) : Number.Digits n.whole ∧ n.whole ≠ [] := by
  unfold scanNumber at h
  dsimp only at h
  generalize hw : (if ((splitMinus cs).2.takeWhile Number.isDigit).head? = some '0' then _ else _ : List Char) = whole at h
  have hdigits : Number.Digits whole := by
    rw [← hw]
    split
    · exact fun c hc => digits_takeWhile _ c (List.mem_of_mem_take hc)
    · exact digits_takeWhile _
  split at h
  · cases h
  · rename_i hne
    cases h
    exact ⟨hdigits, by simpa using hne⟩

theorem isRead_of_numeral {n : Numeral} {v : Value} (hwhole : Number.Digits n.whole) (hne : n.whole ≠ [])
    (h : n.value = .ok v) : v.IsRead := by
  unfold Numeral.value at h
  split at h
  · split at h
    · cases h
    · cases h
      refine .int ?_
      rw [Number.natAbs_signedValue]
      have hlength := Number.length_toDigits_digitsValue hwhole hne
      omega
  · cases h
    exact .real fun m hm => absurd hm (Binary64.ofDecimal_ne_nan _ _ _ _)

theorem names_putField (fields : List (String × Value)) (f : String × Value) :
    (putField fields f).map (·.1) =
      if f.1 ∈ fields.map (·.1) then fields.map (·.1) else fields.map (·.1) ++ [f.1] := by
  unfold putField
  split
  · rw [List.map_map]
    refine List.map_congr_left fun g _ => ?_
    by_cases hname : g.1 = f.1 <;> simp [hname]
  · simp

theorem nodup_putField {fields : List (String × Value)} (h : (fields.map (·.1)).Nodup) (f : String × Value) :
    ((putField fields f).map (·.1)).Nodup := by
  rw [names_putField]
  split
  · exact h
  · rename_i hnew
    refine List.nodup_append.2 ⟨h, by simp, fun a ha b hb hab => hnew ?_⟩
    rwa [← List.mem_singleton.1 hb, ← hab]

theorem mem_putField {fields : List (String × Value)} {f g : String × Value} (h : g ∈ putField fields f) :
    g = f ∨ g ∈ fields := by
  unfold putField at h
  split at h
  · obtain ⟨x, hx, rfl⟩ := List.mem_map.1 h
    split
    · exact Or.inl rfl
    · exact Or.inr hx
  · rcases List.mem_append.1 h with h | h
    · exact Or.inr h
    · exact Or.inl (List.mem_singleton.1 h)

/-- The entries of an object that is read. -/
theorem isRead_dict {es : List (Value × Value)} :
    (Value.dict es).IsRead ↔ ∃ fields : List (String × Value), es = fields.map (fun f => (.text f.1, f.2)) ∧
      (fields.map (·.1)).Nodup ∧ ∀ f ∈ fields, f.2.IsRead := by
  constructor
  · intro h
    generalize hv : Value.dict es = v at h
    cases h with
    | object names values => exact ⟨_, Value.dict.inj hv, names, values⟩
    | _ => cases hv
  · rintro ⟨fields, rfl, hnames, hvalues⟩
    exact .object hnames hvalues

theorem isRead_insert {es : List (Value × Value)} (h : (Value.dict es).IsRead) {v : Value} (hv : v.IsRead) (k : String) :
    (Value.dict (Entries.insert es (.text k) v)).IsRead := by
  obtain ⟨fields, rfl, hnames, hvalues⟩ := isRead_dict.1 h
  rw [insert_object fields (k, v)]
  refine .object (nodup_putField hnames _) fun g hg => ?_
  rcases mem_putField hg with rfl | hg
  · exact hv
  · exact hvalues g hg

/-! ### Steps of the reader -/

/-- What is open holds values that are read. -/
def Frame.IsRead : Frame → Prop
  | .array items => (Value.list items).IsRead
  | .object entries _ => (Value.dict entries).IsRead

/-- What was read before the next lexeme. -/
def Expect.IsRead : Expect → Prop
  | .key entries => (Value.dict entries).IsRead
  | .colon entries _ => (Value.dict entries).IsRead
  | .separator v => v.IsRead
  | _ => True

structure State.IsRead (s : State) : Prop where
  frames : ∀ f ∈ s.frames, f.IsRead
  expect : s.expect.IsRead

theorem isRead_append {items : List Value} (h : (Value.list items).IsRead) {v : Value} (hv : v.IsRead) :
    (Value.list (items ++ [v])).IsRead := by
  cases h with
  | list hitems =>
    refine .list fun x hx => ?_
    rcases List.mem_append.1 hx with hx | hx
    · exact hitems x hx
    · exact List.mem_singleton.1 hx ▸ hv

theorem isRead_empty : (Value.dict []).IsRead := isRead_dict.2 ⟨[], rfl, by simp, by simp⟩

variable {lone : Char} {frames : List Frame} {position : Nat} {cs : List Char} {p : Progress}

theorem openValue_isRead (hframes : ∀ f ∈ frames, f.IsRead) (h : openValue lone frames position cs = .ok p) :
    p.state.IsRead := by
  unfold openValue at h
  split at h
  · cases h
  split_ifs at h
  · split at h
    · cases h
    · cases h
      exact ⟨hframes, .text _⟩
  · cases h
    exact ⟨List.forall_mem_cons.2 ⟨.list (by simp), hframes⟩, trivial⟩
  · cases h
    exact ⟨hframes, trivial⟩
  · split at h
    · rename_i hname
      cases h
      exact ⟨hframes, isRead_of_scanName hname⟩
    · split at h
      · cases h
      · rename_i hnumber
        split at h
        · cases h
        · rename_i hvalue
          cases h
          obtain ⟨hdigits, hne⟩ := whole_of_scanNumber hnumber
          exact ⟨hframes, isRead_of_numeral hdigits hne hvalue⟩

theorem openKey_isRead (hframes : ∀ f ∈ frames, f.IsRead) {entries : List (Value × Value)}
    (hentries : (Value.dict entries).IsRead) (h : openKey lone frames entries position cs = .ok p) : p.state.IsRead := by
  unfold openKey at h
  split at h
  · split_ifs at h
    · split at h
      · cases h
      · cases h
        exact ⟨hframes, hentries⟩
  · cases h

theorem afterValue_isRead (hframes : ∀ f ∈ frames, f.IsRead) {v : Value} (hv : v.IsRead)
    (h : afterValue frames v position cs = .ok p) : p.state.IsRead := by
  unfold afterValue at h
  split at h
  · cases h
  · obtain ⟨hitems, houter⟩ := List.forall_mem_cons.1 hframes
    have hmore := isRead_append hitems hv
    split at h
    · cases h
      exact ⟨houter, hmore⟩
    · cases h
      exact ⟨List.forall_mem_cons.2 ⟨hmore, houter⟩, trivial⟩
    · cases h
  · rename_i entries key outer
    obtain ⟨hentries, houter⟩ := List.forall_mem_cons.1 hframes
    have hmore := isRead_insert hentries hv key
    dsimp only at h
    split at h
    · cases h
      exact ⟨houter, hmore⟩
    · cases h
      exact ⟨houter, hmore⟩
    · cases h

/-- One lexeme. -/
theorem advance_isRead {s : State} (hs : s.IsRead) (h : advance lone s position cs = .ok p) : p.state.IsRead := by
  obtain ⟨frames, expect⟩ := s
  obtain ⟨hframes, hexpect⟩ := hs
  unfold advance at h
  split at h
  · exact openValue_isRead hframes h
  · split at h
    · rename_i hcons
      cases h
      have hcons : frames = _ := hcons
      rw [hcons] at hframes
      obtain ⟨hitems, houter⟩ := List.forall_mem_cons.1 hframes
      exact ⟨houter, hitems⟩
    · exact openValue_isRead hframes h
  · split at h
    · cases h
      exact ⟨hframes, isRead_empty⟩
    · exact openKey_isRead hframes isRead_empty h
  · rename_i entries heq
    have heq : expect = _ := heq
    rw [heq] at hexpect
    exact openKey_isRead hframes hexpect h
  · rename_i entries key heq
    have heq : expect = _ := heq
    rw [heq] at hexpect
    split at h
    · cases h
      exact ⟨List.forall_mem_cons.2 ⟨hexpect, hframes⟩, trivial⟩
    · cases h
  · rename_i v heq
    have heq : expect = _ := heq
    rw [heq] at hexpect
    exact afterValue_isRead hframes hexpect h

/-- All lexemes. -/
theorem run_isRead {s : State} {v : Value} (hs : s.IsRead) (h : run lone s position cs = .ok v) : v.IsRead := by
  fun_induction run lone s position cs with
  | case1 _ _ _ _ v' hframes hexpect =>
    cases h
    have hread := hs.expect
    rwa [hexpect] at hread
  | case2 => cases h
  | case3 _ _ _ _ _ _ hp _ _ ih => exact ih (advance_isRead hs hp) h
  | case4 => cases h

theorem readChars_isRead {v : Value} (h : readChars lone cs = .ok v) : v.IsRead := by
  unfold readChars at h
  split at h
  · rename_i hrun
    cases h
    exact run_isRead (s := start) ⟨by simp [start], trivial⟩ hrun
  · cases h
  · cases h

/-- **What the reader gives.** -/
theorem parse_isRead {source v : Value} (h : parse source = .ok v) : v.IsRead := by
  unfold parse at h
  split at h
  · unfold read at h
    dsimp only at h
    split at h
    · cases h
    · exact readChars_isRead h
  · split at h
    · exact readChars_isRead h
    · cases h
  · cases h

end Json

/-! ## Values written and read again -/

/-- The value can be written as the name of an entry. -/
def Value.IsScalar (v : Value) : Prop := ∃ s, Json.keyText v = .ok s

/-- The value can be written, and what is written can be read. -/
inductive Value.Writable : Value → Prop
  | null : Writable .null
  | bool (b : Bool) : Writable (.bool b)
  | int {n : Int} (digits : (Nat.toDigits 10 n.natAbs).length ≤ 4300) : Writable (.int n)
  | real (x : Binary64) : Writable (.real x)
  | text (s : String) : Writable (.text s)
  | list {xs : List Value} (items : ∀ x ∈ xs, Writable x) : Writable (.list xs)
  | tuple {xs : List Value} (items : ∀ x ∈ xs, Writable x) : Writable (.tuple xs)
  | dict {es : List (Value × Value)} (keys : ∀ e ∈ es, e.1.IsScalar) (values : ∀ e ∈ es, Writable e.2) :
    Writable (.dict es)

/-- Of what is no number, the reader gives one. -/
def Binary64.reread : Binary64 → Binary64
  | .nan _ => .nan 0
  | x => x

namespace Value

/-- The name under which an entry is written. -/
def keyName (k : Value) : String :=
  match Json.keyText k with
  | .ok s => s
  | .error _ => ""

mutual

/-- What a value is read as after it was written: tuples are lists, and all names are texts, the last of each counting. -/
def reread : Value → Value
  | .real x => .real x.reread
  | .list xs => .list (rereadAll xs)
  | .tuple xs => .list (rereadAll xs)
  | .dict es => .object (Json.gather (rereadEntries es))
  | v => v

def rereadAll : List Value → List Value
  | [] => []
  | v :: rest => v.reread :: rereadAll rest

def rereadEntries : List (Value × Value) → List (String × Value)
  | [] => []
  | (k, v) :: rest => (k.keyName, v.reread) :: rereadEntries rest

end

theorem rereadAll_eq (xs : List Value) : rereadAll xs = xs.map reread := by
  induction xs with
  | nil => rfl
  | cons x xs ih => rw [rereadAll, ih, List.map_cons]

theorem rereadEntries_eq (es : List (Value × Value)) : rereadEntries es = es.map fun e => (e.1.keyName, e.2.reread) := by
  induction es with
  | nil => rfl
  | cons e es ih => rw [rereadEntries, ih, List.map_cons]

@[simp] theorem keyName_text (s : String) : (Value.text s).keyName = s := rfl

/-- An object is read as an object of the same names. -/
theorem reread_object {fields : List (String × Value)} (h : (fields.map (·.1)).Nodup) :
    (Value.object fields).reread = .object (fields.map fun f => (f.1, f.2.reread)) := by
  have hnames : ((fields.map fun f => (f.1, f.2.reread)).map (·.1)).Nodup := by simpa [Function.comp_def] using h
  rw [Value.object, reread, rereadEntries_eq, List.map_map, ← Json.gather_of_nodup hnames]
  rfl

theorem IsRead.writable {v : Value} (h : v.IsRead) : v.Writable := by
  induction h with
  | null => exact .null
  | bool b => exact .bool b
  | int digits => exact .int digits
  | real => exact .real _
  | text s => exact .text s
  | list _ ih => exact .list ih
  | object _ _ ih =>
    refine .dict ?_ ?_
    · exact List.forall_mem_map.2 fun f _ => ⟨f.1, rfl⟩
    · exact List.forall_mem_map.2 ih

/-- **What was read once stays as it is.** -/
theorem IsRead.reread_eq {v : Value} (h : v.IsRead) : v.reread = v := by
  induction h with
  | @real x mark =>
    cases x with
    | nan m => rw [reread, Binary64.reread, mark m rfl]
    | infinite | finite => rfl
  | list _ ih => rw [reread, rereadAll_eq, List.map_congr_left ih, List.map_id']
  | @object fields names _ ih =>
    rw [reread_object names]
    have hfields : fields.map (fun f => (f.1, f.2.reread)) = fields := by
      conv_rhs => rw [← List.map_id fields]
      exact List.map_congr_left fun f hf => Prod.ext rfl (ih f hf)
    rw [hfields]
  | null | bool | int | text => rfl

end Value

namespace Json

theorem toList_breakAt (level : Nat) : (breakAt level).toList = '\n' :: List.replicate (2 * level) ' ' := by
  simp [breakAt]

theorem blanks_breakAt (level : Nat) : Blanks (breakAt level).toList := by
  intro c hc
  rw [toList_breakAt, List.mem_cons, List.mem_replicate] at hc
  rcases hc with rfl | ⟨-, rfl⟩ <;> rfl

theorem toList_block (opening closing : String) (level : Nat) (items : List String) :
    (block opening closing level items).toList = opening.toList ++
      (inside (breakAt (level + 1)).toList (breakAt (level + 1)).toList (breakAt level).toList (items.map String.toList) ++
        closing.toList) := by
  rw [block, inside, List.isEmpty_map]
  split
  · simp
  · simp [String.toList_intercalate]

/-- Elements that can be written one by one can be written together. -/
theorem indentedAll_reread {level : Nat} {xs : List Value}
    (h : ∀ x ∈ xs, ∃ text, indentedAt level x = .ok text ∧ Readable x.reread text.toList) :
    ∃ texts, indentedAll level xs = .ok texts ∧ List.Forall₂ Readable (xs.map Value.reread) (texts.map String.toList) := by
  induction xs with
  | nil => exact ⟨[], rfl, .nil⟩
  | cons x xs ih =>
    obtain ⟨text, htext, hx⟩ := h x List.mem_cons_self
    obtain ⟨texts, htexts, hxs⟩ := ih fun y hy => h y (List.mem_cons_of_mem _ hy)
    refine ⟨text :: texts, ?_, .cons hx hxs⟩
    rw [indentedAll, htext, htexts]
    rfl

/-- Entries whose names can be written, likewise. -/
theorem indentedEntries_reread {level : Nat} {es : List (Value × Value)} (hkeys : ∀ e ∈ es, e.1.IsScalar)
    (h : ∀ e ∈ es, ∃ text, indentedAt level e.2 = .ok text ∧ Readable e.2.reread text.toList) :
    ∃ texts, indentedEntries level es = .ok texts ∧
      List.Forall₂ ReadableField (es.map fun e => (e.1.keyName, e.2.reread)) (texts.map String.toList) := by
  induction es with
  | nil => exact ⟨[], rfl, .nil⟩
  | cons e es ih =>
    obtain ⟨name, hname⟩ := hkeys e List.mem_cons_self
    obtain ⟨text, htext, he⟩ := h e List.mem_cons_self
    obtain ⟨texts, htexts, hes⟩ := ih (fun d hd => hkeys d (List.mem_cons_of_mem _ hd))
      fun d hd => h d (List.mem_cons_of_mem _ hd)
    refine ⟨(quote name ++ ": " ++ text) :: texts, ?_, .cons ⟨[' '], text.toList, ?_, he, ?_⟩ hes⟩
    · rw [indentedEntries, hname, htext, htexts]
      rfl
    · simp [Blanks, isSpace]
    · simp [quote, Value.keyName, hname]

/-- **A value can be written at every level, and the reader gets its reread form.** -/
theorem indentedAt_reread {v : Value} (h : v.Writable) (level : Nat) :
    ∃ text, indentedAt level v = .ok text ∧ Readable v.reread text.toList := by
  have hblanks := blanks_breakAt
  induction h generalizing level with
  | null => exact ⟨"null", rfl, readable_name (by simp [names, Value.reread])⟩
  | bool b =>
    refine ⟨_, rfl, readable_name ?_⟩
    cases b <;> simp [names, Value.reread]
  | int digits => exact ⟨_, rfl, by simpa [intText, Value.reread] using readable_int digits⟩
  | real x =>
    refine ⟨_, rfl, ?_⟩
    have hchars : (Layout.json.write x).toList = Layout.json.chars x.reread := by
      rw [Layout.write, String.toList_ofList]
      cases x <;> rfl
    rw [hchars]
    refine readable_real fun mark hx => ?_
    cases x <;> cases hx
    rfl
  | text s => exact ⟨_, rfl, by simpa [quote, Value.reread] using readable_text s⟩
  | list _ ih =>
    obtain ⟨texts, htexts, hitems⟩ := indentedAll_reread fun x hx => ih x hx (level + 1)
    refine ⟨block "[" "]" level texts, by rw [indentedAt, htexts]; rfl, ?_⟩
    rw [toList_block, Value.reread, Value.rereadAll_eq]
    exact readable_list (hblanks _) (hblanks _) (hblanks _) hitems
  | tuple _ ih =>
    obtain ⟨texts, htexts, hitems⟩ := indentedAll_reread fun x hx => ih x hx (level + 1)
    refine ⟨block "[" "]" level texts, by rw [indentedAt, htexts]; rfl, ?_⟩
    rw [toList_block, Value.reread, Value.rereadAll_eq]
    exact readable_list (hblanks _) (hblanks _) (hblanks _) hitems
  | dict hkeys _ ih =>
    obtain ⟨texts, htexts, hfields⟩ := indentedEntries_reread hkeys fun e he => ih e he (level + 1)
    refine ⟨block "\x7b" "\x7d" level texts, by rw [indentedAt, htexts]; rfl, ?_⟩
    rw [toList_block, Value.reread, Value.rereadEntries_eq]
    exact readable_gather (hblanks _) (hblanks _) (hblanks _) hfields

/-- **What is written of a value is read as its reread form.** -/
theorem parse_indented_reread {v : Value} (h : v.Writable) :
    ∃ text, indented v = .ok text ∧ parse (.text text) = .ok v.reread := by
  obtain ⟨text, htext, hv⟩ := indentedAt_reread h 0
  exact ⟨text, htext, hv.read⟩

end Json

end BlockFlow
