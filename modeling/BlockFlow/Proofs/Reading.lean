import BlockFlow.Json.Writer
import BlockFlow.Proofs.Identifier
import BlockFlow.Proofs.Numerals
import Mathlib.Tactic.IntervalCases

/-!
How the reader goes over written values. It works on a stack of open containers, so what a written value does to it is said
for every stack and every text that may follow: the reader comes to the end of the value and holds it.

* `Json.Reads`: the reader goes from one state and text to another.
* `Json.scanString_quoted`: a text between quotes is read back.
* `Json.Readable`: the characters write the value, whatever stands around them.
* `Json.readable_text`, `Json.readable_int`, `Json.readable_real`: values that are not containers.
* `Json.readable_list`, `Json.readable_gather`: **containers of readable values, with any blanks in between.**
* `Json.Readable.read`: a readable text is read as its value.
-/

namespace BlockFlow.Json

open Numeral (signChars fractionChars exponentChars)

variable {lone : Char}

/-! ## Steps of the reader -/

/-- The reader goes from one state and text to another, whatever it takes for surrogates that stand alone. -/
def Reads (s : State) (cs : List Char) (s' : State) (rest : List Char) : Prop :=
  ∀ lone position, ∃ position', run lone s position cs = run lone s' position' rest

/-- Blanks between lexemes. -/
def Blanks (cs : List Char) : Prop := ∀ c ∈ cs, isSpace c = true

theorem blanks_nil : Blanks [] := by simp [Blanks]

theorem takeWhile_blanks {blanks cs : List Char} {c : Char} (hblanks : Blanks blanks) (hc : isSpace c = false) :
    (blanks ++ c :: cs).takeWhile isSpace = blanks := by
  rw [List.takeWhile_append_of_pos hblanks]
  simp [hc]

theorem dropWhile_blanks {blanks cs : List Char} {c : Char} (hblanks : Blanks blanks) (hc : isSpace c = false) :
    (blanks ++ c :: cs).dropWhile isSpace = c :: cs := by
  rw [List.dropWhile_append_of_pos hblanks]
  simp [hc]

/-- One round of the reader at the next character that is not blank. -/
theorem run_cons {s : State} {blanks cs : List Char} {c : Char} (hblanks : Blanks blanks) (hc : isSpace c = false)
    (position : Nat) : run lone s position (blanks ++ c :: cs) =
      match advance lone s (position + blanks.length) (c :: cs) with
      | .error f => .error f
      | .ok p =>
        if p.rest.length < (blanks ++ c :: cs).length then run lone p.state (position + blanks.length + p.width) p.rest
        else .error (.text ⟨.value, position + blanks.length⟩) := by
  rw [run]
  simp only [takeWhile_blanks hblanks hc, dropWhile_blanks hblanks hc]
  split
  · contradiction
  · rfl

namespace Reads

variable {s s' s'' : State} {cs rest rest' blanks : List Char} {c : Char}

theorem trans (h : Reads s cs s' rest) (h' : Reads s' rest s'' rest') : Reads s cs s'' rest' := by
  intro lone position
  obtain ⟨middle, hm⟩ := h lone position
  obtain ⟨last, hl⟩ := h' lone middle
  exact ⟨last, hm.trans hl⟩

/-- The reader passes over blanks and one lexeme. -/
theorem step (hblanks : Blanks blanks) (hc : isSpace c = false)
    (h : ∀ lone position, ∃ width, advance lone s position (c :: cs) = .ok ⟨s', width, rest⟩)
    (hlt : rest.length ≤ cs.length) : Reads s (blanks ++ c :: cs) s' rest := by
  intro lone position
  obtain ⟨width, hw⟩ := h lone (position + blanks.length)
  refine ⟨position + blanks.length + width, ?_⟩
  rw [run_cons hblanks hc, hw]
  simp only
  rw [if_pos]
  simp only [List.length_append, List.length_cons]
  omega

end Reads

/-- Where an array may be closed, a value that starts otherwise is read as everywhere. -/
theorem run_valueOrClose {frames : List Frame} {blanks cs : List Char} {c : Char} (hblanks : Blanks blanks)
    (hc : isSpace c = false) (hclose : c ≠ ']') (position : Nat) :
    run lone ⟨frames, .valueOrClose⟩ position (blanks ++ c :: cs) =
      run lone ⟨frames, .value⟩ position (blanks ++ c :: cs) := by
  have hadvance : advance lone ⟨frames, .valueOrClose⟩ (position + blanks.length) (c :: cs) =
      advance lone ⟨frames, .value⟩ (position + blanks.length) (c :: cs) := by
    unfold advance
    dsimp only
    split
    · rename_i h
      exact absurd (List.cons.inj h).1 hclose
    · rfl
  rw [run_cons hblanks hc, run_cons hblanks hc, hadvance]

/-! ## Texts between quotes -/

theorem scanString_close (offset : Nat) (done rest : List Char) :
    scanString lone offset done ('\x22' :: rest) = .ok (done.reverse, offset + 1, rest) := by
  rw [scanString.eq_def]
  exact if_pos rfl

theorem scanString_plain {c : Char} (hquote : c ≠ '\x22') (hslash : c ≠ '\\') (hcontrol : ¬ c.toNat < 0x20) (offset : Nat)
    (done rest : List Char) : scanString lone offset done (c :: rest) = scanString lone (offset + 1) (c :: done) rest := by
  rw [scanString.eq_def]
  dsimp only
  rw [if_neg hquote, if_neg hcontrol, if_pos hslash]

theorem scanString_short {e x : Char} (h : shortEscape? e = some x) (offset : Nat) (done rest : List Char) :
    scanString lone offset done ('\\' :: e :: rest) = scanString lone (offset + 2) (x :: done) rest := by
  have hu : e ≠ 'u' := by
    rintro rfl
    revert h
    simp [shortEscape?]
  rw [scanString.eq_def]
  dsimp only
  rw [if_neg (by decide), if_neg (by decide), if_neg (by decide), if_neg hu, h]

theorem scanString_unit {a b c d : Char} {unit : Nat} (h : hexUnit? a b c d = some unit) (hunit : isHighUnit unit = false)
    (offset : Nat) (done : List Char) {tail : List Char} (htail : tail ≠ []) :
    scanString lone offset done ('\\' :: 'u' :: a :: b :: c :: d :: tail) =
      scanString lone (offset + 6) (unitChar lone unit :: done) tail := by
  have hempty : ¬ tail.isEmpty = true := by simpa using htail
  rw [scanString.eq_def]
  dsimp only
  rw [if_neg (by decide), if_neg (by decide), if_neg (by decide), if_pos rfl, if_neg hempty, h]
  dsimp only
  split
  · rw [hunit]
    rfl
  · rfl

theorem hexUnit?_hexDigits : ∀ n < 0x20, ∃ a b c d, Text.hexDigits 4 n = [a, b, c, d] ∧ hexUnit? a b c d = some n := by
  intro n hn
  interval_cases n <;> exact ⟨_, _, _, _, rfl, rfl⟩

/-- One character between quotes is read back. -/
theorem scanString_escapeChar (c : Char) (offset : Nat) (done : List Char) {tail : List Char} (htail : tail ≠ []) :
    ∃ offset', scanString lone offset done (escapeChar c ++ tail) = scanString lone offset' (c :: done) tail := by
  have hcode {n : Nat} (h : c.toNat = n) : Char.ofNat n = c := by rw [← h, Char.ofNat_toNat]
  unfold escapeChar
  split_ifs with hquote hslash hn hr ht hb hf hcontrol
  · exact ⟨_, scanString_short (by simp [hquote, shortEscape?]) offset done tail⟩
  · exact ⟨_, scanString_short (by simp [hslash, shortEscape?]) offset done tail⟩
  · exact ⟨_, scanString_short (by simp [hn, shortEscape?]) offset done tail⟩
  · exact ⟨_, scanString_short (by simp [hr, shortEscape?]) offset done tail⟩
  · exact ⟨_, scanString_short (by simp [ht, shortEscape?]) offset done tail⟩
  · exact ⟨_, scanString_short (by simp [← hcode hb, shortEscape?]) offset done tail⟩
  · exact ⟨_, scanString_short (by simp [← hcode hf, shortEscape?]) offset done tail⟩
  · obtain ⟨w, x, y, z, hdigits, hunit⟩ := hexUnit?_hexDigits c.toNat hcontrol
    have hhigh : isHighUnit c.toNat = false := by
      simp only [isHighUnit, Bool.and_eq_false_imp, decide_eq_true_eq, decide_eq_false_iff_not]
      omega
    have hlow : isLowUnit c.toNat = false := by
      simp only [isLowUnit, Bool.and_eq_false_imp, decide_eq_true_eq, decide_eq_false_iff_not]
      omega
    have hchar : unitChar lone c.toNat = c := by simp [unitChar, hhigh, hlow, Char.ofNat_toNat]
    have hscan : scanString lone offset done ('\\' :: 'u' :: w :: x :: y :: z :: tail) = _ :=
      scanString_unit hunit hhigh offset done htail
    rw [hchar] at hscan
    rw [hdigits]
    exact ⟨offset + 6, hscan⟩
  · exact ⟨offset + 1, scanString_plain hquote hslash hcontrol offset done tail⟩

/-- **A text between quotes is read back.** -/
theorem scanString_quoted (cs : List Char) (offset : Nat) (done rest : List Char) :
    ∃ width, scanString lone offset done (cs.flatMap escapeChar ++ '\x22' :: rest) =
      .ok (done.reverse ++ cs, width, rest) := by
  induction cs generalizing offset done with
  | nil =>
    refine ⟨offset + 1, ?_⟩
    rw [List.flatMap_nil, List.nil_append, scanString_close, List.append_nil]
  | cons c cs ih =>
    have htail : cs.flatMap escapeChar ++ '\x22' :: rest ≠ [] := by simp
    obtain ⟨offset', hc⟩ := scanString_escapeChar c offset done htail
    obtain ⟨width, hcs⟩ := ih offset' (c :: done)
    refine ⟨width, ?_⟩
    rw [List.flatMap_cons, List.append_assoc, hc, hcs]
    simp

/-! ## Readable values -/

/-- A character that a value may begin with: it is not passed over, and closes nothing. -/
abbrev Begins (c : Char) : Prop := isSpace c = false ∧ c ≠ ']' ∧ c.toNat ≠ 0xfeff

/-- The characters write the value: with any blanks in front, and whatever stands around them. -/
structure Readable (v : Value) (cs : List Char) : Prop where
  start : ∃ c more, cs = c :: more ∧ Begins c
  reads : ∀ {blanks : List Char} (frames : List Frame) {rest : List Char}, Blanks blanks → Ends rest →
    Reads ⟨frames, .value⟩ (blanks ++ (cs ++ rest)) ⟨frames, .separator v⟩ rest

/-- A value that is one lexeme. -/
theorem readable_of_open {v : Value} {c : Char} {more : List Char} (hc : Begins c)
    (h : ∀ (lone : Char) (frames : List Frame) (position : Nat) (rest : List Char), Ends rest →
      ∃ width, openValue lone frames position (c :: (more ++ rest)) = .ok ⟨⟨frames, .separator v⟩, width, rest⟩) :
    Readable v (c :: more) := by
  refine ⟨⟨c, more, rfl, hc⟩, fun frames rest hblanks hrest => ?_⟩
  exact Reads.step hblanks hc.1 (fun lone position => h lone frames position rest hrest) (by simp)

theorem readable_text (s : String) : Readable (.text s) (quoteChars s.toList) := by
  have hcons : quoteChars s.toList = '\x22' :: (s.toList.flatMap escapeChar ++ ['\x22']) := by simp [quoteChars]
  rw [hcons]
  refine readable_of_open (by decide) fun lone frames position rest _ => ?_
  obtain ⟨width, hscan⟩ := scanString_quoted s.toList 1 [] rest
  refine ⟨width, ?_⟩
  rw [List.append_assoc, List.singleton_append, openValue, if_pos rfl, hscan]
  simp

theorem scanName_names {cs : List Char} {v : Value} (h : (cs, v) ∈ names) (rest : List Char) :
    scanName (cs ++ rest) = some (v, cs.length, rest) := by
  simp only [names, List.mem_cons, Prod.mk.injEq, List.not_mem_nil, or_false] at h
  rcases h with ⟨rfl, rfl⟩ | ⟨rfl, rfl⟩ | ⟨rfl, rfl⟩ | ⟨rfl, rfl⟩ | ⟨rfl, rfl⟩ | ⟨rfl, rfl⟩ <;> rfl

/-- The names of values. -/
theorem readable_name {v : Value} {cs : List Char} (h : (cs, v) ∈ names) : Readable v cs := by
  have hscan := scanName_names h
  obtain ⟨c, more, rfl, hc, hquote, hopen, hbrace⟩ : ∃ c more, cs = c :: more ∧ Begins c ∧ c ≠ '\x22' ∧ c ≠ '[' ∧
      c ≠ '\x7b' := by
    simp only [names, List.mem_cons, Prod.mk.injEq, List.not_mem_nil, or_false] at h
    rcases h with ⟨rfl, -⟩ | ⟨rfl, -⟩ | ⟨rfl, -⟩ | ⟨rfl, -⟩ | ⟨rfl, -⟩ | ⟨rfl, -⟩ <;>
      exact ⟨_, _, rfl, by decide, by decide, by decide, by decide⟩
  refine readable_of_open hc fun _ frames position rest _ => ⟨more.length + 1, ?_⟩
  have hname := hscan rest
  rw [List.cons_append] at hname
  rw [openValue, if_neg hquote, if_neg hopen, if_neg hbrace, hname]
  rfl

/-- The text of a numeral starts with a digit, perhaps behind a minus. -/
theorem Numeral.WellFormed.chars_eq {n : Numeral} (h : n.WellFormed) :
    ∃ c more, Number.isDigit c = true ∧ (n.chars = c :: more ∨ n.chars = '-' :: c :: more) := by
  obtain ⟨c, whole, hw⟩ := List.exists_cons_of_ne_nil h.whole_ne_nil
  refine ⟨c, whole ++ (fractionChars n.fraction ++ exponentChars n.exponent), h.whole c (by simp [hw]), ?_⟩
  cases hn : n.negative <;> simp [Numeral.chars, signChars, hn, hw]

theorem readable_numeral {n : Numeral} {v : Value} (h : n.WellFormed) (hvalue : n.value = .ok v) : Readable v n.chars := by
  obtain ⟨c, more, hdigit, hchars⟩ := h.chars_eq
  have hne {x : Char} (hx : Number.isDigit x = false) : c ≠ x := by
    rintro rfl
    rw [hx] at hdigit
    cases hdigit
  -- a numeral is none of the names, and none of the other lexemes
  have hname (rest : List Char) : scanName (n.chars ++ rest) = none := by
    rcases hchars with heq | heq <;> rw [heq] <;>
      simp [scanName, names, List.isPrefixOf, (hne (x := 'n') rfl).symm, (hne (x := 't') rfl).symm,
        (hne (x := 'f') rfl).symm, (hne (x := 'N') rfl).symm, (hne (x := 'I') rfl).symm, (hne (x := '-') rfl).symm]
  obtain ⟨d, tail, heq, hd, hquote, hopen, hbrace⟩ : ∃ d tail, n.chars = d :: tail ∧ Begins d ∧ d ≠ '\x22' ∧ d ≠ '[' ∧
      d ≠ '\x7b' := by
    rcases hchars with heq | heq
    · refine ⟨c, more, heq, ⟨?_, hne rfl, fun hmark => ?_⟩, hne rfl, hne rfl, hne rfl⟩
      · simp [isSpace, hne (x := ' ') rfl, hne (x := '\t') rfl, hne (x := '\n') rfl, hne (x := '\r') rfl]
      · refine hne (x := Char.ofNat 0xfeff) rfl ?_
        rw [← hmark, Char.ofNat_toNat]
    · exact ⟨'-', c :: more, heq, by decide, by decide, by decide, by decide⟩
  have hscan (rest : List Char) (hrest : Ends rest) := scanNumber_chars h hrest
  rw [heq] at hname hscan ⊢
  refine readable_of_open hd fun _ frames position rest hrest => ?_
  obtain ⟨width, hw⟩ := hscan rest hrest
  have hn := hname rest
  rw [List.cons_append] at hw hn
  refine ⟨width, ?_⟩
  rw [openValue, if_neg hquote, if_neg hopen, if_neg hbrace, hn, hw]
  dsimp only
  rw [hvalue]

theorem readable_int {n : Int} (h : (Nat.toDigits 10 n.natAbs).length ≤ 4300) : Readable (.int n) (intChars n) := by
  rw [← Numeral.chars_ofInt]
  exact readable_numeral (Numeral.wellFormed_ofInt n) (Numeral.value_ofInt h)

/-- A floating-point number. Of those that are no numbers, a text has only one. -/
theorem readable_real {x : Binary64} (h : ∀ mark, x = .nan mark → mark = 0) : Readable (.real x) (Layout.json.chars x) := by
  cases x with
  | nan mark =>
    obtain rfl := h mark rfl
    exact readable_name (by simp [names, Layout.chars, Layout.json])
  | infinite s => cases s <;> exact readable_name (by simp [names, Layout.chars, Layout.json])
  | finite s m e hnormal =>
    obtain ⟨n, hn, hchars, hvalue⟩ := exists_numeral (s := s) hnormal
    rw [← hchars]
    exact readable_numeral hn hvalue

/-! ## Readable containers -/

theorem ends_of_blanks {blanks rest : List Char} (hblanks : Blanks blanks) (hrest : Ends rest) : Ends (blanks ++ rest) := by
  cases blanks with
  | nil => exact hrest
  | cons b blanks =>
    rintro c ⟨⟩
    have hb := hblanks b (by simp)
    simp only [isSpace, Bool.or_eq_true, decide_eq_true_eq] at hb
    simp only [List.mem_cons]
    rcases hb with ((rfl | rfl) | rfl) | rfl <;> simp

theorem ends_cons {c : Char} (hc : c ∈ [' ', '\t', '\n', '\r', ',', ']', '\x7d']) (rest : List Char) : Ends (c :: rest) := by
  rintro x ⟨⟩
  exact hc

section Containers

variable {gap last : List Char} (hgap : Blanks gap) (hlast : Blanks last)
include hgap hlast

/-- The reader goes over the elements of an array and closes it. -/
theorem reads_items {x : Value} {xs : List Value} {t : List Char} {ts : List (List Char)}
    (h : List.Forall₂ Readable (x :: xs) (t :: ts)) {blanks : List Char} (hblanks : Blanks blanks) (items : List Value)
    (outer : List Frame) (rest : List Char) :
    Reads ⟨.array items :: outer, .value⟩ (blanks ++ ((',' :: gap).intercalate (t :: ts) ++ (last ++ ']' :: rest)))
      ⟨outer, .separator (.list (items ++ x :: xs))⟩ rest := by
  induction ts generalizing x xs t blanks items with
  | nil =>
    obtain ⟨hx, hxs⟩ := List.forall₂_cons.1 h
    obtain rfl := List.forall₂_nil_right_iff.1 hxs
    rw [List.intercalate_singleton]
    refine (hx.reads _ hblanks (ends_of_blanks hlast (ends_cons (by decide) _))).trans ?_
    exact Reads.step hlast (by decide) (fun _ position => ⟨1, rfl⟩) (by simp)
  | cons t' ts ih =>
    obtain ⟨hx, hxs⟩ := List.forall₂_cons.1 h
    obtain ⟨x', xs', -, -, rfl⟩ := List.forall₂_cons_right_iff.1 hxs
    have hrest := ih hxs hgap (items ++ [x])
    rw [List.intercalate_cons_cons, List.append_assoc, List.append_assoc]
    refine (hx.reads _ hblanks (ends_cons (by decide) _)).trans ?_
    rw [List.append_assoc, List.singleton_append] at hrest
    refine Reads.trans ?_ hrest
    exact Reads.step blanks_nil (by decide) (fun _ position => ⟨1, rfl⟩) (by simp)

/-- The inside of a container: its parts, with blanks before, between and behind them. -/
def inside (first gap last : List Char) (parts : List (List Char)) : List Char :=
  if parts.isEmpty then [] else first ++ ((',' :: gap).intercalate parts ++ last)

/-- **An array of readable values is readable.** -/
theorem readable_list {first : List Char} (hfirst : Blanks first) {xs : List Value} {ts : List (List Char)}
    (h : List.Forall₂ Readable xs ts) : Readable (.list xs) ('[' :: (inside first gap last ts ++ [']'])) := by
  refine ⟨⟨_, _, rfl, by decide⟩, fun {blanks} frames {rest} hblanks hrest => ?_⟩
  have hopen (cs : List Char) : Reads ⟨frames, .value⟩ (blanks ++ '[' :: cs) ⟨.array [] :: frames, .valueOrClose⟩ cs :=
    Reads.step hblanks (by decide) (fun _ position => ⟨1, rfl⟩) (Nat.le_refl _)
  rw [List.cons_append]
  refine (hopen _).trans ?_
  cases h with
  | nil => exact Reads.step blanks_nil (by decide) (fun _ position => ⟨1, rfl⟩) (by simp)
  | @cons x t xs ts hx hxs =>
    have hitems := reads_items hgap hlast (.cons hx hxs) hfirst [] frames rest
    obtain ⟨c, more, hc, hspace, hclose, -⟩ := hx.start
    have htext : inside first gap last (t :: ts) ++ [']'] ++ rest =
        first ++ ((',' :: gap).intercalate (t :: ts) ++ (last ++ ']' :: rest)) := by simp [inside]
    have hstart : (',' :: gap).intercalate (t :: ts) = c :: (',' :: gap).intercalate (more :: ts) := by
      rw [hc, List.intercalate_cons_cons_left]
    rw [htext]
    intro lone position
    obtain ⟨position', hrun⟩ := hitems lone position
    rw [hstart, List.cons_append] at hrun ⊢
    exact ⟨position', (run_valueOrClose hfirst hspace hclose position).trans hrun⟩

end Containers

/-! ## Readable objects -/

theorem same_text (s t : String) : (Value.text s).same (.text t) = (s == t) := by
  simp [Value.same, Value.atom?, BEq.comm]

/-- Fields with a value put under a name: in the place of an old one, else at the end. -/
def putField (fields : List (String × Value)) (f : String × Value) : List (String × Value) :=
  if f.1 ∈ fields.map (·.1) then fields.map fun g => if g.1 = f.1 then f else g else fields ++ [f]

/-- Fields put one after the other. -/
def gather (fields : List (String × Value)) : List (String × Value) := fields.foldl putField []

theorem insert_object (fields : List (String × Value)) (f : String × Value) :
    Entries.insert (fields.map fun f => (.text f.1, f.2)) (.text f.1) f.2 =
      (putField fields f).map fun f => (.text f.1, f.2) := by
  have hcontains : Entries.contains (fields.map fun f => (Value.text f.1, f.2)) (.text f.1) = true ↔
      f.1 ∈ fields.map (·.1) := by
    simp [Entries.contains, same_text]
  rw [Entries.insert, putField]
  by_cases hmem : f.1 ∈ fields.map (·.1)
  · rw [if_pos (hcontains.2 hmem), if_pos hmem, List.map_map, List.map_map]
    refine List.map_congr_left fun g _ => ?_
    by_cases hname : g.1 = f.1
    · simp [hname, same_text]
    · simp [hname, same_text]
  · rw [if_neg (fun h => hmem (hcontains.1 h)), if_neg hmem]
    simp

theorem putField_of_new {fields : List (String × Value)} {f : String × Value} (h : f.1 ∉ fields.map (·.1)) :
    putField fields f = fields ++ [f] := if_neg h

/-- Fields under distinct names are gathered as they are. -/
theorem foldl_putField {done fields : List (String × Value)} (h : ((done ++ fields).map (·.1)).Nodup) :
    fields.foldl putField done = done ++ fields := by
  induction fields generalizing done with
  | nil => simp
  | cons f fields ih =>
    have hnew : f.1 ∉ done.map (·.1) := by
      rw [List.map_append, List.map_cons] at h
      exact fun hmem => (List.nodup_append.1 h).2.2 f.1 hmem f.1 (by simp) rfl
    rw [List.foldl_cons, putField_of_new hnew, ih (by simpa using h)]
    simp

theorem gather_of_nodup {fields : List (String × Value)} (h : (fields.map (·.1)).Nodup) : gather fields = fields :=
  foldl_putField h

/-- The characters write the entry of an object. -/
def ReadableField (field : String × Value) (cs : List Char) : Prop :=
  ∃ gap text, Blanks gap ∧ Readable field.2 text ∧ cs = quoteChars field.1.toList ++ ':' :: (gap ++ text)

/-- What is expected where the next entry comes: its name, after the first one or at the start of the object. -/
def AtKey (entries : List (Value × Value)) (expect : Expect) : Prop :=
  expect = .key entries ∨ expect = .keyOrClose ∧ entries = []

/-- The reader goes over the name of an entry. -/
theorem reads_key {entries : List (Value × Value)} {expect : Expect} (h : AtKey entries expect) {blanks : List Char}
    (hblanks : Blanks blanks) (k : String) (frames : List Frame) (rest : List Char) :
    Reads ⟨frames, expect⟩ (blanks ++ (quoteChars k.toList ++ rest)) ⟨frames, .colon entries k⟩ rest := by
  have htext : quoteChars k.toList ++ rest = '\x22' :: (k.toList.flatMap escapeChar ++ '\x22' :: rest) := by
    simp [quoteChars]
  rw [htext]
  refine Reads.step hblanks (by decide) (fun lone position => ?_) (by rw [List.length_append, List.length_cons]; omega)
  obtain ⟨width, hscan⟩ := scanString_quoted k.toList 1 [] rest
  have hkey : openKey lone frames entries position ('\x22' :: (k.toList.flatMap escapeChar ++ '\x22' :: rest)) =
      .ok ⟨⟨frames, .colon entries k⟩, width, rest⟩ := by
    rw [openKey, if_pos rfl, hscan]
    simp
  rcases h with rfl | ⟨rfl, rfl⟩
  · exact ⟨width, hkey⟩
  · exact ⟨width, hkey⟩

/-- The reader goes over an entry, up to the end of its value. -/
theorem reads_field {entries : List (Value × Value)} {expect : Expect} (h : AtKey entries expect) {blanks : List Char}
    (hblanks : Blanks blanks) {f : String × Value} {t : List Char} (hfield : ReadableField f t) (frames : List Frame)
    {rest : List Char} (hrest : Ends rest) :
    Reads ⟨frames, expect⟩ (blanks ++ (t ++ rest)) ⟨.object entries f.1 :: frames, .separator f.2⟩ rest := by
  obtain ⟨after, text, hafter, hvalue, rfl⟩ := hfield
  rw [List.append_assoc, List.cons_append, List.append_assoc]
  refine (reads_key h hblanks f.1 frames _).trans ?_
  have hcolon (cs : List Char) : Reads ⟨frames, .colon entries f.1⟩ (':' :: cs) ⟨.object entries f.1 :: frames, .value⟩ cs :=
    Reads.step blanks_nil (by decide) (fun _ position => ⟨1, rfl⟩) (Nat.le_refl _)
  exact (hcolon _).trans (hvalue.reads _ hafter hrest)

section Objects

variable {gap last : List Char} (hgap : Blanks gap) (hlast : Blanks last)
include hgap hlast

/-- The reader goes over the entries of an object and closes it. An entry whose name comes again takes the place of the
first one. -/
theorem reads_fields {f : String × Value} {fs : List (String × Value)} {t : List Char} {ts : List (List Char)}
    (h : List.Forall₂ ReadableField (f :: fs) (t :: ts)) {blanks : List Char} (hblanks : Blanks blanks)
    (done : List (String × Value)) {expect : Expect}
    (hexpect : AtKey (done.map fun f => (.text f.1, f.2)) expect) (outer : List Frame) (rest : List Char) :
    Reads ⟨outer, expect⟩ (blanks ++ ((',' :: gap).intercalate (t :: ts) ++ (last ++ '\x7d' :: rest)))
      ⟨outer, .separator (.object ((f :: fs).foldl putField done))⟩ rest := by
  induction ts generalizing f fs t blanks done expect with
  | nil =>
    obtain ⟨hf, hfs⟩ := List.forall₂_cons.1 h
    obtain rfl := List.forall₂_nil_right_iff.1 hfs
    rw [List.intercalate_singleton]
    refine (reads_field hexpect hblanks hf outer (ends_of_blanks hlast (ends_cons (by decide) _))).trans ?_
    refine Reads.step hlast (by decide) (fun _ position => ⟨1, ?_⟩) (Nat.le_refl _)
    rw [List.foldl_cons, List.foldl_nil, Value.object, ← insert_object]
    rfl
  | cons t' ts ih =>
    obtain ⟨hf, hfs⟩ := List.forall₂_cons.1 h
    obtain ⟨f', fs', -, -, rfl⟩ := List.forall₂_cons_right_iff.1 hfs
    have hrest := ih hfs hgap (putField done f) (Or.inl rfl)
    rw [List.foldl_cons, List.intercalate_cons_cons, List.append_assoc, List.append_assoc]
    refine (reads_field hexpect hblanks hf outer (ends_cons (by decide) _)).trans ?_
    refine Reads.trans (Reads.step blanks_nil (by decide) (fun _ position => ⟨1, ?_⟩) (by simp)) hrest
    rw [← insert_object]
    rfl

/-- **An object of readable values is readable**, as the object that gathers its fields. -/
theorem readable_gather {first : List Char} (hfirst : Blanks first) {fields : List (String × Value)} {ts : List (List Char)}
    (h : List.Forall₂ ReadableField fields ts) :
    Readable (.object (gather fields)) ('\x7b' :: (inside first gap last ts ++ ['\x7d'])) := by
  refine ⟨⟨_, _, rfl, by decide⟩, fun {blanks} frames {rest} hblanks hrest => ?_⟩
  have hopen (cs : List Char) : Reads ⟨frames, .value⟩ (blanks ++ '\x7b' :: cs) ⟨frames, .keyOrClose⟩ cs :=
    Reads.step hblanks (by decide) (fun _ position => ⟨1, rfl⟩) (Nat.le_refl _)
  rw [List.cons_append]
  refine (hopen _).trans ?_
  cases h with
  | nil => exact Reads.step blanks_nil (by decide) (fun _ position => ⟨1, rfl⟩) (by simp)
  | @cons f t fs ts hf hfs =>
    have hfields := reads_fields hgap hlast (.cons hf hfs) hfirst [] (Or.inr ⟨rfl, rfl⟩) frames rest
    have htext : inside first gap last (t :: ts) ++ ['\x7d'] ++ rest =
        first ++ ((',' :: gap).intercalate (t :: ts) ++ (last ++ '\x7d' :: rest)) := by simp [inside]
    rw [htext]
    exact hfields

end Objects

/-- **A readable text is read as its value.** -/
theorem Readable.read {v : Value} {s : String} (h : Readable v s.toList) : read s lone = .ok v := by
  obtain ⟨c, more, hc, -, -, hmark⟩ := h.start
  have hend : Ends [] := by simp [Ends]
  obtain ⟨position, hrun⟩ := h.reads [] blanks_nil hend lone 0
  have hdone : run lone ⟨[], .separator v⟩ position [] = .ok v := by
    rw [run]
    rfl
  rw [List.nil_append, List.append_nil, hdone] at hrun
  rw [Json.read, readChars, Json.start, hrun]
  simp [hc, hmark]

end BlockFlow.Json
