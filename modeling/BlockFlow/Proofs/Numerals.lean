import BlockFlow.Json.Reader
import BlockFlow.Proofs.Rounding

/-!
Numbers as they stand in documents. Every number that is written is the text of a numeral, the reader takes exactly this
numeral off the text, and the value of the numeral is the number.

* `Number.digitsValue_toDigits`, `Number.takeWhile_digits`: digits and what they write.
* `Json.Numeral.chars`, `Json.Numeral.WellFormed`: the text of a numeral.
* `Json.Ends`: what may follow a value; `Json.scanNumber_chars`: **a numeral is read off its text.**
* `Json.Numeral.ofInt`, `Json.exists_numeral`: the numerals of integers and of floating-point numbers.
-/

namespace BlockFlow

/-! ## Digits -/

namespace Number

theorem digitsValue_eq (cs : List Char) : digitsValue cs = Nat.ofDigitChars 10 cs 0 := by
  rw [digitsValue, Nat.ofDigitChars_eq_foldl]

theorem digitsValue_toDigits (n : Nat) : digitsValue (Nat.toDigits 10 n) = n := by
  rw [digitsValue_eq, Nat.ofDigitChars_ten_toDigits]

theorem digitsValue_zeros_append (k : Nat) (cs : List Char) :
    digitsValue (List.replicate k '0' ++ cs) = digitsValue cs := by
  simp [digitsValue_eq, Nat.ofDigitChars_append, Nat.ofDigitChars_replicate_zero]

theorem digitsValue_append_zeros (k : Nat) (cs : List Char) :
    digitsValue (cs ++ List.replicate k '0') = 10 ^ k * digitsValue cs := by
  simp [digitsValue_eq, Nat.ofDigitChars_append, Nat.ofDigitChars_replicate_zero]

/-- All of the characters are digits. -/
def Digits (cs : List Char) : Prop := ∀ c ∈ cs, isDigit c = true

theorem Digits.append {cs ds : List Char} (hc : Digits cs) (hd : Digits ds) : Digits (cs ++ ds) :=
  fun c h => (List.mem_append.1 h).elim (hc c) (hd c)

theorem digits_zeros (k : Nat) : Digits (List.replicate k '0') := by
  intro c hc
  rw [List.eq_of_mem_replicate hc]
  decide

theorem digits_toDigits (n : Nat) : Digits (Nat.toDigits 10 n) := by
  intro c hc
  have h := Nat.isDigit_of_mem_toDigits (by decide) (by decide) hc
  simpa [isDigit, Char.isDigit, Char.le_def] using h

/-- A number other than zero does not start with a zero. -/
theorem head?_toDigits {n : Nat} (hn : n ≠ 0) : (Nat.toDigits 10 n).head? ≠ some '0' := by
  induction n using Nat.strong_induction_on with
  | _ n ih =>
    by_cases hlt : n < 10
    · rw [Nat.toDigits_of_lt_base hlt]
      simpa using hn
    · rw [Nat.toDigits_of_base_le (by decide) (by omega), List.head?_append_of_ne_nil _ Nat.toDigits_ne_nil]
      exact ih (n / 10) (by omega) (by omega)

/-- The text goes on with something else than a digit, if it goes on. -/
def NoDigit (cs : List Char) : Prop := ∀ c ∈ cs.head?, isDigit c = false

theorem takeWhile_digits {ds rest : List Char} (hds : Digits ds) (hrest : NoDigit rest) :
    (ds ++ rest).takeWhile isDigit = ds := by
  rw [List.takeWhile_append_of_pos hds]
  cases rest with
  | nil => simp
  | cons c rest =>
    have hc : isDigit c = false := hrest c (by simp)
    simp [hc]

end Number

namespace Json

open Number

/-! ## Numerals and their text -/

/-- What may follow a value: a blank, a comma or a closing bracket. -/
def Ends (rest : List Char) : Prop := ∀ c ∈ rest.head?, c ∈ [' ', '\t', '\n', '\r', ',', ']', '\x7d']

theorem Ends.not {rest : List Char} (h : Ends rest) {P : Char → Prop} [DecidablePred P]
    (hP : [' ', '\t', '\n', '\r', ',', ']', '\x7d'].all (fun c => decide (P c)) = true) : ∀ c ∈ rest.head?, P c :=
  fun c hc => of_decide_eq_true (List.all_eq_true.1 hP c (h c hc))

theorem Ends.noDigit {rest : List Char} (h : Ends rest) : NoDigit rest := h.not (by decide)

namespace Numeral

/-- The exponent of a numeral, with its sign. -/
def exponentChars : Option (Bool × List Char) → List Char
  | none => []
  | some (negative, digits) => 'e' :: (if negative then '-' else '+') :: digits

/-- The fraction behind its point. -/
def fractionChars (fraction : List Char) : List Char := if fraction.isEmpty then [] else '.' :: fraction

/-- The sign in front of a numeral. -/
def signChars (negative : Bool) : List Char := if negative then ['-'] else []

/-- The text of a numeral. -/
def chars (n : Numeral) : List Char :=
  signChars n.negative ++ (n.whole ++ (fractionChars n.fraction ++ exponentChars n.exponent))

/-- The parts of a numeral are digits, and there are no needless zeros in front. -/
structure WellFormed (n : Numeral) : Prop where
  whole : Digits n.whole
  whole_ne_nil : n.whole ≠ []
  leading : n.whole = ['0'] ∨ n.whole.head? ≠ some '0'
  fraction : Digits n.fraction
  exponent : ∀ p ∈ n.exponent, p.2 ≠ [] ∧ Digits p.2

end Numeral

open Numeral

theorem scanExponent_chars {exponent : Option (Bool × List Char)} {rest : List Char}
    (h : ∀ p ∈ exponent, p.2 ≠ [] ∧ Digits p.2) (hrest : Ends rest) :
    ∃ width, scanExponent (exponentChars exponent ++ rest) = (exponent, width, rest) := by
  cases exponent with
  | none =>
    have hmark : ∀ c ∈ rest.head?, c ≠ 'e' ∧ c ≠ 'E' := hrest.not (by decide)
    cases rest with
    | nil => exact ⟨0, rfl⟩
    | cons c rest =>
      obtain ⟨he, hE⟩ := hmark c rfl
      exact ⟨0, by simp [exponentChars, scanExponent, he, hE]⟩
  | some p =>
    obtain ⟨negative, digits⟩ := p
    obtain ⟨hne, hdigits⟩ := h (negative, digits) rfl
    have htake := takeWhile_digits hdigits hrest.noDigit
    cases negative <;> simp [exponentChars, scanExponent, splitSign, htake, hne]

/-- The text after the whole part of a numeral does not go on with a digit. -/
theorem noDigit_tail {n : Numeral} {rest : List Char} (hrest : Ends rest) :
    NoDigit (fractionChars n.fraction ++ (exponentChars n.exponent ++ rest)) := by
  unfold fractionChars
  split
  · cases he : n.exponent with
    | none => exact hrest.noDigit
    | some p =>
      intro c hc
      obtain rfl : 'e' = c := by simpa [exponentChars] using hc
      decide
  · intro c hc
    obtain rfl : '.' = c := by simpa using hc
    decide

/-- The fraction of a numeral, at the text that follows the whole part. -/
theorem fractionDigits_chars {n : Numeral} {rest : List Char} (h : n.WellFormed) (hrest : Ends rest) :
    fractionDigits (fractionChars n.fraction ++ (exponentChars n.exponent ++ rest)) = n.fraction := by
  by_cases hf : n.fraction = []
  · have hpoint : ∀ c ∈ (exponentChars n.exponent ++ rest).head?, c ≠ '.' := by
      cases he : n.exponent with
      | none => exact hrest.not (by decide)
      | some p => simp [exponentChars]
    rw [hf, fractionChars]
    simp only [List.isEmpty_nil, if_true, List.nil_append]
    generalize exponentChars n.exponent ++ rest = tail at hpoint
    cases tail with
    | nil => rfl
    | cons c tail => simp [fractionDigits, hpoint c rfl]
  · have htail : NoDigit (exponentChars n.exponent ++ rest) := by
      cases he : n.exponent with
      | none => exact hrest.noDigit
      | some p =>
        intro c hc
        obtain rfl : 'e' = c := by simpa [exponentChars] using hc
        decide
    simp [fractionChars, fractionDigits, hf, takeWhile_digits h.fraction htail]

/-- The sign of a numeral, and what follows it. -/
theorem splitMinus_chars {n : Numeral} {rest : List Char} (h : n.WellFormed) :
    splitMinus (n.chars ++ rest) =
      (n.negative, n.whole ++ (fractionChars n.fraction ++ (exponentChars n.exponent ++ rest))) := by
  cases hn : n.negative with
  | true => simp [chars, signChars, splitMinus, hn]
  | false =>
    obtain ⟨c, whole, hw⟩ := List.exists_cons_of_ne_nil h.whole_ne_nil
    have hc : c ≠ '-' := by
      rintro rfl
      have hdash := h.whole '-' (by simp [hw])
      revert hdash
      decide
    simp [chars, signChars, splitMinus, hn, hw, hc]

/-- **A numeral is read off its text.** -/
theorem scanNumber_chars {n : Numeral} {rest : List Char} (h : n.WellFormed) (hrest : Ends rest) :
    ∃ width, scanNumber (n.chars ++ rest) = some (n, width, rest) := by
  obtain ⟨width, hexponent⟩ := scanExponent_chars h.exponent hrest
  have hdigits := takeWhile_digits h.whole (noDigit_tail (n := n) hrest)
  have hfraction := fractionDigits_chars h hrest
  have hwhole : (if n.whole.head? = some '0' then n.whole.take 1 else n.whole) = n.whole := by
    rcases h.leading with hzero | hhead
    · simp [hzero]
    · rw [if_neg hhead]
  have hpointed : (fractionChars n.fraction ++ (exponentChars n.exponent ++ rest)).drop
      (if n.fraction.isEmpty then 0 else n.fraction.length + 1) = exponentChars n.exponent ++ rest := by
    unfold fractionChars
    split <;> simp
  have hne : n.whole.isEmpty = false := by simpa using h.whole_ne_nil
  unfold scanNumber
  rw [splitMinus_chars h]
  simp only [hdigits, hwhole, hne, List.drop_left, hfraction, hpointed, hexponent]
  simp

/-! ## The numerals of numbers -/

theorem leading_toDigits (n : Nat) : Nat.toDigits 10 n = ['0'] ∨ (Nat.toDigits 10 n).head? ≠ some '0' := by
  by_cases hn : n = 0
  · exact Or.inl (by rw [hn, Nat.toDigits_zero])
  · exact Or.inr (head?_toDigits hn)

theorem signedValue_intDigits (n : Int) (k : Nat) :
    signedValue (decide (n < 0)) (List.replicate k '0' ++ Nat.toDigits 10 n.natAbs) = n := by
  simp only [signedValue, digitsValue_zeros_append, digitsValue_toDigits, decide_eq_true_eq]
  split <;> omega

/-- The numeral of an integer. -/
def Numeral.ofInt (n : Int) : Numeral := ⟨decide (n < 0), Nat.toDigits 10 n.natAbs, [], none⟩

namespace Numeral

theorem wellFormed_ofInt (n : Int) : (ofInt n).WellFormed where
  whole := digits_toDigits _
  whole_ne_nil := Nat.toDigits_ne_nil
  leading := leading_toDigits _
  fraction := by simp [ofInt, Digits]
  exponent := by simp [ofInt]

theorem chars_ofInt (n : Int) : (ofInt n).chars = intChars n := by
  unfold ofInt intChars
  by_cases hn : n < 0 <;> simp [chars, signChars, fractionChars, exponentChars, hn]

theorem value_ofInt {n : Int} (h : (Nat.toDigits 10 n.natAbs).length ≤ 4300) : (ofInt n).value = .ok (.int n) := by
  have hn := signedValue_intDigits n 0
  rw [List.replicate_zero, List.nil_append] at hn
  simp [value, ofInt, Nat.not_lt.2 h, hn]

/-- A numeral with a fraction and without exponent. -/
theorem value_fraction {s : Bool} {whole fraction : List Char} (h : fraction ≠ []) :
    value ⟨s, whole, fraction, none⟩ =
      .ok (.real (Binary64.ofDecimal s (digitsValue (whole ++ fraction)) (-fraction.length))) := by
  simp [value, h]

/-- A numeral with an exponent. -/
theorem value_exponent (s : Bool) (whole fraction : List Char) (negative : Bool) (digits : List Char) :
    value ⟨s, whole, fraction, some (negative, digits)⟩ =
      .ok (.real (Binary64.ofDecimal s (digitsValue (whole ++ fraction))
        (signedValue negative digits - fraction.length))) := by
  simp [value]

end Numeral

section Decimals

variable (s : Bool) (d : Decimal)

/-- The decimal is written by a numeral: its text is that of the decimal behind the sign, and its value is the number
nearest to it. -/
def Written (s : Bool) (d : Decimal) (text : List Char) : Prop :=
  ∃ n : Numeral, n.WellFormed ∧ n.chars = signChars s ++ text ∧
    n.value = .ok (.real (Binary64.ofDecimal s d.coefficient d.exponent))

theorem digits_ne_nil : d.digits ≠ [] := Nat.toDigits_ne_nil

theorem digits_digits : Digits d.digits := digits_toDigits _

theorem digitsValue_digits : digitsValue d.digits = d.coefficient := digitsValue_toDigits _

theorem leading_eq : d.exponent = d.leading + 1 - d.digits.length := by
  unfold Decimal.leading
  omega

/-- Zeros stand between the point and the digits. -/
theorem written_below (hlt : d.leading < 0) :
    Written s d ('0' :: '.' :: List.replicate ((-d.leading).toNat - 1) '0' ++ d.digits) := by
  have hexponent := leading_eq d
  have hne := digits_ne_nil d
  have hvalue : digitsValue (['0'] ++ (List.replicate ((-d.leading).toNat - 1) '0' ++ d.digits)) = d.coefficient := by
    rw [← List.append_assoc, ← List.replicate_one, ← List.replicate_add, digitsValue_zeros_append, digitsValue_digits]
  refine ⟨⟨s, ['0'], List.replicate ((-d.leading).toNat - 1) '0' ++ d.digits, none⟩, ⟨digits_zeros 1, List.cons_ne_nil _ _,
    Or.inl rfl, (digits_zeros _).append (digits_digits d), by simp⟩, ?_, ?_⟩
  · simp [Numeral.chars, fractionChars, exponentChars, hne]
  · rw [value_fraction (by simp [hne]), hvalue]
    congr 3
    simp only [List.length_append, List.length_replicate]
    omega

/-- Zeros stand between the digits and the point. -/
theorem written_above (hd : d.coefficient ≠ 0 ∨ d = ⟨0, 0⟩) (hpos : 0 ≤ d.leading)
    (hlen : d.digits.length ≤ d.leading.toNat + 1) :
    Written s d (d.digits ++ List.replicate (d.leading.toNat + 1 - d.digits.length) '0' ++ ['.', '0']) := by
  have hexponent := leading_eq d
  have hne := digits_ne_nil d
  refine ⟨⟨s, d.digits ++ List.replicate (d.leading.toNat + 1 - d.digits.length) '0', ['0'], none⟩,
    ⟨(digits_digits d).append (digits_zeros _), by simp [hne], ?_, digits_zeros 1, by simp⟩, ?_, ?_⟩
  · rcases hd with hd | rfl
    · right
      rw [List.head?_append_of_ne_nil _ hne]
      exact head?_toDigits hd
    · exact Or.inl rfl
  · simp [Numeral.chars, fractionChars, exponentChars]
  · rw [value_fraction (List.cons_ne_nil _ _), List.append_assoc, ← List.replicate_one, ← List.replicate_add,
      digitsValue_append_zeros, digitsValue_digits, Binary64.ofDecimal_mul_pow]
    congr 3
    simp only [List.length_replicate]
    omega

/-- The point stands between the digits. -/
theorem written_between (hd : d.coefficient ≠ 0) (hpos : 0 ≤ d.leading) (hlen : d.leading.toNat + 1 < d.digits.length) :
    Written s d (d.digits.take (d.leading.toNat + 1) ++ '.' :: d.digits.drop (d.leading.toNat + 1)) := by
  have hexponent := leading_eq d
  have hhead : d.digits.head? ≠ some '0' := head?_toDigits hd
  obtain ⟨c, digits, hcons⟩ := List.exists_cons_of_ne_nil (digits_ne_nil d)
  refine ⟨⟨s, d.digits.take (d.leading.toNat + 1), d.digits.drop (d.leading.toNat + 1), none⟩,
    ⟨fun c hc => digits_digits d c (List.mem_of_mem_take hc), by simp [digits_ne_nil d], Or.inr ?_,
      fun c hc => digits_digits d c (List.mem_of_mem_drop hc), by simp⟩, ?_, ?_⟩
  · simpa [hcons] using hhead
  · simp [Numeral.chars, fractionChars, exponentChars, hlen]
  · rw [value_fraction (by simpa using hlen), List.take_append_drop, digitsValue_digits]
    congr 3
    simp only [List.length_drop]
    omega

theorem written_positional (hd : d.coefficient ≠ 0 ∨ d = ⟨0, 0⟩) :
    Written s d (Layout.json.positional d.digits d.leading) := by
  unfold Layout.positional
  split
  · rename_i hlt
    exact written_below s d hlt
  · rename_i hpos
    dsimp only
    split
    · rename_i hlen
      exact written_above s d hd (by omega) hlen
    · rename_i hlen
      -- zero is a single digit, and within one digit there is no point
      have hcoefficient : d.coefficient ≠ 0 := by
        rcases hd with hd | rfl
        · exact hd
        · exact absurd (show 1 ≤ 1 by omega) hlen
      exact written_between s d hcoefficient (by omega) (by omega)

theorem written_scientific (hd : d.coefficient ≠ 0) : Written s d (Layout.json.scientific d.digits d.leading) := by
  have hvalue := digitsValue_digits d
  have hexponent := leading_eq d
  obtain ⟨c, digits, hcons⟩ := List.exists_cons_of_ne_nil (digits_ne_nil d)
  have hhead : d.digits.head? ≠ some '0' := head?_toDigits hd
  have hdigits := digits_digits d
  rw [hcons] at hvalue hexponent hhead hdigits
  refine ⟨⟨s, [c], digits, some (decide (d.leading < 0),
      List.replicate (2 - (Nat.toDigits 10 d.leading.natAbs).length) '0' ++ Nat.toDigits 10 d.leading.natAbs)⟩,
    ⟨?_, List.cons_ne_nil _ _, Or.inr hhead, ?_, ?_⟩, ?_, ?_⟩
  · intro x hx
    exact hdigits x (by simpa using Or.inl (List.mem_singleton.1 hx))
  · exact fun x hx => hdigits x (List.mem_cons_of_mem c hx)
  · rintro p ⟨⟩
    exact ⟨by simp, (digits_zeros _).append (digits_toDigits _)⟩
  · rw [hcons]
    simp [Numeral.chars, Layout.scientific, Layout.exponentText, fractionChars, exponentChars, Layout.json, Layout.plain]
  · rw [value_exponent, signedValue_intDigits, List.singleton_append, hvalue]
    congr 3
    simp only [List.length_cons] at hexponent
    omega

end Decimals

/-- The text of a finite number is that of a numeral whose value is the number. -/
theorem exists_numeral {s : Bool} {m : Nat} {e : Int} (h : Normal m e) :
    ∃ n : Numeral, n.WellFormed ∧ n.chars = Layout.json.chars (.finite s m e h) ∧
      n.value = .ok (.real (.finite s m e h)) := by
  have hback := Binary64.ofDecimal_shortest (s := s) h
  have hd : (Binary64.shortest (.finite s m e h)).coefficient ≠ 0 ∨ Binary64.shortest (.finite s m e h) = ⟨0, 0⟩ := by
    by_cases hm : m = 0
    · right
      simp [Binary64.shortest, hm]
    · exact Or.inl (Binary64.shortest_ne_zero hm h)
  have hwritten : Written s (Binary64.shortest (.finite s m e h))
      (Layout.json.magnitude (Binary64.shortest (.finite s m e h))) := by
    unfold Layout.magnitude
    split
    · exact written_positional s _ hd
    · rename_i hrange
      refine written_scientific s _ (hd.resolve_right fun hzero => hrange ?_)
      rw [hzero]
      decide
  obtain ⟨n, hn, hchars, hvalue⟩ := hwritten
  refine ⟨n, hn, ?_, by rw [hvalue, hback]⟩
  rw [hchars]
  cases s <;> simp [Layout.chars, signChars, Layout.json, Layout.plain]

end Json

end BlockFlow
