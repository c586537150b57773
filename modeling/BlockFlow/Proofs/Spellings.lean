import BlockFlow.Number.Read
import BlockFlow.Proofs.Numerals

/-!
Numbers as a person types them. The reader goes through a text in passes: it takes off the blanks around it, makes digits of
all scripts plain, splits off the sign, takes out underscores and reads what is left. Here the texts are told by what they
look like, and the reader takes just these.

* `Text.trim`, `Text.exists_trim`, `Text.trim_append`: characters of a sort at both ends of a text.
* `Spaced`, `dropUnderscores_eq_some_iff`: underscores between digits.
* `Amount`, `Sign`, `Power`, `Fraction`, `Figure`, `Written`, `Spells`: what a text can write, and the texts that write it.
* `readReal_eq_some_iff`: **a text is read as a number just when it spells one.**
-/

namespace BlockFlow

/-! ## Characters at both ends -/

namespace Text

/-- The characters without those of a sort at both ends. -/
def trim (p : Char → Bool) (cs : List Char) : List Char := ((cs.dropWhile p).reverse.dropWhile p).reverse

section Trim

variable {p : Char → Bool} {cs front mid back : List Char}

theorem dropWhile_eq_self (h : ∀ c ∈ cs.head?, p c = false) : cs.dropWhile p = cs := by
  cases cs with
  | nil => rfl
  | cons c cs => exact List.dropWhile_cons_of_neg (by simp [h c rfl])

theorem head?_dropWhile_eq_false (p : Char → Bool) (cs : List Char) : ∀ c ∈ (cs.dropWhile p).head?, p c = false := by
  intro c hc
  have hhead := List.head?_dropWhile_not p cs
  rw [Option.mem_def.1 hc] at hhead
  exact hhead

/-- What is left when the characters in front are gone is the trimmed text and the characters at its end. -/
theorem dropWhile_eq_trim_append (p : Char → Bool) (cs : List Char) :
    cs.dropWhile p = trim p cs ++ ((cs.dropWhile p).reverse.takeWhile p).reverse := by
  rw [trim, ← List.reverse_append, List.takeWhile_append_dropWhile, List.reverse_reverse]

theorem exists_trim (p : Char → Bool) (cs : List Char) :
    ∃ front back, cs = front ++ trim p cs ++ back ∧ ∀ c ∈ front ++ back, p c = true := by
  refine ⟨cs.takeWhile p, ((cs.dropWhile p).reverse.takeWhile p).reverse, ?_, fun c hc => ?_⟩
  · rw [List.append_assoc, ← dropWhile_eq_trim_append, List.takeWhile_append_dropWhile]
  · rw [List.mem_append, List.mem_reverse] at hc
    rcases hc with hc | hc <;> exact List.all_eq_true.1 List.all_takeWhile c hc

theorem head?_trim : ∀ c ∈ (trim p cs).head?, p c = false := by
  intro c hc
  refine head?_dropWhile_eq_false p cs c ?_
  rw [dropWhile_eq_trim_append, List.head?_append, Option.mem_def.1 hc]
  rfl

theorem getLast?_trim : ∀ c ∈ (trim p cs).getLast?, p c = false := by
  intro c hc
  rw [trim, List.getLast?_reverse] at hc
  exact head?_dropWhile_eq_false p _ c hc

theorem trim_append (hends : ∀ c ∈ front ++ back, p c = true) (hhead : ∀ c ∈ mid.head?, p c = false)
    (hlast : ∀ c ∈ mid.getLast?, p c = false) : trim p (front ++ mid ++ back) = mid := by
  rw [List.forall_mem_append] at hends
  rw [trim, List.append_assoc, List.dropWhile_append_of_pos hends.1]
  cases mid with
  | nil =>
    have hnil : (back ++ []).dropWhile p = [].dropWhile p := List.dropWhile_append_of_pos hends.2
    rw [List.append_nil] at hnil
    rw [List.nil_append, hnil]
    rfl
  | cons c cs =>
    have hrest : ((c :: cs) ++ back).dropWhile p = (c :: cs) ++ back := dropWhile_eq_self (by simpa using hhead)
    have hend : (c :: cs).reverse.dropWhile p = (c :: cs).reverse :=
      dropWhile_eq_self (by simpa only [List.head?_reverse] using hlast)
    have hback : ∀ c ∈ back.reverse, p c = true := by simpa using hends.2
    rw [hrest, List.reverse_append, List.dropWhile_append_of_pos hback, hend, List.reverse_reverse]

end Trim

end Text

namespace Number

/-! ## Underscores -/

/-- Every underscore stands between two digits. In front of the text there may be a digit as well. -/
def SpacedAfter (digit : Bool) (cs : List Char) : Prop :=
  ∀ front back, cs = front ++ '_' :: back →
    front.getLast?.elim digit isDigit = true ∧ back.head?.elim false isDigit = true

/-- Every underscore stands between two digits. -/
abbrev Spaced (cs : List Char) : Prop := SpacedAfter false cs

theorem spacedAfter_nil (digit : Bool) : SpacedAfter digit [] := by simp [SpacedAfter]

theorem spacedAfter_cons {digit : Bool} {c : Char} {cs : List Char} : SpacedAfter digit (c :: cs) ↔
    (c = '_' → digit = true ∧ cs.head?.elim false isDigit = true) ∧ SpacedAfter (isDigit c) cs := by
  constructor
  · intro h
    refine ⟨fun hc => by subst hc; exact h [] cs rfl, fun front back hcs => ?_⟩
    have := h (c :: front) back (by rw [hcs]; rfl)
    rw [List.getLast?_cons] at this
    cases hlast : front.getLast? <;> simp_all
  · rintro ⟨hfirst, hrest⟩ front back hcs
    cases front with
    | nil =>
      obtain ⟨rfl, rfl⟩ := List.cons.inj hcs
      exact hfirst rfl
    | cons d front =>
      obtain ⟨rfl, rfl⟩ := List.cons.inj hcs
      have := hrest front back rfl
      rw [List.getLast?_cons]
      cases hlast : front.getLast? <;> simp_all

theorem ne_underscore {c : Char} (h : isDigit c = true) : c ≠ '_' := by
  rintro rfl
  exact absurd h (by decide)

theorem map_cons_eq_some {P : Prop} {o : Option (List Char)} {c : Char} {cs ds : List Char}
    (h : ∀ {ds}, o = some ds ↔ P ∧ ds = cs) : o.map (c :: ·) = some ds ↔ P ∧ ds = c :: cs := by
  rw [Option.map_eq_some_iff]
  constructor
  · rintro ⟨ds, hds, rfl⟩
    obtain ⟨hP, rfl⟩ := h.1 hds
    exact ⟨hP, rfl⟩
  · rintro ⟨hP, rfl⟩
    exact ⟨cs, h.2 ⟨hP, rfl⟩, rfl⟩

/-- Underscores are taken out if each stands between two digits. -/
theorem dropUnderscores_eq_some_iff {digit : Bool} {cs ds : List Char} :
    dropUnderscores digit cs = some ds ↔ SpacedAfter digit cs ∧ ds = cs.filter (· ≠ '_') := by
  fun_induction dropUnderscores digit cs generalizing ds with
  | case1 digit => simp [spacedAfter_nil, eq_comm]
  | case2 digit d more hboth ih =>
    obtain ⟨rfl, hd⟩ : digit = true ∧ isDigit d = true := by simpa using hboth
    have hne : d ≠ '_' := ne_underscore hd
    rw [map_cons_eq_some ih]
    simp [spacedAfter_cons, hd, hne]
  | case3 digit d more hboth =>
    refine ⟨by simp, fun h => absurd (spacedAfter_cons.1 h.1).1 ?_⟩
    simpa using hboth
  | case4 digit => simp [spacedAfter_cons]
  | case5 digit c rest hc ih =>
    have hne : c ≠ '_' := hc
    rw [map_cons_eq_some ih]
    simp [spacedAfter_cons, hne]

/-! ## The texts of numbers -/

/-- A sign, or none, and whether it makes a number negative. -/
inductive Sign : List Char → Bool → Prop
  | none : Sign [] false
  | plus : Sign ['+'] false
  | minus : Sign ['-'] true

/-- A power of ten, or none, and its exponent. -/
inductive Power : List Char → Int → Prop
  | none : Power [] 0
  | some {mark : Char} {sign digits : List Char} {negative : Bool} :
      mark = 'e' ∨ mark = 'E' → Sign sign negative → Digits digits → digits ≠ [] →
      Power (mark :: (sign ++ digits)) (signedValue negative digits)

/-- A fraction, or none, and its digits. -/
inductive Fraction : List Char → List Char → Prop
  | none : Fraction [] []
  | some {digits : List Char} : Digits digits → Fraction ('.' :: digits) digits

/-- An unsigned decimal with a digit at least, its digits as one integer, and the exponent that belongs to it. -/
inductive Figure : List Char → Nat → Int → Prop
  | mk {whole fraction digits power : List Char} {e : Int} :
      Digits whole → Fraction fraction digits → Power power e → whole ++ digits ≠ [] →
      Figure (whole ++ (fraction ++ power)) (digitsValue (whole ++ digits)) (e - digits.length)

/-- What a text can write: no number, an infinity, or `coefficient * 10 ^ exponent` with its sign. -/
inductive Amount where
  | nan
  | infinite (negative : Bool)
  | decimal (negative : Bool) (coefficient : Nat) (exponent : Int)

/-- The floating-point number for an amount. -/
def Amount.rounded : Amount → Binary64
  | .nan => .nan 1
  | .infinite negative => .infinite negative
  | .decimal negative coefficient exponent => .ofDecimal negative coefficient exponent

/-- A sign, and a name in any case of letters or a decimal whose underscores stand between digits. -/
inductive Written : List Char → Amount → Prop
  | nan {sign name : List Char} {negative : Bool} :
      Sign sign negative → name.map Char.toLower = "nan".toList → Written (sign ++ name) .nan
  | infinite {sign name : List Char} {negative : Bool} :
      Sign sign negative → name.map Char.toLower = "inf".toList ∨ name.map Char.toLower = "infinity".toList →
      Written (sign ++ name) (.infinite negative)
  | decimal {sign body : List Char} {negative : Bool} {coefficient : Nat} {exponent : Int} :
      Sign sign negative → Spaced body → Figure (body.filter (· ≠ '_')) coefficient exponent →
      Written (sign ++ body) (.decimal negative coefficient exponent)

/-- The text writes an amount between margins, with digits of any script. -/
def Spells (cs : List Char) (a : Amount) : Prop :=
  ∃ front mid back, cs = front ++ mid ++ back ∧ (∀ c ∈ front ++ back, isMargin c = true) ∧
    Written (mid.map Text.plainDigit) a

/-! ## Reading them -/

section Reading

variable {cs : List Char} {e : Int} {negative : Bool} {x : Binary64}

/-- The text goes on with something else than a sign, if it goes on. -/
def NoSign (cs : List Char) : Prop := ∀ c ∈ cs.head?, c ≠ '-' ∧ c ≠ '+'

theorem Sign.splitSign {sign : List Char} (h : Sign sign negative) (hcs : NoSign cs) :
    splitSign (sign ++ cs) = (negative, cs) := by
  cases h with
  | none =>
    cases cs with
    | nil => rfl
    | cons c cs =>
      obtain ⟨hminus, hplus⟩ := hcs c rfl
      simp [Number.splitSign, hminus, hplus]
  | plus => rfl
  | minus => rfl

theorem exists_sign (cs : List Char) : ∃ sign negative body,
    cs = sign ++ body ∧ Sign sign negative ∧ splitSign cs = (negative, body) := by
  unfold splitSign
  split
  · exact ⟨_, _, _, rfl, .minus, rfl⟩
  · exact ⟨_, _, _, rfl, .plus, rfl⟩
  · exact ⟨_, _, _, rfl, .none, rfl⟩

theorem Digits.noSign (h : Digits cs) : NoSign cs := by
  intro c hc
  have hdigit := h c (List.mem_of_mem_head? hc)
  constructor <;> rintro rfl <;> exact absurd hdigit (by decide)

theorem readExponent_eq_some_iff : readExponent cs = some e ↔ Power cs e := by
  constructor
  · intro h
    cases cs with
    | nil =>
      obtain rfl : 0 = e := by simpa [readExponent] using h
      exact .none
    | cons c rest =>
      obtain ⟨sign, negative, digits, rfl, hsign, hsplit⟩ := exists_sign rest
      simp only [readExponent, hsplit] at h
      split at h
      · rename_i hmark
        split at h
        · cases h
        · rename_i hdigits
          obtain ⟨hne, hall⟩ : digits ≠ [] ∧ Digits digits := by simpa [Digits] using hdigits
          obtain rfl := Option.some.inj h
          exact .some hmark hsign hall hne
      · cases h
  · intro h
    cases h with
    | none => rfl
    | some hmark hsign hdigits hne =>
      have hall := List.all_eq_true.2 hdigits
      simp [readExponent, hmark, hsign.splitSign hdigits.noSign, hne, hall, signedValue]

/-- A power of ten starts with its mark. -/
theorem Power.head (h : Power cs e) : ∀ c ∈ cs.head?, c = 'e' ∨ c = 'E' := by
  cases h with
  | none => simp
  | some hmark => simpa using hmark

theorem Power.noDigit (h : Power cs e) : NoDigit cs := by
  intro c hc
  rcases h.head c hc with rfl | rfl <;> decide

theorem dropWhile_digits {ds rest : List Char} (hds : Digits ds) (hrest : NoDigit rest) :
    (ds ++ rest).dropWhile isDigit = rest := by
  rw [List.dropWhile_append_of_pos hds, Text.dropWhile_eq_self hrest]

theorem digits_takeWhile (cs : List Char) : Digits (cs.takeWhile isDigit) := List.all_eq_true.1 List.all_takeWhile

theorem exists_fraction (cs : List Char) : ∃ fraction digits rest,
    cs = fraction ++ rest ∧ Fraction fraction digits ∧ splitFraction cs = (digits, rest) := by
  unfold splitFraction
  split
  · rename_i rest
    exact ⟨'.' :: rest.takeWhile isDigit, _, rest.dropWhile isDigit,
      by rw [List.cons_append, List.takeWhile_append_dropWhile], .some (digits_takeWhile rest), rfl⟩
  · exact ⟨[], [], cs, rfl, .none, rfl⟩

theorem Fraction.splitFraction {fraction digits power : List Char} (h : Fraction fraction digits) (hpower : Power power e) :
    splitFraction (fraction ++ power) = (digits, power) := by
  cases h with
  | none =>
    cases power with
    | nil => rfl
    | cons c rest =>
      have hc : c ≠ '.' := by
        rcases hpower.head c rfl with rfl | rfl <;> decide
      simp [Number.splitFraction, hc]
  | some hdigits =>
    simp [Number.splitFraction, takeWhile_digits hdigits hpower.noDigit, dropWhile_digits hdigits hpower.noDigit]

theorem Fraction.noDigit {fraction digits power : List Char} (h : Fraction fraction digits) (hpower : Power power e) :
    NoDigit (fraction ++ power) := by
  cases h with
  | none => exact hpower.noDigit
  | some =>
    intro c hc
    obtain rfl : '.' = c := by simpa using hc
    decide

/-- Decimals without sign and underscores are read as what they write. -/
theorem readMagnitude_eq_some_iff : readMagnitude negative cs = some x ↔
    ∃ coefficient exponent, Figure cs coefficient exponent ∧ Binary64.ofDecimal negative coefficient exponent = x := by
  constructor
  · intro h
    obtain ⟨fraction, digits, rest, hrest, hfraction, hsplit⟩ := exists_fraction (cs.dropWhile isDigit)
    have hcs : cs = cs.takeWhile isDigit ++ (fraction ++ rest) := by rw [← hrest, List.takeWhile_append_dropWhile]
    simp only [readMagnitude, hsplit] at h
    split at h
    · cases h
    · rename_i hempty
      obtain ⟨e, hpower, hx⟩ := Option.map_eq_some_iff.1 h
      have hfigure := Figure.mk (digits_takeWhile cs) hfraction (readExponent_eq_some_iff.1 hpower) (by simpa using hempty)
      rw [← hcs] at hfigure
      exact ⟨_, _, hfigure, hx⟩
  · rintro ⟨_, _, ⟨hwhole, hfraction, hpower, hne⟩, rfl⟩
    have hrest := hfraction.noDigit hpower
    simp only [readMagnitude, takeWhile_digits hwhole hrest, dropWhile_digits hwhole hrest, hfraction.splitFraction hpower]
    rw [readExponent_eq_some_iff.2 hpower, if_neg (by simpa using hne)]
    rfl

/-! ## Signs and names -/

theorem Figure.head {coefficient : Nat} {exponent : Int} (h : Figure cs coefficient exponent) :
    ∃ c ∈ cs.head?, isDigit c = true ∨ c = '.' := by
  obtain ⟨hwhole, hfraction, -, hne⟩ := h
  rename_i whole _ _ _ _
  cases whole with
  | cons c whole => exact ⟨c, rfl, Or.inl (hwhole c List.mem_cons_self)⟩
  | nil =>
    cases hfraction with
    | none => simp at hne
    | some => exact ⟨'.', rfl, Or.inr rfl⟩

/-- The first character of a decimal is not an underscore, so it is there without underscores as well. -/
theorem Spaced.head {coefficient : Nat} {exponent : Int} (h : Spaced cs)
    (hfigure : Figure (cs.filter (· ≠ '_')) coefficient exponent) : ∃ c ∈ cs.head?, isDigit c = true ∨ c = '.' := by
  obtain ⟨c, hc, hfirst⟩ := hfigure.head
  cases cs with
  | nil => cases hc
  | cons d cs =>
    have hd : d ≠ '_' := fun hd => by simpa using ((spacedAfter_cons.1 h).1 hd).1
    obtain rfl : d = c := by simpa [hd] using hc
    exact ⟨d, rfl, hfirst⟩

theorem toLower_eq_self {c : Char} (h : ¬ (65 ≤ c.toNat ∧ c.toNat ≤ 90)) : c.toLower = c := by
  unfold Char.toLower
  rw [dif_neg]
  intro hupper
  exact h ⟨hupper.1, hupper.2⟩

theorem toNat_of_isDigit {c : Char} (h : isDigit c = true) : 48 ≤ c.toNat ∧ c.toNat ≤ 57 := by
  obtain ⟨hlow, hhigh⟩ : 48 ≤ c.val ∧ c.val ≤ 57 := by simpa [isDigit, Char.le_def] using h
  exact ⟨UInt32.le_iff_toNat_le.1 hlow, UInt32.le_iff_toNat_le.1 hhigh⟩

theorem noSign_of_map_toLower {name lower : List Char} (h : name.map Char.toLower = lower) (hlower : NoSign lower) :
    NoSign name := by
  subst h
  intro c hc
  have hsign := hlower c.toLower (by simp [Option.mem_def.1 hc])
  constructor <;> rintro rfl
  · exact hsign.1 (by decide)
  · exact hsign.2 (by decide)

/-- What starts with a digit or a point has no sign and is no name. -/
theorem not_name_of_head (h : ∃ c ∈ cs.head?, isDigit c = true ∨ c = '.') :
    NoSign cs ∧ ∀ lower ∈ ["inf".toList, "infinity".toList, "nan".toList], cs.map Char.toLower ≠ lower := by
  obtain ⟨c, hc, hfirst⟩ := h
  have hcode : c.toNat = 46 ∨ (48 ≤ c.toNat ∧ c.toNat ≤ 57) := by
    rcases hfirst with hdigit | rfl
    · exact Or.inr (toNat_of_isDigit hdigit)
    · exact Or.inl (by decide)
  have hlower : (cs.map Char.toLower).head? = some c := by
    rw [List.head?_map, Option.mem_def.1 hc, Option.map_some, toLower_eq_self (by omega)]
  refine ⟨fun d hd => ?_, fun lower hmem heq => ?_⟩
  · obtain rfl : c = d := Option.some.inj ((Option.mem_def.1 hc).symm.trans hd)
    constructor <;> rintro rfl <;> exact absurd hcode (by decide)
  · rw [heq] at hlower
    have hletter : ∀ lower ∈ ["inf".toList, "infinity".toList, "nan".toList],
        lower.head? = some 'i' ∨ lower.head? = some 'n' := by decide
    rcases hletter lower hmem with hhead | hhead
    all_goals
      obtain rfl := Option.some.inj (hhead.symm.trans hlower)
      exact absurd hcode (by decide)

/-- Signed numbers and names are read as what they write. -/
theorem readSigned_eq_some_iff : readSigned cs = some x ↔ ∃ a, Written cs a ∧ a.rounded = x := by
  constructor
  · intro h
    obtain ⟨sign, negative, body, rfl, hsign, hsplit⟩ := exists_sign cs
    simp only [readSigned, hsplit] at h
    split at h
    · rename_i hname
      exact ⟨.infinite negative, .infinite hsign hname, Option.some.inj h⟩
    · split at h
      · rename_i hname
        exact ⟨.nan, .nan hsign hname, Option.some.inj h⟩
      · obtain ⟨plain, hplain, hread⟩ := Option.bind_eq_some_iff.1 h
        obtain ⟨hspaced, rfl⟩ := dropUnderscores_eq_some_iff.1 hplain
        obtain ⟨coefficient, exponent, hfigure, hx⟩ := readMagnitude_eq_some_iff.1 hread
        exact ⟨.decimal negative coefficient exponent, .decimal hsign hspaced hfigure, hx⟩
  · rintro ⟨a, h, rfl⟩
    cases h with
    | nan hsign hname =>
      simp only [readSigned, hsign.splitSign (noSign_of_map_toLower hname (by simp [NoSign])), hname]
      rfl
    | infinite hsign hname =>
      have hnoSign : NoSign _ := hname.elim (fun h => noSign_of_map_toLower h (by simp [NoSign]))
        fun h => noSign_of_map_toLower h (by simp [NoSign])
      simp only [readSigned, hsign.splitSign hnoSign, hname, if_true]
      rfl
    | decimal hsign hspaced hfigure =>
      obtain ⟨hnoSign, hnames⟩ := not_name_of_head (hspaced.head hfigure)
      simp only [List.forall_mem_cons] at hnames
      obtain ⟨hinf, hinfinity, hnan, -⟩ := hnames
      simp only [readSigned, hsign.splitSign hnoSign, hinf, hinfinity, hnan, or_self, if_false]
      rw [dropUnderscores_eq_some_iff.2 ⟨hspaced, rfl⟩]
      exact readMagnitude_eq_some_iff.2 ⟨_, _, hfigure, rfl⟩

/-! ## Margins -/

/-- All characters are visible ones of ASCII. -/
def Ink (cs : List Char) : Prop := ∀ c ∈ cs, 33 ≤ c.toNat ∧ c.toNat ≤ 126

theorem ink_append {ds : List Char} : Ink (cs ++ ds) ↔ Ink cs ∧ Ink ds := List.forall_mem_append

theorem ink_cons {c : Char} : Ink (c :: cs) ↔ (33 ≤ c.toNat ∧ c.toNat ≤ 126) ∧ Ink cs := List.forall_mem_cons

theorem Digits.ink (h : Digits cs) : Ink cs := by
  intro c hc
  have := toNat_of_isDigit (h c hc)
  omega

theorem Sign.ink (h : Sign cs negative) : Ink cs := by
  cases h <;> simp [Ink]

theorem Power.ink (h : Power cs e) : Ink cs := by
  cases h with
  | none => simp [Ink]
  | some hmark hsign hdigits =>
    refine ink_cons.2 ⟨?_, ink_append.2 ⟨hsign.ink, hdigits.ink⟩⟩
    rcases hmark with rfl | rfl <;> decide

theorem Figure.ink {coefficient : Nat} {exponent : Int} (h : Figure cs coefficient exponent) : Ink cs := by
  obtain ⟨hwhole, hfraction, hpower, -⟩ := h
  refine ink_append.2 ⟨hwhole.ink, ink_append.2 ⟨?_, hpower.ink⟩⟩
  cases hfraction with
  | none => simp [Ink]
  | some hdigits => exact ink_cons.2 ⟨by decide, hdigits.ink⟩

theorem ink_of_map_toLower (h : Ink (cs.map Char.toLower)) : Ink cs := by
  intro c hc
  by_cases hupper : 65 ≤ c.toNat ∧ c.toNat ≤ 90
  · omega
  · have := h c.toLower (List.mem_map_of_mem hc)
    rwa [toLower_eq_self hupper] at this

theorem ink_of_filter (h : Ink (cs.filter (· ≠ '_'))) : Ink cs := by
  intro c hc
  by_cases hscore : c = '_'
  · subst hscore
    decide
  · exact h c (List.mem_filter.2 ⟨hc, by simpa using hscore⟩)

/-- There are no blanks in what writes an amount. -/
theorem Written.ink {a : Amount} (h : Written cs a) : Ink cs := by
  cases h with
  | nan hsign hname => exact ink_append.2 ⟨hsign.ink, ink_of_map_toLower (by rw [hname]; simp [Ink])⟩
  | infinite hsign hname =>
    refine ink_append.2 ⟨hsign.ink, ink_of_map_toLower ?_⟩
    rcases hname with hname | hname <;> rw [hname] <;> simp [Ink]
  | decimal hsign _ hfigure => exact ink_append.2 ⟨hsign.ink, ink_of_filter hfigure.ink⟩

/-- The codes of the characters at the margins. -/
def marginCodes : List Nat := [9, 10, 11, 12, 13, 32] ++ Text.wideBlanks

theorem toNat_of_isMargin {c : Char} (h : isMargin c = true) : c.toNat ∈ marginCodes := by
  simp only [isMargin, Text.isBlank, Bool.and_eq_true, Bool.or_eq_true, Bool.not_eq_true', Bool.and_eq_false_iff,
    decide_eq_true_eq, decide_eq_false_iff_not, List.contains_iff_mem] at h
  rw [marginCodes, List.mem_append]
  rcases h with ⟨(hcode | hcode) | hcode, hcontrol⟩
  · left
    simp only [List.mem_cons, List.not_mem_nil]
    omega
  · left
    simp only [List.mem_cons, List.not_mem_nil]
    omega
  · exact Or.inr hcode

/-- No digit of any script is a blank. -/
theorem plainDigit_of_isMargin {c : Char} (h : isMargin c = true) : Text.plainDigit c = c := by
  have hcodes : ∀ n ∈ marginCodes, Text.zeros.find? (fun z => z ≤ n && n < z + 10) = none := by decide
  simp [Text.plainDigit, Text.digitValue?, hcodes c.toNat (toNat_of_isMargin h)]

theorem isMargin_of_ink {c : Char} (h : 33 ≤ c.toNat ∧ c.toNat ≤ 126) : isMargin c = false := by
  have hcodes : ∀ n ∈ marginCodes, ¬ (33 ≤ n ∧ n ≤ 126) := by decide
  exact Bool.eq_false_iff.2 fun hmargin => hcodes c.toNat (toNat_of_isMargin hmargin) h

theorem content_eq (cs : List Char) : content cs = (Text.trim isMargin cs).map Text.plainDigit := rfl

/-- **A text is read as a number just when it spells one.** -/
theorem readReal_eq_some_iff : readReal cs = some x ↔ ∃ a, Spells cs a ∧ a.rounded = x := by
  constructor
  · intro h
    obtain ⟨a, hwritten, hx⟩ := readSigned_eq_some_iff.1 h
    obtain ⟨front, back, hcs, hends⟩ := Text.exists_trim isMargin cs
    exact ⟨a, ⟨front, _, back, hcs, hends, hwritten⟩, hx⟩
  · rintro ⟨a, ⟨front, mid, back, rfl, hends, hwritten⟩, rfl⟩
    have hmid : ∀ c ∈ mid, isMargin c = false := by
      intro c hc
      refine Bool.eq_false_iff.2 fun hmargin => ?_
      have hink := isMargin_of_ink (hwritten.ink _ (List.mem_map_of_mem hc))
      rw [plainDigit_of_isMargin hmargin, hmargin] at hink
      cases hink
    have htrim : Text.trim isMargin (front ++ mid ++ back) = mid :=
      Text.trim_append hends (fun c hc => hmid c (List.mem_of_mem_head? hc)) fun c hc => hmid c (List.mem_of_mem_getLast? hc)
    rw [readReal, content_eq, htrim, readSigned_eq_some_iff]
    exact ⟨a, hwritten, rfl⟩

end Reading

end Number

end BlockFlow
