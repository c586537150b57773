import BlockFlow.Proofs.Calendar

/-!
The order of time stamps. The fields of a stamp have fixed widths and go from the year down to the milliseconds, so stamps
stand in the order of code points as their instants stand in time, up to what is cut off.

* `Ranked`: texts of one length that are ordered as numbers are; `Ranked.append`, `ranked_padded`.
* `FallsIn`, `exists_dateIn`: the day of a year that starts in March.
* `dateRank`, `dateRank_civil_lt`: **dates follow each other as their days do.**
* `Clock.rank`, `Clock.rank_ofInstant_lt`, `Stamp.ranked_write`: the reading of a clock as one number.
* `Instant.savedStamp_lt_iff`: **the stamps of two instants are ordered as their milliseconds.**
-/

namespace BlockFlow

variable {α : Type}

/-! ## Texts that are ordered as numbers -/

/-- Texts that start with parts of one length are compared by these parts first. -/
theorem append_lt_append_iff {as bs cs ds : List Char} (h : as.length = bs.length) :
    as ++ cs < bs ++ ds ↔ as < bs ∨ (as = bs ∧ cs < ds) := by
  induction as generalizing bs with
  | nil =>
    obtain rfl : bs = [] := List.eq_nil_of_length_eq_zero h.symm
    simp
  | cons a as ih =>
    cases bs with
    | nil => cases h
    | cons b bs =>
      rw [List.cons_append, List.cons_append, List.cons_lt_cons_iff, List.cons_lt_cons_iff, ih (Nat.succ.inj h),
        List.cons.injEq, and_or_left, or_assoc, and_assoc]

section Places

variable {a b r s bound : Int} (hr : 0 ≤ r ∧ r < bound) (hs : 0 ≤ s ∧ s < bound)
include hr hs

theorem places_lt (h : a < b) : a * bound + r < b * bound + s :=
  calc a * bound + r < a * bound + bound := by omega
    _ = (a + 1) * bound := by rw [Int.add_mul, Int.one_mul]
    _ ≤ b * bound := Int.mul_le_mul_of_nonneg_right (by omega) (by omega)
    _ ≤ b * bound + s := by omega

/-- Numbers are compared by their upper digits first. -/
theorem places_lt_iff : a * bound + r < b * bound + s ↔ a < b ∨ (a = b ∧ r < s) := by
  rcases Int.lt_trichotomy a b with h | rfl | h
  · exact iff_of_true (places_lt hr hs h) (Or.inl h)
  · omega
  · have := places_lt hs hr h
    omega

theorem places_eq_iff : a * bound + r = b * bound + s ↔ a = b ∧ r = s := by
  rcases Int.lt_trichotomy a b with h | rfl | h
  · have := places_lt hr hs h
    omega
  · omega
  · have := places_lt hs hr h
    omega

end Places

/-- The texts have one length and are ordered as numbers of a range are. -/
structure Ranked (text : α → List Char) (rank : α → Int) (bound : Int) : Prop where
  range : ∀ x, 0 ≤ rank x ∧ rank x < bound
  length : ∀ x y, (text x).length = (text y).length
  lt_iff : ∀ x y, text x < text y ↔ rank x < rank y
  eq_iff : ∀ x y, text x = text y ↔ rank x = rank y

namespace Ranked

variable {text text' : α → List Char} {rank rank' : α → Int} {bound bound' : Int}

/-- Texts behind texts are the lower digits of a number. -/
theorem append (h : Ranked text rank bound) (h' : Ranked text' rank' bound') :
    Ranked (fun x => text x ++ text' x) (fun x => rank x * bound' + rank' x) (bound * bound') where
  range x := by
    obtain ⟨hlow, hhigh⟩ := h.range x
    have hrank := h'.range x
    constructor
    · exact Int.add_nonneg (Int.mul_nonneg hlow (by omega)) hrank.1
    · have := places_lt (s := 0) hrank (by omega) hhigh
      omega
  length x y := by rw [List.length_append, List.length_append, h.length x y, h'.length x y]
  lt_iff x y := by
    rw [append_lt_append_iff (h.length x y), h.lt_iff, h.eq_iff, h'.lt_iff, places_lt_iff (h'.range x) (h'.range y)]
  eq_iff x y := by
    rw [places_eq_iff (h'.range x) (h'.range y), ← h.eq_iff, ← h'.eq_iff]
    exact ⟨fun heq => List.append_inj heq (h.length x y), fun heq => by rw [heq.1, heq.2]⟩

/-- A text that is the same everywhere, behind texts. -/
theorem append_const (h : Ranked text rank bound) (cs : List Char) : Ranked (fun x => text x ++ cs) rank bound where
  range := h.range
  length x y := by rw [List.length_append, List.length_append, h.length x y]
  lt_iff x y := by
    rw [append_lt_append_iff (h.length x y), h.lt_iff]
    exact or_iff_left fun heq => List.lt_irrefl cs heq.2
  eq_iff x y := by rw [List.append_left_inj, h.eq_iff]

end Ranked

/-! ## Digits -/

/-- The digit of a number below ten. -/
theorem ranked_digit {rank : α → Int} (h : ∀ x, 0 ≤ rank x ∧ rank x < 10) :
    Ranked (fun x => [(rank x).natAbs.digitChar]) rank 10 where
  range := h
  length _ _ := rfl
  lt_iff x y := by
    obtain ⟨hx, hy⟩ := And.intro (h x) (h y)
    rw [List.cons_lt_cons_iff, Char.lt_def, UInt32.lt_iff_toNat_lt]
    change (rank x).natAbs.digitChar.toNat < (rank y).natAbs.digitChar.toNat ∨ _ ↔ _
    rw [Nat.toNat_digitChar_of_lt_ten (by omega), Nat.toNat_digitChar_of_lt_ten (by omega)]
    simp only [List.lt_irrefl, and_false, or_false]
    omega
  eq_iff x y := by
    obtain ⟨hx, hy⟩ := And.intro (h x) (h y)
    simp only [List.cons.injEq, and_true]
    rw [← Char.toNat_inj, Nat.toNat_digitChar_of_lt_ten (by omega), Nat.toNat_digitChar_of_lt_ten (by omega)]
    omega

theorem toList_padded_one {n : Int} (h : 0 ≤ n ∧ n < 10) : (Stamp.padded 1 n).toList = [n.natAbs.digitChar] := by
  simp [Stamp.padded, Nat.toDigits_of_lt_base (show n.natAbs < 10 by omega)]

/-- The last digit of a padded number stands behind the padded number of the others. -/
theorem toList_padded_succ (width : Nat) {n : Int} (h : 0 ≤ n) :
    (Stamp.padded (width + 2) n).toList = (Stamp.padded (width + 1) (n / 10)).toList ++ [(n % 10).natAbs.digitChar] := by
  obtain ⟨m, rfl⟩ := Int.eq_ofNat_of_zero_le h
  have hdiv : ((m : Int) / 10).natAbs = m / 10 := by omega
  have hmod : ((m : Int) % 10).natAbs = m % 10 := by omega
  simp only [Stamp.padded, String.toList_ofList, Int.natAbs_natCast, hdiv, hmod]
  by_cases hten : 10 ≤ m
  · rw [Nat.toDigits_of_base_le (by decide) hten]
    simp
  · have hm : m < 10 := by omega
    rw [Nat.toDigits_of_lt_base hm, Nat.div_eq_of_lt hm, Nat.mod_eq_of_lt hm, Nat.toDigits_of_lt_base (by decide)]
    simp [List.replicate_succ']

/-- **Numbers that are padded to one width are ordered as texts.** -/
theorem ranked_padded {width : Nat} {rank : α → Int} (h : ∀ x, 0 ≤ rank x ∧ rank x < Int.pow 10 (width + 1)) :
    Ranked (fun x => (Stamp.padded (width + 1) (rank x)).toList) rank (Int.pow 10 (width + 1)) := by
  induction width generalizing rank with
  | zero =>
    have hdigit : ∀ x, 0 ≤ rank x ∧ rank x < 10 := h
    simp only [Nat.zero_add, toList_padded_one (hdigit _)]
    exact ranked_digit hdigit
  | succ width ih =>
    have hpow : Int.pow 10 (width + 1 + 1) = Int.pow 10 (width + 1) * 10 := rfl
    have hupper : ∀ x, 0 ≤ rank x / 10 ∧ rank x / 10 < Int.pow 10 (width + 1) := by
      intro x
      have := h x
      omega
    have hlower : ∀ x, 0 ≤ rank x % 10 ∧ rank x % 10 < 10 := by
      intro x
      omega
    have hsplit : (fun x => rank x / 10 * 10 + rank x % 10) = rank := by
      funext x
      omega
    have hranked := (ih hupper).append (ranked_digit hlower)
    rw [hsplit, ← hpow] at hranked
    simpa only [toList_padded_succ width (h _).1] using hranked

/-! ## Dates -/

/-- The first day of a year that starts in March, counted from that of the year 0. -/
def yearStart (year : Int) : Int := 365 * year + year / 4 - year / 100 + year / 400

/-- The date of a day of a year that starts in March. -/
def dateIn (year dayOfYear : Int) : Int × Int × Int :=
  let shifted := (5 * dayOfYear + 2) / 153
  let month := if shifted < 10 then shifted + 3 else shifted - 9
  (if month ≤ 2 then year + 1 else year, month, dayOfYear - (153 * shifted + 2) / 5 + 1)

/-- A day, counted from 1970-01-01, is that day of a year that starts in March. -/
structure FallsIn (days year dayOfYear : Int) : Prop where
  first : 0 ≤ dayOfYear
  last : dayOfYear < yearStart (year + 1) - yearStart year
  number : days + 719468 = yearStart year + dayOfYear

theorem yearLength_bounds (year : Int) :
    365 ≤ yearStart (year + 1) - yearStart year ∧ yearStart (year + 1) - yearStart year ≤ 366 := by
  simp only [yearStart]
  omega

theorem yearStart_le {year later : Int} (h : year < later) : yearStart (year + 1) ≤ yearStart later := by
  simp only [yearStart]
  omega

theorem FallsIn.bounds {days year dayOfYear : Int} (h : FallsIn days year dayOfYear) : 0 ≤ dayOfYear ∧ dayOfYear ≤ 365 := by
  obtain ⟨hfirst, hlast, -⟩ := h
  have hlength := yearLength_bounds year
  omega

/-- An era of 400 years has 146097 days. -/
theorem yearStart_add_eras (year eras : Int) : yearStart (year + eras * 400) = yearStart year + eras * 146097 := by
  simp only [yearStart]
  omega

section Era

variable {day : Int} (hday : 0 ≤ day) (hera : day < 146097)
include hday hera

theorem yearOfEra_leaps : 4 * (day / 1460) ≤ yearOfEra day + 1 := by
  unfold yearOfEra
  omega

/-- The year after the one that is found for a day of an era starts after that day. -/
theorem lt_yearStart_yearOfEra : day < yearStart (yearOfEra day + 1) := by
  by_cases hlast : day = 146096
  · subst hlast
    decide
  · have hcentury := yearOfEra_century hday hera hlast
    have hleaps := yearOfEra_leaps hday hera
    have hyear : 0 ≤ yearOfEra day ∧ day - day / 1460 + day / 36524 ≤ 365 * yearOfEra day + 364 := by
      unfold yearOfEra
      omega
    rw [yearStart]
    generalize yearOfEra day = year at *
    -- the last year of a century ends with it
    by_cases hend : year % 100 = 99
    · have hsplit : year = 100 * (day / 36524) + 99 := by omega
      subst hsplit
      omega
    · have hnext : (year + 1) / 100 = day / 36524 := by omega
      have hfours : day / 1460 ≤ (year + 1) / 4 := by omega
      omega

end Era

/-- A day falls into a year that starts in March. -/
theorem exists_dateIn (days : Int) : ∃ year dayOfYear, FallsIn days year dayOfYear ∧ civil days = dateIn year dayOfYear := by
  have hday : 0 ≤ days + 719468 - (days + 719468) / 146097 * 146097 := by omega
  have hera : days + 719468 - (days + 719468) / 146097 * 146097 < 146097 := by omega
  have hyear := yearOfEra_bounds hday hera
  have hfirst := (dayOfYear_bounds hday hera).1
  have hnext := lt_yearStart_yearOfEra hday hera
  refine ⟨yearOfEra _ + (days + 719468) / 146097 * 400, _, ⟨hfirst, ?_, ?_⟩, rfl⟩
  · rw [Int.add_right_comm, yearStart_add_eras, yearStart_add_eras]
    simp only [yearStart] at hnext ⊢
    generalize yearOfEra _ = year at *
    omega
  · rw [yearStart_add_eras, yearStart]
    omega

/-- A date as one number: four digits of month and day behind those of the year. -/
def dateRank (date : Int × Int × Int) : Int := (date.1 * 100 + date.2.1) * 100 + date.2.2

theorem dateIn_bounds {dayOfYear : Int} (h : 0 ≤ dayOfYear ∧ dayOfYear ≤ 365) (year : Int) :
    (1 ≤ (dateIn year dayOfYear).2.1 ∧ (dateIn year dayOfYear).2.1 ≤ 12) ∧
      1 ≤ (dateIn year dayOfYear).2.2 ∧ (dateIn year dayOfYear).2.2 ≤ 31 := by
  simp only [dateIn]
  omega

/-- Within a year that starts in March, the dates follow each other as the days do. -/
theorem dateRank_dateIn_lt {year day day' : Int} (hday : 0 ≤ day ∧ day ≤ 365) (hday' : 0 ≤ day' ∧ day' ≤ 365)
    (h : day < day') : dateRank (dateIn year day) < dateRank (dateIn year day') := by
  have hbounds := (dateIn_bounds hday year).2
  have hbounds' := (dateIn_bounds hday' year).2
  have hmonths : (5 * day + 2) / 153 ≤ (5 * day' + 2) / 153 := by omega
  have hend : (5 * day' + 2) / 153 ≤ 11 := by omega
  simp only [dateRank, dateIn] at hbounds hbounds' ⊢
  rcases Int.lt_or_eq_of_le hmonths with hmonths | hmonths
  · generalize (5 * day + 2) / 153 = month at *
    generalize (5 * day' + 2) / 153 = month' at *
    omega
  · rw [hmonths]
    omega

/-- **Dates follow each other as their days do.** -/
theorem dateRank_civil_lt {days later : Int} (h : days < later) : dateRank (civil days) < dateRank (civil later) := by
  obtain ⟨year, day, hfalls, hdate⟩ := exists_dateIn days
  obtain ⟨year', day', hfalls', hdate'⟩ := exists_dateIn later
  have hday := hfalls.bounds
  have hday' := hfalls'.bounds
  -- a later day does not fall into an earlier year
  have hyears : year ≤ year' := by
    refine Int.not_lt.1 fun hyears => ?_
    obtain ⟨-, hlast, hnumber⟩ := hfalls'
    have := yearStart_le hyears
    have := hfalls.number
    omega
  rw [hdate, hdate']
  rcases Int.lt_or_eq_of_le hyears with hyears | rfl
  · simp only [dateRank, dateIn]
    omega
  · refine dateRank_dateIn_lt hday hday' ?_
    have := hfalls.number
    have := hfalls'.number
    omega

/-! ## Readings of a clock -/

namespace Clock

/-- A reading as one number, of all digits down to the milliseconds. -/
def rank (c : Clock) : Int :=
  (((dateRank (c.year, c.month, c.day) * 100 + c.hour) * 100 + c.minute) * 100 + c.second) * 1000 + c.micro / 1000

/-- The fields of a reading fit the digits that a stamp has for them. -/
structure Fits (c : Clock) : Prop where
  year : 0 ≤ c.year ∧ c.year < 10000
  month : 0 ≤ c.month ∧ c.month < 100
  day : 0 ≤ c.day ∧ c.day < 100
  hour : 0 ≤ c.hour ∧ c.hour < 100
  minute : 0 ≤ c.minute ∧ c.minute < 100
  second : 0 ≤ c.second ∧ c.second < 100
  micro : 0 ≤ c.micro ∧ c.micro < 1000000

theorem fits_ofInstant {t : Int} (h : 1 ≤ (ofInstant t).year ∧ (ofInstant t).year ≤ 9999) : (ofInstant t).Fits := by
  obtain ⟨year, day, hfalls, hdate⟩ := exists_dateIn (t / 1000000 / 86400)
  obtain ⟨hmonth, hday⟩ : (1 ≤ (ofInstant t).month ∧ (ofInstant t).month ≤ 12) ∧
      1 ≤ (ofInstant t).day ∧ (ofInstant t).day ≤ 31 := by
    have hbounds := dateIn_bounds hfalls.bounds year
    rw [← hdate] at hbounds
    exact hbounds
  refine ⟨by omega, by omega, by omega, ?_, ?_, ?_, ?_⟩
  all_goals
    simp only [ofInstant]
    omega

/-- The minute of a day as a number of four digits, those of the hour first. -/
def minuteRank (minute : Int) : Int := minute / 60 * 100 + minute % 60

theorem minuteRank_lt {m n : Int} (h : m < n) : minuteRank m < minuteRank n := by
  simp only [minuteRank]
  omega

theorem rank_ofInstant (t : Int) :
    (ofInstant t).rank = dateRank (civil (t / 1000000 / 86400)) * 1000000000 +
      minuteRank (t / 1000000 % 86400 / 60) * 100000 + t / 1000000 % 86400 % 60 * 1000 + t % 1000000 / 1000 := by
  change (((dateRank (civil (t / 1000000 / 86400)) * 100 + t / 1000000 % 86400 / 3600) * 100 +
    t / 1000000 % 86400 / 60 % 60) * 100 + t / 1000000 % 86400 % 60) * 1000 + t % 1000000 / 1000 = _
  simp only [minuteRank]
  omega

/-- **Readings follow each other as their milliseconds do.** -/
theorem rank_ofInstant_lt {t u : Int} (h : t / 1000 < u / 1000) : (ofInstant t).rank < (ofInstant u).rank := by
  rw [rank_ofInstant, rank_ofInstant]
  have hrange (s : Int) : 0 ≤ minuteRank (s % 86400 / 60) ∧ minuteRank (s % 86400 / 60) ≤ 2359 := by
    simp only [minuteRank]
    omega
  have ht := hrange (t / 1000000)
  have hu := hrange (u / 1000000)
  have hdays : t / 1000000 / 86400 ≤ u / 1000000 / 86400 := by omega
  rcases Int.lt_or_eq_of_le hdays with hdays | hdays
  · have hdates := dateRank_civil_lt hdays
    omega
  · rw [hdays]
    have hminutes : t / 1000000 % 86400 / 60 ≤ u / 1000000 % 86400 / 60 := by omega
    rcases Int.lt_or_eq_of_le hminutes with hminutes | hminutes
    · have hranks := minuteRank_lt hminutes
      omega
    · rw [hminutes]
      omega

theorem rank_ofInstant_congr {t u : Int} (h : t / 1000 = u / 1000) : (ofInstant t).rank = (ofInstant u).rank := by
  have hseconds : t / 1000000 = u / 1000000 := by omega
  have hmillis : t % 1000000 / 1000 = u % 1000000 / 1000 := by omega
  rw [rank_ofInstant, rank_ofInstant, hseconds, hmillis]

end Clock

/-- **Stamps are ordered as the readings of their clocks.** -/
theorem Stamp.ranked_write {clock : α → Clock} (h : ∀ x, (clock x).Fits) :
    Ranked (fun x => (Stamp.write 4 (clock x)).toList) (fun x => (clock x).rank) (Int.pow 10 17) := by
  have hyear : Ranked (fun x => (Stamp.padded 4 (clock x).year).toList) (fun x => (clock x).year) 10000 :=
    ranked_padded fun x => (h x).year
  have hfield {field : α → Int} (hrange : ∀ x, 0 ≤ field x ∧ field x < 100) :
      Ranked (fun x => (Stamp.padded 2 (field x)).toList) field 100 := ranked_padded hrange
  have hmillis : ∀ x, 0 ≤ (clock x).micro / 1000 ∧ (clock x).micro / 1000 < 1000 := by
    intro x
    have hmicro := (h x).micro
    omega
  have hmilli : Ranked (fun x => (Stamp.padded 3 ((clock x).micro / 1000)).toList) (fun x => (clock x).micro / 1000) 1000 :=
    ranked_padded hmillis
  have hmonth := (hyear.append_const "-".toList).append (hfield fun x => (h x).month)
  have hdate := (hmonth.append_const "-".toList).append (hfield fun x => (h x).day)
  have hhour := (hdate.append_const "T".toList).append (hfield fun x => (h x).hour)
  have hminute := (hhour.append_const ":".toList).append (hfield fun x => (h x).minute)
  have hsecond := (hminute.append_const ":".toList).append (hfield fun x => (h x).second)
  have hstamp := ((hsecond.append_const ".".toList).append hmilli).append_const "Z".toList
  have hbound : Int.pow 10 17 = 10000 * 100 * 100 * 100 * 100 * 100 * 1000 := by decide
  simp only [Stamp.write, String.toList_append, hbound]
  exact hstamp

namespace Instant

theorem ranked_savedStamp :
    Ranked (fun t : Instant => t.savedStamp.toList) (fun t => (Clock.ofInstant t.micros).rank) (Int.pow 10 17) :=
  Stamp.ranked_write fun t => Clock.fits_ofInstant t.shown

/-- The millisecond that an instant falls into. -/
def milli (t : Instant) : Int := t.micros / 1000

/-- **The stamps of two instants are ordered as their milliseconds.** -/
theorem savedStamp_lt_iff (t u : Instant) : t.savedStamp < u.savedStamp ↔ t.milli < u.milli := by
  rw [String.lt_iff, ranked_savedStamp.lt_iff]
  refine ⟨fun h => Int.not_le.1 fun hle => ?_, Clock.rank_ofInstant_lt⟩
  rcases Int.lt_or_eq_of_le hle with hlt | heq
  · have := Clock.rank_ofInstant_lt hlt
    omega
  · have := Clock.rank_ofInstant_congr heq
    omega

end Instant

end BlockFlow
