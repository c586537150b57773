import BlockFlow.Proofs.Settings
import BlockFlow.Runner.Execute
import BlockFlow.Value.Order

/-!
Time limits. A runner takes its limit from the settings, as a text that a person has typed. What is not above zero is passed
over for thirty seconds.

* `Binary64.isNonPositive_ofDecimal`: **a decimal is rounded to a number above zero** if it is more than half of the least
  one.
* `Number.Amount.Exceeds`: an amount is above a bound.
* `Runner.LimitSource`: the text that a limit is read from; `Runner.limitOf`: the limit that a text gives.
* `Runner.make_limit`: **the limit of a runner that is told none**; `Runner.make_limit_nan`: it may be no number.
-/

namespace BlockFlow

open Runner (isNonPositive)

/-! ## Numbers above zero -/

namespace Binary64

variable {num den c : Nat} {e : Int} {s : Bool}

theorem roundHalfEven_eq_zero_iff (hden : 0 < den) : roundHalfEven num den = 0 ↔ 2 * num ≤ den := by
  by_cases hlt : num < den
  · simp only [roundHalfEven, Nat.div_eq_of_lt hlt, Nat.mod_eq_of_lt hlt]
    split
    · omega
    · split <;> simp <;> omega
  · have hquotient : 0 < num / den := Nat.div_pos (by omega) hden
    have hround : roundHalfEven num den ≠ 0 := by
      unfold roundHalfEven
      dsimp only
      split
      · omega
      · split
        · omega
        · split <;> omega
    simp only [hround, false_iff]
    omega

/-- Half of the least number above zero. -/
def halfLeast : ℚ := 2 ^ (-1075 : Int)

theorem two_mul_halfLeast : 2 * halfLeast = 2 ^ (-1074 : Int) := by
  rw [halfLeast, ← zpow_one_add₀ (by norm_num)]
  norm_num

theorem halfLeast_pos : 0 < halfLeast := zpow_pos (by norm_num) _

theorem halfLeast_lt_one : halfLeast < 1 := zpow_lt_one_of_neg₀ (by norm_num) (by norm_num)

/-- A quotient is rounded to zero if it is at most half of the least number, and its exponent is the least one then. -/
theorem roundHalfEven_scale_eq_zero_iff (hnum : num ≠ 0) (hden : den ≠ 0) (he : exponentFor num den = e) :
    roundHalfEven (scale num den e).1 (scale num den e).2 = 0 ↔ e = -1074 ∧ (num : ℚ) ≤ den * halfLeast := by
  have hpos : 0 < den := Nat.pos_of_ne_zero hden
  have hden' : (0 : ℚ) < den := Nat.cast_pos.2 hpos
  have hscaled : (0 : ℚ) < (scale num den e).2 := Nat.cast_pos.2 (scale_snd_pos hpos e)
  have hcast := scale_cast num den e
  obtain ⟨hleast, -, hno⟩ := (exponentFor_eq_iff hnum hden).1 he
  have hpow : (0 : ℚ) < 2 ^ e := zpow_pos (by norm_num) e
  -- the scaled quotient is at most a half if the quotient is at most half of the unit
  have hhalf : 2 * (scale num den e).1 ≤ (scale num den e).2 ↔ 2 * (num : ℚ) ≤ den * 2 ^ e := by
    have hunit : (0 : ℚ) < den * 2 ^ e := mul_pos hden' hpow
    calc 2 * (scale num den e).1 ≤ (scale num den e).2
        ↔ 2 * ((scale num den e).1 : ℚ) ≤ (scale num den e).2 := by exact_mod_cast Iff.rfl
      _ ↔ 2 * ((scale num den e).1 : ℚ) * (den * 2 ^ e) ≤ (scale num den e).2 * (den * 2 ^ e) :=
        (mul_le_mul_iff_left₀ hunit).symm
      _ ↔ (scale num den e).2 * (2 * (num : ℚ)) ≤ (scale num den e).2 * (den * 2 ^ e) := by
        rw [show 2 * ((scale num den e).1 : ℚ) * (den * 2 ^ e) = (scale num den e).2 * (2 * num) by linarith]
      _ ↔ 2 * (num : ℚ) ≤ den * 2 ^ e := mul_le_mul_iff_right₀ hscaled
  rw [roundHalfEven_eq_zero_iff (scale_snd_pos hpos e), hhalf]
  constructor
  · intro h
    rcases hno with rfl | hno
    · refine ⟨rfl, ?_⟩
      rw [← two_mul_halfLeast] at h
      linarith
    · -- above the least exponent the quotient has 53 bits before the point
      have hbits : (2 : ℚ) ^ (53 + (e - 1)) = 2 ^ (52 : Int) * 2 ^ e := by
        rw [← zpow_add₀ (by norm_num)]
        congr 1
        omega
      rw [Fits, not_lt, hbits] at hno
      norm_num at hno
      have := mul_pos hden' hpow
      linarith
  · rintro ⟨rfl, h⟩
    rw [← two_mul_halfLeast]
    linarith

theorem isNonPositive_pack (s : Bool) (m : Nat) (e : Int) :
    isNonPositive (pack s m e) = true ↔ s = true ∨ (m = 0 ∧ Normal m e) := by
  unfold pack
  split
  · rename_i hnormal
    simp [isNonPositive, hnormal]
  · rename_i hnormal
    simp [isNonPositive, hnormal]

theorem exponentFor_of_le_halfLeast (hnum : num ≠ 0) (hden : den ≠ 0) (h : (num : ℚ) ≤ den * halfLeast) :
    exponentFor num den = -1074 := by
  have hden' : (0 : ℚ) < den := Nat.cast_pos.2 (Nat.pos_of_ne_zero hden)
  have hpow : halfLeast < 2 ^ (53 + -1074 : Int) := zpow_lt_zpow_right₀ (by norm_num) (by norm_num)
  exact (exponentFor_eq_iff hnum hden).2 ⟨le_refl _, lt_of_le_of_lt h (mul_lt_mul_of_pos_left hpow hden'), Or.inl rfl⟩

/-- A quotient is rounded to a number above zero if it is more than half of the least one. -/
theorem isNonPositive_ofRatio (s : Bool) (num : Nat) (hden : den ≠ 0) :
    isNonPositive (ofRatio s num den) = true ↔ s = true ∨ (num : ℚ) ≤ den * halfLeast := by
  by_cases hnum : num = 0
  · subst hnum
    have : (0 : ℚ) ≤ den * halfLeast := mul_nonneg (Nat.cast_nonneg den) halfLeast_pos.le
    simp [ofRatio, zero, isNonPositive, this]
  have hzero := roundHalfEven_scale_eq_zero_iff hnum hden rfl
  by_cases hsmall : (num : ℚ) ≤ den * halfLeast
  · have hleast := exponentFor_of_le_halfLeast hnum hden hsmall
    have hround := hzero.2 ⟨hleast, hsmall⟩
    simp only [ofRatio, if_neg hnum, hround, hsmall, or_true, iff_true]
    rw [if_neg (by decide), isNonPositive_pack, hleast]
    exact Or.inr ⟨rfl, by decide⟩
  · have hround : roundHalfEven (scale num den (exponentFor num den)).1 (scale num den (exponentFor num den)).2 ≠ 0 :=
      fun h => hsmall (hzero.1 h).2
    simp only [ofRatio, if_neg hnum, hsmall, or_false]
    split
    · simp [isNonPositive_pack]
    · simp [isNonPositive_pack, hround]

/-- A decimal lies between the powers of ten that its digits tell. -/
theorem decimal_bounds (hc : c ≠ 0) (e : Int) :
    (10 : ℚ) ^ ((Nat.toDigits 10 c).length + e - 1) ≤ c * 10 ^ e ∧
      (c : ℚ) * 10 ^ e < 10 ^ ((Nat.toDigits 10 c).length + e) := by
  have hpos := Nat.length_toDigits_pos (b := 10) (n := c)
  have hten : (0 : ℚ) < 10 ^ e := zpow_pos (by norm_num) e
  constructor
  · obtain ⟨k, hk⟩ : ∃ k, (Nat.toDigits 10 c).length = k + 1 := ⟨_, (Nat.succ_pred_eq_of_pos hpos).symm⟩
    have hlow : 10 ^ k ≤ c := by
      by_contra hlt
      cases k with
      | zero => omega
      | succ k =>
        have := (Nat.length_toDigits_le_iff (b := 10) (by decide) (by omega)).2 (Nat.lt_of_not_le hlt)
        omega
    rw [hk, show ((k + 1 : Nat) : Int) + e - 1 = k + e by push_cast; ring, zpow_add₀ (by norm_num), zpow_natCast]
    exact mul_le_mul_of_nonneg_right (by exact_mod_cast hlow) hten.le
  · have hhigh : c < 10 ^ (Nat.toDigits 10 c).length :=
      (Nat.length_toDigits_le_iff (b := 10) (by decide) hpos).1 (le_refl _)
    rw [zpow_add₀ (by norm_num), zpow_natCast]
    exact mul_lt_mul_of_pos_right (by exact_mod_cast hhigh) hten

/-- What is below the range of decimals that are looked at is less than half of the least number. -/
theorem ten_zpow_le_halfLeast : (10 : ℚ) ^ (-326 : Int) ≤ halfLeast := by
  have hpow : (2 : Nat) ^ 1075 ≤ 10 ^ 326 :=
    calc (2 : Nat) ^ 1075 = 2 * 2 ^ 1074 := by rw [← pow_succ']
      _ ≤ 10 ^ 2 * 10 ^ 324 := Nat.mul_le_mul (by norm_num) two_pow_1074_lt.le
      _ = 10 ^ 326 := by rw [← pow_add]
  rw [halfLeast, zpow_neg, zpow_neg]
  exact inv_anti₀ (by positivity) (by exact_mod_cast hpow)

/-- **A decimal is rounded to a number above zero** if it is more than half of the least one. -/
theorem isNonPositive_ofDecimal (s : Bool) (c : Nat) (e : Int) :
    isNonPositive (ofDecimal s c e) = true ↔ s = true ∨ (c : ℚ) * 10 ^ e ≤ halfLeast := by
  by_cases hc : c = 0
  · subst hc
    simp [ofDecimal, zero, isNonPositive, halfLeast_pos.le]
  obtain ⟨hlow, hhigh⟩ := decimal_bounds hc e
  by_cases hlarge : 310 < ((Nat.toDigits 10 c).length : Int) + e
  · have hpow : (1 : ℚ) ≤ 10 ^ ((Nat.toDigits 10 c).length + e - 1) := one_le_zpow₀ (by norm_num) (by omega)
    have hnot : ¬ (c : ℚ) * 10 ^ e ≤ halfLeast := not_le.2 (halfLeast_lt_one.trans_le (hpow.trans hlow))
    simp [ofDecimal, hc, hlarge, isNonPositive, hnot]
  by_cases hsmall : ((Nat.toDigits 10 c).length : Int) + e < -325
  · have hpow : (10 : ℚ) ^ (((Nat.toDigits 10 c).length : Int) + e) ≤ 10 ^ (-326 : Int) :=
      zpow_le_zpow_right₀ (by norm_num) (by omega)
    have hle : (c : ℚ) * 10 ^ e ≤ halfLeast := by linarith [ten_zpow_le_halfLeast]
    simp [ofDecimal, hc, hlarge, hsmall, isNonPositive, zero, hle]
  rw [ofDecimal_eq_ofRatio hc (by omega) (by omega)]
  split
  · rename_i he
    obtain ⟨n, rfl⟩ := Int.eq_ofNat_of_zero_le he
    rw [isNonPositive_ofRatio s _ (by decide), Int.toNat_natCast, Nat.pow_eq, zpow_natCast]
    push_cast
    rw [one_mul]
  · rename_i he
    obtain ⟨n, rfl⟩ : ∃ n : Nat, e = -n := ⟨(-e).toNat, by omega⟩
    have hten : (0 : ℚ) < 10 ^ n := by positivity
    rw [neg_neg, Int.toNat_natCast, Nat.pow_eq, isNonPositive_ofRatio s c (by simp), zpow_neg, zpow_natCast,
      ← div_eq_mul_inv, div_le_iff₀' hten]
    push_cast
    rfl

theorem isNan_eq_false_iff {x : Binary64} : x.isNan = false ↔ ∀ mark, x ≠ .nan mark := by
  cases x <;> simp [isNan]

/-- A number is more than zero if it is one and is not at most zero. -/
theorem less_zero (x : Binary64) : Value.less (.int 0) (.real x) = .ok (!x.isNan && !isNonPositive x) := by
  cases x with
  | nan mark => rfl
  | infinite negative => cases negative <;> rfl
  | finite negative m e normal =>
    have hless : Value.less (.int 0) (.real (.finite negative m e normal)) =
        .ok (decide (0 * ((quotient m e).2 : Int) <
          (if negative then -((quotient m e).1 : Int) else ((quotient m e).1 : Int)) * (1 : Nat))) := rfl
    have hzero : (quotient m e).1 = 0 ↔ m = 0 := by
      refine ⟨fun h => by_contra fun hm => quotient_fst_ne_zero hm e h, fun hm => ?_⟩
      rw [hm, quotient]
      split <;> simp
    rw [hless]
    cases negative with
    | true => simp [isNan, isNonPositive]
    | false => simp [isNan, isNonPositive, Nat.pos_iff_ne_zero, hzero, beq_eq_decide]

end Binary64

namespace Number

/-- The amount is above a bound. -/
def Amount.Exceeds (bound : ℚ) : Amount → Prop
  | .nan => False
  | .infinite negative => negative = false
  | .decimal negative coefficient exponent => bound < (if negative then -1 else 1) * (coefficient * 10 ^ exponent)

theorem Amount.Exceeds.mono {a : Amount} {low high : ℚ} (h : a.Exceeds high) (hle : low ≤ high) : a.Exceeds low := by
  cases a with
  | nan => exact h
  | infinite negative => exact h
  | decimal negative coefficient exponent => exact lt_of_le_of_lt hle h

theorem isNan_rounded (a : Amount) : a.rounded.isNan = true ↔ a = .nan := by
  cases a with
  | nan => exact ⟨fun _ => rfl, fun _ => rfl⟩
  | infinite negative => simp [Amount.rounded, Binary64.isNan]
  | decimal negative coefficient exponent =>
    have hnumber := Binary64.isNan_eq_false_iff.2 (Binary64.ofDecimal_ne_nan negative coefficient exponent)
    simp [Amount.rounded, hnumber]

/-- What is rounded to zero or below is a number, but not above half of the least one. -/
theorem isNonPositive_rounded (a : Amount) :
    isNonPositive a.rounded = true ↔ a ≠ .nan ∧ ¬ a.Exceeds Binary64.halfLeast := by
  cases a with
  | nan => simp [Amount.rounded, isNonPositive]
  | infinite negative => simp [Amount.rounded, isNonPositive, Amount.Exceeds]
  | decimal negative coefficient exponent =>
    rw [Amount.rounded, Binary64.isNonPositive_ofDecimal, Amount.Exceeds, not_lt]
    cases negative with
    | true =>
      have hnonneg : (0 : ℚ) ≤ coefficient * 10 ^ exponent := by positivity
      have hneg : -((coefficient : ℚ) * 10 ^ exponent) ≤ Binary64.halfLeast := by linarith [Binary64.halfLeast_pos]
      simpa using hneg
    | false => simp

end Number

/-! ## The limit of a runner -/

theorem resolveSetting_key (env : Environment) (store : Option Store) (key variableName : String) (default : Value) :
    resolveSetting env store (.text key) variableName default =
      .ok ((store.bind (·.kept key)).getD
        (if env.stripped variableName = "" then default else .text (env.stripped variableName))) := by
  cases store with
  | some s => exact resolveSetting_text env s key variableName default
  | none =>
    change Except.ok (if (env.stripped variableName).isEmpty then default else .text (env.stripped variableName)) = _
    rw [Option.bind_none, Option.getD_none]
    simp only [String.isEmpty_iff]

namespace Runner

open Number

/-- The text that a limit is read from: the one of the settings; else the variable of the environment without the blanks
around it, unless that is empty; else the default. -/
inductive LimitSource (env : Environment) : Option String → String → Prop
  | setting (text : String) : LimitSource env (some text) text
  | environment {text : String} : Text.Strips (env.valueD "BLOCKFLOW_EXEC_TIMEOUT" "") text → text ≠ "" →
      LimitSource env none text
  | default : Text.Strips (env.valueD "BLOCKFLOW_EXEC_TIMEOUT" "") "" → LimitSource env none "30.0"

/-- The limit that a text gives. -/
def limitOf (text : String) : Binary64 :=
  match readReal text.toList with
  | some x => if isNonPositive x then defaultLimit else x
  | none => defaultLimit

theorem readLimit_text (text : String) (w : Workspace) :
    ∃ notes, readLimit (.text text) w = (.ok (limitOf text), { w with notes := notes }) := by
  rw [readLimit, limitOf, Value.toReal]
  cases readReal text.toList with
  | none => exact ⟨_, rfl⟩
  | some x =>
    dsimp only
    split
    · exact ⟨_, rfl⟩
    · exact ⟨_, rfl⟩

theorem write_defaultLimit : Layout.plain.write defaultLimit = "30.0" := by decide +kernel

/-- The text for the limit is found, whatever settings and environment there are. -/
theorem exists_limitSource (env : Environment) {store : Option Store} {stored : Option String}
    (hstored : (store.bind (·.kept "exec_timeout")) = stored.map .text) :
    ∃ text, LimitSource env stored text ∧
      resolveSetting env store (.text "exec_timeout") "BLOCKFLOW_EXEC_TIMEOUT" (.text "30.0") = .ok (.text text) := by
  have hstrips : Text.Strips (env.valueD "BLOCKFLOW_EXEC_TIMEOUT" "") (env.stripped "BLOCKFLOW_EXEC_TIMEOUT") :=
    Text.strips_strip _
  rw [resolveSetting_key, hstored]
  cases stored with
  | some text => exact ⟨text, .setting text, rfl⟩
  | none =>
    by_cases hempty : env.stripped "BLOCKFLOW_EXEC_TIMEOUT" = ""
    · rw [hempty] at hstrips
      exact ⟨_, .default hstrips, by simp [hempty]⟩
    · exact ⟨_, .environment hstrips hempty, by simp [hempty]⟩

theorem setting_apply (store : Option Store) (key variableName default : String) (w : Workspace) :
    setting store key variableName default w =
      (resolveSetting w.environment store (.text key) variableName (.text default), w) := by
  rw [setting, Act.bind_apply, Act.get_apply]
  dsimp only
  rw [Act.ofExcept_apply]

/-- A runner is made without fail, and its limit is the one that the text gives. -/
theorem make_null {store : Option Store} {stored : Option String}
    (hstored : (store.bind (·.kept "exec_timeout")) = stored.map .text) (command : Value) (w : Workspace) :
    ∃ text runner, LimitSource w.environment stored text ∧ (make store .null command w).1 = .ok runner ∧
      runner.limit = .real (limitOf text) := by
  obtain ⟨text, hsource, hresolve⟩ := exists_limitSource w.environment hstored
  obtain ⟨notes, hread⟩ := readLimit_text text w
  have hlimit : settingLimit store w = (.ok (.real (limitOf text)), { w with notes := notes }) := by
    rw [settingLimit, Act.bind_apply, setting_apply, write_defaultLimit, hresolve]
    dsimp only
    rw [Act.bind_apply, hread]
    rfl
  rw [make]
  dsimp only
  rw [Act.bind_apply, hlimit]
  dsimp only
  rw [Act.bind_apply, Act.get_apply]
  dsimp only
  split
  · exact ⟨text, _, hsource, rfl, rfl⟩
  · rw [Act.bind_apply, setting_apply, resolveSetting_key]
    exact ⟨text, _, hsource, rfl, rfl⟩

section LimitOf

variable {text : String}

theorem limitOf_of_readReal {x : Binary64} (h : readReal text.toList = some x) :
    limitOf text = if isNonPositive x then defaultLimit else x := by
  rw [limitOf, h]

theorem limitOf_of_nan (h : Spells text.toList .nan) : limitOf text = .nan 1 :=
  limitOf_of_readReal (readReal_eq_some_iff.2 ⟨_, h, rfl⟩)

theorem limitOf_of_exceeds {a : Amount} (h : Spells text.toList a) (ha : a.Exceeds Binary64.halfLeast) :
    limitOf text = a.rounded := by
  rw [limitOf_of_readReal (readReal_eq_some_iff.2 ⟨a, h, rfl⟩), if_neg]
  exact fun hle => ((isNonPositive_rounded a).1 hle).2 ha

theorem limitOf_eq_defaultLimit
    (h : ∀ a, Spells text.toList a → a ≠ .nan ∧ ¬ a.Exceeds Binary64.halfLeast) : limitOf text = defaultLimit := by
  cases hread : readReal text.toList with
  | none => rw [limitOf, hread]
  | some x =>
    obtain ⟨a, ha, rfl⟩ := readReal_eq_some_iff.1 hread
    rw [limitOf_of_readReal hread, if_pos ((isNonPositive_rounded a).2 (h a ha))]

theorem isNan_defaultLimit : defaultLimit.isNan = false :=
  Binary64.isNan_eq_false_iff.2 (Binary64.ofRatio_ne_nan false 30 1)

theorem isNonPositive_limitOf (text : String) : isNonPositive (limitOf text) = false := by
  have hdefault : isNonPositive defaultLimit = false := by decide +kernel
  unfold limitOf
  split
  · split
    · exact hdefault
    · rename_i hpos
      exact Bool.eq_false_iff.2 hpos
  · exact hdefault

theorem isNan_limitOf : (limitOf text).isNan = true ↔ Spells text.toList .nan := by
  refine ⟨fun hnan => ?_, fun h => by rw [limitOf_of_nan h]; rfl⟩
  cases hread : readReal text.toList with
  | none =>
    rw [limitOf, hread] at hnan
    simp [isNan_defaultLimit] at hnan
  | some x =>
    obtain ⟨a, ha, rfl⟩ := readReal_eq_some_iff.1 hread
    rw [limitOf_of_readReal hread] at hnan
    split at hnan
    · simp [isNan_defaultLimit] at hnan
    · rwa [(isNan_rounded a).1 hnan] at ha

/-- The limit is above zero unless the text spells that there is no number. -/
theorem less_limitOf : Value.less (.int 0) (.real (limitOf text)) = .ok true ↔ ¬ Spells text.toList .nan := by
  rw [Binary64.less_zero, isNonPositive_limitOf, ← isNan_limitOf]
  simp

end LimitOf

/-- **The limit of a runner that is told none**, over all texts of the settings and of the environment. The runner is made,
and its limit is above zero unless the text spells that there is no number; that one is taken over as it is. What is more
than half of the least number is the limit. All else is passed over for thirty seconds, and so are texts of no positive
amount. -/
theorem make_limit {store : Option Store} {stored : Option String}
    (hstored : (store.bind (·.kept "exec_timeout")) = stored.map .text) (command : Value) (w : Workspace) :
    ∃ text runner x, LimitSource w.environment stored text ∧ (make store .null command w).1 = .ok runner ∧
      runner.limit = .real x ∧
      (Value.less (.int 0) runner.limit = .ok true ↔ ¬ Spells text.toList .nan) ∧
      (Spells text.toList .nan → x = .nan 1) ∧
      (∀ a, Spells text.toList a → a.Exceeds Binary64.halfLeast → x = a.rounded) ∧
      ((∀ a, Spells text.toList a → a ≠ .nan ∧ ¬ a.Exceeds Binary64.halfLeast) → x = defaultLimit) ∧
      (¬ Spells text.toList .nan → (∀ a, Spells text.toList a → ¬ a.Exceeds 0) → x = defaultLimit) := by
  obtain ⟨text, runner, hsource, hmake, hlimit⟩ := make_null hstored command w
  refine ⟨text, runner, limitOf text, hsource, hmake, hlimit, ?_, limitOf_of_nan, fun a => limitOf_of_exceeds,
    limitOf_eq_defaultLimit, fun hnan hall => limitOf_eq_defaultLimit fun a ha => ⟨?_, ?_⟩⟩
  · rw [hlimit, less_limitOf]
  · rintro rfl
    exact hnan ha
  · exact fun hexceeds => hall a ha (hexceeds.mono Binary64.halfLeast_pos.le)

/-- Tables with one setting, the limit. -/
def limited (text : String) : Store := { settings := [⟨.text "exec_timeout", .text text, .text ""⟩] }

theorem kept_limited (text : String) :
    (some (limited text)).bind (·.kept "exec_timeout") = (some text).map .text := by
  have hlower : Text.lower "exec_timeout" = "exec_timeout" := by decide +kernel
  rw [Option.bind_some, Store.kept, hlower]
  rfl

/-- The text has margins, a sign, an underscore and a power of ten. -/
theorem spells_spaced : Spells " +1_0.5e1\n".toList (.decimal false 105 0) := by
  have hall (p : Char → Bool) (cs : List Char) (h : cs.all p = true) : ∀ c ∈ cs, p c = true := List.all_eq_true.1 h
  have hfigure : Figure "10.5e1".toList 105 0 :=
    .mk (hall isDigit "10".toList (by decide)) (.some (hall isDigit "5".toList (by decide)))
      (.some (Or.inl rfl) .none (hall isDigit "1".toList (by decide)) (by decide)) (by decide)
  have hspaced : Spaced "1_0.5e1".toList := (dropUnderscores_eq_some_iff.1 rfl).1
  refine ⟨" ".toList, "+1_0.5e1".toList, "\n".toList, by decide, hall isMargin " \n".toList (by decide), ?_⟩
  exact .decimal .plus hspaced hfigure

theorem make_limit_spaced :
    (some (limited " +1_0.5e1\n")).bind (·.kept "exec_timeout") = (some " +1_0.5e1\n").map .text ∧
      ∃ runner, (make (some (limited " +1_0.5e1\n")) .null .null { flow := { id := .null } }).1 = .ok runner ∧
        runner.limit = .real (.ofDecimal false 105 0) ∧ Value.less (.int 0) runner.limit = .ok true := by
  have hstored := kept_limited " +1_0.5e1\n"
  obtain ⟨_, runner, x, hsource, hmake, hlimit, hless, hnan, hexceeds, -⟩ := make_limit hstored .null
    { flow := { id := .null } }
  cases hsource
  have hmore : (Amount.decimal false 105 0).Exceeds Binary64.halfLeast := by
    refine Binary64.halfLeast_lt_one.trans ?_
    norm_num
  obtain rfl := hexceeds _ spells_spaced hmore
  exact ⟨hstored, runner, hmake, hlimit, hless.2 fun h => Binary64.ofDecimal_ne_nan _ _ _ _ (hnan h)⟩

/-- **A limit that is no number.** It is not above zero, and it is not passed over. -/
theorem make_limit_nan :
    ∃ runner, (make (some (limited "nan")) .null .null { flow := { id := .null } }).1 = .ok runner ∧
      runner.limit = .real (.nan 1) ∧ Value.less (.int 0) runner.limit = .ok false ∧ runner.limit ≠ .real defaultLimit := by
  have hnan : Spells "nan".toList .nan := ⟨[], "nan".toList, [], by decide, by simp, .nan .none rfl⟩
  obtain ⟨_, runner, hsource, hmake, hlimit⟩ := make_null (kept_limited "nan") .null { flow := { id := .null } }
  cases hsource
  rw [limitOf_of_nan hnan] at hlimit
  refine ⟨runner, hmake, hlimit, by rw [hlimit]; rfl, fun h => ?_⟩
  have hdefault : defaultLimit = .nan 1 := Value.real.inj (h.symm.trans hlimit)
  exact Binary64.ofRatio_ne_nan _ _ _ _ hdefault

end Runner

end BlockFlow
