import BlockFlow.Proofs.Rereading
import BlockFlow.Service.Request
import Mathlib.Data.List.Infix

/-!
Surrogates that stand alone. A document may escape one, but no text can hold it, and the readers put some character in its
place. A value without any is the same whatever that character is; requests whose body has such a value are the ones that
can be followed through the texts that are kept, shown and saved.

* `Json.advance_rest`: what is left after a lexeme is the end of what was there.
* `Json.WithoutSurrogates`: no escape starts like one of a surrogate.
* `Json.readChars_alike`: **such a document is read alike**, whatever surrogates that stand alone are taken for.
* `Request.Paired`: the value of the body has no surrogate that stands alone; `Request.paired_of_withoutSurrogates`: it has
  none where its document has no escape of one.
-/

namespace BlockFlow

namespace Json

/-! ## What is left of a document -/

section Rest

variable {lone : Char}

theorem scanString_rest {offset : Nat} {done cs out rest : List Char} {width : Nat}
    (h : scanString lone offset done cs = .ok (out, width, rest)) : rest <:+ cs := by
  fun_induction scanString lone offset done cs with
  | case2 =>
    cases h
    exact List.suffix_cons _ _
  | case4 _ _ _ _ _ _ _ ih => exact (ih h).trans (List.suffix_cons _ _)
  | case9 | case10 | case11 | case12 | case14 =>
    rename_i ih
    exact (ih h).trans (by simp [List.suffix_cons_iff])
  | _ => cases h

theorem scanExponent_rest (cs : List Char) : (scanExponent cs).2.2 <:+ cs := by
  unfold scanExponent
  split
  · rename_i c rest
    have hsign : (Number.splitSign rest).2 <:+ rest := by
      unfold Number.splitSign
      split
      · exact List.suffix_cons _ _
      · exact List.suffix_cons _ _
      · exact List.suffix_rfl
    split
    · dsimp only
      split
      · exact List.suffix_rfl
      · exact ((List.drop_suffix _ _).trans hsign).trans (List.suffix_cons _ _)
    · exact List.suffix_rfl
  · exact List.suffix_rfl

theorem scanNumber_rest {cs : List Char} {n : Numeral} {width : Nat} {rest : List Char}
    (h : scanNumber cs = some (n, width, rest)) : rest <:+ cs := by
  have hminus : (splitMinus cs).2 <:+ cs := by
    unfold splitMinus
    split
    · exact List.suffix_cons _ _
    · exact List.suffix_rfl
  unfold scanNumber at h
  dsimp only at h
  generalize (if ((splitMinus cs).2.takeWhile Number.isDigit).head? = some '0' then _ else _ : List Char) = whole at h
  split at h
  · cases h
  · cases h
    exact (scanExponent_rest _).trans ((List.drop_suffix _ _).trans ((List.drop_suffix _ _).trans hminus))

theorem scanName_rest {cs : List Char} {v : Value} {width : Nat} {rest : List Char}
    (h : scanName cs = some (v, width, rest)) : rest <:+ cs := by
  obtain ⟨n, -, hn⟩ := Option.map_eq_some_iff.1 h
  cases hn
  exact List.drop_suffix _ _

variable {frames : List Frame} {position : Nat} {cs : List Char} {p : Progress}

theorem openValue_rest (h : openValue lone frames position cs = .ok p) : p.rest <:+ cs := by
  unfold openValue at h
  split at h
  · cases h
  · split_ifs at h
    · split at h
      · cases h
      · rename_i hscan
        cases h
        exact (scanString_rest hscan).trans (List.suffix_cons _ _)
    · cases h
      exact List.suffix_cons _ _
    · cases h
      exact List.suffix_cons _ _
    · split at h
      · rename_i hscan
        cases h
        exact scanName_rest hscan
      · split at h
        · cases h
        · rename_i hscan
          split at h
          · cases h
          · cases h
            exact scanNumber_rest hscan

theorem openKey_rest {entries : List (Value × Value)} (h : openKey lone frames entries position cs = .ok p) :
    p.rest <:+ cs := by
  unfold openKey at h
  split at h
  · split_ifs at h
    · split at h
      · cases h
      · rename_i hscan
        cases h
        exact (scanString_rest hscan).trans (List.suffix_cons _ _)
  · cases h

theorem afterValue_rest {v : Value} (h : afterValue frames v position cs = .ok p) : p.rest <:+ cs := by
  unfold afterValue at h
  split at h
  · cases h
  · split at h <;> cases h <;> exact List.suffix_cons _ _
  · dsimp only at h
    split at h <;> cases h <;> exact List.suffix_cons _ _

/-- What is left after a lexeme is the end of what was there. -/
theorem advance_rest {s : State} (h : advance lone s position cs = .ok p) : p.rest <:+ cs := by
  unfold advance at h
  split at h
  · exact openValue_rest h
  · split at h
    · cases h
      exact List.suffix_cons _ _
    · exact openValue_rest h
  · split at h
    · cases h
      exact List.suffix_cons _ _
    · exact openKey_rest h
  · exact openKey_rest h
  · split at h
    · cases h
      exact List.suffix_cons _ _
    · cases h
  · exact afterValue_rest h

end Rest

/-! ## Documents without surrogates -/

/-- No escape in the document starts like one of a surrogate, whose first digit is thirteen. -/
structure WithoutSurrogates (cs : List Char) : Prop where
  small : ¬ ['\\', 'u', 'd'] <:+: cs
  capital : ¬ ['\\', 'u', 'D'] <:+: cs

instance (cs : List Char) : Decidable (WithoutSurrogates cs) :=
  decidable_of_iff (¬ ['\\', 'u', 'd'] <:+: cs ∧ ¬ ['\\', 'u', 'D'] <:+: cs)
    ⟨fun h => ⟨h.1, h.2⟩, fun h => ⟨h.small, h.capital⟩⟩

namespace WithoutSurrogates

variable {cs rest tail : List Char}

theorem of_suffix (h : WithoutSurrogates cs) (hrest : rest <:+ cs) : WithoutSurrogates rest :=
  ⟨fun hd => h.small (hd.trans hrest.isInfix), fun hd => h.capital (hd.trans hrest.isInfix)⟩

theorem first_ne {a : Char} (h : WithoutSurrogates ('\\' :: 'u' :: a :: tail)) : a ≠ 'd' ∧ a ≠ 'D' := by
  refine ⟨?_, ?_⟩
  · rintro rfl
    exact h.small (List.prefix_append ['\\', 'u', 'd'] tail).isInfix
  · rintro rfl
    exact h.capital (List.prefix_append ['\\', 'u', 'D'] tail).isInfix

end WithoutSurrogates

/-- A hexadecimal digit is less than sixteen, and thirteen is a letter. -/
theorem hexValue?_spec {c : Char} {n : Nat} (h : hexValue? c = some n) : n < 16 ∧ (n = 13 → c = 'd' ∨ c = 'D') := by
  have hzero : '0'.toNat = 48 := rfl
  have hsmall : 'a'.toNat = 97 := rfl
  have hcapital : 'A'.toNat = 65 := rfl
  unfold hexValue? at h
  simp only [Bool.and_eq_true, decide_eq_true_eq, Char.le_def, UInt32.le_iff_toNat_le] at h
  split_ifs at h with hc hc hc <;> cases h
  · have hle : c.toNat ≤ 57 := hc.2
    omega
  · have hge : 97 ≤ c.toNat := hc.1
    have hle : c.toNat ≤ 102 := hc.2
    refine ⟨by omega, fun h => Or.inl ?_⟩
    rw [← Char.toNat_inj]
    show c.toNat = 100
    omega
  · have hge : 65 ≤ c.toNat := hc.1
    have hle : c.toNat ≤ 70 := hc.2
    refine ⟨by omega, fun h => Or.inr ?_⟩
    rw [← Char.toNat_inj]
    show c.toNat = 68
    omega

/-- A unit whose first digit is another one is no surrogate. -/
theorem not_surrogate {a b c d : Char} {unit : Nat} (h : hexUnit? a b c d = some unit) (ha : a ≠ 'd' ∧ a ≠ 'D') :
    isHighUnit unit = false ∧ isLowUnit unit = false := by
  simp only [hexUnit?, Option.bind_eq_bind, Option.bind_eq_some_iff] at h
  obtain ⟨w, hw, x, hx, y, hy, z, hz, hunit⟩ := h
  obtain ⟨hlt, hletter⟩ := hexValue?_spec hw
  have hne : w ≠ 13 := fun hw => (hletter hw).elim ha.1 ha.2
  have hxlt := (hexValue?_spec hx).1
  have hylt := (hexValue?_spec hy).1
  have hzlt := (hexValue?_spec hz).1
  have hvalue : unit = ((w * 16 + x) * 16 + y) * 16 + z := (Option.some.inj hunit).symm
  simp only [isHighUnit, isLowUnit, Bool.and_eq_false_imp, decide_eq_true_eq, decide_eq_false_iff_not]
  omega

section Alike

variable {cs : List Char} (lone other : Char)

theorem unitChar_alike {unit : Nat} (h : isHighUnit unit = false ∧ isLowUnit unit = false) :
    unitChar lone unit = unitChar other unit := by
  simp [unitChar, h.1, h.2]

/-- An escape is read alike where all that may follow it is: the unit in it is no surrogate. -/
theorem scanString_escape_alike {more : List Char} (h : WithoutSurrogates ('\\' :: more))
    (hnext : ∀ rest, rest <:+ more → ∀ offset done, scanString lone offset done rest = scanString other offset done rest)
    (offset : Nat) (done : List Char) :
    scanString lone offset done ('\\' :: more) = scanString other offset done ('\\' :: more) := by
  rcases more with _ | ⟨e, more⟩
  · rw [scanString.eq_def, scanString.eq_def other]
    rfl
  by_cases hu : e = 'u'
  · subst hu
    rcases more with _ | ⟨w, _ | ⟨x, _ | ⟨y, _ | ⟨z, tail⟩⟩⟩⟩
    iterate 4
      rw [scanString.eq_def, scanString.eq_def other]
      rfl
    by_cases hempty : tail = []
    · rw [scanString.eq_def, scanString.eq_def other, hempty]
      rfl
    cases hunit : hexUnit? w x y z with
    | none =>
      rw [scanString.eq_def, scanString.eq_def other]
      simp [hempty, hunit]
    | some unit =>
      have hplain := not_surrogate hunit h.first_ne
      rw [scanString_unit hunit hplain.1 offset done hempty, scanString_unit hunit hplain.1 offset done hempty,
        unitChar_alike lone other hplain]
      exact hnext tail (List.suffix_append ['u', w, x, y, z] tail) _ _
  · cases hshort : shortEscape? e with
    | none =>
      rw [scanString.eq_def, scanString.eq_def other]
      simp [hu, hshort]
    | some x =>
      rw [scanString_short hshort, scanString_short hshort]
      exact hnext more (List.suffix_cons e more) _ _

theorem scanString_alike (h : WithoutSurrogates cs) (offset : Nat) (done : List Char) :
    scanString lone offset done cs = scanString other offset done cs := by
  induction hlength : cs.length using Nat.strong_induction_on generalizing cs offset done with
  | _ n ih =>
    subst hlength
    rcases cs with _ | ⟨c, more⟩
    · rw [scanString, scanString]
    have hnext (rest : List Char) (hrest : rest <:+ more) (offset : Nat) (done : List Char) :
        scanString lone offset done rest = scanString other offset done rest := by
      have hlt : rest.length < (c :: more).length := Nat.lt_succ_of_le hrest.length_le
      exact ih rest.length hlt (h.of_suffix (hrest.trans (List.suffix_cons c more))) offset done rfl
    by_cases hslash : c = '\\'
    · subst hslash
      exact scanString_escape_alike lone other h hnext offset done
    · rw [scanString.eq_def, scanString.eq_def other]
      dsimp only
      rw [if_pos hslash, if_pos hslash, hnext more List.suffix_rfl]

theorem openValue_alike (h : WithoutSurrogates cs) (frames : List Frame) (position : Nat) :
    openValue lone frames position cs = openValue other frames position cs := by
  cases cs with
  | nil => rfl
  | cons c cs =>
    unfold openValue
    dsimp only
    rw [scanString_alike lone other (h.of_suffix (List.suffix_cons c cs))]

theorem openKey_alike (h : WithoutSurrogates cs) (frames : List Frame) (entries : List (Value × Value)) (position : Nat) :
    openKey lone frames entries position cs = openKey other frames entries position cs := by
  cases cs with
  | nil => rfl
  | cons c cs =>
    unfold openKey
    dsimp only
    rw [scanString_alike lone other (h.of_suffix (List.suffix_cons c cs))]

theorem advance_alike (h : WithoutSurrogates cs) (s : State) (position : Nat) :
    advance lone s position cs = advance other s position cs := by
  unfold advance
  simp only [openValue_alike lone other h, openKey_alike lone other h]

/-- Lexeme after lexeme. What is left has no such escape either. -/
theorem run_alike (h : WithoutSurrogates cs) (s : State) (position : Nat) :
    run lone s position cs = run other s position cs := by
  induction hlength : cs.length using Nat.strong_induction_on generalizing cs s position with
  | _ n ih =>
    have hrest := h.of_suffix (List.dropWhile_suffix isSpace)
    rw [run.eq_def, run.eq_def other]
    dsimp only
    rw [advance_alike lone other hrest]
    split
    · rfl
    · cases hadvance : advance other s (position + (cs.takeWhile isSpace).length) (cs.dropWhile isSpace) with
      | error fault => rfl
      | ok p =>
        dsimp only
        split
        · rename_i hshort
          exact ih _ (hlength ▸ hshort) (hrest.of_suffix (advance_rest hadvance)) _ _ rfl
        · rfl

theorem readChars_alike (h : WithoutSurrogates cs) : readChars lone cs = readChars other cs := by
  unfold readChars
  rw [run_alike lone other h]

end Alike

end Json

/-! ## Requests -/

/-- UTF-8 is decoded alike: no sequence of it is a surrogate. -/
theorem Encoding.decode_alike (lone other : Char) {bs : List UInt8} (h : detect bs = .utf8) :
    decode lone bs = decode other bs := by
  unfold decode
  rw [h]

namespace Request

/-- The value of the body has no surrogate that stands alone: it does not depend on what is put in its place. -/
def Paired (r : Request) : Prop := ∀ lone, r.json? lone = r.json?

/-- **A body in UTF-8 without escapes of surrogates has none in its value.** -/
theorem paired_of_withoutSurrogates {r : Request} (hutf8 : Encoding.detect (utf8Bytes (r.body.getD "").toList) = .utf8)
    (h : Json.WithoutSurrogates
      ((Encoding.decode Encoding.replacement (utf8Bytes (r.body.getD "").toList)).toOption.getD [])) : r.Paired := by
  intro lone
  unfold json? Json.parse
  dsimp only
  rw [Encoding.decode_alike lone Encoding.replacement hutf8]
  cases hdecode : Encoding.decode Encoding.replacement (utf8Bytes (r.body.getD "").toList) with
  | error m => rfl
  | ok cs =>
    have hcs : Json.WithoutSurrogates cs := by rwa [hdecode] at h
    dsimp only
    rw [Json.readChars_alike lone Encoding.replacement hcs]

/-- A name that is one surrogate. -/
example : ¬ Paired
    { method := "POST", address := "/api/flow/new", body := some "\x7b\"name\": \"\\ud800\"\x7d",
      contentType := some "application/json" } := by
  intro h
  have hname := congrArg (Option.any fun v => v.equal (.dict [(.text "name", .text "a")])) (h 'a')
  revert hname
  decide +kernel

end Request

end BlockFlow
