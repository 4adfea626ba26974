import CellMachine.Proofs.Binary64.Exact
import CellMachine.Proofs.Decimal.Places

/-!
# CellMachine.Proofs.Decimal.Written

Decimal numbers as they are written, and what they denote.

* `Written`               — a sign, digits around a point, and an exponent.
* `Written.Tidy`          — no superfluous zeros, and one digit in front of an exponent's point.
* `Written.eq_of_text_eq` — a text is that of one tidy number at most.
* `Written.ofDigits`      — a count of units of the last place, written without superfluous zeros.
-/

namespace CellMachine

/-- A decimal number as it is written. -/
structure Written where
  negative : Bool
  whole : List Char
  fraction : List Char
  exponent : Option Int

/-! ## Exponents -/

theorem decimalValue_leftpad (k n : Nat) :
    Text.decimalValue (List.leftpad k '0' (Nat.toDigits 10 n)) = n := by
  have hzeros := decimalValue_append_replicate [] (k - (Nat.toDigits 10 n).length)
  rw [List.nil_append, Text.decimalValue, Text.decimalValue, List.foldl_nil, Nat.zero_mul] at hzeros
  rw [List.leftpad, Text.decimalValue, List.foldl_append, hzeros]
  exact Text.decimalValue_toDigits n

theorem exponentMark_injective {e e' : Int} (h : exponentMark e = exponentMark e') : e = e' := by
  obtain ⟨hsign, hdigits⟩ := List.cons.inj (List.cons.inj h).2
  have habs : e.natAbs = e'.natAbs := by
    rw [← decimalValue_leftpad 2 e.natAbs, hdigits, decimalValue_leftpad]
  by_cases he : e < 0
  · by_cases he' : e' < 0
    · omega
    · rw [if_pos he, if_neg he'] at hsign
      cases hsign
  · by_cases he' : e' < 0
    · rw [if_neg he, if_pos he'] at hsign
      cases hsign
    · omega

namespace Written

/-- The text: digits after a point only if there are any, and an exponent only if there is one. -/
def text (w : Written) : List Char :=
  minus w.negative ++ (w.whole ++ (point w.fraction ++ w.exponent.elim [] exponentMark))

/-- The number that the text denotes. -/
def value (w : Written) : ℚ :=
  Binary64.signed w.negative (Text.decimalValue (w.whole ++ w.fraction)) *
    10 ^ (w.exponent.getD 0 - w.fraction.length)

/-- No zero stands at the end of the fraction, and one digit that is not zero stands in front of the
point where there is an exponent. -/
structure Tidy (w : Written) : Prop where
  whole_ne : w.whole ≠ []
  whole_digits : ∀ c ∈ w.whole, c.isDigit = true
  fraction_digits : ∀ c ∈ w.fraction, c.isDigit = true
  fraction_end : w.fraction.getLast? ≠ some '0'
  one_digit : w.exponent ≠ none → ∃ c, w.whole = [c] ∧ c ≠ '0'

/-! ## Texts -/

theorem takeWhile_digits {digits rest : List Char} (h : ∀ c ∈ digits, c.isDigit = true)
    (hrest : ∀ c ∈ rest.head?, c.isDigit = false) :
    (digits ++ rest).takeWhile Char.isDigit = digits := by
  rw [List.takeWhile_append_of_pos h]
  cases rest with
  | nil => exact List.append_nil digits
  | cons c rest =>
    rw [List.takeWhile_cons_of_neg (by rw [hrest c rfl]; exact Bool.false_ne_true),
      List.append_nil]

/-- A run of digits ends at the first other character. -/
theorem digits_append_inj {digits digits' rest rest' : List Char}
    (hd : ∀ c ∈ digits, c.isDigit = true) (hd' : ∀ c ∈ digits', c.isDigit = true)
    (hr : ∀ c ∈ rest.head?, c.isDigit = false) (hr' : ∀ c ∈ rest'.head?, c.isDigit = false)
    (h : digits ++ rest = digits' ++ rest') : digits = digits' ∧ rest = rest' := by
  have hdigits : digits = digits' := by
    rw [← takeWhile_digits hd hr, h, takeWhile_digits hd' hr']
  subst hdigits
  exact ⟨rfl, List.append_cancel_left h⟩

theorem head?_exponent {e : Option Int} {c : Char} (h : c ∈ (e.elim [] exponentMark).head?) :
    c = 'e' := by
  cases e with
  | none => cases h
  | some e => exact (Option.some.inj h).symm

theorem head?_point_append {fraction : List Char} {e : Option Int} {c : Char}
    (h : c ∈ (point fraction ++ e.elim [] exponentMark).head?) : c = '.' ∨ c = 'e' := by
  cases fraction with
  | nil => exact .inr (head?_exponent h)
  | cons d fraction => exact .inl (Option.some.inj h).symm

theorem exponent_inj {e e' : Option Int}
    (h : e.elim [] exponentMark = e'.elim [] exponentMark) : e = e' := by
  cases e with
  | none =>
    cases e' with
    | none => rfl
    | some e' => cases h
  | some e =>
    cases e' with
    | none => cases h
    | some e' => rw [exponentMark_injective h]

theorem point_append_inj {fraction fraction' : List Char} {e e' : Option Int}
    (hd : ∀ c ∈ fraction, c.isDigit = true) (hd' : ∀ c ∈ fraction', c.isDigit = true)
    (h : point fraction ++ e.elim [] exponentMark = point fraction' ++ e'.elim [] exponentMark) :
    fraction = fraction' ∧ e = e' := by
  have hmark : ∀ (e : Option Int) (c : Char), c ∈ (e.elim [] exponentMark).head? →
      c.isDigit = false := by
    intro e c hc
    rw [head?_exponent hc]
    rfl
  have hpoint : ∀ (e : Option Int) (digits : List Char),
      e.elim [] exponentMark ≠ '.' :: digits := by
    intro e digits heq
    have hc := head?_exponent (e := e) (c := '.') (by rw [heq]; rfl)
    cases hc
  cases fraction with
  | nil =>
    cases fraction' with
    | nil => exact ⟨rfl, exponent_inj h⟩
    | cons c fraction' => exact absurd h (hpoint e _)
  | cons c fraction =>
    cases fraction' with
    | nil => exact absurd h.symm (hpoint e' _)
    | cons c' fraction' =>
      obtain ⟨hfraction, he⟩ :=
        digits_append_inj hd hd' (hmark e) (hmark e') (List.cons.inj h).2
      exact ⟨hfraction, exponent_inj he⟩

/-- A text is that of one tidy number at most. -/
theorem eq_of_text_eq {w w' : Written} (h : w.Tidy) (h' : w'.Tidy) (heq : w.text = w'.text) :
    w = w' := by
  have hrest : ∀ (w : Written) (c : Char),
      c ∈ (point w.fraction ++ w.exponent.elim [] exponentMark).head? → c.isDigit = false := by
    intro w c hc
    rcases head?_point_append hc with rfl | rfl <;> rfl
  have hsign : ∀ {w w' : Written}, w.Tidy → w.negative = false → w'.negative = true →
      w.text ≠ w'.text := by
    intro w w' h hs hs' heq
    obtain ⟨c, whole, hwhole⟩ := List.exists_cons_of_ne_nil h.whole_ne
    have hc := h.whole_digits c (by rw [hwhole]; exact List.mem_cons_self)
    rw [text, text, hs, hs', hwhole] at heq
    rw [(List.cons.inj heq).1] at hc
    cases hc
  have hnegative : w.negative = w'.negative := by
    cases hs : w.negative <;> cases hs' : w'.negative
    · rfl
    · exact absurd heq (hsign h hs hs')
    · exact absurd heq.symm (hsign h' hs' hs)
    · rfl
  rw [text, text, hnegative] at heq
  obtain ⟨hwhole, hlater⟩ := digits_append_inj h.whole_digits h'.whole_digits (hrest w) (hrest w')
    (List.append_cancel_left heq)
  obtain ⟨hfraction, hexponent⟩ := point_append_inj h.fraction_digits h'.fraction_digits hlater
  cases w
  cases w'
  cases hnegative
  cases hwhole
  cases hfraction
  cases hexponent
  rfl

/-! ## Counts of units of the last place -/

/-- `n` units of the last of `places` decimal places. -/
def ofDigits (negative : Bool) (places n : Nat) (exponent : Option Int) : Written where
  negative := negative
  whole := Nat.toDigits 10 (n / 10 ^ places)
  fraction := Decimal.dropTrailingZeros (padded places (n % 10 ^ places))
  exponent := exponent

variable {places n : Nat} {exponent : Option Int}

theorem text_ofDigits (s : Bool) (places n : Nat) (exponent : Option Int) :
    (ofDigits s places n exponent).text =
      stripZeros (minus s ++ withPlaces places n) ++ exponent.elim [] exponentMark := by
  rw [stripZeros_withPlaces, List.append_assoc, List.append_assoc]
  rfl

theorem signed_mul (s : Bool) (m n : Nat) :
    (Binary64.signed s (m * n) : ℚ) = Binary64.signed s m * n := by
  cases s with
  | false => rw [Binary64.signed_false, Binary64.signed_false]; push_cast; rfl
  | true => rw [Binary64.signed_true, Binary64.signed_true]; push_cast; ring

theorem value_ofDigits (s : Bool) (places n : Nat) (exponent : Option Int) :
    (ofDigits s places n exponent).value =
      Binary64.signed s n * 10 ^ (exponent.getD 0 - places) := by
  have hlt : n % 10 ^ places < 10 ^ places := Nat.mod_lt _ (by positivity)
  obtain ⟨k, hk⟩ := Decimal.exists_dropTrailingZeros (padded places (n % 10 ^ places))
  have hlen := congrArg List.length hk
  rw [length_padded hlt, List.length_append, List.length_replicate] at hlen
  have hn : n = Text.decimalValue (Nat.toDigits 10 (n / 10 ^ places) ++
      Decimal.dropTrailingZeros (padded places (n % 10 ^ places))) * 10 ^ k := by
    rw [← decimalValue_append_replicate, List.append_assoc, ← hk, decimalValue_append_padded hlt,
      Text.decimalValue_toDigits]
    exact (Nat.div_add_mod' n _).symm
  have hscale : (10 : ℚ) ^ (exponent.getD 0 -
        (Decimal.dropTrailingZeros (padded places (n % 10 ^ places))).length) =
      10 ^ k * 10 ^ (exponent.getD 0 - places) := by
    rw [← zpow_natCast, ← zpow_add₀ (by norm_num)]
    congr 1
    omega
  rw [value, ofDigits]
  simp only
  rw [hscale, ← mul_assoc]
  congr 1
  conv_rhs => rw [hn, signed_mul, Nat.cast_pow, Nat.cast_ofNat]

theorem tidy_ofDigits (s : Bool)
    (h : exponent ≠ none → 10 ^ places ≤ n ∧ n < 10 ^ (places + 1)) :
    (ofDigits s places n exponent).Tidy where
  whole_ne := Nat.toDigits_ne_nil
  whole_digits := fun _ hc => Text.isDigit_of_mem_toDigits hc
  fraction_digits := fun _ hc =>
    isDigit_of_mem_padded (Decimal.mem_of_mem_dropTrailingZeros hc)
  fraction_end := Decimal.getLast?_dropTrailingZeros _
  one_digit := by
    intro he
    obtain ⟨hlow, hhigh⟩ := h he
    have hpos : 0 < n / 10 ^ places := Nat.div_pos hlow (by positivity)
    have hlt : n / 10 ^ places < 10 := by
      rw [Nat.div_lt_iff_lt_mul (by positivity), ← pow_succ']
      exact hhigh
    exact ⟨_, Nat.toDigits_of_lt_base hlt, beq_eq_false_iff_ne.mp (digitChar_ne_zero hpos hlt)⟩

end Written

end CellMachine
