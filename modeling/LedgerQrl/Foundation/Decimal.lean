import LedgerQrl.Foundation.Positional
import Mathlib.Data.List.DropRight
import Mathlib.Data.Rat.Defs
import Mathlib.Tactic.FieldSimp
import Mathlib.Tactic.Ring

namespace LedgerQrl.Foundation

/-! # Decimal texts

The text of a natural number, the text of a number with a fixed number of
decimals, and the number that a text denotes. -/

def digitValue (character : Char) : ℕ := character.toNat - '0'.toNat

/-- The digits of a number; `0` for zero. -/
def decimalText (number : ℕ) : List Char :=
  if number = 0 then ['0'] else (numeral 10 number).map Nat.digitChar

/-- The number that digits with at most one point denote. -/
def decimalValue (text : List Char) : ℚ :=
  let whole := text.takeWhile (· ≠ '.')
  let fraction := (text.dropWhile (· ≠ '.')).drop 1
  positional 10 (whole.map digitValue) +
    positional 10 (fraction.map digitValue) / 10 ^ fraction.length

/-- Put a point before the last `decimals` digits. -/
def placePoint (decimals : ℕ) (digits : List Char) : List Char :=
  if digits.length ≤ decimals then
    ['0', '.'] ++ List.replicate (decimals - digits.length) '0' ++ digits
  else
    digits.take (digits.length - decimals) ++ '.' :: digits.drop (digits.length - decimals)

def trimPoint (text : List Char) : List Char :=
  if text.getLast? = some '.' then text.dropLast else text

def trimDecimals (text : List Char) : List Char := trimPoint (text.rdropWhile (· = '0'))

section Digits

def Digits (text : List Char) : Prop := ∀ character ∈ text, ∃ digit < 10,
  character = Nat.digitChar digit

theorem digitValue_digitChar {digit : ℕ} (small : digit < 10) :
    digitValue (Nat.digitChar digit) = digit := by
  interval_cases digit <;> rfl

theorem digitChar_ne_point {digit : ℕ} (small : digit < 10) :
    Nat.digitChar digit ≠ '.' := by
  interval_cases digit <;> decide

theorem Digits.ne_point {text : List Char} (digits : Digits text) :
    ∀ character ∈ text, character ≠ '.' := by
  intro character member
  obtain ⟨digit, small, rfl⟩ := digits character member
  exact digitChar_ne_point small

theorem Digits.append {left right : List Char} (leftDigits : Digits left)
    (rightDigits : Digits right) : Digits (left ++ right) := by
  intro character member
  rcases List.mem_append.mp member with first | second
  · exact leftDigits character first
  · exact rightDigits character second

theorem Digits.subset {text part : List Char} (digits : Digits text) (subset : part ⊆ text) :
    Digits part :=
  fun character member => digits character (subset member)

theorem digits_zeros (count : ℕ) : Digits (List.replicate count '0') := by
  intro character member
  exact ⟨0, by norm_num, List.eq_of_mem_replicate member⟩

theorem digits_decimalText (number : ℕ) : Digits (decimalText number) := by
  rw [decimalText]
  split
  · exact digits_zeros 1
  · intro character member
    obtain ⟨digit, inside, rfl⟩ := List.mem_map.mp member
    exact ⟨digit, numeral_lt (by norm_num) number digit inside, rfl⟩

theorem positional_decimalText (number : ℕ) :
    positional 10 ((decimalText number).map digitValue) = number := by
  rw [decimalText]
  split
  · rename_i zero
    rw [zero]
    rfl
  · rw [List.map_map]
    have same : (numeral 10 number).map (digitValue ∘ Nat.digitChar) = numeral 10 number := by
      conv_rhs => rw [← List.map_id (numeral 10 number)]
      apply List.map_congr_left
      intro digit inside
      exact digitValue_digitChar (numeral_lt (by norm_num) number digit inside)
    rw [same, positional_numeral]

theorem decimalText_step (number : ℕ) :
    decimalText number =
      (if number / 10 = 0 then [] else decimalText (number / 10)) ++
        [Nat.digitChar (number % 10)] := by
  by_cases zero : number = 0
  · rw [zero]
    rfl
  · have digits : numeral 10 number = numeral 10 (number / 10) ++ [number % 10] := by
      rw [numeral, numeral, Nat.digits_def' (by norm_num) (by omega), List.reverse_cons]
    rw [decimalText, if_neg zero, digits, List.map_append, List.map_singleton]
    split
    · rename_i small
      rw [small, numeral_zero, List.map_nil]
    · rename_i large
      rw [decimalText, if_neg large]

theorem length_decimalText_le {number count : ℕ} (positive : 0 < count)
    (bound : number < 10 ^ count) : (decimalText number).length ≤ count := by
  rw [decimalText]
  split
  · exact positive
  · rw [List.length_map]
    exact (length_numeral_le (by norm_num)).mpr bound

theorem decimalText_ne_nil (number : ℕ) : decimalText number ≠ [] := by
  rw [decimalText_step]
  simp

end Digits

theorem rdropWhile_concat_zero (text : List Char) :
    (text ++ ['0']).rdropWhile (· = '0') = text.rdropWhile (· = '0') :=
  List.rdropWhile_concat_pos _ _ _ (decide_eq_true rfl)

theorem rdropWhile_concat_of_ne (text : List Char) {last : Char} (nonzero : last ≠ '0') :
    (text ++ [last]).rdropWhile (· = '0') = text ++ [last] :=
  List.rdropWhile_concat_neg _ _ _ (by simpa using nonzero)

theorem trimDecimals_start (text : List Char) : trimDecimals text <+: text := by
  have zeros : text.rdropWhile (· = '0') <+: text := List.rdropWhile_prefix _ _
  rw [trimDecimals, trimPoint]
  split
  · exact (List.dropLast_prefix _).trans zeros
  · exact zeros

/-! ## Values -/

section Value

theorem decimalValue_of_digits {text : List Char} (digits : Digits text) :
    decimalValue text = positional 10 (text.map digitValue) := by
  have all : ∀ character ∈ text, decide (character ≠ '.') = true := fun character member =>
    decide_eq_true (digits.ne_point character member)
  rw [decimalValue, List.takeWhile_eq_self_iff.mpr all, List.dropWhile_eq_nil_iff.mpr all]
  simp

theorem decimalValue_of_point {whole fraction : List Char} (digits : Digits whole) :
    decimalValue (whole ++ '.' :: fraction) =
      positional 10 (whole.map digitValue) +
        positional 10 (fraction.map digitValue) / 10 ^ fraction.length := by
  have all : ∀ character ∈ whole, decide (character ≠ '.') = true := fun character member =>
    decide_eq_true (digits.ne_point character member)
  rw [decimalValue, List.takeWhile_append_of_pos all, List.dropWhile_append_of_pos all,
    List.takeWhile_cons_of_neg (by simp), List.dropWhile_cons_of_neg (by simp),
    List.append_nil, List.drop_one, List.tail_cons]

theorem decimalValue_trimDecimals {whole : List Char} (digits : Digits whole) :
    ∀ {fraction : List Char}, Digits fraction →
      decimalValue (trimDecimals (whole ++ '.' :: fraction)) =
        decimalValue (whole ++ '.' :: fraction) := by
  intro fraction
  induction fraction using List.reverseRecOn with
  | nil =>
      intro _
      rw [trimDecimals, rdropWhile_concat_of_ne whole (by decide), trimPoint,
        List.getLast?_concat, if_pos rfl, List.dropLast_concat,
        decimalValue_of_point digits, decimalValue_of_digits digits]
      simp
  | append_singleton fraction last induction =>
      intro fractionDigits
      have text : whole ++ '.' :: (fraction ++ [last]) =
          (whole ++ '.' :: fraction) ++ [last] := by
        rw [List.append_assoc, List.cons_append]
      have init : Digits fraction :=
        fractionDigits.subset (List.subset_append_left fraction [last])
      by_cases zero : last = '0'
      · have value : decimalValue ((whole ++ '.' :: fraction) ++ [last]) =
            decimalValue (whole ++ '.' :: fraction) := by
          have digit : digitValue last = 0 := by
            rw [zero]
            rfl
          rw [← text, decimalValue_of_point digits, decimalValue_of_point digits,
            List.map_append, List.map_singleton, digit, positional_concat,
            List.length_append, List.length_singleton]
          push_cast
          field_simp
          ring
        rw [text, value, zero, trimDecimals, rdropWhile_concat_zero]
        exact induction init
      · have plain : last ≠ '.' := fractionDigits.ne_point last (by simp)
        rw [text, trimDecimals, rdropWhile_concat_of_ne _ zero, trimPoint,
          List.getLast?_concat, if_neg (by simpa using plain)]

theorem exists_placePoint (decimals : ℕ) {digits : List Char} (each : Digits digits) :
    ∃ whole fraction, placePoint decimals digits = whole ++ '.' :: fraction ∧
      Digits whole ∧ Digits fraction ∧ fraction.length = decimals ∧
        positional 10 ((whole ++ fraction).map digitValue) =
          positional 10 (digits.map digitValue) := by
  rw [placePoint]
  split
  · rename_i short
    refine ⟨['0'], List.replicate (decimals - digits.length) '0' ++ digits, ?_, digits_zeros 1,
      (digits_zeros _).append each, ?_, ?_⟩
    · simp
    · rw [List.length_append, List.length_replicate]
      omega
    · have zeros : (['0'] ++ (List.replicate (decimals - digits.length) '0' ++ digits)).map
          digitValue =
          List.replicate (decimals - digits.length + 1) 0 ++ digits.map digitValue := by
        rw [List.map_append, List.map_append, List.map_replicate, ← List.append_assoc]
        rfl
      rw [zeros, positional_replicate_zero]
  · rename_i long
    refine ⟨_, _, rfl, each.subset (List.take_subset _ _), each.subset (List.drop_subset _ _),
      ?_, ?_⟩
    · rw [List.length_drop]
      omega
    · rw [List.take_append_drop]

/-- The text of a number of `decimals` decimals. -/
def fixedText (decimals number : ℕ) : List Char :=
  trimDecimals (placePoint decimals (decimalText number))

theorem decimalValue_fixedText (decimals number : ℕ) :
    decimalValue (fixedText decimals number) = number / 10 ^ decimals := by
  obtain ⟨whole, fraction, text, wholeDigits, fractionDigits, length, value⟩ :=
    exists_placePoint decimals (digits_decimalText number)
  rw [positional_decimalText, List.map_append, positional_append, List.length_map,
    length] at value
  rw [fixedText, text, decimalValue_trimDecimals wholeDigits fractionDigits,
    decimalValue_of_point wholeDigits, length, ← value]
  push_cast
  field_simp

theorem fixedText_start (decimals number : ℕ) :
    fixedText decimals number <+: placePoint decimals (decimalText number) :=
  trimDecimals_start _

theorem fixedText_digits (decimals number : ℕ) :
    ∀ character ∈ fixedText decimals number, character = '.' ∨
      ∃ digit < 10, character = Nat.digitChar digit := by
  intro character member
  obtain ⟨whole, fraction, text, wholeDigits, fractionDigits, _⟩ :=
    exists_placePoint decimals (digits_decimalText number)
  have inside := (fixedText_start decimals number).subset member
  rw [text] at inside
  rcases List.mem_append.mp inside with first | second
  · exact .inr (wholeDigits character first)
  · rcases List.mem_cons.mp second with point | last
    · exact .inl point
    · exact .inr (fractionDigits character last)

theorem decimalValue_decimalText (number : ℕ) :
    decimalValue (decimalText number) = number := by
  rw [decimalValue_of_digits (digits_decimalText number), positional_decimalText]

theorem decimalText_inj {left right : ℕ} (equal : decimalText left = decimalText right) :
    left = right := by
  rw [← positional_decimalText left, equal, positional_decimalText]

theorem fixedText_inj {decimals left right : ℕ}
    (equal : fixedText decimals left = fixedText decimals right) : left = right := by
  have values := congrArg decimalValue equal
  rw [decimalValue_fixedText, decimalValue_fixedText] at values
  field_simp at values
  exact_mod_cast values

end Value

/-! ## Canonical numerals -/

def decimalParts (whole fraction : List Char) : List Char :=
  if fraction = [] then whole else whole ++ '.' :: fraction

/-- No superfluous zero in front, and none at the end of the fraction. -/
structure CanonicalParts (whole fraction : List Char) : Prop where
  whole_digits : Digits whole
  fraction_digits : Digits fraction
  leading : whole = ['0'] ∨ whole ≠ [] ∧ whole.head? ≠ some '0'
  last : fraction.getLast? ≠ some '0'

/-- A numeral without superfluous zeros in front, zeros at the end of the fraction
or a point at the end. -/
def CanonicalDecimal (text : List Char) : Prop :=
  ∃ whole fraction, text = decimalParts whole fraction ∧ CanonicalParts whole fraction

section Canonical

variable {whole fraction : List Char}

theorem Digits.digitValue_lt {text : List Char} (digits : Digits text) :
    ∀ value ∈ text.map digitValue, value < 10 := by
  intro value member
  obtain ⟨character, inside, rfl⟩ := List.mem_map.mp member
  obtain ⟨digit, small, rfl⟩ := digits character inside
  rw [digitValue_digitChar small]
  exact small

theorem Digits.map_digitChar {text : List Char} (digits : Digits text) :
    (text.map digitValue).map Nat.digitChar = text := by
  rw [List.map_map]
  conv_rhs => rw [← List.map_id text]
  apply List.map_congr_left
  intro character member
  obtain ⟨digit, small, rfl⟩ := digits character member
  rw [Function.comp_apply, digitValue_digitChar small, id]

theorem Digits.ext {text other : List Char} (digits : Digits text) (otherDigits : Digits other)
    (equal : text.map digitValue = other.map digitValue) : text = other := by
  rw [← digits.map_digitChar, equal, otherDigits.map_digitChar]

theorem decimalValue_decimalParts (digits : Digits whole) :
    decimalValue (decimalParts whole fraction) =
      positional 10 (whole.map digitValue) +
        positional 10 (fraction.map digitValue) / 10 ^ fraction.length := by
  rw [decimalParts]
  split
  · rename_i none
    rw [none, decimalValue_of_digits digits]
    simp
  · exact decimalValue_of_point digits

theorem digitChar_eq_zero {digit : ℕ} (small : digit < 10)
    (zero : digitValue (Nat.digitChar digit) = 0) : Nat.digitChar digit = '0' := by
  rw [digitValue_digitChar small] at zero
  rw [zero]
  rfl

def coefficient (whole fraction : List Char) : ℕ :=
  positional 10 ((whole ++ fraction).map digitValue)

theorem coefficient_eq (whole fraction : List Char) :
    coefficient whole fraction =
      positional 10 (whole.map digitValue) * 10 ^ fraction.length +
        positional 10 (fraction.map digitValue) := by
  rw [coefficient, List.map_append, positional_append, List.length_map]

theorem decimalValue_coefficient (digits : Digits whole) (fraction : List Char) :
    decimalValue (decimalParts whole fraction) * 10 ^ fraction.length =
      coefficient whole fraction := by
  rw [decimalValue_decimalParts digits, coefficient_eq]
  push_cast
  field_simp

theorem CanonicalParts.not_dvd (canonical : CanonicalParts whole fraction)
    (nonempty : fraction ≠ []) : ¬ 10 ∣ coefficient whole fraction := by
  intro divides
  obtain ⟨init, last, rfl⟩ : ∃ init last, fraction = init ++ [last] :=
    ⟨_, _, (List.dropLast_append_getLast nonempty).symm⟩
  obtain ⟨digit, small, rfl⟩ := canonical.fraction_digits last (by simp)
  have zero : digitValue (Nat.digitChar digit) = 0 := by
    rw [coefficient, ← List.append_assoc, List.map_append, List.map_singleton,
      positional_concat, digitValue_digitChar small] at divides
    rw [digitValue_digitChar small]
    omega
  apply canonical.last
  rw [List.getLast?_concat, digitChar_eq_zero small zero]

theorem CanonicalParts.length_le {other otherFraction : List Char}
    (canonical : CanonicalParts whole fraction) (digits : Digits other)
    (equal : decimalValue (decimalParts whole fraction) =
      decimalValue (decimalParts other otherFraction)) :
    fraction.length ≤ otherFraction.length := by
  by_contra longer
  have more := Nat.lt_of_not_le longer
  have nonempty : fraction ≠ [] := by
    intro none
    rw [none, List.length_nil] at more
    exact Nat.not_lt_zero _ more
  have scaled : coefficient whole fraction =
      coefficient other otherFraction * 10 ^ (fraction.length - otherFraction.length) := by
    have left := decimalValue_coefficient canonical.whole_digits fraction
    have right := decimalValue_coefficient digits otherFraction
    have power : (10 : ℚ) ^ fraction.length =
        10 ^ otherFraction.length * 10 ^ (fraction.length - otherFraction.length) := by
      rw [← pow_add]
      congr 1
      omega
    rw [equal, power, ← mul_assoc, right] at left
    exact_mod_cast left.symm
  apply canonical.not_dvd nonempty
  rw [scaled]
  exact (dvd_pow_self 10 (by omega)).mul_left _

theorem whole_unique {other : List Char} (digits : Digits whole) (otherDigits : Digits other)
    (leading : whole = ['0'] ∨ whole ≠ [] ∧ whole.head? ≠ some '0')
    (otherLeading : other = ['0'] ∨ other ≠ [] ∧ other.head? ≠ some '0')
    (equal : positional 10 (whole.map digitValue) = positional 10 (other.map digitValue)) :
    whole = other := by
  have nonzero : ∀ {text : List Char}, Digits text → text.head? ≠ some '0' →
      (text.map digitValue).head? ≠ some 0 := by
    intro text digits head zero
    cases text with
    | nil => cases zero
    | cons first rest =>
        obtain ⟨digit, small, rfl⟩ := digits first (by simp)
        exact head (congrArg some (digitChar_eq_zero small (Option.some.inj zero)))
  have positive : ∀ {text : List Char}, Digits text → text ≠ [] → text.head? ≠ some '0' →
      positional 10 (text.map digitValue) ≠ 0 := by
    intro text digits nonempty head zero
    cases text with
    | nil => exact nonempty rfl
    | cons first rest =>
        have value : digitValue first ≠ 0 := fun none =>
          nonzero digits head (congrArg some none)
        have large := @le_positional 10 (digitValue first) (rest.map digitValue) value
        rw [List.map_cons] at zero
        rw [zero] at large
        exact absurd large (by simp)
  have zero : positional 10 ((['0'] : List Char).map digitValue) = 0 := rfl
  rcases leading with rfl | ⟨nonempty, head⟩
  · rcases otherLeading with rfl | ⟨nonempty, head⟩
    · rfl
    · exact absurd (equal.symm.trans zero) (positive otherDigits nonempty head)
  · rcases otherLeading with rfl | ⟨_, otherHead⟩
    · exact absurd (equal.trans zero) (positive digits nonempty head)
    · exact digits.ext otherDigits (positional_inj (by norm_num) digits.digitValue_lt
        (nonzero digits head) otherDigits.digitValue_lt (nonzero otherDigits otherHead) equal)

/-- A number has one canonical numeral. -/
theorem CanonicalDecimal.unique {text other : List Char} (canonical : CanonicalDecimal text)
    (otherCanonical : CanonicalDecimal other)
    (equal : decimalValue text = decimalValue other) : text = other := by
  obtain ⟨whole, fraction, rfl, parts⟩ := canonical
  obtain ⟨otherWhole, otherFraction, rfl, otherParts⟩ := otherCanonical
  have length : fraction.length = otherFraction.length :=
    Nat.le_antisymm (parts.length_le otherParts.whole_digits equal)
      (otherParts.length_le parts.whole_digits equal.symm)
  have coefficients : coefficient whole fraction = coefficient otherWhole otherFraction := by
    have left := decimalValue_coefficient parts.whole_digits fraction
    have right := decimalValue_coefficient otherParts.whole_digits otherFraction
    rw [equal, length, right] at left
    exact_mod_cast left.symm
  have small : ∀ {text : List Char}, Digits text →
      positional 10 (text.map digitValue) < 10 ^ text.length := by
    intro text digits
    have bound := positional_lt (by norm_num : 1 < 10) digits.digitValue_lt
    rwa [List.length_map] at bound
  have first := small parts.fraction_digits
  have second := small otherParts.fraction_digits
  rw [coefficient_eq, coefficient_eq, ← length] at coefficients
  rw [← length] at second
  have wholes : positional 10 (whole.map digitValue) =
      positional 10 (otherWhole.map digitValue) := by
    have quotient := congrArg (· / 10 ^ fraction.length) coefficients
    simpa only [Nat.mul_comm _ (10 ^ fraction.length), Nat.mul_add_div (Nat.pos_of_neZero _),
      Nat.div_eq_of_lt first, Nat.div_eq_of_lt second, Nat.add_zero] using quotient
  rw [wholes] at coefficients
  have fractions : fraction = otherFraction := by
    apply parts.fraction_digits.ext otherParts.fraction_digits
    have values := Nat.add_left_cancel coefficients
    have reversed := Nat.ofDigits_inj_of_len_eq (by norm_num : 1 < 10)
      (by simp [length] : (fraction.map digitValue).reverse.length =
        (otherFraction.map digitValue).reverse.length)
      (fun digit member =>
        parts.fraction_digits.digitValue_lt digit (List.mem_reverse.mp member))
      (fun digit member =>
        otherParts.fraction_digits.digitValue_lt digit (List.mem_reverse.mp member)) values
    exact List.reverse_injective reversed
  rw [fractions, whole_unique parts.whole_digits otherParts.whole_digits parts.leading
    otherParts.leading wholes]

theorem trimDecimals_point (whole : List Char) : ∀ {fraction : List Char}, Digits fraction →
    trimDecimals (whole ++ '.' :: fraction) =
      decimalParts whole (fraction.rdropWhile (· = '0')) := by
  intro fraction
  induction fraction using List.reverseRecOn with
  | nil =>
      intro _
      rw [trimDecimals, rdropWhile_concat_of_ne whole (by decide), trimPoint,
        List.getLast?_concat, if_pos rfl, List.dropLast_concat, List.rdropWhile_nil,
        decimalParts, if_pos rfl]
  | append_singleton fraction last induction =>
      intro digits
      have text : whole ++ '.' :: (fraction ++ [last]) =
          (whole ++ '.' :: fraction) ++ [last] := by
        rw [List.append_assoc, List.cons_append]
      by_cases zero : last = '0'
      · rw [text, zero, trimDecimals, rdropWhile_concat_zero, rdropWhile_concat_zero]
        exact induction (digits.subset (List.subset_append_left fraction [last]))
      · have plain : last ≠ '.' := digits.ne_point last (by simp)
        rw [text, trimDecimals, rdropWhile_concat_of_ne _ zero,
          rdropWhile_concat_of_ne _ zero, trimPoint, List.getLast?_concat,
          if_neg (by simpa using plain), decimalParts, if_neg (by simp), ← text]

theorem getLast?_rdropWhile (text : List Char) :
    (text.rdropWhile (· = '0')).getLast? ≠ some '0' := by
  intro last
  have nonempty : text.rdropWhile (· = '0') ≠ [] := by
    intro none
    rw [none] at last
    cases last
  have kept := List.rdropWhile_last_not (fun character => decide (character = '0')) text nonempty
  rw [List.getLast?_eq_some_getLast nonempty, Option.some.injEq] at last
  exact kept (decide_eq_true last)

theorem decimalText_leading (number : ℕ) :
    decimalText number = ['0'] ∨
      decimalText number ≠ [] ∧ (decimalText number).head? ≠ some '0' := by
  by_cases zero : number = 0
  · left
    rw [decimalText, if_pos zero]
  · right
    refine ⟨decimalText_ne_nil number, ?_⟩
    intro head
    rw [decimalText, if_neg zero, List.head?_map, Option.map_eq_some_iff] at head
    obtain ⟨digit, first, value⟩ := head
    have small := numeral_lt (by norm_num : 1 < 10) number digit (List.mem_of_head? first)
    have none : digit = 0 := by
      rw [← digitValue_digitChar small, value]
      rfl
    rw [none] at first
    exact numeral_head number first

theorem exists_placePoint_leading (decimals number : ℕ) :
    ∃ whole fraction, placePoint decimals (decimalText number) = whole ++ '.' :: fraction ∧
      Digits whole ∧ Digits fraction ∧
        (whole = ['0'] ∨ whole ≠ [] ∧ whole.head? ≠ some '0') := by
  have digits := digits_decimalText number
  rw [placePoint]
  split
  · rename_i short
    refine ⟨['0'], List.replicate (decimals - (decimalText number).length) '0' ++
      decimalText number, ?_, digits_zeros 1, (digits_zeros _).append digits, .inl rfl⟩
    simp
  · rename_i long
    refine ⟨_, _, rfl, digits.subset (List.take_subset _ _),
      digits.subset (List.drop_subset _ _), ?_⟩
    obtain ⟨count, more⟩ : ∃ count, (decimalText number).length - decimals = count + 1 :=
      ⟨(decimalText number).length - decimals - 1, by omega⟩
    rw [more]
    rcases decimalText_leading number with zero | ⟨nonempty, head⟩
    · left
      rw [zero, List.take_succ_cons, List.take_nil]
    · right
      cases text : decimalText number with
      | nil => exact absurd text nonempty
      | cons first rest =>
          rw [text] at head
          exact ⟨List.cons_ne_nil _ _, head⟩

theorem canonical_fixedText (decimals number : ℕ) :
    CanonicalDecimal (fixedText decimals number) := by
  obtain ⟨whole, fraction, text, wholeDigits, fractionDigits, leading⟩ :=
    exists_placePoint_leading decimals number
  refine ⟨whole, fraction.rdropWhile (· = '0'), ?_, wholeDigits,
    fractionDigits.subset (List.rdropWhile_prefix _ fraction).subset, leading,
    getLast?_rdropWhile fraction⟩
  rw [fixedText, text, trimDecimals_point whole fractionDigits]

theorem canonical_decimalText (number : ℕ) : CanonicalDecimal (decimalText number) :=
  ⟨decimalText number, [], rfl, digits_decimalText number, fun _ => (List.not_mem_nil · |>.elim),
    decimalText_leading number, by simp⟩

end Canonical

end LedgerQrl.Foundation
