/-
  Mcs51.Proofs.ReadBack — what is written can be read again.

  Lines that were put together are found again by cutting the text at its line feeds, and a number
  that was written in digits is found again by reading the digits.  A number that fits into a width
  takes up just that width, so digits can be read by fixed widths.

  Main statements:
    * `Text.lines_closed` : cutting finds the lines that were put together;
    * `Digits.value_padded`, `Digits.length_padded` : reading finds the number that was written, and
      its digits fill the width;
    * `Digits.padded_eq_append` : a number that fits into two widths is written part by part;
    * `Digits.signedValue_fields` : what the first digits of a number are worth, and the others.
-/
import Mathlib
import Mcs51.Text.Split
import Mcs51.Digits

namespace Mcs51

/-! ## §1. Pieces of a text. -/

namespace Text

/-- **Lines that each end in a line feed are found again**, with an empty one behind the last. -/
theorem lines_closed {texts : List (List Char)} (plain : ∀ text ∈ texts, '\n' ∉ text) :
    lines (texts.flatMap (· ++ ['\n'])) = texts ++ [[]] := by
  induction texts with
  | nil => rfl
  | cons text rest ih =>
    have others : lines (rest.flatMap (· ++ ['\n'])) = rest ++ [[]] :=
      ih fun other member => plain other (List.mem_cons_of_mem text member)
    unfold lines at others ⊢
    rw [List.flatMap_cons, List.append_assoc, List.singleton_append,
        List.splitOn_append_cons_self_of_not_mem (plain text List.mem_cons_self), others]
    rfl

end Text

/-! ## §2. Numbers in digits. -/

namespace Digits

theorem digitValue_digitChar {d : Nat} (small : d < 16) : digitValue d.digitChar = d := by
  have all : ∀ d < 16, digitValue (Nat.digitChar d) = d := by decide
  exact all d small

theorem isHex_digitChar {d : Nat} (small : d < 16) : isHex d.digitChar = true := by
  have all : ∀ d < 16, isHex (Nat.digitChar d) = true := by decide
  exact all d small

/-- Reading the digits of a number gives the number. -/
theorem value_toDigits {base : Nat} (big : 1 < base) (small : base ≤ 16) (n : Nat) :
    value base (Nat.toDigits base n) = n := by
  induction n using Nat.strongRecOn with
  | ind n ih =>
    rw [Nat.toDigits_eq_if big]
    by_cases single : n < base
    · rw [if_pos single]
      simp [value, digitValue_digitChar (Nat.lt_of_lt_of_le single small)]
    · have last : n % base < 16 := Nat.lt_of_lt_of_le (Nat.mod_lt n (by omega)) small
      have before : value base (Nat.toDigits base (n / base)) = n / base :=
        ih (n / base) (Nat.div_lt_self (by omega) big)
      rw [if_neg single, value_concat, before, digitValue_digitChar last, Nat.mul_comm]
      exact Nat.div_add_mod n base

/-- The digits of a number are those of its base. -/
theorem exists_digitChar_of_mem_toDigits {base : Nat} (big : 1 < base) {n : Nat} {c : Char}
    (member : c ∈ Nat.toDigits base n) : ∃ d < base, c = d.digitChar := by
  induction n using Nat.strongRecOn with
  | ind n ih =>
    rw [Nat.toDigits_eq_if big] at member
    by_cases single : n < base
    · rw [if_pos single, List.mem_singleton] at member
      exact ⟨n, single, member⟩
    · rw [if_neg single, List.mem_append, List.mem_singleton] at member
      rcases member with earlier | last
      · exact ih (n / base) (Nat.div_lt_self (by omega) big) earlier
      · exact ⟨n % base, Nat.mod_lt n (by omega), last⟩

/-- Zeros in front do not count. -/
theorem value_zeroFill (base width : Nat) (digits : List Char) :
    value base (zeroFill width digits) = value base digits := by
  have zeros : ∀ k, (List.replicate k '0').foldl (fun n c => n * base + digitValue c) 0 = 0 := by
    intro k
    induction k with
    | zero => rfl
    | succ k ih =>
      rw [List.replicate_succ, List.foldl_cons]
      have zero : 0 * base + digitValue '0' = 0 := by
        rw [Nat.zero_mul]
        rfl
      rw [zero, ih]
  unfold value zeroFill
  rw [List.foldl_append, zeros]

theorem padded_natCast (base width n : Nat) :
    padded base width (n : Int) = zeroFill width (Nat.toDigits base n) := by
  unfold padded
  rw [if_neg (by omega), Int.natAbs_natCast]

/-- **Reading a written number gives the number.** -/
theorem value_padded {base : Nat} (big : 1 < base) (small : base ≤ 16) (width n : Nat) :
    value base (padded base width (n : Int)) = n := by
  rw [padded_natCast, value_zeroFill, value_toDigits big small]

/-- A number is written in just a width exactly if it fits into it. -/
theorem length_padded_iff {base width n : Nat} (big : 1 < base) (wide : 0 < width) :
    (padded base width (n : Int)).length = width ↔ n < base ^ width := by
  have short := Nat.length_toDigits_le_iff big wide (n := n)
  rw [padded_natCast]
  unfold zeroFill
  rw [List.length_append, List.length_replicate, ← short]
  omega

theorem length_padded {base width n : Nat} (big : 1 < base) (wide : 0 < width)
    (fits : n < base ^ width) : (padded base width (n : Int)).length = width :=
  (length_padded_iff big wide).2 fits

/-- A number that does not fit into a width is written in as many digits as it has. -/
theorem length_padded_of_le {base width n k : Nat} (big : 1 < base) (wide : width ≤ k)
    (le : base ^ k ≤ n) (lt : n < base ^ (k + 1)) :
    (padded base width (n : Int)).length = k + 1 := by
  have short := (Nat.length_toDigits_le_iff big (Nat.succ_pos k)).2 lt
  have long : ¬(Nat.toDigits base n).length ≤ k := by
    intro fits
    cases k with
    | zero =>
      have nonempty : 0 < (Nat.toDigits base n).length := Nat.length_toDigits_pos
      omega
    | succ k => exact Nat.not_lt.2 le ((Nat.length_toDigits_le_iff big (Nat.succ_pos k)).1 fits)
  rw [padded_natCast]
  unfold zeroFill
  rw [List.length_append, List.length_replicate]
  omega

/-- A number that is not negative is written in the digits of its base, and nothing else. -/
theorem exists_digitChar_of_mem_padded {base width n : Nat} (big : 1 < base) {c : Char}
    (member : c ∈ padded base width (n : Int)) : ∃ d < base, c = d.digitChar := by
  rw [padded_natCast] at member
  unfold zeroFill at member
  rcases List.mem_append.1 member with filler | digit
  · exact ⟨0, by omega, List.eq_of_mem_replicate filler⟩
  · exact exists_digitChar_of_mem_toDigits big digit

theorem isHex_of_mem_padded {base width n : Nat} (big : 1 < base) (small : base ≤ 16) {c : Char}
    (member : c ∈ padded base width (n : Int)) : isHex c = true := by
  obtain ⟨d, lt, rfl⟩ := exists_digitChar_of_mem_padded big member
  exact isHex_digitChar (Nat.lt_of_lt_of_le lt small)

/-! ## §3. Fields of a number. -/

/-- Digits in front of others count above them. -/
theorem value_append (base : Nat) (front back : List Char) :
    value base (front ++ back) = value base front * base ^ back.length + value base back := by
  induction back using List.reverseRecOn with
  | nil => simp [value]
  | append_singleton back c ih =>
    rw [← List.append_assoc, value_concat, value_concat, ih, List.length_append,
      List.length_singleton,
        Nat.pow_succ]
    ring

/-- Digits of a base are worth less than the next place. -/
theorem value_lt {base : Nat} {digits : List Char} (small : ∀ c ∈ digits, digitValue c < base) :
    value base digits < base ^ digits.length := by
  induction digits using List.reverseRecOn with
  | nil => simp [value]
  | append_singleton digits c ih =>
    have before := ih fun d member => small d (List.mem_append_left _ member)
    have last : digitValue c < base := small c (by simp)
    rw [value_concat, List.length_append, List.length_singleton, Nat.pow_succ]
    calc value base digits * base + digitValue c
        < value base digits * base + base := by omega
      _ = (value base digits + 1) * base := by ring
      _ ≤ base ^ digits.length * base := Nat.mul_le_mul_right base before

/-- Digits that are cut in two: those in front are the quotient, those behind the remainder. -/
theorem value_take_drop {base : Nat} {digits : List Char}
    (small : ∀ c ∈ digits, digitValue c < base)
    (k : Nat) :
    value base (digits.take k) = value base digits / base ^ (digits.length - k) ∧
      value base (digits.drop k) = value base digits % base ^ (digits.length - k) := by
  have whole := value_append base (digits.take k) (digits.drop k)
  have below := value_lt fun c (member : c ∈ digits.drop k) => small c (List.mem_of_mem_drop member)
  rw [List.take_append_drop, List.length_drop] at whole
  rw [List.length_drop] at below
  have positive : 0 < base ^ (digits.length - k) := by omega
  refine ⟨?_, ?_⟩
  · rw [whole, Nat.mul_comm, Nat.mul_add_div positive, Nat.div_eq_of_lt below, Nat.add_zero]
  · rw [whole, Nat.mul_comm, Nat.mul_add_mod, Nat.mod_eq_of_lt below]

/-- Digits are determined by their number and by what they are worth. -/
theorem eq_of_value_eq {base : Nat} (small : base ≤ 16) {xs ys : List Char}
    (xs_digits : ∀ c ∈ xs, ∃ d < base, c = d.digitChar)
    (ys_digits : ∀ c ∈ ys, ∃ d < base, c = d.digitChar)
    (length_eq : xs.length = ys.length) (value_eq : value base xs = value base ys) : xs = ys := by
  induction xs using List.reverseRecOn generalizing ys with
  | nil => exact (List.length_eq_zero_iff.1 length_eq.symm).symm
  | append_singleton xs c ih =>
    cases ys using List.reverseRecOn with
    | nil => exact absurd length_eq (by simp)
    | append_singleton ys c' =>
      obtain ⟨d, d_lt, rfl⟩ := xs_digits c (by simp)
      obtain ⟨d', d'_lt, rfl⟩ := ys_digits c' (by simp)
      rw [value_concat, value_concat, digitValue_digitChar (Nat.lt_of_lt_of_le d_lt small),
        digitValue_digitChar (Nat.lt_of_lt_of_le d'_lt small)] at value_eq
      -- the last digit is the remainder, the others are the quotient
      have last : d = d' := by
        have rest := congrArg (· % base) value_eq
        simpa [Nat.mul_add_mod_self_right, Nat.mod_eq_of_lt d_lt, Nat.mod_eq_of_lt d'_lt] using rest
      subst last
      have front : value base xs = value base ys :=
        Nat.eq_of_mul_eq_mul_right (by omega) (Nat.add_right_cancel value_eq)
      have same : xs = ys := ih (fun c member => xs_digits c (List.mem_append_left _ member))
        (fun c member => ys_digits c (List.mem_append_left _ member))
          (by simpa using length_eq) front
      rw [same]

/-- **A number that fits into two widths is written as its quotient and its remainder.** -/
theorem padded_eq_append {base front back n : Nat} (big : 1 < base) (small : base ≤ 16)
    (some_front : 0 < front) (some_back : 0 < back) (fits : n < base ^ (front + back)) :
    padded base (front + back) (n : Int) =
      padded base front ((n / base ^ back : Nat) : Int) ++
        padded base back ((n % base ^ back : Nat) : Int) := by
  have positive : 0 < base ^ back := Nat.pow_pos (by omega)
  have quotient_lt : n / base ^ back < base ^ front := by
    rw [Nat.div_lt_iff_lt_mul positive, ← Nat.pow_add]
    exact fits
  have front_length := length_padded big some_front quotient_lt
  have back_length := length_padded big some_back (Nat.mod_lt n positive)
  refine eq_of_value_eq small (fun c => exists_digitChar_of_mem_padded big) ?_ ?_ ?_
  · intro c member
    rcases List.mem_append.1 member with upper | lower
    · exact exists_digitChar_of_mem_padded big upper
    · exact exists_digitChar_of_mem_padded big lower
  · rw [length_padded big (by omega) fits, List.length_append, front_length, back_length]
  · rw [value_append, back_length, value_padded big small, value_padded big small,
      value_padded big small, Nat.mul_comm]
    exact (Nat.div_add_mod n (base ^ back)).symm

/-- Without a sign, a signed number is worth its digits. -/
theorem signedValue_of_isHex {base : Nat} {digits : List Char}
    (plain : ∀ c ∈ digits, isHex c = true) : signedValue base digits = value base digits := by
  unfold signedValue
  split
  · exact absurd (plain '-' List.mem_cons_self) (by decide)
  · rfl

/-- **A written number that is cut in two.**  The first digits are the quotient by a power of the
base, the others the remainder; how many digits there are decides by which power. -/
theorem signedValue_fields {base : Nat} (big : 1 < base) (small : base ≤ 16) (width n k : Nat) :
    signedValue base ((padded base width (n : Int)).take k) =
        ((n / base ^ ((padded base width (n : Int)).length - k) : Nat) : Int) ∧
      signedValue base ((padded base width (n : Int)).drop k) =
        ((n % base ^ ((padded base width (n : Int)).length - k) : Nat) : Int) := by
  have digits : ∀ c ∈ padded base width (n : Int), digitValue c < base := by
    intro c member
    obtain ⟨d, lt, rfl⟩ := exists_digitChar_of_mem_padded big member
    rw [digitValue_digitChar (Nat.lt_of_lt_of_le lt small)]
    exact lt
  have plain : ∀ c ∈ padded base width (n : Int), isHex c = true :=
    fun c => isHex_of_mem_padded big small
  obtain ⟨front, back⟩ := value_take_drop digits k
  rw [signedValue_of_isHex fun c member => plain c (List.mem_of_mem_take member),
      signedValue_of_isHex fun c member => plain c (List.mem_of_mem_drop member), front, back,
      value_padded big small]
  exact ⟨rfl, rfl⟩

end Digits

end Mcs51
