import LocalSend.Model.Config

/-! # Decimal numerals

A number is printed as the only numeral without leading zeros that has its value.
-/

namespace LocalSend

open SafePath Config
open Upload (isDigit)

theorem isDigit_ofNat {digit : Char} (h : digit.isDigit = true) :
    (UInt8.ofNat digit.toNat).toNat = digit.toNat ∧ isDigit (UInt8.ofNat digit.toNat) = true := by
  have hrange : 48 ≤ digit.toNat ∧ digit.toNat ≤ 57 := by
    simpa [Char.isDigit, UInt32.le_iff_toNat_le] using h
  have hbyte : (UInt8.ofNat digit.toNat).toNat = digit.toNat := by
    rw [UInt8.toNat_ofNat']
    omega
  refine ⟨hbyte, ?_⟩
  simp only [isDigit, decide_eq_true_eq, UInt8.le_iff_toNat_le, hbyte]
  exact hrange

theorem decimal_digits (number : ℕ) : ∀ byte ∈ decimal number, isDigit byte = true := by
  intro byte hbyte
  obtain ⟨digit, hdigit, rfl⟩ := List.mem_map.mp hbyte
  exact (isDigit_ofNat (Nat.isDigit_of_mem_toDigits (by decide) (by decide) hdigit)).2

theorem decimal_ne_nil (number : ℕ) : decimal number ≠ [] := by
  simp [decimal, Nat.toDigits_ne_nil]

theorem digitsValue_decimal (number : ℕ) : digitsValue (decimal number) = number := by
  have hvalue : ∀ (digits : List Char) (start : ℕ), (∀ digit ∈ digits, digit.isDigit = true) →
      (digits.map fun digit => UInt8.ofNat digit.toNat).foldl
        (fun number byte => 10 * number + (byte.toNat - 48)) start =
          Nat.ofDigitChars 10 digits start := by
    intro digits
    induction digits with
    | nil =>
        intro start _
        simp
    | cons digit digits ih =>
        intro start hdigits
        have hbyte := (isDigit_ofNat (hdigits digit (List.mem_cons_self ..))).1
        rw [List.map_cons, List.foldl_cons, hbyte, Nat.ofDigitChars_cons]
        exact ih _ fun digit hmem => hdigits digit (List.mem_cons_of_mem _ hmem)
  have hdigits : ∀ digit ∈ Nat.toDigits 10 number, digit.isDigit = true :=
    fun digit hmem => Nat.isDigit_of_mem_toDigits (by decide) (by decide) hmem
  exact (hvalue _ 0 hdigits).trans Nat.ofDigitChars_ten_toDigits

/-- Digits, and no zero in front of others. -/
structure Numeral (text : CString) : Prop where
  digits : ∀ byte ∈ text, isDigit byte = true
  ne_nil : text ≠ []
  leading : 1 < text.length → text.head? ≠ some 48

/-- The last digit is printed behind the others. -/
theorem decimal_append {number digit : ℕ} (hnumber : 0 < number) (hdigit : digit < 10) :
    decimal (10 * number + digit) = decimal number ++ [UInt8.ofNat (48 + digit)] := by
  have hlast : (Nat.toDigits 10 digit).map (fun digit => UInt8.ofNat digit.toNat) =
      [UInt8.ofNat (48 + digit)] := by
    revert hdigit digit
    decide
  rw [decimal, ← Nat.toDigits_append_toDigits (by decide) hnumber hdigit, List.map_append, hlast]
  rfl

theorem decimal_digit {digit : ℕ} (h : digit < 10) :
    decimal digit = [UInt8.ofNat (48 + digit)] := by
  revert h digit
  decide

theorem decimal_head {number : ℕ} (h : 0 < number) : (decimal number).head? ≠ some 48 := by
  induction number using Nat.strongRecOn with
  | ind number ih =>
      by_cases hsmall : number < 10
      · have hdigit : ∀ digit < 10, 0 < digit → (decimal digit).head? ≠ some 48 := by decide
        exact hdigit number hsmall h
      · have hprefix := ih (number / 10) (by omega) (by omega)
        have hsplit : number = 10 * (number / 10) + number % 10 := by omega
        rw [hsplit, decimal_append (by omega) (by omega)]
        rw [List.head?_append_of_ne_nil _ (decimal_ne_nil _)]
        exact hprefix

theorem numeral_decimal (number : ℕ) : Numeral (decimal number) := by
  refine ⟨decimal_digits number, decimal_ne_nil number, fun hlength => ?_⟩
  rcases Nat.eq_zero_or_pos number with rfl | hpos
  · exact absurd hlength (by decide)
  · exact decimal_head hpos

theorem digitsValue_append (digits : CString) (byte : UInt8) :
    digitsValue (digits ++ [byte]) = 10 * digitsValue digits + (byte.toNat - 48) := by
  simp [digitsValue]

theorem isDigit_iff {byte : UInt8} : isDigit byte = true ↔
    byte.toNat - 48 < 10 ∧ byte = UInt8.ofNat (48 + (byte.toNat - 48)) ∧ 48 ≤ byte.toNat := by
  simp only [isDigit, decide_eq_true_eq, UInt8.le_iff_toNat_le, ← UInt8.toNat_inj,
    UInt8.toNat_ofNat', UInt8.reduceToNat]
  omega

/-- A numeral is its value printed. -/
theorem decimal_digitsValue {text : CString} (h : Numeral text) :
    decimal (digitsValue text) = text := by
  induction text using List.reverseRecOn with
  | nil => exact absurd rfl h.ne_nil
  | append_singleton text byte ih =>
      obtain ⟨hdigit, hbyte, -⟩ := isDigit_iff.mp (h.digits byte (by simp))
      rw [digitsValue_append]
      by_cases hempty : text = []
      · subst hempty
        simp only [digitsValue, List.foldl_nil, Nat.mul_zero, Nat.zero_add, List.nil_append]
        rw [decimal_digit hdigit, ← hbyte]
      · have hlength := List.length_pos_of_ne_nil hempty
        have hhead := h.leading (by rw [List.length_append, List.length_singleton]; omega)
        rw [List.head?_append_of_ne_nil _ hempty] at hhead
        have htext := ih ⟨fun byte hmem => h.digits byte (List.mem_append_left _ hmem), hempty,
          fun _ => hhead⟩
        have hpos : 0 < digitsValue text := by
          rcases Nat.eq_zero_or_pos (digitsValue text) with hzero | hpos
          · rw [hzero] at htext
            exact absurd (htext ▸ rfl) hhead
          · exact hpos
        rw [decimal_append hpos hdigit, htext, ← hbyte]

end LocalSend
