import Mathlib

/-! Decimal digits: the number that they write, and the fraction that they write after
the point. -/

namespace Decimal

open Nat (ofDigitChars toDigits)

variable {c : Char} {cs : List Char}

theorem isDigit_iff : c.isDigit = true ↔ 48 ≤ c.toNat ∧ c.toNat ≤ 57 := by
  simp [Char.isDigit, UInt32.le_iff_toNat_le]

theorem digit_le_nine (hc : c.isDigit = true) : c.toNat - 48 ≤ 9 := by
  have h := isDigit_iff.mp hc
  omega

theorem digit_eq_zero_iff (hc : c.isDigit = true) : c.toNat - 48 = 0 ↔ c = '0' := by
  have h := isDigit_iff.mp hc
  constructor
  · intro he
    exact Char.toNat_inj.mp (by show c.toNat = 48; omega)
  · rintro rfl
    rfl

theorem ofDigitChars_cons (c : Char) (cs : List Char) :
    ofDigitChars 10 (c :: cs) 0 = 10 ^ cs.length * (c.toNat - 48) + ofDigitChars 10 cs 0 := by
  rw [Nat.ofDigitChars_cons, Nat.ofDigitChars_eq_ofDigitChars_zero, Nat.mul_zero, Nat.zero_add]
  rfl

theorem le_ofDigitChars (acc : Nat) (cs : List Char) : acc ≤ ofDigitChars 10 cs acc := by
  rw [Nat.ofDigitChars_eq_ofDigitChars_zero]
  have hpos : 0 < 10 ^ cs.length := by positivity
  exact (Nat.le_mul_of_pos_left acc hpos).trans (Nat.le_add_right _ _)

theorem ofDigitChars_lt (h : ∀ c ∈ cs, c.isDigit = true) :
    ofDigitChars 10 cs 0 < 10 ^ cs.length := by
  induction cs with
  | nil => simp
  | cons c cs ih =>
    have hrest := ih (fun d hd => h d (List.mem_cons_of_mem c hd))
    have hdigit := Nat.mul_le_mul_left (10 ^ cs.length) (digit_le_nine (h c List.mem_cons_self))
    rw [ofDigitChars_cons, List.length_cons, Nat.pow_succ]
    omega

theorem ofDigitChars_eq_zero_iff (h : ∀ c ∈ cs, c.isDigit = true) :
    ofDigitChars 10 cs 0 = 0 ↔ ∀ c ∈ cs, c = '0' := by
  induction cs with
  | nil => simp
  | cons c cs ih =>
    have hrest := ih (fun d hd => h d (List.mem_cons_of_mem c hd))
    rw [ofDigitChars_cons, Nat.add_eq_zero_iff, Nat.mul_eq_zero, hrest,
      digit_eq_zero_iff (h c List.mem_cons_self), List.forall_mem_cons]
    simp

/-- A numeral begins with a zero only where it is one. -/
theorem toDigits_head_zero {n : Nat} (h : (toDigits 10 n).head? = some '0') :
    toDigits 10 n = ['0'] := by
  induction n using Nat.strong_induction_on with
  | _ n ih =>
    by_cases hn : n < 10
    · rw [Nat.toDigits_of_lt_base hn] at h ⊢
      simpa using h
    · have hle : 10 ≤ n := by omega
      rw [Nat.toDigits_of_base_le (by omega) hle, List.head?_append,
        Option.or_of_isSome (by simp)] at h
      have hzero := ih (n / 10) (by omega) h
      have hval : ofDigitChars 10 (toDigits 10 (n / 10)) 0 = 0 := by
        rw [hzero]
        rfl
      rw [Nat.ofDigitChars_ten_toDigits] at hval
      omega

/-- The number `0.c₁c₂c₃…`. -/
def fraction : List Char → Rat
  | [] => 0
  | c :: cs => (((c.toNat - 48 : Nat) : Rat) + fraction cs) / 10

theorem fraction_eq (cs : List Char) :
    fraction cs = (ofDigitChars 10 cs 0 : Rat) / 10 ^ cs.length := by
  induction cs with
  | nil => simp [fraction]
  | cons c cs ih =>
    have hpow : (10 : Rat) ^ cs.length ≠ 0 := by positivity
    rw [fraction, ih, ofDigitChars_cons, List.length_cons, pow_succ]
    push_cast
    field_simp

theorem fraction_lt_one (h : ∀ c ∈ cs, c.isDigit = true) : fraction cs < 1 := by
  have hlt : (ofDigitChars 10 cs 0 : Rat) < 10 ^ cs.length := by
    exact_mod_cast ofDigitChars_lt h
  rw [fraction_eq, div_lt_one (by positivity)]
  exact hlt

theorem fraction_pos_iff (h : ∀ c ∈ cs, c.isDigit = true) :
    0 < fraction cs ↔ ∃ c ∈ cs, c ≠ '0' := by
  have hpow : (0 : Rat) < 10 ^ cs.length := by positivity
  rw [fraction_eq, div_pos_iff_of_pos_right hpow, Nat.cast_pos, Nat.pos_iff_ne_zero, Ne,
    ofDigitChars_eq_zero_iff h]
  push Not
  rfl

theorem fraction_append_zeros (cs : List Char) (k : Nat) :
    fraction (cs ++ List.replicate k '0') = fraction cs := by
  have hpow : (10 : Rat) ^ k ≠ 0 := by positivity
  rw [fraction_eq, fraction_eq, Nat.ofDigitChars_append, Nat.ofDigitChars_replicate_zero,
    List.length_append, List.length_replicate, pow_add]
  push_cast
  rw [mul_comm, mul_div_mul_right _ _ hpow]

end Decimal
