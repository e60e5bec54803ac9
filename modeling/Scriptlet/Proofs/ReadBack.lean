import Mathlib
import Scriptlet.Proofs.Rescan

/-!
# Numbers are read back from their text

A number is written as a decimal fraction that reads back as it.  Such a fraction is sought among
the short ones, each of which is tried by reading it, and if none of them should do, the number is
written out with all its digits; so what is written always reads back.  This holds for all numbers
that literals can stand for but infinity.

* `Binary64.valid_of_le` : the bit patterns of the model are those of numbers;
* `Binary64.nearest_units` : a number is the one nearest to itself;
* `Binary64.bits_shortest` : **the shortest decimal of a number reads back as it**;
* `Decimal.ofDigits_digits` : a decimal is read back from its digits;
* `Number.text_ofDecimal` : the text of a finite literal is its shortest decimal.
-/

namespace Scriptlet

namespace Binary64

/-! ### Bit patterns -/

/-- Patterns up to that of infinity are those of numbers. -/
theorem valid_of_le {n : Nat} (h : n ≤ infinity) :
    Float.Model.Format.binary64.Valid (UInt64.ofNat n).toBitVec := by
  have hn : (UInt64.ofNat n).toBitVec.toNat = n := by
    have hinfinity : infinity < 2 ^ 64 := by decide
    exact Nat.mod_eq_of_lt (by omega)
  refine ⟨fun hexponent hmantissa => absurd ?_ hmantissa⟩
  -- the exponent field alone makes up all of the pattern
  have he := congrArg BitVec.toNat hexponent
  have hinfinity : infinity = 2047 * 2 ^ 52 := rfl
  simp only [Float.Model.UnpackedFloat.unpackExponent, BitVec.toNat_cast,
    BitVec.extractLsb_toNat, hn, Nat.shiftRight_eq_div_pow] at he
  change n / 2 ^ 52 % 2 ^ 11 = 2047 at he
  refine BitVec.eq_of_toNat_eq ?_
  simp only [Float.Model.UnpackedFloat.unpackMantissa, BitVec.toNat_cast,
    BitVec.extractLsb_toNat, hn, Nat.shiftRight_zero]
  show n % 2 ^ 52 = 0
  omega

/-! ### The nearest number -/

theorem roundDiv_mul_right {k : Nat} (hk : 0 < k) (num den : Nat) :
    roundDiv (num * k) (den * k) = roundDiv num den := by
  have hlt : ∀ a b : Nat, a * k < b * k ↔ a < b := fun a b => Nat.mul_lt_mul_right hk
  simp only [roundDiv, Nat.mul_div_mul_right _ _ hk, Nat.mul_mod_mul_right, ← Nat.mul_assoc, hlt]

theorem roundDiv_self_mul {k : Nat} (hk : 0 < k) (n : Nat) : roundDiv (n * k) k = n := by
  have hone := roundDiv_mul_right hk n 1
  rw [Nat.one_mul] at hone
  rw [hone]
  simp [roundDiv, Nat.mod_one]

/-- A fraction may be expanded. -/
theorem nearest_mul_right {k : Nat} (hk : 0 < k) (num den : Nat) :
    nearest (num * k) (den * k) = nearest num den := by
  have hnum : num * k * one = num * one * k := Nat.mul_right_comm ..
  simp only [nearest, hnum, Nat.mul_div_mul_right _ _ hk, Nat.mul_right_comm den k,
    roundDiv_mul_right hk]

theorem nearest_one (num : Nat) :
    nearest num one =
      min infinity ((num.log2 - 52) * binade + roundDiv num (Nat.pow 2 (num.log2 - 52))) := by
  have hone : 0 < one := by decide +kernel
  simp only [nearest, Nat.mul_div_cancel _ hone]
  rw [Nat.mul_comm one, roundDiv_mul_right hone]

theorem log2_shifted {m : Nat} (hm : m < binade) (k : Nat) :
    ((binade + m) * Nat.pow 2 k).log2 = 52 + k := by
  have hbinade : binade = 2 ^ 52 := rfl
  have hsucc : 2 ^ (52 + 1) = 2 * binade := rfl
  have hpos : 0 < 2 ^ k := Nat.pow_pos (by decide)
  show ((binade + m) * 2 ^ k).log2 = 52 + k
  rw [Nat.log2_eq_iff (Nat.mul_ne_zero (by omega) hpos.ne'), Nat.add_right_comm, Nat.pow_add,
    Nat.pow_add, ← hbinade, hsucc]
  exact ⟨Nat.mul_le_mul_right _ (by omega), Nat.mul_lt_mul_of_pos_right (by omega) hpos⟩

/-- **A number is the one nearest to itself.** -/
theorem nearest_units {bits : Nat} (h : bits < infinity) : nearest (units bits) one = bits := by
  rw [nearest_one, units]
  split
  · rename_i hsmall
    have hlog : bits.log2 - 52 = 0 := by
      by_cases hzero : bits = 0
      · rw [hzero, Nat.log2_zero]
      · have hlt : bits.log2 < 52 := (Nat.log2_lt hzero).2 hsmall
        omega
    have hround := roundDiv_self_mul Nat.one_pos bits
    rw [Nat.mul_one] at hround
    rw [hlog, Nat.zero_mul, Nat.zero_add]
    show min infinity (roundDiv bits 1) = bits
    rw [hround, Nat.min_eq_right h.le]
  · rename_i hlarge
    have hm : bits % binade < binade := Nat.mod_lt _ (by decide)
    have he : 1 ≤ bits / binade := Nat.div_pos (by omega) (by decide)
    have hbits := Nat.div_add_mod' bits binade
    have hpos : 0 < Nat.pow 2 (bits / binade - 1) := Nat.pow_pos (by decide)
    rw [log2_shifted hm, Nat.add_sub_cancel_left, roundDiv_self_mul hpos]
    generalize bits / binade = e at he hbits ⊢
    generalize bits % binade = m at hbits ⊢
    obtain ⟨k, rfl⟩ : ∃ k, e = k + 1 := ⟨e - 1, by omega⟩
    -- the leading bit of the significand carries into the exponent
    rw [Nat.add_sub_cancel, ← Nat.add_assoc, ← Nat.succ_mul, hbits]
    exact Nat.min_eq_right h.le

/-! ### The shortest decimal -/

theorem bits_mk (coefficient places : Nat) :
    (Decimal.mk coefficient places).bits = nearest coefficient (Nat.pow 10 places) := rfl

/-- A tenth is a fifth of a half, and so with all powers of them. -/
theorem nearest_pow_ten (num n : Nat) :
    nearest (num * Nat.pow 5 n) (Nat.pow 10 n) = nearest num (Nat.pow 2 n) := by
  have hten : Nat.pow 10 n = Nat.pow 2 n * Nat.pow 5 n := Nat.mul_pow 2 5 n
  have hpos : 0 < Nat.pow 5 n := Nat.pow_pos (by decide)
  rw [hten, nearest_mul_right hpos]

/-- All digits together are the number itself. -/
theorem bits_exact {bits : Nat} (h : bits < infinity) : (exact bits).bits = bits := by
  have hunits := nearest_units h
  unfold one at hunits
  rw [exact, bits_mk]
  -- which power it is does not matter
  generalize 1074 = n at hunits ⊢
  rw [nearest_pow_ten, hunits]

/-- Zeros at the end make no difference. -/
theorem bits_trimmed (d : Decimal) : (Decimal.trimmed d.coefficient d.places).bits = d.bits := by
  obtain ⟨coefficient, places⟩ := d
  induction places generalizing coefficient with
  | zero => rfl
  | succ places ih =>
    show (Decimal.trimmed coefficient (places + 1)).bits = _
    rw [Decimal.trimmed]
    split
    · have hten : Nat.pow 10 (places + 1) = Nat.pow 10 places * 10 := rfl
      have hcoefficient : coefficient = coefficient / 10 * 10 := by omega
      have htrimmed : (Decimal.trimmed (coefficient / 10) places).bits = _ := ih (coefficient / 10)
      rw [htrimmed, bits_mk, bits_mk, hten]
      conv_rhs => rw [hcoefficient]
      rw [nearest_mul_right (by decide)]
    · rfl

theorem bits_of_onGrid? {bits : Nat} {exponent : Int} {d : Decimal}
    (h : onGrid? bits exponent = some d) : d.bits = bits := by
  simp only [onGrid?] at h
  split at h
  · rename_i hlower
    split at h
    · rename_i hupper
      cases h
      exact hupper.1
    · cases h
      exact hlower
  · split at h
    · rename_i hupper
      cases h
      exact hupper
    · cases h

/-- **The shortest decimal of a number reads back as it.** -/
theorem bits_shortest {bits : Nat} (h : bits < infinity) : (shortest bits).bits = bits := by
  have hgetD : ∀ found : Option Decimal, (∀ d ∈ found, d.bits = bits) →
      (found.getD (exact bits)).bits = bits := by
    rintro (_ | d) hfound
    · exact bits_exact h
    · exact hfound d rfl
  rw [shortest]
  refine (bits_trimmed _).trans (hgetD _ fun d hd => ?_)
  obtain ⟨n, -, hn⟩ := List.exists_of_findSome?_eq_some hd
  exact bits_of_onGrid? hn

end Binary64

/-! ### Written decimals -/

namespace Decimal

open Segment

theorem digits_append (d : Decimal) :
    d.digits.1 ++ d.digits.2 = (Nat.toDigits 10 d.coefficient).leftpad (d.places + 1) '0' := by
  simp [digits]

theorem length_digits (d : Decimal) : d.digits.2.length = d.places ∧ d.digits.1 ≠ [] := by
  have hlength :
      d.places < ((Nat.toDigits 10 d.coefficient).leftpad (d.places + 1) '0').length := by
    rw [List.leftpad, List.length_append, List.length_replicate]
    omega
  generalize hall : (Nat.toDigits 10 d.coefficient).leftpad (d.places + 1) '0' = all at hlength
  simp only [digits, hall, List.splitAt_eq]
  constructor
  · rw [List.length_drop]
    omega
  · intro hnil
    have hzero := congrArg List.length hnil
    rw [List.length_take, List.length_nil] at hzero
    omega

theorem isDigit_of_mem_digits (d : Decimal) : ∀ c ∈ d.digits.1 ++ d.digits.2, c.isDigit = true := by
  intro c hc
  rw [digits_append, List.leftpad, List.mem_append] at hc
  rcases hc with hc | hc
  · rw [(List.mem_replicate.1 hc).2]; rfl
  · exact Nat.isDigit_of_mem_toDigits (by decide) (by decide) hc

/-- The digits of a decimal are read as it. -/
theorem ofDigits_digits (d : Decimal) : ofDigits d.digits.1 d.digits.2 = d := by
  obtain ⟨coefficient, places⟩ := d
  rw [ofDigits, digits_append, (length_digits _).1, List.leftpad, Nat.ofDigitChars_append,
    Nat.ofDigitChars_replicate_zero, Nat.mul_zero, Nat.ofDigitChars_ten_toDigits]

theorem text_eq (d : Decimal) : d.text.toList = (number d.digits.1 d.digits.2).text := by
  rw [Decimal.text]
  rcases d.digits with ⟨whole, _ | ⟨c, fraction⟩⟩ <;> simp [Segment.text]

/-- The digits of a decimal can stand as a number. -/
theorem stands_digits (d : Decimal) : (number d.digits.1 d.digits.2).Stands [] := by
  have hdigits := d.isDigit_of_mem_digits
  exact .inl (.number d.length_digits.2 (fun c hc => hdigits c (List.mem_append_left _ hc))
    fun c hc => hdigits c (List.mem_append_right _ hc))

end Decimal

/-! ### Numbers -/

namespace Number

open Binary64

theorem bits_ofDecimal (d : Decimal) : (ofDecimal d).toBits.toNat = d.bits := by
  have hle : d.bits ≤ infinity := Nat.min_le_left ..
  have hinfinity : infinity < 2 ^ 64 := by decide
  have hbits : (ofDecimal d).toBits = UInt64.ofNat d.bits :=
    UInt64.toBitVec_inj.1 (Float.Model.UnpackedFloat.pack_unpack_of_valid (valid_of_le hle))
  rw [hbits, UInt64.toNat_ofNat_of_lt' (hle.trans_lt hinfinity)]

theorem bits_lt_of_finite {d : Decimal} (h : (ofDecimal d).isInf = false) : d.bits < infinity := by
  have hle : d.bits ≤ infinity := Nat.min_le_left ..
  refine Nat.lt_of_le_of_ne hle fun hinfinity => ?_
  rw [ofDecimal, hinfinity] at h
  exact absurd h (by decide)

/-- A finite literal is written as a decimal that reads back as it. -/
theorem text_ofDecimal {d : Decimal} (h : (ofDecimal d).isInf = false) :
    text (ofDecimal d) = (shortest d.bits).text := by
  have hlt := bits_lt_of_finite h
  have hsign : d.bits < signBit := hlt.trans (by decide)
  rw [text, bits_ofDecimal, textOfBits, Nat.mod_eq_of_lt hsign, if_pos hsign,
    if_neg (by omega), if_neg (by omega), String.empty_append]

end Number

end Scriptlet
