import Scriptlet.Proofs.ReadBack

/-!
# Signs of numbers

A number that is finite is written as its size, with a minus sign in front if it is below zero or is
the negative zero.  The size is what the number is without its sign, and to put a minus sign before
the size gives the number back, bit by bit.

A bit pattern consists of a sign, an exponent and a mantissa.  Two patterns that differ in the sign
stand for a number and its opposite, whatever the other two fields are; so nothing has to be known
about them.

* `Binary64.unpack_negative` : what the sign of a pattern does;
* `Number.Negative` : a number below zero, or the negative zero;
* `Number.HasFields.negative_iff` : these are the numbers whose pattern has the sign;
* `Number.abs_of_negative` : **a negative number is the opposite of its size**;
* `Number.text_of_negative` : it is written as a minus sign and its size;
* `Number.ofDecimal_shortest` : a number that is not negative is read back from its decimal.
-/

namespace Scriptlet

open Float.Model (Format UnpackedFloat)
open Float.Model.UnpackedFloat hiding infinity

namespace Binary64

/-! ### The fields of a pattern -/

section

variable {F : Format} (e : BitVec F.exponentBits) (m : BitVec F.mantissaBitsWithoutImplicit)

/-- Patterns that differ in their signs stand for a number and its opposite. -/
theorem unpack_negative :
    unpack F (packComponents F .negative e m) =
        (unpack F (packComponents F .positive e m)).neg ∧
      (unpack F (packComponents F .negative e m)).abs =
        unpack F (packComponents F .positive e m) := by
  simp only [unpack, unpackMantissa_packComponents, unpackExponent_packComponents,
    unpackSign_packComponents, Sign.ofBitVec_toBitVec]
  split_ifs <;> exact ⟨rfl, rfl⟩

theorem isFinite_unpack (s : Sign) :
    (unpack F (packComponents F s e m)).isFinite = true ↔ e ≠ -1#_ := by
  simp only [unpack, unpackMantissa_packComponents, unpackExponent_packComponents,
    unpackSign_packComponents]
  split_ifs with he <;> simp [isFinite, he]

/-- Only what has a sign and is not zero is below zero. -/
theorem compare_zero {e : BitVec F.exponentBits} {m : BitVec F.mantissaBitsWithoutImplicit}
    (he : e ≠ -1#_) (s : Sign) :
    (unpack F (packComponents F s e m)).compare (.zero .positive) = some .lt ↔
      s = .negative ∧ ¬ (e = 0#_ ∧ m = 0#_) := by
  simp only [unpack, unpackMantissa_packComponents, unpackExponent_packComponents,
    unpackSign_packComponents, Sign.ofBitVec_toBitVec]
  rw [if_neg he]
  split_ifs with hzero hm
  · simp [UnpackedFloat.compare, hzero, hm]
  · cases s <;> simp [UnpackedFloat.compare, hm]
  · cases s <;> simp [UnpackedFloat.compare, hzero]

theorem valid_packComponents {e : BitVec F.exponentBits} (he : e ≠ -1#_) (s : Sign) :
    F.Valid (packComponents F s e m) :=
  ⟨fun h => absurd (unpackExponent_packComponents.symm.trans h) he⟩

end

theorem toNat_packComponents (s : Sign) (e : BitVec 11) (m : BitVec 52) :
    (packComponents Format.binary64 s e m).toNat =
      s.toBitVec.toNat * signBit + (e.toNat * binade + m.toNat) := by
  have hsign : signBit = 2 ^ 63 := rfl
  have hbinade : binade = 2 ^ 52 := rfl
  have happend : (packComponents Format.binary64 s e m).toNat =
      (s.toBitVec.toNat * 2 ^ 11 + e.toNat) * 2 ^ 52 + m.toNat := by
    rw [packComponents, BitVec.toNat_append, BitVec.toNat_append,
      ← Nat.shiftLeft_add_eq_or_of_lt m.isLt, ← Nat.shiftLeft_add_eq_or_of_lt e.isLt,
      Nat.shiftLeft_eq, Nat.shiftLeft_eq]
  rw [happend, hsign, hbinade]
  omega

theorem infinity_lt_signBit : infinity < signBit := by decide

/-- Without its sign, a pattern is below infinity unless its exponent field is full. -/
theorem fields_lt {e : BitVec 11} (m : BitVec 52) :
    e.toNat * binade + m.toNat < infinity ↔ e ≠ -1#11 := by
  have hm := m.isLt
  have he := e.isLt
  have hbinade : binade = 2 ^ 52 := rfl
  have hinfinity : infinity = 2047 * 2 ^ 52 := rfl
  have hfull : (-1#11).toNat = 2047 := rfl
  rw [ne_eq, ← BitVec.toNat_inj, hfull, hbinade, hinfinity]
  omega

end Binary64

namespace Number

open Binary64

/-! ### Negative numbers -/

/-- A number is below zero or the negative zero. -/
def Negative (x : Float) : Prop := x < 0 ∨ x = -0

section

variable {x : Float} {s : Sign} {e : BitVec 11} {m : BitVec 52}

/-- The bit pattern of a number has certain fields. -/
def HasFields (x : Float) (s : Sign) (e : BitVec 11) (m : BitVec 52) : Prop :=
  x.toBits.toBitVec = packComponents Format.binary64 s e m

theorem exists_fields (x : Float) : ∃ s e m, HasFields x s e m :=
  ⟨_, _, _, (@packComponents_unpackSign_unpackExponent_unpackMantissa Format.binary64
    x.toBits.toBitVec).symm⟩

theorem HasFields.toNat (h : HasFields x s e m) :
    x.toBits.toNat = s.toBitVec.toNat * signBit + (e.toNat * binade + m.toNat) := by
  rw [← toNat_packComponents, ← h]
  rfl

theorem HasFields.isFinite_iff (h : HasFields x s e m) : x.isFinite = true ↔ e ≠ -1#11 := by
  rw [← isFinite_unpack (F := Format.binary64) e m s, ← h]
  rfl

theorem hasFields_negZero : HasFields (-0) .negative 0 0 := rfl

theorem HasFields.inj {y : Float} (h : HasFields x s e m) (h' : HasFields y s e m) : x = y :=
  Float.toBits_inj.1 (UInt64.toBitVec_inj.1 (h.trans h'.symm))

theorem HasFields.lt_zero_iff (h : HasFields x s e m) (hx : x.isFinite = true) :
    x < 0 ↔ s = .negative ∧ ¬ (e = 0 ∧ m = 0) := by
  have hzero : (0 : Float).toModel.unpack = .zero .positive := rfl
  have hlt : x < 0 ↔ x.toModel.unpack.lt (0 : Float).toModel.unpack = true := decide_eq_true_iff
  have hcompare := compare_zero (F := Format.binary64) (m := m) (h.isFinite_iff.1 hx) s
  rw [← h] at hcompare
  rw [hlt, hzero, UnpackedFloat.lt, beq_iff_eq]
  exact hcompare

theorem HasFields.negative_iff (h : HasFields x s e m) (hx : x.isFinite = true) :
    Negative x ↔ s = .negative := by
  rw [Negative, h.lt_zero_iff hx]
  constructor
  · rintro (⟨hs, -⟩ | rfl)
    · exact hs
    · have hsign := congrArg unpackSign (h.symm.trans hasFields_negZero)
      rw [unpackSign_packComponents, unpackSign_packComponents] at hsign
      cases s with
      | negative => rfl
      | positive => cases hsign
  · rintro rfl
    by_cases hzero : e = 0 ∧ m = 0
    · obtain ⟨rfl, rfl⟩ := hzero
      exact .inr (h.inj hasFields_negZero)
    · exact .inl ⟨rfl, hzero⟩

/-- The size of a number has no sign. -/
theorem HasFields.abs (h : HasFields x .negative e m) (hx : x.isFinite = true) :
    HasFields x.abs .positive e m := by
  have hvalid := valid_packComponents (F := Format.binary64) m (h.isFinite_iff.1 hx) .positive
  have habs : x.abs.toBits.toBitVec =
      UnpackedFloat.pack Format.binary64 (unpack Format.binary64 x.toBits.toBitVec).abs := rfl
  rw [HasFields, habs, h, (unpack_negative (F := Format.binary64) e m).2]
  exact pack_unpack_of_valid hvalid

theorem HasFields.neg (h : HasFields x .positive e m) (hx : x.isFinite = true) :
    HasFields (-x) .negative e m := by
  have hvalid := valid_packComponents (F := Format.binary64) m (h.isFinite_iff.1 hx) .negative
  have hneg : (-x).toBits.toBitVec =
      UnpackedFloat.pack Format.binary64 (unpack Format.binary64 x.toBits.toBitVec).neg := rfl
  rw [HasFields, hneg, h, ← (unpack_negative (F := Format.binary64) e m).1]
  exact pack_unpack_of_valid hvalid

/-- Without its sign, the pattern of a finite number is below infinity. -/
theorem HasFields.size_lt (h : HasFields x s e m) (hx : x.isFinite = true) :
    e.toNat * binade + m.toNat < infinity := (fields_lt m).2 (h.isFinite_iff.1 hx)

end

/-! ### Numbers and their sizes -/

section

variable {x : Float} (hx : x.isFinite = true)
include hx

/-- A number that is not negative has a pattern below infinity. -/
theorem toNat_lt_of_not_negative (hneg : ¬ Negative x) : x.toBits.toNat < infinity := by
  obtain ⟨s, e, m, h⟩ := exists_fields x
  rw [h.negative_iff hx] at hneg
  cases s with
  | negative => exact absurd rfl hneg
  | positive =>
    rw [h.toNat]
    simpa [Sign.toBitVec] using h.size_lt hx

/-- **The opposite of the size of a negative number is the number**, and the size is a finite number
that is not negative, with the same pattern but for the sign. -/
theorem abs_of_negative (hneg : Negative x) :
    x.abs.isFinite = true ∧ ¬ Negative x.abs ∧ -x.abs = x ∧
      x.toBits.toNat = signBit + x.abs.toBits.toNat := by
  obtain ⟨s, e, m, h⟩ := exists_fields x
  obtain rfl := (h.negative_iff hx).1 hneg
  have habs := h.abs hx
  have hfinite : x.abs.isFinite = true := habs.isFinite_iff.2 (h.isFinite_iff.1 hx)
  refine ⟨hfinite, fun hneg' => ?_, (habs.neg hfinite).inj h, ?_⟩
  · cases (habs.negative_iff hfinite).1 hneg'
  · rw [h.toNat, habs.toNat]
    simp [Sign.toBitVec]

/-! ### Their texts -/

/-- The number that is read from the shortest decimal of a number. -/
theorem ofDecimal_shortest (hneg : ¬ Negative x) : ofDecimal (shortest x.toBits.toNat) = x := by
  rw [ofDecimal, bits_shortest (toNat_lt_of_not_negative hx hneg), UInt64.ofNat_toNat,
    Float.ofBits_toBits]

theorem text_of_not_negative (hneg : ¬ Negative x) :
    text x = (shortest x.toBits.toNat).text := by
  have hlt := toNat_lt_of_not_negative hx hneg
  have hsign := hlt.trans infinity_lt_signBit
  rw [text, textOfBits, Nat.mod_eq_of_lt hsign, if_pos hsign, if_neg (by omega), if_neg (by omega),
    String.empty_append]

/-- A negative number is written as a minus sign and its size. -/
theorem text_of_negative (hneg : Negative x) : text x = "-" ++ text x.abs := by
  obtain ⟨hfinite, hpos, -, hbits⟩ := abs_of_negative hx hneg
  have hlt := toNat_lt_of_not_negative hfinite hpos
  have hsign := hlt.trans infinity_lt_signBit
  rw [text_of_not_negative hfinite hpos, text, textOfBits, hbits, Nat.add_mod_left,
    Nat.mod_eq_of_lt hsign, if_neg (by omega), if_neg (by omega), if_neg (by omega)]

end

end Number

end Scriptlet
