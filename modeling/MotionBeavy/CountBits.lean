import MotionBeavy.Wire

/-
Module: MotionBeavy.CountBits
Purpose: `count_bits`, the total lane count of a vector of wires, with the arithmetic the
  source performs: `std::transform_reduce` starts from the `int` literal `0`, so the
  accumulator is a 32-bit `int`; each step adds a `std::size_t` lane count to it and
  converts the sum back to `int`, and the result is converted to `std::size_t`. The sum is
  exact below `2^31` bits and wraps from there on.
Trusted boundary: none
Main exports: countBits, countBits_eq_sum, countBits_wraps_at_two_pow_31
-/

namespace MotionBeavy

/-- One step of the fold: `int + std::size_t` is computed in `std::size_t` (the `int`
sign-extended to 64 bits) and assigned back to the `int` accumulator (its low 32 bits). -/
def countBitsStep (acc : BitVec 32) (wire : BooleanBEAVYWire) : BitVec 32 :=
  (acc.signExtend 64 + BitVec.ofNat 64 wire.numSimd).setWidth 32

/-- `count_bits`: determine the total number of bits in a collection of wires. -/
def countBits (wires : List BooleanBEAVYWire) : Nat :=
  ((wires.foldl countBitsStep 0).signExtend 64).toNat

/-- `count_bits` reads only the lane counts of the wires. -/
theorem countBits_congr {wires wires' : List BooleanBEAVYWire}
    (h : wires.map (·.numSimd) = wires'.map (·.numSimd)) : countBits wires = countBits wires' := by
  have hfold : ∀ acc, wires.foldl countBitsStep acc = wires'.foldl countBitsStep acc := by
    induction wires generalizing wires' with
    | nil => cases wires' <;> simp_all
    | cons w ws ih =>
      cases wires' with
      | nil => simp at h
      | cons w' ws' =>
        simp only [List.map_cons, List.cons.injEq] at h
        intro acc
        have hstep : countBitsStep acc w = countBitsStep acc w' := by simp only [countBitsStep, h.1]
        rw [List.foldl_cons, List.foldl_cons, hstep]
        exact ih h.2 _
  rw [countBits, countBits, hfold]

/-- An `int` below `2^31` keeps its value when converted to `std::size_t`. -/
theorem toNat_signExtend_of_lt {x : BitVec 32} (h : x.toNat < 2 ^ 31) :
    (x.signExtend 64).toNat = x.toNat := by
  rw [BitVec.signExtend, BitVec.toNat_ofInt, BitVec.toInt_eq_toNat_cond, if_pos (by omega)]
  have : x.toNat < 2 ^ 64 := by omega
  omega

theorem toNat_foldl_countBitsStep (wires : List BooleanBEAVYWire) (acc : BitVec 32)
    (h : acc.toNat + (wires.map (·.numSimd)).sum < 2 ^ 31) :
    (wires.foldl countBitsStep acc).toNat = acc.toNat + (wires.map (·.numSimd)).sum := by
  induction wires generalizing acc with
  | nil => simp
  | cons w ws ih =>
      simp only [List.map_cons, List.sum_cons] at h ⊢
      have hstep : (countBitsStep acc w).toNat = acc.toNat + w.numSimd := by
        rw [countBitsStep, BitVec.toNat_setWidth, BitVec.toNat_add,
          toNat_signExtend_of_lt (by omega), BitVec.toNat_ofNat]
        omega
      rw [List.foldl_cons, ih _ (by omega), hstep]
      omega

/-- Below `2^31` bits in total, `count_bits` is the sum of the lane counts. -/
theorem countBits_eq_sum {wires : List BooleanBEAVYWire}
    (h : (wires.map (·.numSimd)).sum < 2 ^ 31) :
    countBits wires = (wires.map (·.numSimd)).sum := by
  have hfold : (wires.foldl countBitsStep 0).toNat = (wires.map (·.numSimd)).sum := by
    simpa using toNat_foldl_countBitsStep wires 0 (by simpa using h)
  rw [countBits, toNat_signExtend_of_lt (hfold ▸ h), hfold]

/-- A single wire of `2^31` lanes: the `int` accumulator wraps to `-2^31`, which converts
to `2^64 - 2^31` as a `std::size_t`, while the lanes sum to `2^31`. -/
theorem countBits_wraps_at_two_pow_31 :
    countBits [{ numSimd := 2 ^ 31 }] = 2 ^ 64 - 2 ^ 31 ∧
      ([{ numSimd := 2 ^ 31 }] : List BooleanBEAVYWire).map (·.numSimd) = [2 ^ 31] := by
  decide

end MotionBeavy
