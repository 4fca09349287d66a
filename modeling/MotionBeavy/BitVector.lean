import Mathlib.Algebra.Ring.BooleanRing
import Mathlib.Tactic.Ring

/-
Module: MotionBeavy.BitVector
Purpose: The bit vectors of `ENCRYPTO::BitVector<>` as the BEAVY gates use them: bitwise
  XOR, AND and complement, `Subset`, `Append`, and the gates' loops that concatenate the
  shares of several wires and cut a concatenation back into per-wire vectors.
Trusted boundary: `ENCRYPTO::BitVector<>` is not under src/; its operations are modelled
  from the spec ("bit-vectors with XOR/AND/complement, ... subset extraction, append") as
  componentwise operations on lists of bits.
Main exports: BitVector, BitVector.subset, BitVector.bit, appendAll, splitEqual,
  splitRunning, split_appendAll_roundTrip
-/

namespace MotionBeavy

/-- `ENCRYPTO::BitVector<>`: a finite sequence of bits, position `0` first. -/
abbrev BitVector := List Bool

namespace BitVector

/-- `operator^`: componentwise XOR. -/
def xor (a b : BitVector) : BitVector := List.zipWith Bool.xor a b

/-- `operator&`: componentwise AND. -/
def and (a b : BitVector) : BitVector := List.zipWith Bool.and a b

/-- `operator~`: componentwise complement. -/
def not (a : BitVector) : BitVector := a.map Bool.not

instance : Xor BitVector := ⟨xor⟩
instance : AndOp BitVector := ⟨and⟩
instance : Complement BitVector := ⟨not⟩

/-- `Subset(from, to)`: the bits at positions `from, ..., to - 1`. -/
def subset (v : BitVector) (fromPos toPos : Nat) : BitVector :=
  (v.drop fromPos).take (toPos - fromPos)

/-- Bit `i` of a vector, `false` past its end. Lane-wise reasoning goes through this
reading, where XOR and AND are the `+` and `*` of the Boolean ring `Bool`. -/
def bit (v : BitVector) (i : Nat) : Bool := v.getD i false

@[simp] theorem length_xor (a b : BitVector) : (a ^^^ b).length = min a.length b.length :=
  List.length_zipWith _ _ _

@[simp] theorem length_and (a b : BitVector) : (a &&& b).length = min a.length b.length :=
  List.length_zipWith _ _ _

@[simp] theorem length_not (a : BitVector) : (~~~a).length = a.length :=
  List.length_map _ _

@[simp] theorem length_subset (v : BitVector) (fromPos toPos : Nat) :
    (v.subset fromPos toPos).length = min (toPos - fromPos) (v.length - fromPos) := by
  simp [subset]

theorem bit_of_length_le {v : BitVector} {i : Nat} (h : v.length ≤ i) : v.bit i = false := by
  simp [bit, List.getD_eq_getElem?_getD, List.getElem?_eq_none h]

theorem bit_eq_getElem {v : BitVector} {i : Nat} (h : i < v.length) : v.bit i = v[i] := by
  simp [bit, List.getD_eq_getElem?_getD, List.getElem?_eq_getElem h]

theorem bit_map_range (f : Nat → Bool) {n m : Nat} (hm : m < n) :
    bit ((List.range n).map f) m = f m := by
  rw [bit_eq_getElem (by simpa using hm)]
  simp

@[simp] theorem bit_xor {a b : BitVector} (h : a.length = b.length) (i : Nat) :
    (a ^^^ b).bit i = a.bit i + b.bit i := by
  by_cases hi : i < a.length
  · rw [bit_eq_getElem (by simp; omega), bit_eq_getElem hi, bit_eq_getElem (by omega)]
    exact List.getElem_zipWith
  · rw [bit_of_length_le (by simp; omega), bit_of_length_le (by omega),
      bit_of_length_le (by omega)]
    rfl

@[simp] theorem bit_and (a b : BitVector) (i : Nat) : (a &&& b).bit i = a.bit i * b.bit i := by
  by_cases hi : i < min a.length b.length
  · rw [bit_eq_getElem (by simpa using hi), bit_eq_getElem (by omega),
      bit_eq_getElem (by omega)]
    exact List.getElem_zipWith
  · rw [bit_of_length_le (by simp; omega)]
    rcases Nat.lt_or_ge i a.length with ha | ha
    · rw [bit_of_length_le (v := b) (by omega)]; exact (mul_zero _).symm
    · rw [bit_of_length_le ha]; rfl

theorem bit_not {a : BitVector} {i : Nat} (h : i < a.length) : (~~~a).bit i = a.bit i + 1 := by
  show (a.map Bool.not).getD i false = a.getD i false + 1
  simp only [List.getD_eq_getElem?_getD, List.getElem?_map, List.getElem?_eq_getElem h]
  cases a[i] <;> rfl

theorem bit_subset (v : BitVector) {fromPos toPos i : Nat} (h : i < toPos - fromPos) :
    (v.subset fromPos toPos).bit i = v.bit (fromPos + i) := by
  simp only [bit, subset, List.getD_eq_getElem?_getD, List.getElem?_take_of_lt h,
    List.getElem?_drop]

theorem bit_append_left {a b : BitVector} {i : Nat} (h : i < a.length) :
    (a ++ b).bit i = a.bit i := by
  simp [bit, List.getD_eq_getElem?_getD, List.getElem?_append_left h]

theorem bit_append_right (a b : BitVector) (i : Nat) : (a ++ b).bit (a.length + i) = b.bit i := by
  simp only [bit, List.getD_eq_getElem?_getD]
  rw [List.getElem?_append_right (by omega), Nat.add_sub_cancel_left]

/-- Two vectors of one length are equal when they agree on every bit. -/
theorem ext_bit {a b : BitVector} (h : a.length = b.length)
    (hbit : ∀ i < a.length, a.bit i = b.bit i) : a = b := by
  apply List.ext_getElem h
  intro i ha hb
  rw [← bit_eq_getElem ha, ← bit_eq_getElem hb, hbit i ha]

end BitVector

open BitVector

/-! ### The gates' concatenation and splitting loops -/

/-- The gates' `Append` loop: starting from an empty `ENCRYPTO::BitVector<>`, append the
share of each wire in turn (`Delta_a`, `delta_a_share_`, `public_shares`,
`my_secret_share`). -/
def appendAll (vs : List BitVector) : BitVector := vs.foldl (· ++ ·) []

/-- The `Subset` loop of `BooleanBEAVYANDGate::evaluate_online` and
`BooleanBEAVYInputGateReceiver::evaluate_online`: wire `wire_i` takes the bits
`wire_i * num_simd .. (wire_i + 1) * num_simd`. -/
def splitEqual (v : BitVector) (numWires numSimd : Nat) : List BitVector :=
  (List.range numWires).map fun wire_i => v.subset (wire_i * numSimd) ((wire_i + 1) * numSimd)

/-- The `Subset` loop of `BooleanBEAVYOutputGate::evaluate_online`: a running `bit_offset`
advanced by each wire's own lane count. -/
def splitRunning (v : BitVector) : (bitOffset : Nat) → List Nat → List BitVector
  | _, [] => []
  | bitOffset, numSimd :: rest =>
      v.subset bitOffset (bitOffset + numSimd) :: splitRunning v (bitOffset + numSimd) rest

theorem foldl_append_eq (acc : BitVector) (vs : List BitVector) :
    vs.foldl (· ++ ·) acc = acc ++ vs.flatten := by
  induction vs generalizing acc with
  | nil => simp
  | cons v vs ih => simp [ih]

@[simp] theorem appendAll_nil : appendAll [] = [] := rfl

@[simp] theorem appendAll_cons (v : BitVector) (vs : List BitVector) :
    appendAll (v :: vs) = v ++ appendAll vs := by
  simp [appendAll, foldl_append_eq]

@[simp] theorem length_appendAll (vs : List BitVector) :
    (appendAll vs).length = (vs.map List.length).sum := by
  induction vs with
  | nil => rfl
  | cons v vs ih => simp [ih]

theorem length_appendAll_of_width {vs : List BitVector} {numSimd : Nat}
    (hw : ∀ v ∈ vs, v.length = numSimd) : (appendAll vs).length = vs.length * numSimd := by
  induction vs with
  | nil => simp
  | cons v vs ih =>
      simp only [appendAll_cons, List.length_append, List.length_cons,
        hw v (List.mem_cons_self v vs), ih fun w hw' => hw w (List.mem_cons_of_mem v hw')]
      ring

/-- Lane `l` of wire `i` sits at position `i * num_simd + l` of the concatenation. -/
theorem bit_appendAll {vs : List BitVector} {numSimd : Nat}
    (hw : ∀ v ∈ vs, v.length = numSimd) {i l : Nat} (hi : i < vs.length) (hl : l < numSimd) :
    (appendAll vs).bit (i * numSimd + l) = vs[i].bit l := by
  induction vs generalizing i with
  | nil => simp at hi
  | cons v vs ih =>
      have hv : v.length = numSimd := hw v (List.mem_cons_self v vs)
      cases i with
      | zero => simpa using bit_append_left (b := appendAll vs) (hv ▸ hl)
      | succ i =>
          have hshift : (i + 1) * numSimd + l = v.length + (i * numSimd + l) := by
            rw [hv]; ring
          rw [appendAll_cons, hshift, bit_append_right]
          exact ih (fun w hw' => hw w (List.mem_cons_of_mem v hw')) (by simpa using hi)

/-- The same, for the images of a list under a map of constant length. -/
theorem bit_appendAll_map {α : Type} {xs : List α} {f : α → BitVector} {numSimd : Nat}
    (hw : ∀ x ∈ xs, (f x).length = numSimd) {i l : Nat} (hi : i < xs.length) (hl : l < numSimd) :
    (appendAll (xs.map f)).bit (i * numSimd + l) = (f xs[i]).bit l := by
  rw [bit_appendAll (by simpa using hw) (by simpa using hi) hl, List.getElem_map]

theorem subset_appendAll_of_width {vs : List BitVector} {numSimd : Nat}
    (hw : ∀ v ∈ vs, v.length = numSimd) {i : Nat} (hi : i < vs.length) :
    (appendAll vs).subset (i * numSimd) ((i + 1) * numSimd) = vs[i] := by
  have hwidth : ∀ k, (k + 1) * numSimd - k * numSimd = numSimd := fun k => by
    rw [Nat.add_mul, Nat.one_mul]; omega
  induction vs generalizing i with
  | nil => simp at hi
  | cons v vs ih =>
      have hv : v.length = numSimd := hw v (List.mem_cons_self v vs)
      have hrest : ∀ w ∈ vs, w.length = numSimd := fun w hw' => hw w (List.mem_cons_of_mem v hw')
      simp only [subset, appendAll_cons, hwidth] at ih ⊢
      cases i with
      | zero => simp [← hv]
      | succ i =>
          have hfrom : (i + 1) * numSimd = v.length + i * numSimd := by rw [hv]; ring
          rw [hfrom, List.drop_append, ih hrest (by simpa using hi)]
          rfl

theorem splitEqual_appendAll {vs : List BitVector} {numSimd : Nat}
    (hw : ∀ v ∈ vs, v.length = numSimd) : splitEqual (appendAll vs) vs.length numSimd = vs := by
  apply List.ext_getElem (by simp [splitEqual])
  intro i hi _
  simp only [splitEqual, List.getElem_map, List.getElem_range]
  exact subset_appendAll_of_width hw (by simpa [splitEqual] using hi)

theorem splitRunning_append_appendAll (pre : BitVector) (vs : List BitVector) :
    splitRunning (pre ++ appendAll vs) pre.length (vs.map List.length) = vs := by
  induction vs generalizing pre with
  | nil => rfl
  | cons v vs ih =>
      simp only [List.map_cons, splitRunning, appendAll_cons, subset, Nat.add_sub_cancel_left]
      rw [← List.append_assoc, ← List.length_append, ih, List.append_assoc, List.drop_left,
        List.take_left' rfl]

theorem splitRunning_appendAll (vs : List BitVector) :
    splitRunning (appendAll vs) 0 (vs.map List.length) = vs :=
  splitRunning_append_appendAll [] vs

/-- The concatenations of two lists of vectors with equal per-wire lengths XOR wire by wire. -/
theorem appendAll_xor {vs ws : List BitVector}
    (hlen : List.Forall₂ (fun v w => v.length = w.length) vs ws) :
    appendAll vs ^^^ appendAll ws = appendAll (List.zipWith (· ^^^ ·) vs ws) := by
  induction hlen with
  | nil => rfl
  | cons hvw _ ih =>
      simp only [appendAll_cons, List.zipWith_cons_cons, ← ih]
      exact List.zipWith_append _ _ _ _ _ hvw

/-- A lane-wise operation on vectors of equal lengths keeps the per-wire lengths. -/
theorem map_length_zipWith {f : BitVector → BitVector → BitVector}
    (hf : ∀ a b, (f a b).length = min a.length b.length) {vs ws : List BitVector}
    (hlen : List.Forall₂ (fun v w => v.length = w.length) vs ws) :
    (List.zipWith f vs ws).map List.length = vs.map List.length := by
  induction hlen with
  | nil => rfl
  | cons hvw _ ih => simp [ih, hf, hvw]

theorem map_length_zipWith_xor {vs ws : List BitVector}
    (hlen : List.Forall₂ (fun v w => v.length = w.length) vs ws) :
    (List.zipWith (· ^^^ ·) vs ws).map List.length = vs.map List.length :=
  map_length_zipWith (fun a b => length_xor a b) hlen

theorem length_zipWith_xor_of_forall₂ {vs ws : List BitVector}
    (hlen : List.Forall₂ (fun v w => v.length = w.length) vs ws) :
    (List.zipWith (· ^^^ ·) vs ws).length = vs.length := by
  simpa using congrArg List.length (map_length_zipWith_xor hlen)

/-- Round trip of the gates' concatenation and splitting loops: the equal-width split
(`BooleanBEAVYANDGate`, `BooleanBEAVYInputGateReceiver`) and the running-offset split
(`BooleanBEAVYOutputGate`) both return the per-wire vectors that were appended, and
splitting the XOR of two concatenations returns the per-wire XORs. -/
theorem split_appendAll_roundTrip :
    (∀ (numSimd : Nat) (vs : List BitVector), (∀ v ∈ vs, v.length = numSimd) →
      splitEqual (appendAll vs) vs.length numSimd = vs) ∧
    (∀ vs : List BitVector, splitRunning (appendAll vs) 0 (vs.map List.length) = vs) ∧
    (∀ (numSimd : Nat) (vs ws : List BitVector), (∀ v ∈ vs, v.length = numSimd) →
      List.Forall₂ (fun v w => v.length = w.length) vs ws →
      splitEqual (appendAll vs ^^^ appendAll ws) vs.length numSimd =
        List.zipWith (· ^^^ ·) vs ws) ∧
    (∀ vs ws : List BitVector, List.Forall₂ (fun v w => v.length = w.length) vs ws →
      splitRunning (appendAll vs ^^^ appendAll ws) 0 (vs.map List.length) =
        List.zipWith (· ^^^ ·) vs ws) := by
  refine ⟨fun _ _ hw => splitEqual_appendAll hw, splitRunning_appendAll,
    fun numSimd vs ws hw hlen => ?_, fun vs ws hlen => ?_⟩
  · have hw' : ∀ u ∈ List.zipWith (· ^^^ ·) vs ws, u.length = numSimd := by
      intro u hu
      obtain ⟨v, hv, hu⟩ : ∃ v ∈ vs, u.length = v.length := by
        induction hlen with
        | nil => simp at hu
        | cons hvw _ ih =>
            simp only [List.zipWith_cons_cons, List.mem_cons] at hu
            rcases hu with rfl | hu
            · exact ⟨_, List.mem_cons_self _ _, by simp [hvw]⟩
            · obtain ⟨v, hv, h⟩ := ih (fun w hw'' => hw w (List.mem_cons_of_mem _ hw'')) hu
              exact ⟨v, List.mem_cons_of_mem _ hv, h⟩
      rw [hu, hw v hv]
    rw [appendAll_xor hlen, ← length_zipWith_xor_of_forall₂ hlen]
    exact splitEqual_appendAll hw'
  · rw [appendAll_xor hlen, ← map_length_zipWith_xor hlen]
    exact splitRunning_appendAll _

end MotionBeavy
