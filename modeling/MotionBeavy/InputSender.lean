import MotionBeavy.Protocol

/-
Module: MotionBeavy.InputSender
Purpose: What `BooleanBEAVYInputGateSender::evaluate_online` does for every vector list the
  input future delivers. Its loop XORs wire `wire_i`'s input into the wire's public share
  and marks the wire online-ready before it looks at the next input, and it broadcasts only
  after the loop. So the run either completes with one broadcast of the new public shares,
  or raises at the first wire whose input is missing or of the wrong size, after the wires
  before it have been published locally and before anything is sent.
Trusted boundary: none
Main exports: BooleanBEAVYInputGateSender.publishedBelow, inputFits,
  BooleanBEAVYInputGateSender.evaluateOnline_run
-/

namespace MotionBeavy

open BitVector

namespace PartyState

theorem setWires_setWires (state : PartyState) (gateId : Nat) (ws ws' : List BooleanBEAVYWire) :
    (state.setWires gateId ws).setWires gateId ws' = state.setWires gateId ws' := by
  cases state
  simp only [setWires, mk.injEq, and_true]
  funext g
  split <;> rfl

theorem setWires_wires_self_eq (state : PartyState) (gateId : Nat) :
    state.setWires gateId (state.wires gateId) = state := by
  cases state
  simp only [setWires, mk.injEq, and_true]
  funext g
  split <;> simp_all

end PartyState

namespace BooleanBEAVYInputGateSender

/-- The state once the loop has handled the wires below `k`: each has its input XORed into
its public share and is marked online-ready; the other wires are as they were. -/
def publishedBelow (inputs : List BitVector) (gateId k : Nat) (state : PartyState) : PartyState :=
  state.updateWires gateId fun wire_i wire =>
    if wire_i < k then
      { wire with publicShare := wire.publicShare ^^^ inputs.getD wire_i [], onlineReady := true }
    else wire

theorem publishedBelow_zero (inputs : List BitVector) (gateId : Nat) (state : PartyState) :
    publishedBelow inputs gateId 0 state = state := by
  have h : (state.wires gateId).mapIdx (fun _ wire => wire) = state.wires gateId :=
    List.ext_getElem (by simp) (by simp)
  simp only [publishedBelow, Nat.not_lt_zero, ↓reduceIte, PartyState.updateWires, h,
    PartyState.setWires_wires_self_eq]

/-- Handling wire `j` extends the published prefix by one. -/
theorem setWire_publishedBelow (inputs : List BitVector) (gateId : Nat) (state : PartyState)
    {j : Nat} (hj : j < (state.wires gateId).length) {v : BitVector} (hv : inputs[j]? = some v) :
    (publishedBelow inputs gateId j state).setWire ⟨gateId, j⟩
        { (state.read ⟨gateId, j⟩) with
          publicShare := (state.read ⟨gateId, j⟩).publicShare ^^^ v, onlineReady := true } =
      publishedBelow inputs gateId (j + 1) state := by
  simp only [publishedBelow, PartyState.setWire, PartyState.updateWires,
    PartyState.setWires_wires_self, PartyState.setWires_setWires]
  congr 1
  apply List.ext_getElem (by simp)
  intro i h₁ _
  simp only [List.length_set, List.length_mapIdx] at h₁
  rw [List.getElem_set]
  split
  · subst i
    simp [PartyState.read, List.getElem?_eq_getElem hj, hv]
  · simp only [List.getElem_mapIdx]
    split <;> split <;> first | rfl | omega

theorem read_publishedBelow_of_le (inputs : List BitVector) (gateId : Nat) (state : PartyState)
    {j i : Nat} (hji : j ≤ i) :
    (publishedBelow inputs gateId j state).read ⟨gateId, i⟩ = state.read ⟨gateId, i⟩ := by
  simp only [publishedBelow, PartyState.read, PartyState.updateWires, PartyState.setWires_wires_self,
    List.getD_eq_getElem?_getD, List.getElem?_mapIdx]
  cases (state.wires gateId)[i]? <;> simp [Nat.not_lt.mpr hji]

end BooleanBEAVYInputGateSender

/-- Whether the input future delivered a vector of `num_simd` bits for wire `wire_i`. -/
def inputFits (inputs : List BitVector) (numSimd wire_i : Nat) : Bool :=
  match inputs[wire_i]? with
  | some inputBits => inputBits.length == numSimd
  | none => false

/-- The exception the loop raises at a wire whose input does not fit: `inputs.at(wire_i)`
past the end, or the size check. -/
def inputError (inputs : List BitVector) (wire_i : Nat) : Error :=
  if wire_i < inputs.length then .runtimeError "size of input bit vector != num_simd_"
  else .outOfRange

namespace BooleanBEAVYInputGateSender

/-- The loop over the wires `j .. j + m - 1`, started once the wires below `j` are
published: it stops at the first wire whose input does not fit, or publishes them all and
appends their new public shares. -/
theorem onlineLoop_run (inputs : List BitVector) (gateId numSimd : Nat) (state : PartyState) :
    ∀ (m j : Nat) (acc : BitVector), j + m ≤ (state.wires gateId).length →
      (onlineLoop gateId numSimd inputs (List.range' j m) acc).run
          (publishedBelow inputs gateId j state) =
        match (List.range' j m).find? fun i => !inputFits inputs numSimd i with
        | none => .ok (acc ++ appendAll ((List.range' j m).map fun i =>
            (state.read ⟨gateId, i⟩).publicShare ^^^ inputs.getD i []))
            (publishedBelow inputs gateId (j + m) state)
        | some k => .error (inputError inputs k) (publishedBelow inputs gateId k state)
  | 0, j, acc, _ => by simp [onlineLoop]
  | m + 1, j, acc, hm => by
      rw [List.range'_succ, List.find?_cons]
      cases hj : inputs[j]? with
      | none =>
          have hlen : ¬j < inputs.length := fun h => by simp [List.getElem?_eq_getElem h] at hj
          simp [onlineLoop, inputFits, hj, inputError, hlen]
      | some v =>
          by_cases hv : v.length = numSimd
          · have hrest := onlineLoop_run inputs gateId numSimd state m (j + 1)
              (acc ++ ((state.read ⟨gateId, j⟩).publicShare ^^^ v)) (by omega)
            have hfit : inputFits inputs numSimd j = true := by simp [inputFits, hj, hv]
            have hv' : inputs.getD j [] = v := by simp [List.getD_eq_getElem?_getD, hj]
            simp only [onlineLoop, hj, hv, ne_eq, not_true_eq_false, ↓reduceIte, run_bind, run_get,
              run_set, run_pure, read_publishedBelow_of_le inputs gateId state (Nat.le_refl j),
              setWire_publishedBelow inputs gateId state (by omega) hj, hrest, hfit, Bool.not_true,
              List.map_cons, appendAll_cons, hv', Nat.add_right_comm j 1 m, Nat.add_assoc]
            cases List.find? (fun i => !inputFits inputs numSimd i) (List.range' (j + 1) m) <;>
              simp [List.append_assoc]
          · have hlen : j < inputs.length := by
              by_contra h
              simp [List.getElem?_eq_none (Nat.le_of_not_lt h)] at hj
            have hb : (v.length == numSimd) = false := by simpa using hv
            simp [onlineLoop, inputFits, hj, hv, hb, inputError, hlen]

/-- `BooleanBEAVYInputGateSender::evaluate_online` for every vector list the input future
delivers: when every wire's input fits, it publishes all wires and broadcasts their new
public shares once; otherwise it raises at the first wire whose input does not fit, after
publishing the wires before it, and sends nothing. -/
theorem evaluateOnline_run (provider : BEAVYProvider) (inputs : List BitVector)
    (gateId numWires numSimd : Nat) (state : PartyState)
    (hwires : numWires ≤ (state.wires gateId).length) :
    (evaluateOnline provider inputs gateId numWires numSimd).run state =
      match (List.range numWires).find? fun i => !inputFits inputs numSimd i with
      | none => .ok { sent := broadcastBitsMessage provider (appendAll ((List.range numWires).map
            fun i => (state.read ⟨gateId, i⟩).publicShare ^^^ inputs.getD i [])) }
          (publishedBelow inputs gateId numWires state)
      | some k => .error (inputError inputs k) (publishedBelow inputs gateId k state) := by
  have h := onlineLoop_run inputs gateId numSimd state numWires 0 [] (by omega)
  rw [publishedBelow_zero, ← List.range_eq_range', Nat.zero_add] at h
  simp only [evaluateOnline, run_bind, h]
  cases (List.range numWires).find? fun i => !inputFits inputs numSimd i <;> simp

theorem evaluateOnline_run_two_wires :
    2 ≤ ((({} : PartyState).setWires 0 (List.replicate 2 { numSimd := 1 })).wires 0).length ∧
      (evaluateOnline ⟨0, 2, fun _ => true, 2, fun _ _ _ => false, fun _ _ _ => false⟩
          [[true], [false]] 0 2 1).run (({} : PartyState).setWires 0 (List.replicate 2 { numSimd := 1 })) =
        match (List.range 2).find? fun i => !inputFits [[true], [false]] 1 i with
        | none => .ok
            { sent := broadcastBitsMessage ⟨0, 2, fun _ => true, 2, fun _ _ _ => false, fun _ _ _ => false⟩
                (appendAll ((List.range 2).map fun i =>
                  ((({} : PartyState).setWires 0 (List.replicate 2 { numSimd := 1 })).read
                    ⟨0, i⟩).publicShare ^^^ [[true], [false]].getD i [])) }
            (publishedBelow [[true], [false]] 0 2
              (({} : PartyState).setWires 0 (List.replicate 2 { numSimd := 1 })))
        | some k => .error (inputError [[true], [false]] k)
            (publishedBelow [[true], [false]] 0 k
              (({} : PartyState).setWires 0 (List.replicate 2 { numSimd := 1 }))) :=
  ⟨by decide, evaluateOnline_run _ _ 0 2 1 _ (by decide)⟩

/-- Two wires of one lane, and an input future that delivers one bit for wire 0 and an
empty vector for wire 1: the gate raises, with wire 0 already marked online-ready. -/
theorem evaluateOnline_raises_after_publishing :
    resultError ((evaluateOnline ⟨0, 2, fun _ => true, 2, fun _ _ _ => false, fun _ _ _ => false⟩
        [[true], []] 0 2 1).run (({} : PartyState).setWires 0 (List.replicate 2 { numSimd := 1 }))) =
        some (.runtimeError "size of input bit vector != num_simd_") ∧
      ((resultState ((evaluateOnline ⟨0, 2, fun _ => true, 2, fun _ _ _ => false, fun _ _ _ => false⟩
        [[true], []] 0 2 1).run (({} : PartyState).setWires 0
          (List.replicate 2 { numSimd := 1 })))).read ⟨0, 0⟩).onlineReady = true := by
  decide

end BooleanBEAVYInputGateSender

end MotionBeavy
