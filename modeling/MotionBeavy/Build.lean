import MotionBeavy.Circuit
import Mathlib.Data.List.GetD
import Mathlib.Algebra.BigOperators.Group.List

/-
Module: MotionBeavy.Build
Purpose: What construction leaves at one party. For a well-formed circuit the constructors
  throw nothing, each factory call yields the gate object `instantiate` names, and the
  party's state keeps, for every builder wire, a wire object of the builder's lane count
  behind the handle that wire resolves to. The lemmas here are the bridge from the C++
  constructors (`buildCircuit`) to the built gate list `buildGates` the protocol runs.
Trusted boundary: none
Main exports: instantiate, buildGates, BuildInv, buildCircuit_run, Gate.inputKeys,
  inputKeys_take_buildGates
-/

namespace MotionBeavy

/-! ### The constructors, one lemma each -/

theorem BooleanBEAVYInputGateSender.run_construct (gateId numWires numSimd : Nat)
    (state : PartyState) :
    (construct gateId numWires numSimd).run state =
      .ok (.inputSender gateId state.nextInputId numWires numSimd)
        ({ state with nextInputId := state.nextInputId + numWires }.setWires gateId
          (List.replicate numWires { numSimd := numSimd })) := by
  simp [construct, getNextInputId, allocateOutputs]

theorem BooleanBEAVYInputGateReceiver.run_construct (gateId numWires numSimd inputOwner : Nat)
    (state : PartyState) :
    (construct gateId numWires numSimd inputOwner).run state =
      .ok (.inputReceiver gateId state.nextInputId numWires numSimd inputOwner)
        { ({ state with nextInputId := state.nextInputId + numWires }.setWires gateId
            (List.replicate numWires { numSimd := numSimd })) with
          registrations := state.registrations ++ [⟨inputOwner, gateId, numWires * numSimd⟩] } := by
  simp [construct, getNextInputId, allocateOutputs, registerForBitsMessage]

theorem BooleanBEAVYOutputGate.run_construct (provider : BEAVYProvider) (gateId : Nat)
    (inputs : List WireHandle) (outputOwner : Nat) (state : PartyState) :
    (construct provider gateId inputs outputOwner).run state =
      .ok (.output gateId outputOwner inputs)
        (if outputOwner = provider.allParties ∨ outputOwner = provider.myId then
          { state with registrations := state.registrations ++
            (List.range provider.numParties).filterMap fun party_id =>
              if party_id = provider.myId then none
              else some ⟨party_id, gateId, countBits (inputs.map state.read)⟩ }
        else state) := by
  unfold construct
  split <;> simp [registerForBitsMessages]

/-- The wires named all have `numSimd` lanes. -/
def LanesEq (state : PartyState) (numSimd : Nat) (wires : List WireHandle) : Prop :=
  ∀ wire ∈ wires, (state.read wire).numSimd = numSimd

theorem read_getD_numSimd {state : PartyState} {numSimd : Nat} {wires : List WireHandle}
    (hlanes : LanesEq state numSimd wires) {i : Nat} (hi : i < wires.length) :
    (state.read (wires.getD i default)).numSimd = numSimd := by
  rw [List.getD_eq_getElem _ _ hi]
  exact hlanes _ (List.getElem_mem _)

theorem basicBinaryGate_run {gateId numSimd : Nat} {inB inA : List WireHandle}
    {state : PartyState} (hne : inA ≠ []) (hlen : inA.length = inB.length)
    (hA : LanesEq state numSimd inA) (hB : LanesEq state numSimd inB) :
    (basicBinaryGate gateId inB inA).run state =
      .ok () (state.setWires gateId (List.replicate inA.length { numSimd := numSimd })) := by
  have hpos : inA.length ≠ 0 := by simpa using hne
  have hfirst := read_getD_numSimd hA (List.length_pos.mpr hne)
  have hall : (List.range inA.length).all (fun wire_i =>
      (state.read (inA.getD wire_i default)).numSimd == numSimd &&
        (state.read (inB.getD wire_i default)).numSimd == numSimd) = true := by
    simp only [List.all_eq_true, List.mem_range, Bool.and_eq_true, beq_iff_eq]
    exact fun i hi => ⟨read_getD_numSimd hA hi, read_getD_numSimd hB (hlen ▸ hi)⟩
  simp only [basicBinaryGate, ← hlen, hpos, ne_eq, not_true_eq_false, ↓reduceIte, pure_bind,
    run_bind, run_get, hfirst, hall, run_pure, allocateOutputs, run_modify]

theorem basicUnaryGate_run {gateId numSimd : Nat} {inputs : List WireHandle} {forward : Bool}
    {state : PartyState} (hne : inputs ≠ []) (hlanes : LanesEq state numSimd inputs) :
    (basicUnaryGate gateId inputs forward).run state =
      .ok () (if forward then state
        else state.setWires gateId (List.replicate inputs.length { numSimd := numSimd })) := by
  have hpos : inputs.length ≠ 0 := by simpa using hne
  have hfirst := read_getD_numSimd hlanes (List.length_pos.mpr hne)
  have hall : (List.range inputs.length).all (fun wire_i =>
      (state.read (inputs.getD wire_i default)).numSimd == numSimd) = true := by
    simp only [List.all_eq_true, List.mem_range, beq_iff_eq]
    exact fun i hi => read_getD_numSimd hlanes hi
  cases forward <;>
    simp only [basicUnaryGate, hpos, ↓reduceIte, pure_bind, run_bind, run_get, hfirst, hall,
      run_pure, allocateOutputs, run_modify, Bool.not_false, Bool.not_true, Bool.false_eq_true]

/-! ### The built gate list -/

/-- How far a gate advances the provider's input-id counter. -/
def Gate.inputWires : Gate → Nat
  | .inputSender _ _ numWires _ => numWires
  | .inputReceiver _ _ numWires _ _ => numWires
  | _ => 0

/-- The provider's input-id counter after the gates built so far. -/
def inputIdOf (built : List Gate) : Nat := (built.map Gate.inputWires).sum

/-- The gate object one factory call constructs, given the gates built before it. -/
def instantiate (provider : BEAVYProvider) (built : List Gate) : GateSpec → Gate
  | .input inputOwner numWires numSimd =>
      if inputOwner = provider.myId then
        .inputSender built.length (inputIdOf built) numWires numSimd
      else .inputReceiver built.length (inputIdOf built) numWires numSimd inputOwner
  | .output inputs outputOwner => .output built.length outputOwner (inputs.map (resolve built))
  | .inv inputs => .inv built.length (provider.isMyJob built.length) (inputs.map (resolve built))
  | .xor inA inB => .xor built.length (inB.map (resolve built)) (inA.map (resolve built))
  | .and inA inB => .and built.length (inB.map (resolve built)) (inA.map (resolve built))

/-- The gates one party constructs for a circuit. -/
def buildGates (provider : BEAVYProvider) (circuit : Circuit) : List Gate :=
  extendBy (instantiate provider) [] circuit

theorem resolve_append_of_lt {built : List Gate} (more : List Gate) {r : WireRef}
    (h : r.gate < built.length) : resolve (built ++ more) r = resolve built r := by
  simp only [resolve, List.getD_append _ _ _ _ h]

theorem resolve_append_self (built : List Gate) (gate : Gate) (index : Nat) :
    resolve (built ++ [gate]) ⟨built.length, index⟩ = gate.outputs.getD index default := by
  simp [resolve, List.getD_append_right]

theorem width_append_of_lt {shapes : List (List Nat)} (more : List (List Nat)) {r : WireRef}
    (h : r.gate < shapes.length) : width (shapes ++ more) r = width shapes r := by
  simp only [width, List.getD_append _ _ _ _ h]

theorem gate_lt_of_valid {shapes : List (List Nat)} {r : WireRef}
    (h : r.index < (shapes.getD r.gate []).length) : r.gate < shapes.length := by
  by_contra hge
  rw [List.getD_eq_default _ _ (by omega)] at h
  simp at h

/-- What construction leaves after a prefix with lane counts `shapes`: every builder wire
resolves to a handle of a gate no later than its own, behind which sits a wire object of
the builder's lane count; the input-id counter matches the gates built; no AND member or
output value is set yet. -/
structure BuildInv (shapes : List (List Nat)) (built : List Gate) (state : PartyState) : Prop where
  length_eq : built.length = shapes.length
  resolve_le : ∀ r : WireRef, r.index < (shapes.getD r.gate []).length →
    (resolve built r).gateId ≤ r.gate
  numSimd_read : ∀ r : WireRef, r.index < (shapes.getD r.gate []).length →
    (state.read (resolve built r)).numSimd = width shapes r
  allocated : ∀ r : WireRef, r.index < (shapes.getD r.gate []).length →
    (resolve built r).index < (state.wires (resolve built r).gateId).length
  nextInputId_eq : state.nextInputId = inputIdOf built
  andGates_eq : state.andGates = fun _ => {}
  outputs_eq : state.outputs = fun _ => none

theorem BuildInv.empty : BuildInv [] [] {} :=
  ⟨rfl, fun r h => by simp at h, fun r h => by simp at h, fun r h => by simp at h, rfl, rfl, rfl⟩

/-- A factory call that leaves the wires of earlier gates alone and gives each of its
outputs a wire of its lane count keeps the invariant. -/
theorem BuildInv.extend {shapes : List (List Nat)} {built : List Gate} {state : PartyState}
    (hinv : BuildInv shapes built state) (gate : Gate) (shape : List Nat) (state' : PartyState)
    (hframe : ∀ g < built.length, state'.wires g = state.wires g)
    (hown : ∀ j < shape.length, (gate.outputs.getD j default).gateId ≤ built.length ∧
      (state'.read (gate.outputs.getD j default)).numSimd = shape.getD j 0 ∧
      (gate.outputs.getD j default).index <
        (state'.wires (gate.outputs.getD j default).gateId).length)
    (hcounter : state'.nextInputId = state.nextInputId + gate.inputWires)
    (handGates : state'.andGates = state.andGates) (houtputs : state'.outputs = state.outputs) :
    BuildInv (shapes ++ [shape]) (built ++ [gate]) state' := by
  have hk := hinv.length_eq
  have split : ∀ r : WireRef, r.index < ((shapes ++ [shape]).getD r.gate []).length →
      (r.gate < shapes.length ∧ r.index < (shapes.getD r.gate []).length) ∨
        (r.gate = shapes.length ∧ r.index < shape.length) := by
    intro r hr
    rcases Nat.lt_or_ge r.gate shapes.length with hlt | hge
    · exact .inl ⟨hlt, by rwa [List.getD_append _ _ _ _ hlt] at hr⟩
    · rw [List.getD_append_right _ _ _ _ hge] at hr
      rcases Nat.lt_or_ge (r.gate - shapes.length) 1 with h1 | h1
      · exact .inr ⟨by omega, by simpa [show r.gate - shapes.length = 0 by omega] using hr⟩
      · rw [List.getD_eq_default _ _ (by simp; omega)] at hr
        simp at hr
  have hread : ∀ h : WireHandle, h.gateId < built.length → state'.read h = state.read h :=
    fun h hh => by simp only [PartyState.read, hframe _ hh]
  refine ⟨by simp [hk], fun r hr => ?_, fun r hr => ?_, fun r hr => ?_, ?_,
    by rw [handGates, hinv.andGates_eq], by rw [houtputs, hinv.outputs_eq]⟩
  · rcases split r hr with ⟨hlt, hv⟩ | ⟨heq, hj⟩
    · rw [resolve_append_of_lt _ (by omega)]; exact hinv.resolve_le r hv
    · obtain ⟨gate', index⟩ := r
      subst heq
      rw [← hk, resolve_append_self]
      exact (hown index hj).1
  · rcases split r hr with ⟨hlt, hv⟩ | ⟨heq, hj⟩
    · have hle := hinv.resolve_le r hv
      rw [resolve_append_of_lt _ (by omega), width_append_of_lt _ hlt, hread _ (by omega)]
      exact hinv.numSimd_read r hv
    · obtain ⟨gate', index⟩ := r
      subst heq
      rw [← hk, resolve_append_self, (hown index hj).2.1, hk]
      simp [width, List.getD_append_right]
  · rcases split r hr with ⟨hlt, hv⟩ | ⟨heq, hj⟩
    · have hle := hinv.resolve_le r hv
      rw [resolve_append_of_lt _ (by omega), hframe _ (by omega)]
      exact hinv.allocated r hv
    · obtain ⟨gate', index⟩ := r
      subst heq
      rw [← hk, resolve_append_self]
      exact (hown index hj).2.2
  · rw [hcounter, hinv.nextInputId_eq]
    simp [inputIdOf, List.sum_append]

theorem read_setWires_self (state : PartyState) (gateId index : Nat) (ws) :
    (state.setWires gateId ws).read ⟨gateId, index⟩ = ws.getD index default := by
  simp [PartyState.read]

theorem ownWires_getD {gateId numWires index : Nat} (h : index < numWires) :
    (ownWires gateId numWires).getD index default = ⟨gateId, index⟩ := by
  rw [List.getD_eq_getElem _ _ (by simpa [ownWires] using h)]
  simp [ownWires]

theorem lanesEq_of_refsValid {shapes : List (List Nat)} {built : List Gate} {state : PartyState}
    (hinv : BuildInv shapes built state) {refs : List WireRef} (hv : RefsValid shapes refs)
    {numSimd : Nat} (hw : ∀ r ∈ refs, width shapes r = numSimd) :
    LanesEq state numSimd (refs.map (resolve built)) := by
  intro wire hwire
  obtain ⟨r, hr, rfl⟩ := List.mem_map.mp hwire
  rw [hinv.numSimd_read r (hv r hr), hw r hr]

theorem read_eq_of_wires {s t : PartyState} (h : s.wires = t.wires) : s.read = t.read := by
  funext handle; simp [PartyState.read, h]

/-- The invariant for a call that allocates its own outputs: fresh wires of one lane count
under its own gate id, everything else untouched. -/
theorem BuildInv.extend_alloc {shapes : List (List Nat)} {built : List Gate} {state : PartyState}
    (hinv : BuildInv shapes built state) (gate : Gate) (shape : List Nat) (state' : PartyState)
    (numSimd : Nat) (hout : gate.outputs = ownWires built.length shape.length)
    (hshape : ∀ j < shape.length, shape.getD j 0 = numSimd)
    (hwires : ∀ g, g ≠ built.length → state'.wires g = state.wires g)
    (hown : state'.wires built.length = List.replicate shape.length { numSimd := numSimd })
    (hcounter : state'.nextInputId = state.nextInputId + gate.inputWires)
    (handGates : state'.andGates = state.andGates) (houtputs : state'.outputs = state.outputs) :
    BuildInv (shapes ++ [shape]) (built ++ [gate]) state' := by
  refine hinv.extend gate shape state' (fun g hg => hwires g (by omega)) (fun j hj => ?_) hcounter
    handGates houtputs
  rw [hout, ownWires_getD hj, hshape j hj]
  simp only [PartyState.read, hown]
  rw [List.getD_eq_getElem _ _ (by simpa using hj), List.getElem_replicate]
  exact ⟨Nat.le_refl _, rfl, by simpa using hj⟩

theorem getD_map_width {shapes : List (List Nat)} {refs : List WireRef} {numSimd j : Nat}
    (hw : ∀ r ∈ refs, width shapes r = numSimd) (hj : j < refs.length) :
    (refs.map (width shapes)).getD j 0 = numSimd := by
  rw [List.getD_eq_getElem _ _ (by simpa using hj), List.getElem_map]
  exact hw _ (List.getElem_mem _)

/-- One factory call on a well-formed gate throws nothing, yields `instantiate`'s gate and
keeps the invariant. -/
theorem BuildInv.construct {numParties : Nat} (provider : BEAVYProvider)
    {shapes : List (List Nat)} {built : List Gate} {state : PartyState} {spec : GateSpec}
    (hinv : BuildInv shapes built state) (hwf : spec.WellFormed numParties shapes) :
    ∃ state', (constructGate provider built spec).run state =
        .ok (instantiate provider built spec) state' ∧
      BuildInv (shapes ++ [spec.shape shapes]) (built ++ [instantiate provider built spec]) state' := by
  have hreplicate : ∀ numWires numSimd, ∀ j < (List.replicate numWires numSimd).length,
      (List.replicate numWires numSimd).getD j 0 = numSimd := fun numWires numSimd j hj => by
    rw [List.getD_eq_getElem _ _ hj, List.getElem_replicate]
  cases spec with
  | input inputOwner numWires numSimd =>
      by_cases howner : inputOwner = provider.myId <;>
      · refine ⟨_, by simp [constructGate, instantiate, howner, ← hinv.nextInputId_eq,
          BooleanBEAVYInputGateSender.run_construct, BooleanBEAVYInputGateReceiver.run_construct]; rfl, ?_⟩
        exact hinv.extend_alloc _ _ _ numSimd (by simp [instantiate, howner, Gate.outputs,
          GateSpec.shape]) (hreplicate _ _) (fun g hg => by simp [PartyState.setWires, hg])
          (by simp [GateSpec.shape]) (by simp [instantiate, howner, Gate.inputWires,
          hinv.nextInputId_eq]) rfl rfl
  | output inputs outputOwner =>
      refine ⟨_, by simp [constructGate, instantiate, BooleanBEAVYOutputGate.run_construct]; rfl, ?_⟩
      refine hinv.extend _ _ _ (fun g _ => by split <;> rfl) (fun j hj => by simp [GateSpec.shape] at hj)
        (by split <;> rfl) (by split <;> rfl) (by split <;> rfl)
  | inv inputs =>
      obtain ⟨hv, hne, hw⟩ := hwf
      have hlanes := lanesEq_of_refsValid hinv hv hw
      by_cases hjob : provider.isMyJob built.length
      · refine ⟨_, by simp [constructGate, instantiate, BooleanBEAVYINVGate.construct,
          basicUnaryGate_run (by simpa using hne) hlanes, hjob]; rfl, ?_⟩
        exact hinv.extend_alloc _ _ _ _ (by simp [instantiate, hjob, Gate.outputs, GateSpec.shape])
          (fun j hj => getD_map_width hw (by simpa [GateSpec.shape] using hj))
          (fun g hg => by simp [PartyState.setWires, hg]) (by simp [GateSpec.shape]) rfl rfl rfl
      · refine ⟨_, by simp [constructGate, instantiate, BooleanBEAVYINVGate.construct,
          basicUnaryGate_run (by simpa using hne) hlanes, hjob]; rfl, ?_⟩
        refine hinv.extend _ _ _ (fun g _ => rfl) (fun j hj => ?_) rfl rfl rfl
        simp only [GateSpec.shape, List.length_map] at hj
        have hr := hv _ (List.getElem_mem hj)
        simp only [instantiate, Gate.outputs, hjob, Bool.false_eq_true, ↓reduceIte, GateSpec.shape,
          List.getD_eq_getElem (inputs.map (resolve built)) default (by simpa using hj),
          List.getD_eq_getElem (inputs.map (width shapes)) 0 (by simpa using hj), List.getElem_map]
        refine ⟨Nat.le_of_lt (Nat.lt_of_le_of_lt (hinv.resolve_le _ hr) ?_),
          hinv.numSimd_read _ hr, hinv.allocated _ hr⟩
        rw [hinv.length_eq]; exact gate_lt_of_valid hr
  | xor inA inB | and inA inB =>
      obtain ⟨hv, hne, hlen, hw⟩ := hwf
      have hlanesA := lanesEq_of_refsValid hinv (fun r hr => hv r (List.mem_append_left _ hr))
        (fun r hr => hw r (List.mem_append_left _ hr))
      have hlanesB := lanesEq_of_refsValid hinv (fun r hr => hv r (List.mem_append_right _ hr))
        (fun r hr => hw r (List.mem_append_right _ hr))
      refine ⟨_, by simp [constructGate, instantiate, BooleanBEAVYXORGate.construct,
        BooleanBEAVYANDGate.construct, registerForBitsMessage,
        basicBinaryGate_run (by simpa using hne) (by simpa using hlen.symm) hlanesB hlanesA]; rfl, ?_⟩
      exact hinv.extend_alloc _ _ _ _ (by simp [instantiate, Gate.outputs, GateSpec.shape])
        (fun j hj => getD_map_width (fun r hr => hw r (List.mem_append_right _ hr))
          (by simpa [GateSpec.shape] using hj))
        (fun g hg => by simp [PartyState.setWires, hg]) (by simp [GateSpec.shape]) rfl rfl rfl

/-! ### The whole circuit -/

theorem buildCircuit_run_from {numParties : Nat} (provider : BEAVYProvider) :
    ∀ (circuit : Circuit) (shapes : List (List Nat)) (built : List Gate) (state : PartyState),
      BuildInv shapes built state → wellFormedFrom numParties shapes circuit →
      ∃ state', (buildCircuit provider circuit built).run state =
          .ok (extendBy (instantiate provider) built circuit) state' ∧
        BuildInv (extendBy GateSpec.shape shapes circuit)
          (extendBy (instantiate provider) built circuit) state'
  | [], _, _, state, hinv, _ => ⟨state, rfl, hinv⟩
  | _ :: rest, _, _, state, hinv, ⟨hspec, hrest⟩ => by
      obtain ⟨state₁, hrun₁, hinv₁⟩ := hinv.construct provider hspec
      obtain ⟨state₂, hrun₂, hinv₂⟩ := buildCircuit_run_from provider rest _ _ state₁ hinv₁ hrest
      exact ⟨state₂, by simp only [buildCircuit, run_bind, hrun₁, hrun₂]; rfl, hinv₂⟩

/-- A well-formed circuit builds without an exception into `buildGates`, every builder wire
backed by a wire object of its lane count. -/
theorem buildCircuit_run {numParties : Nat} (provider : BEAVYProvider) {circuit : Circuit}
    (hwf : circuit.WellFormed numParties) :
    ∃ state, (buildCircuit provider circuit []).run {} = .ok (buildGates provider circuit) state ∧
      BuildInv circuit.shapes (buildGates provider circuit) state :=
  buildCircuit_run_from provider circuit [] [] {} BuildInv.empty hwf

/-- Gate `k` of a party is what its factory call constructs after the first `k` gates. -/
theorem getElem?_buildGates (provider : BEAVYProvider) {circuit : Circuit} {k : Nat}
    (hk : k < circuit.length) :
    (buildGates provider circuit)[k]? =
      some (instantiate provider ((buildGates provider circuit).take k) circuit[k]) := by
  simpa using getElem?_extendBy (instantiate provider) [] circuit hk

theorem instantiate_gateId (provider : BEAVYProvider) (built : List Gate) (spec : GateSpec) :
    (instantiate provider built spec).gateId = built.length := by
  cases spec <;> simp only [instantiate] <;> try split
  all_goals rfl

theorem resolve_take_of_lt (built : List Gate) {k : Nat} {r : WireRef} (h : r.gate < k) :
    resolve (built.take k) r = resolve built r := by
  simp only [resolve, List.getD_eq_getElem?_getD, List.getElem?_take_of_lt h]

theorem getD_buildGates (provider : BEAVYProvider) {circuit : Circuit} {k : Nat}
    (hk : k < circuit.length) :
    (buildGates provider circuit).getD k default =
      instantiate provider ((buildGates provider circuit).take k) circuit[k] := by
  rw [List.getD_eq_getElem?_getD, getElem?_buildGates provider hk, Option.getD_some]

theorem length_take_buildGates (provider : BEAVYProvider) {circuit : Circuit} {k : Nat}
    (hk : k ≤ circuit.length) : ((buildGates provider circuit).take k).length = k := by
  simp [buildGates, hk]

theorem inputWires_instantiate (provider : BEAVYProvider) (built : List Gate) (spec : GateSpec) :
    (instantiate provider built spec).inputWires = spec.inputWires := by
  cases spec <;> simp only [instantiate] <;> try split
  all_goals rfl

theorem Circuit.inputId_succ {circuit : Circuit} {k : Nat} (hk : k < circuit.length) :
    circuit.inputId (k + 1) = circuit.inputId k + circuit[k].inputWires := by
  have htake : circuit.take (k + 1) = circuit.take k ++ [circuit[k]] := by
    rw [List.take_succ, List.getElem?_eq_getElem hk]
    rfl
  rw [Circuit.inputId, Circuit.inputId, htake, List.map_append, List.sum_append]
  simp

/-- The provider's counter before gate `k` is the circuit's input id of position `k`. -/
theorem inputIdOf_take_buildGates (provider : BEAVYProvider) {circuit : Circuit} :
    ∀ {k : Nat}, k ≤ circuit.length →
      inputIdOf ((buildGates provider circuit).take k) = circuit.inputId k
  | 0, _ => by simp [inputIdOf, Circuit.inputId]
  | k + 1, hk => by
      rw [buildGates, take_succ_extendBy _ _ hk, ← buildGates, inputIdOf, List.map_append,
        List.sum_append, ← inputIdOf, inputIdOf_take_buildGates provider (Nat.le_of_succ_le hk),
        Circuit.inputId_succ hk]
      simp [inputWires_instantiate]

/-! ### The keys of the randomness generators -/

/-- The keys under which an input gate's `evaluate_setup` draws from the randomness
generators: `input_id_ + wire_i` for each of its wires. -/
def Gate.inputKeys : Gate → List Nat
  | .inputSender _ inputId numWires _ | .inputReceiver _ inputId numWires _ _ =>
      (List.range numWires).map (inputId + ·)
  | _ => []

theorem inputKeys_instantiate (provider : BEAVYProvider) (built : List Gate) (spec : GateSpec) :
    (instantiate provider built spec).inputKeys =
      (List.range spec.inputWires).map (inputIdOf built + ·) := by
  cases spec <;> simp only [instantiate] <;> try split
  all_goals rfl

/-- `get_next_input_id` hands the input gates consecutive blocks of ids: the keys of the
gates before position `k` are `0, 1, ...` up to the input id of `k`, each once. -/
theorem inputKeys_take_buildGates (provider : BEAVYProvider) {circuit : Circuit} :
    ∀ {k : Nat}, k ≤ circuit.length →
      ((buildGates provider circuit).take k).flatMap Gate.inputKeys =
        List.range (circuit.inputId k)
  | 0, _ => by simp [Circuit.inputId]
  | k + 1, hk => by
      rw [buildGates, take_succ_extendBy _ _ hk, ← buildGates, List.flatMap_append,
        inputKeys_take_buildGates provider (Nat.le_of_succ_le hk), Circuit.inputId_succ hk,
        List.range_add]
      simp [inputKeys_instantiate, inputIdOf_take_buildGates provider (Nat.le_of_succ_le hk)]

end MotionBeavy
