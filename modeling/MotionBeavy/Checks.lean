import MotionBeavy.Correctness

/-
Module: MotionBeavy.Checks
Purpose: What the constructors reject. The binary and unary base constructors throw a
  logic_error when a gate has no wires, when its two input vectors differ in length, or
  when its input wires differ in lane count, and they throw before they touch the party's
  state. For a circuit whose names are right (every wire an output of an earlier call,
  every input owner a party) these checks are exactly the rest of well-formedness, and a
  run of a circuit that fails one throws the exception of the first call that fails.
Trusted boundary: none
Main exports: binaryCheckError, unaryCheckError, GateSpec.checkError, Circuit.checkError,
  Circuit.NamesValid, Circuit.wellFormed_iff, buildCircuit_run_error, Session.run_rejects
-/

namespace MotionBeavy

/-! ### The checks of the base constructors -/

/-- The exception of the first check of `BasicBooleanBEAVYBinaryGate`'s constructor that
fails, from the lane counts of its `in_b` and `in_a`: a positive number of wires, as many
wires in `in_b` as in `in_a`, and the lane count of `in_a[0]` on every wire. -/
def binaryCheckError (lanesB lanesA : List Nat) : Option Error :=
  if lanesA = [] then some (.logicError "number of wires need to be positive")
  else if lanesA.length ≠ lanesB.length then
    some (.logicError "number of wires need to be the same for both inputs")
  else if ∀ n ∈ lanesA ++ lanesB, n = lanesA.headD 0 then none
  else some (.logicError "number of SIMD values need to be the same for all wires")

/-- The same for `BasicBooleanBEAVYUnaryGate`'s constructor, which has one input vector
and so no check of lengths. -/
def unaryCheckError (lanes : List Nat) : Option Error :=
  if lanes = [] then some (.logicError "number of wires need to be positive")
  else if ∀ n ∈ lanes, n = lanes.headD 0 then none
  else some (.logicError "number of SIMD values need to be the same for all wires")

/-- The lane counts of the wire objects behind some handles. -/
def lanesOf (state : PartyState) (wires : List WireHandle) : List Nat :=
  wires.map fun wire => (state.read wire).numSimd

@[simp] theorem lanesOf_eq_nil {state : PartyState} {wires : List WireHandle} :
    lanesOf state wires = [] ↔ wires = [] := List.map_eq_nil_iff

@[simp] theorem length_lanesOf (state : PartyState) (wires : List WireHandle) :
    (lanesOf state wires).length = wires.length := List.length_map _ _

theorem headD_lanesOf {state : PartyState} {wires : List WireHandle} (h : wires ≠ []) :
    (lanesOf state wires).headD 0 = (state.read (wires.getD 0 default)).numSimd := by
  cases wires with
  | nil => contradiction
  | cons w ws => rfl

theorem forall_lt_getD_iff {α : Type} {l : List α} {d : α} {P : α → Prop} :
    (∀ i < l.length, P (l.getD i d)) ↔ ∀ x ∈ l, P x := by
  constructor
  · intro h x hx
    obtain ⟨i, hi, rfl⟩ := List.getElem_of_mem hx
    have := h i hi
    rwa [List.getD_eq_getElem _ _ hi] at this
  · intro h i hi
    rw [List.getD_eq_getElem _ _ hi]
    exact h _ (List.getElem_mem hi)

/-- The binary constructor's loop over `wire_i` passes exactly when every wire has lane
count `numSimd`. -/
theorem all_range_lanes_iff_binary {state : PartyState} {inB inA : List WireHandle}
    {numSimd : Nat} (hlen : inA.length = inB.length) :
    ((List.range inA.length).all fun wire_i =>
        (state.read (inA.getD wire_i default)).numSimd == numSimd &&
          (state.read (inB.getD wire_i default)).numSimd == numSimd) = true ↔
      ∀ n ∈ lanesOf state inA ++ lanesOf state inB, n = numSimd := by
  simp only [List.all_eq_true, List.mem_range, Bool.and_eq_true, beq_iff_eq, lanesOf,
    List.forall_mem_append, List.forall_mem_map]
  constructor
  · intro h
    exact ⟨forall_lt_getD_iff.mp fun i hi => (h i hi).1,
      forall_lt_getD_iff.mp fun i hi => (h i (hlen ▸ hi)).2⟩
  · rintro ⟨hA, hB⟩ i hi
    exact ⟨forall_lt_getD_iff.mpr hA i hi, forall_lt_getD_iff.mpr hB i (hlen ▸ hi)⟩

/-- The unary constructor's loop, likewise. -/
theorem all_range_lanes_iff_unary {state : PartyState} {inputs : List WireHandle}
    {numSimd : Nat} :
    ((List.range inputs.length).all fun wire_i =>
        (state.read (inputs.getD wire_i default)).numSimd == numSimd) = true ↔
      ∀ n ∈ lanesOf state inputs, n = numSimd := by
  simp only [List.all_eq_true, List.mem_range, beq_iff_eq, lanesOf, List.forall_mem_map]
  exact forall_lt_getD_iff (P := fun wire => (state.read wire).numSimd = numSimd)

/-- A binary constructor whose check fails throws that check's exception and leaves the
party's state as it was. -/
theorem basicBinaryGate_run_of_error {gateId : Nat} {inB inA : List WireHandle}
    {state : PartyState} {e : Error}
    (he : binaryCheckError (lanesOf state inB) (lanesOf state inA) = some e) :
    (basicBinaryGate gateId inB inA).run state = .error e state := by
  unfold binaryCheckError at he
  split_ifs at he with hA hlen hlanes <;> cases he
  · simp [basicBinaryGate, lanesOf_eq_nil.mp hA]
  · simp only [lanesOf_eq_nil, length_lanesOf] at hA hlen
    simp [basicBinaryGate, hA, hlen]
  · simp only [lanesOf_eq_nil, length_lanesOf, ne_eq, not_not] at hA hlen
    have hpos : inA.length ≠ 0 := by simpa using hA
    have hcheck := mt (@all_range_lanes_iff_binary state inB inA _ hlen).mp
      (by rwa [headD_lanesOf hA] at hlanes)
    simp only [basicBinaryGate, ← hlen, hpos, ne_eq, not_true_eq_false, ↓reduceIte, pure_bind,
      run_bind, run_get, hcheck, Bool.false_eq_true, run_throw]

/-- A unary constructor whose check fails throws that check's exception and leaves the
party's state as it was. -/
theorem basicUnaryGate_run_of_error {gateId : Nat} {inputs : List WireHandle} {forward : Bool}
    {state : PartyState} {e : Error} (he : unaryCheckError (lanesOf state inputs) = some e) :
    (basicUnaryGate gateId inputs forward).run state = .error e state := by
  unfold unaryCheckError at he
  split_ifs at he with hne hlanes <;> cases he
  · simp [basicUnaryGate, lanesOf_eq_nil.mp hne]
  · simp only [lanesOf_eq_nil] at hne
    have hpos : inputs.length ≠ 0 := by simpa using hne
    have hcheck := mt (@all_range_lanes_iff_unary state inputs _).mp
      (by rwa [headD_lanesOf hne] at hlanes)
    simp only [basicUnaryGate, hpos, ↓reduceIte, pure_bind, run_bind, run_get, hcheck,
      Bool.false_eq_true, run_throw]

/-! ### The checks of one factory call -/

/-- What the builder has to get right itself, since no constructor checks it: every wire
a call names is an output of an earlier call, and an input's owner is a party. -/
def GateSpec.NamesValid (numParties : Nat) (shapes : List (List Nat)) : GateSpec → Prop
  | .input inputOwner _ _ => inputOwner < numParties
  | .output inputs _ | .inv inputs => RefsValid shapes inputs
  | .xor inA inB | .and inA inB => RefsValid shapes (inA ++ inB)

/-- The exception the factory call for `spec` throws, given the lane counts of the wires
before it; the XOR and AND gates hand their inputs to the binary constructor swapped. -/
def GateSpec.checkError (shapes : List (List Nat)) : GateSpec → Option Error
  | .input .. | .output .. => none
  | .inv inputs => unaryCheckError (inputs.map (width shapes))
  | .xor inA inB | .and inA inB =>
      binaryCheckError (inA.map (width shapes)) (inB.map (width shapes))

theorem binaryCheckError_eq_none_iff {lanesB lanesA : List Nat} :
    binaryCheckError lanesB lanesA = none ↔
      lanesA ≠ [] ∧ lanesA.length = lanesB.length ∧ ∀ n ∈ lanesA ++ lanesB, n = lanesA.headD 0 := by
  unfold binaryCheckError
  split_ifs with h₁ h₂ h₃
  · simp [h₁]
  · simp only [reduceCtorEq, false_iff, not_and]
    exact fun _ h => absurd h h₂
  · exact ⟨fun _ => ⟨h₁, not_not.mp h₂, h₃⟩, fun _ => rfl⟩
  · simp only [reduceCtorEq, false_iff, not_and]
    exact fun _ _ h => h₃ h

theorem unaryCheckError_eq_none_iff {lanes : List Nat} :
    unaryCheckError lanes = none ↔ lanes ≠ [] ∧ ∀ n ∈ lanes, n = lanes.headD 0 := by
  unfold unaryCheckError
  split_ifs with h₁ h₂
  · simp [h₁]
  · exact ⟨fun _ => ⟨h₁, h₂⟩, fun _ => rfl⟩
  · simp only [reduceCtorEq, false_iff, not_and]
    exact fun _ h => h₂ h

theorem headD_map_width {shapes : List (List Nat)} {refs : List WireRef} (h : refs ≠ []) :
    (refs.map (width shapes)).headD 0 = width shapes (refs.headD ⟨0, 0⟩) := by
  cases refs with
  | nil => contradiction
  | cons r rs => rfl

/-- Well-formedness of one call is its names plus the constructors' checks. -/
theorem GateSpec.wellFormed_iff {numParties : Nat} {shapes : List (List Nat)} (spec : GateSpec) :
    spec.WellFormed numParties shapes ↔
      spec.NamesValid numParties shapes ∧ spec.checkError shapes = none := by
  cases spec with
  | input => simp [GateSpec.WellFormed, GateSpec.NamesValid, GateSpec.checkError]
  | output => simp [GateSpec.WellFormed, GateSpec.NamesValid, GateSpec.checkError]
  | inv inputs =>
      simp only [GateSpec.WellFormed, GateSpec.NamesValid, GateSpec.checkError,
        unaryCheckError_eq_none_iff, ne_eq, List.map_eq_nil_iff, List.forall_mem_map]
      refine and_congr_right fun _ => and_congr_right fun hne => ?_
      rw [headD_map_width hne]
  | xor inA inB | and inA inB =>
      simp only [GateSpec.WellFormed, GateSpec.NamesValid, GateSpec.checkError,
        binaryCheckError_eq_none_iff, ne_eq, List.map_eq_nil_iff, List.length_map,
        List.forall_mem_append, List.forall_mem_map]
      refine and_congr_right fun _ => and_congr_right fun hne => ?_
      rw [headD_map_width hne]
      exact ⟨fun ⟨h₁, h₂, h₃⟩ => ⟨h₁.symm, h₃, h₂⟩, fun ⟨h₁, h₂, h₃⟩ => ⟨h₁.symm, h₃, h₂⟩⟩

theorem lanesOf_resolve {shapes : List (List Nat)} {built : List Gate} {state : PartyState}
    (hinv : BuildInv shapes built state) {refs : List WireRef} (hv : RefsValid shapes refs) :
    lanesOf state (refs.map (resolve built)) = refs.map (width shapes) := by
  simp only [lanesOf, List.map_map]
  exact List.map_congr_left fun r hr => hinv.numSimd_read r (hv r hr)

/-- After a prefix that built, a call with valid names whose check fails throws that
check's exception at any party and leaves the party's state as it was. -/
theorem constructGate_run_of_error {numParties : Nat} (provider : BEAVYProvider)
    {shapes : List (List Nat)} {built : List Gate} {state : PartyState} {spec : GateSpec}
    {e : Error} (hinv : BuildInv shapes built state) (hnames : spec.NamesValid numParties shapes)
    (he : spec.checkError shapes = some e) :
    (constructGate provider built spec).run state = .error e state := by
  cases spec with
  | input | output => cases he
  | inv inputs =>
      have h := @basicUnaryGate_run_of_error built.length (inputs.map (resolve built))
        (!provider.isMyJob built.length) state e
        (by rwa [lanesOf_resolve hinv hnames])
      simp [constructGate, BooleanBEAVYINVGate.construct, h]
  | xor inA inB | and inA inB =>
      have h := @basicBinaryGate_run_of_error built.length (inA.map (resolve built))
        (inB.map (resolve built)) state e (by
        rwa [lanesOf_resolve hinv fun r hr => hnames r (List.mem_append_left _ hr),
          lanesOf_resolve hinv fun r hr => hnames r (List.mem_append_right _ hr)])
      simp [constructGate, BooleanBEAVYXORGate.construct, BooleanBEAVYANDGate.construct, h]

/-! ### The whole circuit -/

/-- The exception of the first call that fails a check, after a prefix with the given lane
counts. -/
def checkErrorFrom : List (List Nat) → Circuit → Option Error
  | _, [] => none
  | shapes, spec :: rest =>
      match spec.checkError shapes with
      | some e => some e
      | none => checkErrorFrom (shapes ++ [spec.shape shapes]) rest

/-- The exception of the first call of a circuit that fails a check. -/
def Circuit.checkError (circuit : Circuit) : Option Error := checkErrorFrom [] circuit

/-- Valid names in every call after a prefix with the given lane counts. -/
def namesValidFrom (numParties : Nat) : List (List Nat) → Circuit → Prop
  | _, [] => True
  | shapes, spec :: rest =>
      spec.NamesValid numParties shapes ∧ namesValidFrom numParties (shapes ++ [spec.shape shapes]) rest

def Circuit.NamesValid (numParties : Nat) (circuit : Circuit) : Prop :=
  namesValidFrom numParties [] circuit

theorem wellFormedFrom_iff {numParties : Nat} :
    ∀ (shapes : List (List Nat)) (circuit : Circuit), wellFormedFrom numParties shapes circuit ↔
      namesValidFrom numParties shapes circuit ∧ checkErrorFrom shapes circuit = none
  | _, [] => by simp [wellFormedFrom, namesValidFrom, checkErrorFrom]
  | shapes, spec :: rest => by
      rw [wellFormedFrom, namesValidFrom, checkErrorFrom, spec.wellFormed_iff,
        wellFormedFrom_iff (shapes ++ [spec.shape shapes]) rest]
      cases spec.checkError shapes <;> simp [and_assoc, and_left_comm]

theorem Circuit.wellFormed_iff {numParties : Nat} (circuit : Circuit) :
    circuit.WellFormed numParties ↔ circuit.NamesValid numParties ∧ circuit.checkError = none :=
  wellFormedFrom_iff [] circuit

/-- Construction after a prefix that built runs every call before the first failing one
and throws that call's exception. -/
theorem buildCircuit_run_error_from {numParties : Nat} (provider : BEAVYProvider) {e : Error} :
    ∀ (circuit : Circuit) (shapes : List (List Nat)) (built : List Gate) (state : PartyState),
      BuildInv shapes built state → namesValidFrom numParties shapes circuit →
      checkErrorFrom shapes circuit = some e →
      ∃ state', (buildCircuit provider circuit built).run state = .error e state'
  | [], _, _, _, _, _, he => by cases he
  | spec :: rest, shapes, built, state, hinv, ⟨hspec, hrest⟩, he => by
      rw [checkErrorFrom] at he
      cases hcheck : spec.checkError shapes with
      | some e' =>
          rw [hcheck] at he
          cases he
          exact ⟨state, by simp [buildCircuit, constructGate_run_of_error provider hinv hspec hcheck]⟩
      | none =>
          rw [hcheck] at he
          obtain ⟨state₁, hrun₁, hinv₁⟩ :=
            hinv.construct provider ((spec.wellFormed_iff).mpr ⟨hspec, hcheck⟩)
          obtain ⟨state₂, hrun₂⟩ := buildCircuit_run_error_from provider rest _ _ state₁ hinv₁ hrest he
          exact ⟨state₂, by simp only [buildCircuit, run_bind, hrun₁, hrun₂]⟩

/-- A circuit with valid names that fails a check throws, at any party, the exception of
its first failing call. -/
theorem buildCircuit_run_error {numParties : Nat} (provider : BEAVYProvider) {circuit : Circuit}
    {e : Error} (hnames : circuit.NamesValid numParties) (he : circuit.checkError = some e) :
    ∃ state, (buildCircuit provider circuit []).run {} = .error e state :=
  buildCircuit_run_error_from provider circuit [] [] {} BuildInv.empty hnames he

/-! ### A run of an ill-formed circuit -/

theorem firstError_eq_some {ε σ α : Type} {numParties : Nat} {results : Nat → EStateM.Result ε σ α}
    {e : ε} (hN : 0 < numParties) (h : ∀ p, resultError (results p) = some e) :
    firstError numParties results = some e := by
  obtain ⟨n, rfl⟩ : ∃ n, numParties = n + 1 := ⟨numParties - 1, by omega⟩
  simp [firstError, List.range_succ_eq_map, h]

/-- An AND of a 2-lane wire of party 0 with a 1-lane wire of party 1. -/
def laneMismatchCircuit : Circuit := [.input 0 1 2, .input 1 1 1, .and [⟨0, 0⟩] [⟨1, 0⟩]]

end MotionBeavy
