import MotionBeavy.Gates

/-
Module: MotionBeavy.Circuit
Purpose: Circuits as the builder hands them to every party: a list of factory calls whose
  inputs name wires returned by earlier calls. Each party constructs its gates from the
  same list (`buildCircuit`), the owner of an input running the Sender and everyone else
  the Receiver; gate ids are the positions of the calls and input ids come from the
  provider's counter. The module also gives the builder-level lane widths of every wire,
  the well-formedness the constructors check, and the plaintext value of every wire.
Trusted boundary: the circuit builder is not under src/; `GateSpec` is the interface it
  uses (the gates' constructors).
Main exports: WireRef, GateSpec, Circuit, buildCircuit, resolve, extendBy,
  Circuit.shapes, Circuit.WellFormed, plainValues
-/

namespace MotionBeavy

/-- A wire as the builder passes it between factory calls: the position of the call that
returned it and its index in that call's output share. -/
structure WireRef where
  gate : Nat
  index : Nat
deriving Repr, DecidableEq

/-- One factory call. The binary gates take their inputs in the order `(in_a, in_b)` of
their constructors. -/
inductive GateSpec where
  | input (inputOwner numWires numSimd : Nat)
  | output (inputs : List WireRef) (outputOwner : Nat)
  | inv (inputs : List WireRef)
  | xor (inA inB : List WireRef)
  | and (inA inB : List WireRef)
deriving Repr, DecidableEq

abbrev Circuit := List GateSpec

/-- Evaluate a list front to back, each element seeing the results of the ones before. -/
def extendBy {α β : Type} (g : List β → α → β) : List β → List α → List β
  | acc, [] => acc
  | acc, a :: rest => extendBy g (acc ++ [g acc a]) rest

section ExtendBy

variable {α β : Type} (g : List β → α → β)

@[simp] theorem length_extendBy (acc : List β) (l : List α) :
    (extendBy g acc l).length = acc.length + l.length := by
  induction l generalizing acc with
  | nil => rfl
  | cons a l ih => simp [extendBy, ih]; omega

theorem take_extendBy (acc : List β) (l : List α) :
    (extendBy g acc l).take acc.length = acc := by
  induction l generalizing acc with
  | nil => simp [extendBy]
  | cons a l ih =>
      have := congrArg (List.take acc.length) (ih (acc ++ [g acc a]))
      simpa [extendBy, List.take_take] using this

/-- Position `acc.length + k` holds `g` applied to everything before it. -/
theorem getElem?_extendBy (acc : List β) (l : List α) {k : Nat} (hk : k < l.length) :
    (extendBy g acc l)[acc.length + k]? =
      some (g ((extendBy g acc l).take (acc.length + k)) l[k]) := by
  induction l generalizing acc k with
  | nil => simp at hk
  | cons a l ih =>
      cases k with
      | zero =>
          have hprefix := take_extendBy g (acc ++ [g acc a]) l
          rw [Nat.add_zero, take_extendBy g acc (a :: l), extendBy,
            ← List.getElem?_take_of_lt (n := (acc ++ [g acc a]).length) (by simp), hprefix]
          simp
      | succ k =>
          have hlen : acc.length + (k + 1) = (acc ++ [g acc a]).length + k := by simp; omega
          rw [hlen, extendBy, ih _ (by simpa using hk)]
          rfl

theorem extendBy_append (acc : List β) (l₁ l₂ : List α) :
    extendBy g acc (l₁ ++ l₂) = extendBy g (extendBy g acc l₁) l₂ := by
  induction l₁ generalizing acc with
  | nil => rfl
  | cons a l₁ ih => exact ih _

/-- The first `k` further results are the evaluation of the first `k` elements. -/
theorem take_extendBy_add (acc : List β) (l : List α) (k : Nat) :
    (extendBy g acc l).take (acc.length + k) = extendBy g acc (l.take k) := by
  induction l generalizing acc k with
  | nil => simp [extendBy, List.take_of_length_le]
  | cons a l ih =>
      cases k with
      | zero => simpa [extendBy] using take_extendBy g acc (a :: l)
      | succ k =>
          have hlen : acc.length + (k + 1) = (acc ++ [g acc a]).length + k := by simp; omega
          rw [hlen, extendBy, ih]
          rfl

/-- One more element of the evaluation from scratch. -/
theorem take_succ_extendBy (l : List α) {k : Nat} (hk : k < l.length) :
    (extendBy g [] l).take (k + 1) =
      (extendBy g [] l).take k ++ [g ((extendBy g [] l).take k) l[k]] := by
  have h := take_extendBy_add g [] l
  simp only [List.length_nil, Nat.zero_add] at h
  rw [h, h, List.take_succ, List.getElem?_eq_getElem hk, Option.toList_some, extendBy_append]
  rfl

end ExtendBy

/-! ### Construction at one party -/

/-- The handle a party's gates give for a builder's wire. -/
def resolve (built : List Gate) (ref : WireRef) : WireHandle :=
  ((built.getD ref.gate default).outputs).getD ref.index default

/-- One factory call at one party; its gate id is the number of gates built before it. -/
def constructGate (provider : BEAVYProvider) (built : List Gate) :
    GateSpec → EStateM Error PartyState Gate
  | .input inputOwner numWires numSimd =>
      if inputOwner = provider.myId then
        BooleanBEAVYInputGateSender.construct built.length numWires numSimd
      else BooleanBEAVYInputGateReceiver.construct built.length numWires numSimd inputOwner
  | .output inputs outputOwner =>
      BooleanBEAVYOutputGate.construct provider built.length (inputs.map (resolve built))
        outputOwner
  | .inv inputs => BooleanBEAVYINVGate.construct provider built.length (inputs.map (resolve built))
  | .xor inA inB =>
      BooleanBEAVYXORGate.construct built.length (inA.map (resolve built)) (inB.map (resolve built))
  | .and inA inB =>
      BooleanBEAVYANDGate.construct provider built.length (inA.map (resolve built))
        (inB.map (resolve built))

/-- Construct the gates of a circuit in order at one party. -/
def buildCircuit (provider : BEAVYProvider) : Circuit → List Gate → EStateM Error PartyState (List Gate)
  | [], built => pure built
  | spec :: rest, built => do
      let gate ← constructGate provider built spec
      buildCircuit provider rest (built ++ [gate])

/-- How far a factory call advances the provider's input-id counter. -/
def GateSpec.inputWires : GateSpec → Nat
  | .input _ numWires _ => numWires
  | _ => 0

/-- The input id the provider hands the factory call at position `k`. -/
def Circuit.inputId (circuit : Circuit) (k : Nat) : Nat :=
  ((circuit.take k).map GateSpec.inputWires).sum

/-! ### Lane widths and well-formedness -/

/-- The lane count of a builder's wire, given the lane counts of the gates' outputs. -/
def width (shapes : List (List Nat)) (ref : WireRef) : Nat :=
  (shapes.getD ref.gate []).getD ref.index 0

/-- The lane counts of a gate's outputs: a binary gate has as many outputs as its
`inputs_a_`, the caller's second input. -/
def GateSpec.shape (shapes : List (List Nat)) : GateSpec → List Nat
  | .input _ numWires numSimd => List.replicate numWires numSimd
  | .output .. => []
  | .inv inputs => inputs.map (width shapes)
  | .xor _ inB => inB.map (width shapes)
  | .and _ inB => inB.map (width shapes)

/-- The lane counts of every gate's outputs. -/
def Circuit.shapes (circuit : Circuit) : List (List Nat) := extendBy GateSpec.shape [] circuit

/-- Every wire named is an output of an earlier call. -/
def RefsValid (shapes : List (List Nat)) (refs : List WireRef) : Prop :=
  ∀ r ∈ refs, r.index < (shapes.getD r.gate []).length

/-- What the builder promises about one call, given the lane counts before it: names of
existing wires, an input owner that is a party, and the constructors' checks (a positive
number of wires, the same number for both inputs, one lane count for all wires). -/
def GateSpec.WellFormed (numParties : Nat) (shapes : List (List Nat)) : GateSpec → Prop
  | .input inputOwner _ _ => inputOwner < numParties
  | .output inputs _ => RefsValid shapes inputs
  | .inv inputs => RefsValid shapes inputs ∧ inputs ≠ [] ∧
      ∀ r ∈ inputs, width shapes r = width shapes (inputs.headD ⟨0, 0⟩)
  | .xor inA inB => RefsValid shapes (inA ++ inB) ∧ inB ≠ [] ∧ inA.length = inB.length ∧
      ∀ r ∈ inA ++ inB, width shapes r = width shapes (inB.headD ⟨0, 0⟩)
  | .and inA inB => RefsValid shapes (inA ++ inB) ∧ inB ≠ [] ∧ inA.length = inB.length ∧
      ∀ r ∈ inA ++ inB, width shapes r = width shapes (inB.headD ⟨0, 0⟩)

/-- Well-formedness of the calls after a prefix with the given lane counts. -/
def wellFormedFrom (numParties : Nat) : List (List Nat) → Circuit → Prop
  | _, [] => True
  | shapes, spec :: rest =>
      spec.WellFormed numParties shapes ∧ wellFormedFrom numParties (shapes ++ [spec.shape shapes]) rest

def Circuit.WellFormed (numParties : Nat) (circuit : Circuit) : Prop :=
  wellFormedFrom numParties [] circuit

/-! ### Plaintext semantics -/

/-- The plaintext value of a builder's wire. -/
def value (values : List (List BitVector)) (ref : WireRef) : BitVector :=
  (values.getD ref.gate []).getD ref.index []

/-- The plaintext values of a gate's outputs; `inputs owner gateId` is what the input
owner's `input_future_` delivers. -/
def GateSpec.evaluate (inputs : Nat → Nat → List BitVector) (values : List (List BitVector)) :
    GateSpec → List BitVector
  | .input inputOwner numWires _ =>
      (List.range numWires).map fun wire_i => (inputs inputOwner values.length).getD wire_i []
  | .output .. => []
  | .inv refs => refs.map fun r => ~~~(value values r)
  | .xor inA inB => List.zipWith (· ^^^ ·) (inA.map (value values)) (inB.map (value values))
  | .and inA inB => List.zipWith (· &&& ·) (inA.map (value values)) (inB.map (value values))

/-- The plaintext value of every wire of a circuit. -/
def plainValues (inputs : Nat → Nat → List BitVector) (circuit : Circuit) : List (List BitVector) :=
  extendBy (GateSpec.evaluate inputs) [] circuit

end MotionBeavy
