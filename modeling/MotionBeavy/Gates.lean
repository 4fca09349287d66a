import MotionBeavy.CountBits

/-
Module: MotionBeavy.Gates
Purpose: The BEAVY Boolean gates of one party: the constructors of
  `BooleanBEAVYInputGateSender`, `BooleanBEAVYInputGateReceiver`, `BooleanBEAVYOutputGate`,
  `BooleanBEAVYINVGate`, `BooleanBEAVYXORGate` and `BooleanBEAVYANDGate` (with the checks of
  `BasicBooleanBEAVYBinaryGate` and `BasicBooleanBEAVYUnaryGate`), their `evaluate_setup`
  and their `evaluate_online`.
  Constructors and `evaluate_online` run in `EStateM Error PartyState`, so that a thrown
  exception keeps the writes made before it, as C++ does. A loop over `wire_i` whose
  iterations read only other gates' wires is rendered as the map that produces the gate's
  own wires; the loop of `BooleanBEAVYInputGateSender::evaluate_online`, which can throw
  between iterations, stays a loop. The futures a gate reads are the `inbox` argument
  (sender ↦ payload for this gate id); the messages it hands to the message layer are
  returned in `OnlineEffects`. The two XCOT-bit instances of an AND gate are the `XCOTBit`
  argument of its setup.
Trusted boundary: the message layer (`broadcast_bits_message`, `send_bits_message`,
  `register_for_bits_message(s)`), `get_next_input_id` and the OT provider are not under
  src/ and are modelled from the spec.
Main exports: Error, Gate, Gate.outputs, Gate.evaluateSetup, Gate.evaluateOnline,
  BooleanBEAVYOutputGate.getOutputFuture
-/

namespace MotionBeavy

/-- The exceptions the gates throw: `std::logic_error`, `std::runtime_error`, and the
`std::out_of_range` of `std::vector::at`. -/
inductive Error where
  | logicError (what : String)
  | runtimeError (what : String)
  | outOfRange
deriving Repr, DecidableEq

/-- A bits message handed to the message layer for the current gate id. -/
structure BitsMessage where
  recipient : Nat
  payload : BitVector
deriving Repr, DecidableEq

/-- What one `evaluate_online` does towards the other parties: the bits messages it sends
and the senders whose registered futures it reads. -/
structure OnlineEffects where
  sent : List BitsMessage := []
  read : List Nat := []
deriving Repr, DecidableEq

/-! ### Running `EStateM` computations

The equations below unfold `EStateM.run` through the monad operations the gates use. -/

section EStateMRun

variable {ε σ α β : Type}

@[simp] theorem run_bind (x : EStateM ε σ α) (f : α → EStateM ε σ β) (s : σ) :
    (x >>= f).run s = match x.run s with
      | .ok a s' => (f a).run s'
      | .error e s' => .error e s' := rfl

@[simp] theorem run_map (f : α → β) (x : EStateM ε σ α) (s : σ) :
    (f <$> x).run s = match x.run s with
      | .ok a s' => .ok (f a) s'
      | .error e s' => .error e s' := rfl

@[simp] theorem run_pure (a : α) (s : σ) : (pure a : EStateM ε σ α).run s = .ok a s := rfl

@[simp] theorem run_get (s : σ) : (get : EStateM ε σ σ).run s = .ok s s := rfl

@[simp] theorem run_set (s s' : σ) : (set s' : EStateM ε σ PUnit).run s = .ok ⟨⟩ s' := rfl

@[simp] theorem run_modify (f : σ → σ) (s : σ) :
    (modify f : EStateM ε σ PUnit).run s = .ok ⟨⟩ (f s) := rfl

@[simp] theorem run_modifyGet (f : σ → α × σ) (s : σ) :
    (modifyGet f : EStateM ε σ α).run s = .ok (f s).1 (f s).2 := rfl

@[simp] theorem run_throw (e : ε) (s : σ) : (throw e : EStateM ε σ α).run s = .error e s := rfl

end EStateMRun

/-- The gates one party has constructed. The binary gates hold the members `inputs_a_` and
`inputs_b_` of `BasicBooleanBEAVYBinaryGate`. -/
inductive Gate where
  | inputSender (gateId inputId numWires numSimd : Nat)
  | inputReceiver (gateId inputId numWires numSimd inputOwner : Nat)
  | output (gateId outputOwner : Nat) (inputs : List WireHandle)
  | inv (gateId : Nat) (isMyJob : Bool) (inputs : List WireHandle)
  | xor (gateId : Nat) (inputsA inputsB : List WireHandle)
  | and (gateId : Nat) (inputsA inputsB : List WireHandle)
deriving Repr, DecidableEq, Inhabited

/-- `gate_id_`. -/
def Gate.gateId : Gate → Nat
  | .inputSender gateId .. | .inputReceiver gateId .. | .output gateId .. | .inv gateId ..
  | .xor gateId .. | .and gateId .. => gateId

/-- The wires a gate allocates: handle `wire_i` of its own gate id. -/
def ownWires (gateId numWires : Nat) : List WireHandle :=
  (List.range numWires).map fun wire_i => ⟨gateId, wire_i⟩

/-- `outputs_`: an INV gate that is not this party's job forwards its inputs. -/
def Gate.outputs : Gate → List WireHandle
  | .inputSender gateId _ numWires _ => ownWires gateId numWires
  | .inputReceiver gateId _ numWires _ _ => ownWires gateId numWires
  | .output .. => []
  | .inv gateId isMyJob inputs => if isMyJob then ownWires gateId inputs.length else inputs
  | .xor gateId inputsA _ => ownWires gateId inputsA.length
  | .and gateId inputsA _ => ownWires gateId inputsA.length

/-! ### Message layer and provider -/

/-- `broadcast_bits_message`: one unicast to every other party. -/
def broadcastBitsMessage (provider : BEAVYProvider) (payload : BitVector) : List BitsMessage :=
  (List.range provider.numParties).filterMap fun party_id =>
    if party_id = provider.myId then none else some ⟨party_id, payload⟩

/-- `send_bits_message`. -/
def sendBitsMessage (party_id : Nat) (payload : BitVector) : List BitsMessage :=
  [⟨party_id, payload⟩]

/-- `register_for_bits_message(sender, gate_id, num_bits)`. -/
def registerForBitsMessage (sender gateId numBits : Nat) : EStateM Error PartyState Unit :=
  modify fun state => { state with registrations := state.registrations ++ [⟨sender, gateId, numBits⟩] }

/-- `register_for_bits_messages(gate_id, num_bits)`: a future from every other party, the
ones `share_futures_[party_id]` reads. -/
def registerForBitsMessages (provider : BEAVYProvider) (gateId numBits : Nat) :
    EStateM Error PartyState Unit :=
  modify fun state => { state with
    registrations := state.registrations ++ (List.range provider.numParties).filterMap
      fun party_id => if party_id = provider.myId then none else some ⟨party_id, gateId, numBits⟩ }

/-- `get_next_input_id(num_wires)`: the provider's counter, advanced by `num_wires`. -/
def getNextInputId (numWires : Nat) : EStateM Error PartyState Nat :=
  modifyGet fun state => (state.nextInputId, { state with nextInputId := state.nextInputId + numWires })

/-- Allocate the `num_wires` output wires of a gate. -/
def allocateOutputs (gateId numWires numSimd : Nat) : EStateM Error PartyState Unit :=
  modify fun state => state.setWires gateId (List.replicate numWires { numSimd := numSimd })

/-! ### Constructors -/

/-- `BasicBooleanBEAVYBinaryGate(gate_id, in_b, in_a)`; the derived gates pass their own
`(in_a, in_b)` in these positions, so `inputs_a_` is the caller's second input. -/
def basicBinaryGate (gateId : Nat) (inB inA : List WireHandle) : EStateM Error PartyState Unit := do
  let numWires := inA.length
  if numWires = 0 then throw (.logicError "number of wires need to be positive")
  if numWires ≠ inB.length then
    throw (.logicError "number of wires need to be the same for both inputs")
  let state ← get
  let numSimd := (state.read (inA.getD 0 default)).numSimd
  unless (List.range numWires).all (fun wire_i =>
      (state.read (inA.getD wire_i default)).numSimd == numSimd &&
        (state.read (inB.getD wire_i default)).numSimd == numSimd) do
    throw (.logicError "number of SIMD values need to be the same for all wires")
  allocateOutputs gateId numWires numSimd

/-- `BasicBooleanBEAVYUnaryGate(gate_id, in, forward)`. -/
def basicUnaryGate (gateId : Nat) (inputs : List WireHandle) (forward : Bool) :
    EStateM Error PartyState Unit := do
  let numWires := inputs.length
  if numWires = 0 then throw (.logicError "number of wires need to be positive")
  let state ← get
  let numSimd := (state.read (inputs.getD 0 default)).numSimd
  unless (List.range numWires).all (fun wire_i =>
      (state.read (inputs.getD wire_i default)).numSimd == numSimd) do
    throw (.logicError "number of SIMD values need to be the same for all wires")
  unless forward do allocateOutputs gateId numWires numSimd

def BooleanBEAVYInputGateSender.construct (gateId numWires numSimd : Nat) :
    EStateM Error PartyState Gate := do
  let inputId ← getNextInputId numWires
  allocateOutputs gateId numWires numSimd
  pure (.inputSender gateId inputId numWires numSimd)

def BooleanBEAVYInputGateReceiver.construct (gateId numWires numSimd inputOwner : Nat) :
    EStateM Error PartyState Gate := do
  let inputId ← getNextInputId numWires
  allocateOutputs gateId numWires numSimd
  registerForBitsMessage inputOwner gateId (numWires * numSimd)
  pure (.inputReceiver gateId inputId numWires numSimd inputOwner)

def BooleanBEAVYOutputGate.construct (provider : BEAVYProvider) (gateId : Nat)
    (inputs : List WireHandle) (outputOwner : Nat) : EStateM Error PartyState Gate := do
  if outputOwner = provider.allParties ∨ outputOwner = provider.myId then
    let state ← get
    registerForBitsMessages provider gateId (countBits (inputs.map state.read))
  pure (.output gateId outputOwner inputs)

def BooleanBEAVYINVGate.construct (provider : BEAVYProvider) (gateId : Nat)
    (inputs : List WireHandle) : EStateM Error PartyState Gate := do
  basicUnaryGate gateId inputs (!provider.isMyJob gateId)
  pure (.inv gateId (provider.isMyJob gateId) inputs)

def BooleanBEAVYXORGate.construct (gateId : Nat) (inA inB : List WireHandle) :
    EStateM Error PartyState Gate := do
  basicBinaryGate gateId inA inB
  pure (.xor gateId inB inA)

/-- The OT registrations `RegisterSendXCOTBit(num_bits)` and
`RegisterReceiveXCOTBit(num_bits)` are not recorded: the ideal XCOT-bit of the protocol
model takes its length from the choices and correlations it is given. -/
def BooleanBEAVYANDGate.construct (provider : BEAVYProvider) (gateId : Nat)
    (inA inB : List WireHandle) : EStateM Error PartyState Gate := do
  basicBinaryGate gateId inA inB
  let state ← get
  registerForBitsMessage (peerId provider.myId) gateId (countBits (inB.map state.read))
  pure (.and gateId inB inA)

/-- The `Append` loop of the binary gates over their first `num_wires` inputs, reading one
share of each wire. -/
def appendShares (state : PartyState) (share : BooleanBEAVYWire → BitVector) (numWires : Nat)
    (inputs : List WireHandle) : BitVector :=
  appendAll <| (List.range numWires).map fun wire_i => share (state.read (inputs.getD wire_i default))

/-! ### Setup -/

/-- The two XCOT-bit instances of one AND gate as one party uses them: the sender's
`GetOutputs()` for the correlations passed to `SetCorrelations`, and the receiver's
`GetOutputs()` for the choices passed to `SetChoices`. -/
structure XCOTBit where
  senderOutputs : BitVector → BitVector
  receiverOutputs : BitVector → BitVector

/-- `BooleanBEAVYInputGateSender::evaluate_setup`: a random secret share, and the public
share masked by the PRG toward every other party. -/
def BooleanBEAVYInputGateSender.evaluateSetup (provider : BEAVYProvider) (tape : RandomTape)
    (gateId inputId numSimd : Nat) (state : PartyState) : PartyState :=
  state.updateWires gateId fun wire_i wire =>
    let secretShare := tape.draw gateId wire_i numSimd
    { wire with
      secretShare := secretShare
      setupReady := true
      publicShare := (List.range provider.numParties).foldl (fun publicShare party_id =>
        if party_id = provider.myId then publicShare
        else publicShare ^^^ getBits (provider.myRng party_id) (inputId + wire_i) numSimd)
        secretShare }

/-- `BooleanBEAVYInputGateReceiver::evaluate_setup`: the input owner's PRG contribution. -/
def BooleanBEAVYInputGateReceiver.evaluateSetup (provider : BEAVYProvider)
    (gateId inputId numSimd inputOwner : Nat) (state : PartyState) : PartyState :=
  state.updateWires gateId fun wire_i wire =>
    { wire with
      secretShare := getBits (provider.theirRng inputOwner) (inputId + wire_i) numSimd
      setupReady := true }

/-- `BooleanBEAVYINVGate::evaluate_setup`: the designated party complements `δ`. -/
def BooleanBEAVYINVGate.evaluateSetup (gateId : Nat) (isMyJob : Bool)
    (inputs : List WireHandle) (state : PartyState) : PartyState :=
  if !isMyJob then state else
  state.updateWires gateId fun wire_i wire =>
    { wire with
      secretShare := ~~~(state.read (inputs.getD wire_i default)).secretShare
      setupReady := true }

/-- `BooleanBEAVYXORGate::evaluate_setup`. -/
def BooleanBEAVYXORGate.evaluateSetup (gateId : Nat) (inputsA inputsB : List WireHandle)
    (state : PartyState) : PartyState :=
  state.updateWires gateId fun wire_i wire =>
    { wire with
      secretShare := (state.read (inputsA.getD wire_i default)).secretShare ^^^
        (state.read (inputsB.getD wire_i default)).secretShare
      setupReady := true }

/-- `BooleanBEAVYANDGate::evaluate_setup`: fresh `δ_c`, then the flattened `δ_a`, `δ_b`,
`δ_c`, and `Delta_y_share_ = δ_c ⊕ δ_a·δ_b ⊕` both OT outputs. -/
def BooleanBEAVYANDGate.evaluateSetup (tape : RandomTape) (ot : XCOTBit) (gateId : Nat)
    (inputsA inputsB : List WireHandle) (state : PartyState) : PartyState :=
  let numWires := inputsA.length
  let state := state.updateWires gateId fun wire_i wire_o =>
    { wire_o with secretShare := tape.draw gateId wire_i wire_o.numSimd, setupReady := true }
  let deltaAShare := appendShares state (·.secretShare) numWires inputsA
  let deltaBShare := appendShares state (·.secretShare) numWires inputsB
  let DeltaYShare := appendShares state (·.secretShare) numWires (ownWires gateId numWires)
  let deltaABShare := deltaAShare &&& deltaBShare
  let deltaABShare := deltaABShare ^^^ ot.senderOutputs deltaBShare
  let deltaABShare := deltaABShare ^^^ ot.receiverOutputs deltaAShare
  state.setANDGate gateId
    { deltaAShare := deltaAShare, deltaBShare := deltaBShare,
      DeltaYShare := DeltaYShare ^^^ deltaABShare }

/-- `evaluate_setup` of each gate; the Output gate has nothing to do. -/
def Gate.evaluateSetup (provider : BEAVYProvider) (tape : RandomTape) (ot : XCOTBit) :
    Gate → PartyState → PartyState
  | .inputSender gateId inputId _ numSimd =>
      BooleanBEAVYInputGateSender.evaluateSetup provider tape gateId inputId numSimd
  | .inputReceiver gateId inputId _ numSimd inputOwner =>
      BooleanBEAVYInputGateReceiver.evaluateSetup provider gateId inputId numSimd inputOwner
  | .output .. => id
  | .inv gateId isMyJob inputs => BooleanBEAVYINVGate.evaluateSetup gateId isMyJob inputs
  | .xor gateId inputsA inputsB => BooleanBEAVYXORGate.evaluateSetup gateId inputsA inputsB
  | .and gateId inputsA inputsB =>
      BooleanBEAVYANDGate.evaluateSetup tape ot gateId inputsA inputsB

/-! ### Online -/

/-- The loop of `BooleanBEAVYInputGateSender::evaluate_online` over the remaining wire
indices: `inputs.at(wire_i)`, the size check, `public_share ^= input_bits`,
`set_online_ready()`, `public_shares.Append(public_share)`. -/
def BooleanBEAVYInputGateSender.onlineLoop (gateId numSimd : Nat) (inputs : List BitVector) :
    List Nat → BitVector → EStateM Error PartyState BitVector
  | [], publicShares => pure publicShares
  | wire_i :: rest, publicShares => do
      let some inputBits := inputs[wire_i]? | throw .outOfRange
      if inputBits.length ≠ numSimd then
        throw (.runtimeError "size of input bit vector != num_simd_")
      let state ← get
      let w_o := state.read ⟨gateId, wire_i⟩
      let publicShare := w_o.publicShare ^^^ inputBits
      set (state.setWire ⟨gateId, wire_i⟩ { w_o with publicShare := publicShare, onlineReady := true })
      onlineLoop gateId numSimd inputs rest (publicShares ++ publicShare)

/-- `BooleanBEAVYInputGateSender::evaluate_online`, given what `input_future_.get()`
returns. -/
def BooleanBEAVYInputGateSender.evaluateOnline (provider : BEAVYProvider)
    (inputs : List BitVector) (gateId numWires numSimd : Nat) :
    EStateM Error PartyState OnlineEffects := do
  let publicShares ← onlineLoop gateId numSimd inputs (List.range numWires) []
  pure { sent := broadcastBitsMessage provider publicShares }

/-- `BooleanBEAVYInputGateReceiver::evaluate_online`. -/
def BooleanBEAVYInputGateReceiver.evaluateOnline (inbox : Nat → BitVector)
    (gateId numSimd inputOwner : Nat) (state : PartyState) :
    OnlineEffects × PartyState :=
  let publicShares := inbox inputOwner
  ({ read := [inputOwner] }, state.updateWires gateId fun wire_i wire =>
    { wire with
      publicShare := publicShares.subset (wire_i * numSimd) ((wire_i + 1) * numSimd)
      onlineReady := true })

/-- `BooleanBEAVYOutputGate::evaluate_online`: send the own `δ`s unless this party is the
owner; the owner (or everyone, for `ALL_PARTIES`) XORs in the other parties' `δ`s and sets
`Subset ⊕ Δ` per wire on the output promise. -/
def BooleanBEAVYOutputGate.evaluateOnline (provider : BEAVYProvider) (inbox : Nat → BitVector)
    (gateId outputOwner : Nat) (inputs : List WireHandle) (state : PartyState) :
    OnlineEffects × PartyState :=
  let mySecretShare := appendAll (inputs.map fun wire => (state.read wire).secretShare)
  let sent := if outputOwner ≠ provider.myId then
      (if outputOwner = provider.allParties then broadcastBitsMessage provider mySecretShare
        else sendBitsMessage outputOwner mySecretShare)
    else []
  if outputOwner = provider.allParties ∨ outputOwner = provider.myId then
    let share := (List.range provider.numParties).foldl (fun share party_id =>
      if party_id = provider.myId then share else share ^^^ inbox party_id) mySecretShare
    let outputs := List.zipWith (· ^^^ ·)
      (splitRunning share 0 (inputs.map fun wire => (state.read wire).numSimd))
      (inputs.map fun wire => (state.read wire).publicShare)
    ({ sent := sent, read := (List.range provider.numParties).filter (· ≠ provider.myId) },
      state.setOutput gateId outputs)
  else ({ sent := sent }, state)

/-- `BooleanBEAVYINVGate::evaluate_online`: the designated party copies `Δ`. -/
def BooleanBEAVYINVGate.evaluateOnline (gateId : Nat) (isMyJob : Bool)
    (inputs : List WireHandle) (state : PartyState) : PartyState :=
  if !isMyJob then state else
  state.updateWires gateId fun wire_i wire =>
    { wire with
      publicShare := (state.read (inputs.getD wire_i default)).publicShare
      onlineReady := true }

/-- `BooleanBEAVYXORGate::evaluate_online`. -/
def BooleanBEAVYXORGate.evaluateOnline (gateId : Nat) (inputsA inputsB : List WireHandle)
    (state : PartyState) : PartyState :=
  state.updateWires gateId fun wire_i wire =>
    { wire with
      publicShare := (state.read (inputsA.getD wire_i default)).publicShare ^^^
        (state.read (inputsB.getD wire_i default)).publicShare
      onlineReady := true }

/-- The share of `Δ_y` that `BooleanBEAVYANDGate::evaluate_online` broadcasts:
`Delta_y_share_` plus the cross terms and, at the designated party, `Δ_a·Δ_b`. -/
def BooleanBEAVYANDGate.broadcastShare (provider : BEAVYProvider) (gateId : Nat)
    (inputsA inputsB : List WireHandle) (state : PartyState) : BitVector :=
  let numWires := inputsA.length
  let DeltaA := appendShares state (·.publicShare) numWires inputsA
  let DeltaB := appendShares state (·.publicShare) numWires inputsB
  let members := state.andGates gateId
  let DeltaYShare := members.DeltaYShare ^^^ (DeltaA &&& members.deltaBShare)
  let DeltaYShare := DeltaYShare ^^^ (DeltaB &&& members.deltaAShare)
  if provider.isMyJob gateId then DeltaYShare ^^^ (DeltaA &&& DeltaB) else DeltaYShare

/-- `BooleanBEAVYANDGate::evaluate_online`: broadcast the share of `Δ_y`, XOR in the peer's
share and cut the result into the output wires' public shares. -/
def BooleanBEAVYANDGate.evaluateOnline (provider : BEAVYProvider) (inbox : Nat → BitVector)
    (gateId : Nat) (inputsA inputsB : List WireHandle) (state : PartyState) :
    OnlineEffects × PartyState :=
  let numSimd := (state.read (inputsA.getD 0 default)).numSimd
  let DeltaYShare := broadcastShare provider gateId inputsA inputsB state
  let sent := broadcastBitsMessage provider DeltaYShare
  let DeltaYShare := DeltaYShare ^^^ inbox (peerId provider.myId)
  ({ sent := sent, read := [peerId provider.myId] },
    (state.setANDGate gateId { state.andGates gateId with DeltaYShare := DeltaYShare }).updateWires
      gateId fun wire_i wire =>
        { wire with
          publicShare := DeltaYShare.subset (wire_i * numSimd) ((wire_i + 1) * numSimd)
          onlineReady := true })

/-- `evaluate_online` of each gate, given what the input futures deliver (by gate id) and
what the registered futures of this gate deliver (by sender). -/
def Gate.evaluateOnline (provider : BEAVYProvider) (inputs : Nat → List BitVector)
    (inbox : Nat → BitVector) : Gate → EStateM Error PartyState OnlineEffects
  | .inputSender gateId _ numWires numSimd =>
      BooleanBEAVYInputGateSender.evaluateOnline provider (inputs gateId) gateId numWires numSimd
  | .inputReceiver gateId _ _ numSimd inputOwner =>
      modifyGet (BooleanBEAVYInputGateReceiver.evaluateOnline inbox gateId numSimd inputOwner)
  | .output gateId outputOwner inputs =>
      modifyGet (BooleanBEAVYOutputGate.evaluateOnline provider inbox gateId outputOwner inputs)
  | .inv gateId isMyJob inputs => do
      modify (BooleanBEAVYINVGate.evaluateOnline gateId isMyJob inputs)
      pure {}
  | .xor gateId inputsA inputsB => do
      modify (BooleanBEAVYXORGate.evaluateOnline gateId inputsA inputsB)
      pure {}
  | .and gateId inputsA inputsB =>
      modifyGet (BooleanBEAVYANDGate.evaluateOnline provider inbox gateId inputsA inputsB)

/-- `BooleanBEAVYOutputGate::get_output_future`: the value set on the output promise, for
the owner or for everyone when the owner is `ALL_PARTIES`. -/
def BooleanBEAVYOutputGate.getOutputFuture (provider : BEAVYProvider) (gateId outputOwner : Nat)
    (state : PartyState) : Except Error (Option (List BitVector)) :=
  if outputOwner = provider.allParties ∨ outputOwner = provider.myId then
    .ok (state.outputs gateId)
  else .error (.logicError "not this parties output")

end MotionBeavy
