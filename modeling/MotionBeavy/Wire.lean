import MotionBeavy.BitVector

/-
Module: MotionBeavy.Wire
Purpose: The data a party holds while it evaluates a BEAVY circuit: `BooleanBEAVYWire`
  objects addressed by handles, the members of `BooleanBEAVYANDGate` that setup fills and
  online reads, the values set on Output gates' promises, the futures registered with the
  message layer, the provider's input-id counter, and the randomness a party consumes
  (`BitVector::Random`, the keyed PRGs of the motion base provider).
Trusted boundary: the PRG, the message registry and the provider's counters are not under
  src/; they are modelled from the spec ("a keyed PRG with seekable counters",
  "register_for_bits_message(sender, gate_id, num_bits) reserves an inbox entry").
Main exports: BooleanBEAVYWire, WireHandle, PartyState, Prg, getBits, RandomTape,
  BEAVYProvider
-/

namespace MotionBeavy

/-- `BooleanBEAVYWire`: `num_simd` lanes with a public share `Δ` and a secret share `δ`,
and the two one-shot readiness events. -/
structure BooleanBEAVYWire where
  numSimd : Nat
  publicShare : BitVector := []
  secretShare : BitVector := []
  setupReady : Bool := false
  onlineReady : Bool := false
deriving Repr, DecidableEq, Inhabited

/-- A `std::shared_ptr<BooleanBEAVYWire>`: the gate that allocated the wire and the wire's
index among that gate's outputs. An INV gate that forwards its inputs hands out the
handles it was given, so two gates can share one wire object. -/
structure WireHandle where
  gateId : Nat
  index : Nat
deriving Repr, DecidableEq, Inhabited

/-- The members `delta_a_share_`, `delta_b_share_` and `Delta_y_share_` of
`BooleanBEAVYANDGate`. -/
structure ANDGateMembers where
  deltaAShare : BitVector := []
  deltaBShare : BitVector := []
  DeltaYShare : BitVector := []
deriving Repr, DecidableEq, Inhabited

/-- A future registered with `register_for_bits_message`: the expected sender, the gate id
that keys the message, and the announced number of bits. -/
structure Registration where
  sender : Nat
  gateId : Nat
  numBits : Nat
deriving Repr, DecidableEq

/-- One party's state: the wire objects each gate allocated (by gate id), the AND gates'
members, the value set on each Output gate's `output_promise_`, the registered futures and
the provider's input-id counter. -/
structure PartyState where
  wires : Nat → List BooleanBEAVYWire := fun _ => []
  andGates : Nat → ANDGateMembers := fun _ => {}
  outputs : Nat → Option (List BitVector) := fun _ => none
  registrations : List Registration := []
  nextInputId : Nat := 0

namespace PartyState

/-- Dereference a wire handle. -/
def read (state : PartyState) (handle : WireHandle) : BooleanBEAVYWire :=
  (state.wires handle.gateId).getD handle.index default

/-- Replace the wires allocated by one gate. -/
def setWires (state : PartyState) (gateId : Nat) (ws : List BooleanBEAVYWire) : PartyState :=
  { state with wires := fun g => if g = gateId then ws else state.wires g }

/-- The loop over a gate's output wires `outputs_` (`wire_i < num_wires_`, the number the
constructor allocated): each is rewritten from its current value. -/
def updateWires (state : PartyState) (gateId : Nat)
    (f : Nat → BooleanBEAVYWire → BooleanBEAVYWire) : PartyState :=
  state.setWires gateId <| (state.wires gateId).mapIdx f

/-- Write one wire object. -/
def setWire (state : PartyState) (handle : WireHandle) (w : BooleanBEAVYWire) : PartyState :=
  state.setWires handle.gateId ((state.wires handle.gateId).set handle.index w)

/-- Write the members of one AND gate. -/
def setANDGate (state : PartyState) (gateId : Nat) (m : ANDGateMembers) : PartyState :=
  { state with andGates := fun g => if g = gateId then m else state.andGates g }

/-- `output_promise_.set_value`. -/
def setOutput (state : PartyState) (gateId : Nat) (v : List BitVector) : PartyState :=
  { state with outputs := fun g => if g = gateId then some v else state.outputs g }

@[simp] theorem setWires_wires_self (state : PartyState) (gateId : Nat) (ws) :
    (state.setWires gateId ws).wires gateId = ws := by simp [setWires]

theorem setWires_wires_of_ne (state : PartyState) {gateId g : Nat} (ws) (h : g ≠ gateId) :
    (state.setWires gateId ws).wires g = state.wires g := by simp [setWires, h]

@[simp] theorem setWires_andGates (state : PartyState) (gateId : Nat) (ws) :
    (state.setWires gateId ws).andGates = state.andGates := rfl

@[simp] theorem setWires_outputs (state : PartyState) (gateId : Nat) (ws) :
    (state.setWires gateId ws).outputs = state.outputs := rfl

@[simp] theorem setWires_registrations (state : PartyState) (gateId : Nat) (ws) :
    (state.setWires gateId ws).registrations = state.registrations := rfl

@[simp] theorem setWires_nextInputId (state : PartyState) (gateId : Nat) (ws) :
    (state.setWires gateId ws).nextInputId = state.nextInputId := rfl

theorem read_setWires_of_ne (state : PartyState) {gateId : Nat} (ws) {h : WireHandle}
    (hne : h.gateId ≠ gateId) : (state.setWires gateId ws).read h = state.read h := by
  simp [read, setWires, hne]

theorem read_updateWires_self (state : PartyState) {gateId index : Nat} (f)
    (h : index < (state.wires gateId).length) :
    (state.updateWires gateId f).read ⟨gateId, index⟩ = f index (state.read ⟨gateId, index⟩) := by
  simp [updateWires, read, setWires, List.getElem?_eq_getElem h]

theorem read_updateWires_of_ne (state : PartyState) {gateId : Nat} (f) {h : WireHandle}
    (hne : h.gateId ≠ gateId) : (state.updateWires gateId f).read h = state.read h :=
  read_setWires_of_ne state _ hne

/-- The loop keeps the number of wires of every gate. -/
@[simp] theorem length_updateWires_wires (state : PartyState) (gateId : Nat) (f) (g : Nat) :
    ((state.updateWires gateId f).wires g).length = (state.wires g).length := by
  by_cases h : g = gateId <;> simp [updateWires, setWires, h]

/-- A loop body that keeps a field of the wires keeps it on every wire. -/
theorem proj_read_updateWires {α : Type} (proj : BooleanBEAVYWire → α) (state : PartyState)
    (gateId : Nat) {f} (hf : ∀ wire_i wire, proj (f wire_i wire) = proj wire) (h : WireHandle) :
    proj ((state.updateWires gateId f).read h) = proj (state.read h) := by
  by_cases hg : h.gateId = gateId
  · obtain ⟨g, index⟩ := h
    simp only at hg
    subst hg
    by_cases hi : index < (state.wires g).length
    · rw [read_updateWires_self _ _ hi, hf]
    · have hnone : (state.wires g)[index]? = none := List.getElem?_eq_none (by omega)
      simp [read, updateWires, hnone]
  · rw [read_updateWires_of_ne _ _ hg]

@[simp] theorem updateWires_andGates (state : PartyState) (gateId : Nat) (f) :
    (state.updateWires gateId f).andGates = state.andGates := rfl

@[simp] theorem updateWires_outputs (state : PartyState) (gateId : Nat) (f) :
    (state.updateWires gateId f).outputs = state.outputs := rfl

@[simp] theorem updateWires_registrations (state : PartyState) (gateId : Nat) (f) :
    (state.updateWires gateId f).registrations = state.registrations := rfl

@[simp] theorem setANDGate_wires (state : PartyState) (gateId : Nat) (m) :
    (state.setANDGate gateId m).wires = state.wires := rfl

@[simp] theorem read_setANDGate (state : PartyState) (gateId : Nat) (m) :
    (state.setANDGate gateId m).read = state.read := rfl

@[simp] theorem read_setOutput (state : PartyState) (gateId : Nat) (v) :
    (state.setOutput gateId v).read = state.read := rfl

@[simp] theorem setANDGate_andGates_self (state : PartyState) (gateId : Nat) (m) :
    (state.setANDGate gateId m).andGates gateId = m := by simp [setANDGate]

theorem setANDGate_andGates_of_ne (state : PartyState) {gateId g : Nat} (m) (h : g ≠ gateId) :
    (state.setANDGate gateId m).andGates g = state.andGates g := by simp [setANDGate, h]

@[simp] theorem setANDGate_outputs (state : PartyState) (gateId : Nat) (m) :
    (state.setANDGate gateId m).outputs = state.outputs := rfl

@[simp] theorem setANDGate_registrations (state : PartyState) (gateId : Nat) (m) :
    (state.setANDGate gateId m).registrations = state.registrations := rfl

@[simp] theorem setOutput_wires (state : PartyState) (gateId : Nat) (v) :
    (state.setOutput gateId v).wires = state.wires := rfl

@[simp] theorem setOutput_andGates (state : PartyState) (gateId : Nat) (v) :
    (state.setOutput gateId v).andGates = state.andGates := rfl

@[simp] theorem setOutput_registrations (state : PartyState) (gateId : Nat) (v) :
    (state.setOutput gateId v).registrations = state.registrations := rfl

end PartyState

/-! ### Randomness -/

/-- A keyed PRG with seekable counters (`ENCRYPTO::SharingRandomnessGenerator`): the bit
stream of each key. -/
abbrev Prg := Nat → Nat → Bool

/-- `GetBits(key, num_bits)`: the first `num_bits` bits of the key's stream. -/
def getBits (rng : Prg) (key numBits : Nat) : BitVector := (List.range numBits).map (rng key)

@[simp] theorem length_getBits (rng : Prg) (key numBits : Nat) :
    (getBits rng key numBits).length = numBits := by simp [getBits]

/-- A party's private coins: the bits of every `BitVector::Random` draw, named by the gate
and the wire that draw them, and the sender outputs of each AND gate's XCOT-bit instance
(with an ideal OT these are the sender's random tape). -/
structure RandomTape where
  random : Nat → Nat → Nat → Bool
  otSender : Nat → Nat → Bool

/-- `BitVector::Random(num_bits)` drawn by wire `wire_i` of gate `gateId`. -/
def RandomTape.draw (tape : RandomTape) (gateId wire_i numBits : Nat) : BitVector :=
  (List.range numBits).map (tape.random gateId wire_i)

@[simp] theorem RandomTape.length_draw (tape : RandomTape) (gateId wire_i numBits : Nat) :
    (tape.draw gateId wire_i numBits).length = numBits := by simp [draw]

/-- What `BEAVYProvider` offers a gate: the party's id, the number of parties, the
designated-party test `is_my_job`, the constant `ALL_PARTIES` (not under src/, so a
parameter), and the motion base provider's randomness generators: `myRng j` is
`get_my_randomness_generator(j)`, `theirRng j` is `get_their_randomness_generator(j)`. -/
structure BEAVYProvider where
  myId : Nat
  numParties : Nat
  isMyJob : Nat → Bool
  allParties : Nat
  myRng : Nat → Prg
  theirRng : Nat → Prg

/-- `1 - my_id` as `std::size_t` arithmetic computes it: the peer of a two-party AND gate. -/
def peerId (myId : Nat) : Nat := (1 + 2 ^ 64 - myId) % 2 ^ 64

@[simp] theorem peerId_zero : peerId 0 = 1 := by decide
@[simp] theorem peerId_one : peerId 1 = 0 := by decide

end MotionBeavy
