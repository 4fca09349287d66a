import MotionBeavy.Shares

/-
Module: MotionBeavy.Setup
Purpose: The setup phase computes the share semantics of `MotionBeavy.Shares`. After every
  party has run `evaluate_setup` of the first `k` gates, each wire of those gates carries,
  behind the handle it resolves to at that party, the `δ` of `secretValues`; the owner of
  each of those input gates holds as public share the XOR over the parties of the wire's
  `δ` (the parties' generators being correlated); and each of those AND gates holds
  `andMembers`. The frame lemmas say what one gate's setup leaves alone, one lemma per gate
  kind says what it writes, and `setupPhase_inv` is the induction over the gates.
Trusted boundary: none
Main exports: Gate.read_evaluateSetup_of_ne, Session.inputKeys_gates, SetupInv, SetupInv.step,
  setupPhase_inv
-/

namespace MotionBeavy

open BitVector

/-! ### What one gate's setup leaves alone -/

section Frame

variable (provider : BEAVYProvider) (tape : RandomTape) (ot : XCOTBit)

theorem Gate.read_evaluateSetup_of_ne (gate : Gate) (state : PartyState) {h : WireHandle}
    (hne : h.gateId ≠ gate.gateId) :
    (gate.evaluateSetup provider tape ot state).read h = state.read h := by
  cases gate with
  | output => rfl
  | inv gateId isMyJob inputs =>
      cases isMyJob
      · rfl
      · exact PartyState.read_updateWires_of_ne _ _ hne
  | inputSender => exact PartyState.read_updateWires_of_ne _ _ hne
  | inputReceiver => exact PartyState.read_updateWires_of_ne _ _ hne
  | xor => exact PartyState.read_updateWires_of_ne _ _ hne
  | and => exact PartyState.read_updateWires_of_ne _ _ hne

theorem Gate.numSimd_evaluateSetup (gate : Gate) (state : PartyState) (h : WireHandle) :
    ((gate.evaluateSetup provider tape ot state).read h).numSimd = (state.read h).numSimd := by
  cases gate with
  | output => rfl
  | inv gateId isMyJob inputs =>
      cases isMyJob
      · rfl
      · exact PartyState.proj_read_updateWires (·.numSimd) _ _ (by intros; rfl) h
  | inputSender => exact PartyState.proj_read_updateWires (·.numSimd) _ _ (by intros; rfl) h
  | inputReceiver => exact PartyState.proj_read_updateWires (·.numSimd) _ _ (by intros; rfl) h
  | xor => exact PartyState.proj_read_updateWires (·.numSimd) _ _ (by intros; rfl) h
  | and => exact PartyState.proj_read_updateWires (·.numSimd) _ _ (by intros; rfl) h

theorem Gate.length_evaluateSetup_wires (gate : Gate) (state : PartyState) (g : Nat) :
    ((gate.evaluateSetup provider tape ot state).wires g).length = (state.wires g).length := by
  cases gate with
  | output => rfl
  | inv gateId isMyJob inputs =>
      cases isMyJob
      · rfl
      · exact PartyState.length_updateWires_wires _ _ _ g
  | inputSender => exact PartyState.length_updateWires_wires _ _ _ g
  | inputReceiver => exact PartyState.length_updateWires_wires _ _ _ g
  | xor => exact PartyState.length_updateWires_wires _ _ _ g
  | and => exact PartyState.length_updateWires_wires _ _ _ g

theorem Gate.andGates_evaluateSetup_of_ne (gate : Gate) (state : PartyState) {g : Nat}
    (hne : g ≠ gate.gateId) : (gate.evaluateSetup provider tape ot state).andGates g = state.andGates g := by
  cases gate with
  | output => rfl
  | inv gateId isMyJob inputs => cases isMyJob <;> rfl
  | inputSender => rfl
  | inputReceiver => rfl
  | xor => rfl
  | and => exact PartyState.setANDGate_andGates_of_ne _ _ hne

end Frame

/-! ### Reading a binary gate's inputs -/

theorem getD_map_resolve (built : List Gate) {refs : List WireRef} {j : Nat} (hj : j < refs.length) :
    (refs.map (resolve built)).getD j default = resolve built (refs.getD j ⟨0, 0⟩) := by
  rw [List.getD_eq_getElem _ _ (by simpa using hj), List.getElem_map, List.getD_eq_getElem _ _ hj]

/-- The `Append` loop over wires that resolve to builder wires reads, wire by wire, what those
builder wires hold. -/
theorem appendShares_map_resolve (state : PartyState) (share : BooleanBEAVYWire → BitVector)
    (built : List Gate) {refs : List WireRef} {numWires : Nat} (hn : numWires = refs.length)
    {f : WireRef → BitVector} (h : ∀ r ∈ refs, share (state.read (resolve built r)) = f r) :
    appendShares state share numWires (refs.map (resolve built)) = appendAll (refs.map f) := by
  subst hn
  rw [appendShares, map_eq_map_range_getD refs ⟨0, 0⟩ f]
  congr 1
  refine List.map_congr_left fun j hj => ?_
  have hj' : j < refs.length := List.mem_range.mp hj
  rw [getD_map_resolve built hj', h _ (by rw [List.getD_eq_getElem _ _ hj']; exact List.getElem_mem _)]

theorem appendShares_ownWires (state : PartyState) (share : BooleanBEAVYWire → BitVector)
    (gateId numWires : Nat) :
    appendShares state share numWires (ownWires gateId numWires) =
      appendAll ((List.range numWires).map fun wire_i => share (state.read ⟨gateId, wire_i⟩)) := by
  rw [appendShares]
  congr 1
  exact List.map_congr_left fun j hj => by rw [ownWires_getD (List.mem_range.mp hj)]

/-! ### The built gates of every party -/

section Gates

variable {session : Session} {data : Nat → PartyData} {circuit : Circuit}

/-- Every party's construction of a well-formed circuit succeeds. -/
theorem Session.build_run {numParties : Nat} (hwf : circuit.WellFormed numParties) (p : Nat) :
    ∃ state, session.build data circuit p = .ok (session.gates data circuit p) state ∧
      BuildInv circuit.shapes (session.gates data circuit p) state :=
  buildCircuit_run (session.provider data p) hwf

theorem Session.resolve_le {numParties : Nat} (hwf : circuit.WellFormed numParties) (p : Nat)
    {r : WireRef} (hr : circuit.HasWire r) :
    (resolve (session.gates data circuit p) r).gateId ≤ r.gate := by
  obtain ⟨_, _, hinv⟩ := buildCircuit_run (session.provider data p) hwf
  exact hinv.resolve_le r hr

theorem Session.gates_getD (p : Nat) {k : Nat} (hk : k < circuit.length) :
    (session.gates data circuit p).getD k default =
      instantiate (session.provider data p) ((session.gates data circuit p).take k) circuit[k] :=
  getD_buildGates _ hk

theorem Session.resolve_self (p : Nat) {k : Nat} (hk : k < circuit.length) (j : Nat) :
    resolve (session.gates data circuit p) ⟨k, j⟩ =
      (instantiate (session.provider data p) ((session.gates data circuit p).take k)
        circuit[k]).outputs.getD j default := by
  rw [resolve, Session.gates_getD p hk]

/-- The inputs named by the call at position `k` resolve the same after the first `k` gates
as after all of them. -/
theorem Session.map_resolve_take (p : Nat) {k : Nat} {refs : List WireRef}
    (hrefs : ∀ r ∈ refs, r.gate < k) :
    refs.map (resolve ((session.gates data circuit p).take k)) =
      refs.map (resolve (session.gates data circuit p)) :=
  List.map_congr_left fun r hr => resolve_take_of_lt _ (hrefs r hr)

/-- No two input wires share a key of the randomness generators, and all parties agree on
the keys: at every party the input gate at position `k` draws under the keys
`input_id(k) + wire_i`, and over the whole construction the keys are `0, 1, ...` up to the
number of input wires, each once. -/
theorem Session.inputKeys_gates (p : Nat) :
    (∀ k (hk : k < circuit.length), ((session.gates data circuit p).getD k default).inputKeys =
        (List.range circuit[k].inputWires).map (circuit.inputId k + ·)) ∧
      (session.gates data circuit p).flatMap Gate.inputKeys =
        List.range (circuit.inputId circuit.length) := by
  refine ⟨fun k hk => ?_, ?_⟩
  · rw [Session.gates_getD p hk, inputKeys_instantiate, Session.gates,
      inputIdOf_take_buildGates _ hk.le]
  · have h := inputKeys_take_buildGates (session.provider data p) (le_refl circuit.length)
    rwa [List.take_of_length_le (by simp [buildGates])] at h

end Gates

theorem value_extendBy_self {g : List (List BitVector) → GateSpec → List BitVector}
    {circuit : Circuit} {k : Nat} {spec : GateSpec} (hk : circuit[k]? = some spec) (j : Nat) :
    value (extendBy g [] circuit) ⟨k, j⟩ = (g ((extendBy g [] circuit).take k) spec).getD j [] := by
  have hlt : k < circuit.length := (List.getElem?_eq_some_iff.mp hk).1
  have h := getElem?_extendBy g [] circuit hlt
  simp only [List.length_nil, Nat.zero_add] at h
  simp only [value, List.getD_eq_getElem?_getD, h, Option.getD_some,
    (List.getElem?_eq_some_iff.mp hk).2]

theorem Circuit.shapes_getD {circuit : Circuit} {k : Nat} {spec : GateSpec}
    (hk : circuit[k]? = some spec) : circuit.shapes.getD k [] = spec.shape (circuit.shapes.take k) := by
  have hlt : k < circuit.length := (List.getElem?_eq_some_iff.mp hk).1
  have h := getElem?_extendBy GateSpec.shape [] circuit hlt
  simp only [List.length_nil, Nat.zero_add] at h
  simp only [Circuit.shapes, List.getD_eq_getElem?_getD, h, Option.getD_some,
    (List.getElem?_eq_some_iff.mp hk).2]

@[simp] theorem length_secretValues (session : Session) (data : Nat → PartyData)
    (circuit : Circuit) (p : Nat) : (secretValues session data circuit p).length = circuit.length := by
  simp [secretValues]

/-! ### The invariant of the setup phase -/

section Invariant

variable (session : Session) (data : Nat → PartyData) (circuit : Circuit)

/-- The parties' states after `evaluate_setup` of the first `k` gates: every builder wire
keeps its lane count and its wire object; the wires of those gates carry the `δ` of
`secretValues`; the owner of each of those input gates holds the XOR over the parties of
the wire's `δ` as public share; each of those AND gates holds `andMembers`. -/
structure SetupInv (k : Nat) (states : Nat → PartyState) : Prop where
  numSimd_read : ∀ p r, circuit.HasWire r →
    ((states p).read (resolve (session.gates data circuit p) r)).numSimd = width circuit.shapes r
  allocated : ∀ p r, circuit.HasWire r →
    (resolve (session.gates data circuit p) r).index <
      ((states p).wires (resolve (session.gates data circuit p) r).gateId).length
  secretShare_read : ∀ p r, circuit.HasWire r → r.gate < k →
    ((states p).read (resolve (session.gates data circuit p) r)).secretShare =
      value (secretValues session data circuit p) r
  publicShare_owner : ∀ k' < k, ∀ inputOwner numWires numSimd,
    circuit[k']? = some (.input inputOwner numWires numSimd) → ∀ wire_i < numWires,
      ((states inputOwner).read ⟨k', wire_i⟩).publicShare.length = numSimd ∧
      ∀ l, ((states inputOwner).read ⟨k', wire_i⟩).publicShare.bit l =
        laneXor session.numParties (fun p => value (secretValues session data circuit p) ⟨k', wire_i⟩) l
  andGates_eq : ∀ k' < k, ∀ inA inB, circuit[k']? = some (.and inA inB) → ∀ p,
    (states p).andGates k' = andMembers session data circuit k' inA inB p

/-- What construction leaves: the wire objects of every builder wire. -/
theorem SetupInv.init {numParties : Nat} (hwf : circuit.WellFormed numParties) :
    SetupInv session data circuit 0 fun p => resultState (session.build data circuit p) := by
  refine ⟨fun p r hr => ?_, fun p r hr => ?_, fun _ _ _ h => absurd h (Nat.not_lt_zero _),
    fun _ h => absurd h (Nat.not_lt_zero _), fun _ h => absurd h (Nat.not_lt_zero _)⟩
  all_goals
    obtain ⟨state, hrun, hinv⟩ := buildCircuit_run (session.provider data p) hwf
    simp only [Session.build, hrun, resultState]
  · exact hinv.numSimd_read r hr
  · exact hinv.allocated r hr

variable {session data circuit}

/-- One gate's setup at every party keeps the invariant, given what it writes. -/
theorem SetupInv.extend {numParties : Nat} (hwf : circuit.WellFormed numParties) {k : Nat}
    {states states' : Nat → PartyState} (hinv : SetupInv session data circuit k states)
    (hread : ∀ p (h : WireHandle), h.gateId ≠ k → (states' p).read h = (states p).read h)
    (hnumSimd : ∀ p h, ((states' p).read h).numSimd = ((states p).read h).numSimd)
    (hlength : ∀ p g, ((states' p).wires g).length = ((states p).wires g).length)
    (handGates : ∀ p g, g ≠ k → (states' p).andGates g = (states p).andGates g)
    (hsecret : ∀ p j, circuit.HasWire ⟨k, j⟩ →
      ((states' p).read (resolve (session.gates data circuit p) ⟨k, j⟩)).secretShare =
        value (secretValues session data circuit p) ⟨k, j⟩)
    (hpublic : ∀ inputOwner numWires numSimd,
      circuit[k]? = some (.input inputOwner numWires numSimd) → ∀ wire_i < numWires,
        ((states' inputOwner).read ⟨k, wire_i⟩).publicShare.length = numSimd ∧
        ∀ l, ((states' inputOwner).read ⟨k, wire_i⟩).publicShare.bit l =
          laneXor session.numParties (fun p => value (secretValues session data circuit p) ⟨k, wire_i⟩) l)
    (hand : ∀ inA inB, circuit[k]? = some (.and inA inB) → ∀ p,
      (states' p).andGates k = andMembers session data circuit k inA inB p) :
    SetupInv session data circuit (k + 1) states' := by
  refine ⟨fun p r hr => ?_, fun p r hr => ?_, fun p r hr hlt => ?_,
    fun k' hk' o nw ns hspec j hj => ?_, fun k' hk' inA inB hspec p => ?_⟩
  · rw [hnumSimd]
    exact hinv.numSimd_read p r hr
  · rw [hlength]
    exact hinv.allocated p r hr
  · rcases Nat.lt_or_eq_of_le (Nat.le_of_lt_succ hlt) with hlt | heq
    · have hle : (resolve (session.gates data circuit p) r).gateId ≤ r.gate :=
        Session.resolve_le hwf p hr
      rw [hread p _ (by omega)]
      exact hinv.secretShare_read p r hr hlt
    · obtain ⟨g, j⟩ := r
      simp only at heq
      subst heq
      exact hsecret p j hr
  · rcases Nat.lt_or_eq_of_le (Nat.le_of_lt_succ hk') with hlt | rfl
    · rw [hread _ _ (by simp only; omega)]
      exact hinv.publicShare_owner k' hlt o nw ns hspec j hj
    · exact hpublic o nw ns hspec j hj
  · rcases Nat.lt_or_eq_of_le (Nat.le_of_lt_succ hk') with hlt | rfl
    · rw [handGates _ _ (by omega)]
      exact hinv.andGates_eq k' hlt inA inB hspec p
    · exact hand inA inB hspec p

end Invariant

/-! ### What each gate's setup writes -/

section Step

variable {session : Session} {data : Nat → PartyData} {circuit : Circuit}

theorem Session.gates_getD_of (p : Nat) {k : Nat} {spec : GateSpec} (hk : circuit[k]? = some spec) :
    (session.gates data circuit p).getD k default =
      instantiate (session.provider data p) ((session.gates data circuit p).take k) spec := by
  obtain ⟨hlt, rfl⟩ := List.getElem?_eq_some_iff.mp hk
  exact Session.gates_getD p hlt

theorem Session.length_take_gates (p : Nat) {k : Nat} (hk : k ≤ circuit.length) :
    ((session.gates data circuit p).take k).length = k :=
  length_take_buildGates _ hk

/-- A wire of the call at position `k`: its lane index is below the call's shape. -/
theorem Circuit.hasWire_self {k j : Nat} {spec : GateSpec} (hk : circuit[k]? = some spec) :
    circuit.HasWire ⟨k, j⟩ ↔ j < (spec.shape (circuit.shapes.take k)).length := by
  rw [Circuit.HasWire, Circuit.shapes_getD hk]

theorem value_secretValues_self (p : Nat) {k : Nat} {spec : GateSpec} (hk : circuit[k]? = some spec)
    (j : Nat) : value (secretValues session data circuit p) ⟨k, j⟩ =
      (spec.secretShares session data circuit p
        ((secretValues session data circuit p).take k)).getD j [] :=
  value_extendBy_self hk j

theorem length_take_secretValues (p : Nat) {k : Nat} (hk : k ≤ circuit.length) :
    ((secretValues session data circuit p).take k).length = k := by
  simp [hk]

/-- An output wire of an AND or XOR call has the lane count of the caller's `inB` wire of
the same index. -/
theorem Circuit.width_binary_self {numParties : Nat} (hwf : circuit.WellFormed numParties)
    {k : Nat} {spec : GateSpec} {inA inB : List WireRef} (hspec : circuit[k]? = some spec)
    (hbin : spec = .and inA inB ∨ spec = .xor inA inB) {j : Nat} (hj : j < inB.length) :
    width circuit.shapes ⟨k, j⟩ = width circuit.shapes (inB.getD j ⟨0, 0⟩) := by
  have hw := Circuit.wellFormed_of_getElem? hwf hspec
  have hv : RefsValid (circuit.shapes.take k) (inA ++ inB) := by
    rcases hbin with rfl | rfl <;> exact hw.1
  have hltB := (Circuit.hasWire_of_take (hv _ (List.mem_append_right _ (List.getElem_mem hj)))).1
  rw [width, Circuit.shapes_getD hspec, List.getD_eq_getElem _ _ hj, ← width_take_of_lt _ hltB]
  rcases hbin with rfl | rfl <;>
    simp [GateSpec.shape, List.getD_eq_getElem?_getD, List.getElem?_eq_getElem hj]

/-- The own wires of the AND gate at position `k`. -/
theorem Session.resolve_and_self (p : Nat) {k : Nat} {inA inB : List WireRef}
    (hspec : circuit[k]? = some (.and inA inB)) {j : Nat} (hj : j < inB.length) :
    resolve (session.gates data circuit p) ⟨k, j⟩ = ⟨k, j⟩ := by
  have hlt : k < circuit.length := (List.getElem?_eq_some_iff.mp hspec).1
  rw [resolve, Session.gates_getD_of p hspec]
  simp only [instantiate, Gate.outputs, Session.length_take_gates p hlt.le, List.length_map]
  exact ownWires_getD hj

/-- A wire that is its own gate's: its lane count and its slot in the gate's wire list. -/
theorem SetupInv.own_wire {k' : Nat} {states : Nat → PartyState}
    (hinv : SetupInv session data circuit k' states) (p : Nat) {k j : Nat}
    (hr : circuit.HasWire ⟨k, j⟩) (hres : resolve (session.gates data circuit p) ⟨k, j⟩ = ⟨k, j⟩) :
    ((states p).read ⟨k, j⟩).numSimd = width circuit.shapes ⟨k, j⟩ ∧
      j < ((states p).wires k).length := by
  have h₁ := hinv.numSimd_read p _ hr
  have h₂ := hinv.allocated p _ hr
  rw [hres] at h₁ h₂
  exact ⟨h₁, h₂⟩

/-- The `δ_c` of an AND gate's wire is drawn at the wire's lane count. -/
theorem value_secretValues_and {numParties : Nat} (hwf : circuit.WellFormed numParties) (p : Nat)
    {k : Nat} {inA inB : List WireRef} (hspec : circuit[k]? = some (.and inA inB)) {j : Nat}
    (hj : j < inB.length) :
    value (secretValues session data circuit p) ⟨k, j⟩ =
      (data p).tape.draw k j (width circuit.shapes ⟨k, j⟩) := by
  have hlt : k < circuit.length := (List.getElem?_eq_some_iff.mp hspec).1
  rw [value_secretValues_self p hspec, Circuit.width_binary_self hwf hspec (.inl rfl) hj]
  simp [GateSpec.secretShares, List.getElem?_range hj, inf_of_le_left hlt.le]

/-- What the setup of the gate at position `k` writes on that gate's wires, at every party. -/
theorem SetupInv.secretShare_step {numParties : Nat} (hwf : circuit.WellFormed numParties) {k : Nat}
    (hk : k < circuit.length) {states : Nat → PartyState}
    (hinv : SetupInv session data circuit k states) (p j : Nat) (hr : circuit.HasWire ⟨k, j⟩) :
    ((session.setupStep data (session.gates data circuit) k states p).read
        (resolve (session.gates data circuit p) ⟨k, j⟩)).secretShare =
      value (secretValues session data circuit p) ⟨k, j⟩ := by
  have hspec : circuit[k]? = some circuit[k] := List.getElem?_eq_getElem hk
  have hw := Circuit.wellFormed_getElem hwf hk
  have hlenG : ((session.gates data circuit p).take k).length = k := Session.length_take_gates p hk.le
  have hlenS : ((secretValues session data circuit p).take k).length = k :=
    length_take_secretValues p hk.le
  have hres : resolve (session.gates data circuit p) ⟨k, j⟩ = _ := Session.resolve_self p hk j
  have hnum := hinv.numSimd_read p _ hr
  have halloc := hinv.allocated p _ hr
  rw [value_secretValues_self p hspec]
  rw [Circuit.hasWire_self hspec] at hr
  simp only [Session.setupStep, Session.gates_getD p hk]
  rw [hres] at hnum halloc ⊢
  generalize circuit[k] = spec at hw hspec hr hres hnum halloc
  cases spec with
  | input inputOwner numWires numSimd =>
      have hj : j < numWires := by simpa [GateSpec.shape] using hr
      by_cases howner : inputOwner = p <;>
      · simp only [instantiate, Session.provider, howner, ↓reduceIte, Gate.outputs, hlenG,
          ownWires_getD hj] at halloc ⊢
        simp only [Gate.evaluateSetup, BooleanBEAVYInputGateSender.evaluateSetup,
          BooleanBEAVYInputGateReceiver.evaluateSetup, PartyState.read_updateWires_self _ _ halloc]
        simp [GateSpec.secretShares, hlenS, List.getElem?_range hj, howner,
          inputIdOf_take_buildGates _ hk.le, Session.gates]
  | output inputs outputOwner => simp [GateSpec.shape] at hr
  | inv inputs =>
      obtain ⟨hv, -, -⟩ := hw
      have hj : j < inputs.length := by simpa [GateSpec.shape] using hr
      obtain ⟨hlt, hvalid⟩ := Circuit.hasWire_of_take (hv _ (List.getElem_mem hj))
      have hread := hinv.secretShare_read p _ hvalid hlt
      simp only [instantiate, Session.provider, hlenG,
        Session.map_resolve_take p fun r hr => (Circuit.hasWire_of_take (hv r hr)).1] at halloc ⊢
      by_cases hjob : session.isMyJob p k = true
      · simp only [hjob, Gate.outputs, ↓reduceIte, List.length_map, ownWires_getD hj] at halloc ⊢
        rw [Gate.evaluateSetup, BooleanBEAVYINVGate.evaluateSetup, if_neg (by simp),
          PartyState.read_updateWires_self _ _ halloc]
        simp [List.getElem?_eq_getElem hj, hread, GateSpec.secretShares, hjob, hlenS,
          value_take_of_lt _ hlt, inf_of_le_left hk.le]
      · simp only [hjob, Gate.outputs, Bool.false_eq_true, ↓reduceIte]
        rw [Gate.evaluateSetup, BooleanBEAVYINVGate.evaluateSetup, if_pos (by simp [hjob])]
        simp [List.getElem?_eq_getElem hj, hread, GateSpec.secretShares, hjob, hlenS,
          value_take_of_lt _ hlt, inf_of_le_left hk.le]
  | xor inA inB =>
      obtain ⟨hv, -, hlen, -⟩ := hw
      have hj : j < inB.length := by simpa [GateSpec.shape] using hr
      have hjA : j < inA.length := hlen ▸ hj
      obtain ⟨hltA, hvalidA⟩ :=
        Circuit.hasWire_of_take (hv _ (List.mem_append_left _ (List.getElem_mem hjA)))
      obtain ⟨hltB, hvalidB⟩ :=
        Circuit.hasWire_of_take (hv _ (List.mem_append_right _ (List.getElem_mem hj)))
      have hrefs : ∀ r ∈ inA ++ inB, r.gate < k := fun r hr => (Circuit.hasWire_of_take (hv r hr)).1
      simp only [instantiate, hlenG, Gate.outputs, List.length_map, ownWires_getD hj,
        Session.map_resolve_take p fun r hr => hrefs r (List.mem_append_left _ hr),
        Session.map_resolve_take p fun r hr => hrefs r (List.mem_append_right _ hr)] at halloc ⊢
      rw [Gate.evaluateSetup, BooleanBEAVYXORGate.evaluateSetup,
        PartyState.read_updateWires_self _ _ halloc]
      simp [GateSpec.secretShares, List.getElem?_zipWith, List.getElem?_eq_getElem hj,
        List.getElem?_eq_getElem hjA, hinv.secretShare_read p _ hvalidA hltA,
        hinv.secretShare_read p _ hvalidB hltB, value_take_of_lt _ hltA, value_take_of_lt _ hltB]
  | and inA inB =>
      obtain ⟨hv, -, hlen, -⟩ := hw
      have hj : j < inB.length := by simpa [GateSpec.shape] using hr
      have hB : inB.getD j ⟨0, 0⟩ ∈ inA ++ inB := List.mem_append_right _ (by
        rw [List.getD_eq_getElem _ _ hj]; exact List.getElem_mem _)
      have hltB := (Circuit.hasWire_of_take (hv _ hB)).1
      have hwidth : width circuit.shapes ⟨k, j⟩ = width circuit.shapes (inB.getD j ⟨0, 0⟩) := by
        rw [← width_take_of_lt _ hltB, width, Circuit.shapes_getD hspec]
        simp [GateSpec.shape, List.getD_eq_getElem?_getD, List.getElem?_eq_getElem hj,
          List.getD_eq_getElem _ _ hj]
      simp only [instantiate, hlenG, Gate.outputs, List.length_map, ownWires_getD hj] at halloc hnum ⊢
      rw [Gate.evaluateSetup, BooleanBEAVYANDGate.evaluateSetup]
      simp only [PartyState.read_setANDGate]
      rw [PartyState.read_updateWires_self _ _ halloc]
      simp [GateSpec.secretShares, hnum, hwidth, List.getElem?_range hj, inf_of_le_left hk.le]

theorem Session.resolve_self_of (p : Nat) {k : Nat} {spec : GateSpec}
    (hk : circuit[k]? = some spec) (j : Nat) :
    resolve (session.gates data circuit p) ⟨k, j⟩ =
      (instantiate (session.provider data p) ((session.gates data circuit p).take k)
        spec).outputs.getD j default := by
  rw [resolve, Session.gates_getD_of p hk]

/-- The owner of an input gate holds, after its setup, the XOR over the parties of the
wire's `δ` as public share: its own draw, masked by its generator toward every other party,
which is that party's generator toward it. -/
theorem SetupInv.publicShare_step (hwf : circuit.WellFormed session.numParties)
    (hrng : ∀ i < session.numParties, ∀ i' < session.numParties, ∀ key numBits,
      getBits ((data i).myRng i') key numBits = getBits ((data i').theirRng i) key numBits)
    {k : Nat} (hk : k < circuit.length) {states : Nat → PartyState}
    (hinv : SetupInv session data circuit k states) {inputOwner numWires numSimd : Nat}
    (hspec : circuit[k]? = some (.input inputOwner numWires numSimd)) {j : Nat} (hj : j < numWires) :
    ((session.setupStep data (session.gates data circuit) k states inputOwner).read
        ⟨k, j⟩).publicShare.length = numSimd ∧
      ∀ l, ((session.setupStep data (session.gates data circuit) k states inputOwner).read
        ⟨k, j⟩).publicShare.bit l =
        laneXor session.numParties (fun p => value (secretValues session data circuit p) ⟨k, j⟩) l := by
  have ho : inputOwner < session.numParties := by
    have hw := Circuit.wellFormed_getElem hwf hk
    rwa [(List.getElem?_eq_some_iff.mp hspec).2] at hw
  have hr : circuit.HasWire ⟨k, j⟩ := (Circuit.hasWire_self hspec).mpr (by simpa [GateSpec.shape] using hj)
  have halloc := hinv.allocated inputOwner _ hr
  have hlenG : ((session.gates data circuit inputOwner).take k).length = k :=
    Session.length_take_gates inputOwner hk.le
  simp only [Session.resolve_self_of inputOwner hspec, instantiate, Session.provider, ↓reduceIte,
    Gate.outputs, hlenG, ownWires_getD hj] at halloc
  simp only [Session.setupStep, Session.gates_getD_of inputOwner hspec, instantiate, Session.provider,
    ↓reduceIte, hlenG]
  rw [Gate.evaluateSetup, BooleanBEAVYInputGateSender.evaluateSetup,
    PartyState.read_updateWires_self _ _ halloc]
  have hfold := foldl_xor_skip session.numParties (fun p => p = inputOwner)
    (fun p => getBits ((data inputOwner).myRng p) (inputIdOf
      ((session.gates data circuit inputOwner).take k) + j) numSimd)
    ((data inputOwner).tape.draw k j numSimd) (by simp)
  simp only at hfold
  refine ⟨by rw [hfold.1, RandomTape.length_draw], fun l => ?_⟩
  rw [hfold.2, add_sum_skip ho, laneXor]
  refine Finset.sum_congr rfl fun p hp => ?_
  rw [value_secretValues_self p hspec j]
  by_cases hpo : p = inputOwner
  · subst hpo
    simp [GateSpec.secretShares, List.getElem?_range hj, length_take_secretValues _ hk.le]
  · simp [GateSpec.secretShares, List.getElem?_range hj, length_take_secretValues _ hk.le, hpo,
      Ne.symm hpo, hrng inputOwner ho p (Finset.mem_range.mp hp),
      inputIdOf_take_buildGates _ hk.le, Session.gates]

/-- After its setup, an AND gate holds `andMembers` at every party: `δ_a`, `δ_b` and `δ_c`
read from the wires, and the ideal OT fed with the peer's `δ_b`. -/
theorem SetupInv.andGates_step {numParties : Nat} (hwf : circuit.WellFormed numParties) {k : Nat}
    (hk : k < circuit.length) {states : Nat → PartyState}
    (hinv : SetupInv session data circuit k states) {inA inB : List WireRef}
    (hspec : circuit[k]? = some (.and inA inB)) (p : Nat) :
    (session.setupStep data (session.gates data circuit) k states p).andGates k =
      andMembers session data circuit k inA inB p := by
  obtain ⟨hv, -, hlen, -⟩ := Circuit.wellFormed_of_getElem? hwf hspec
  have hin : ∀ r ∈ inA ++ inB, r.gate < k ∧ circuit.HasWire r := fun r hr =>
    Circuit.hasWire_of_take (hv r hr)
  have hmapA : ∀ q, inA.map (resolve ((session.gates data circuit q).take k)) =
      inA.map (resolve (session.gates data circuit q)) := fun q =>
    Session.map_resolve_take q fun r hr => (hin r (List.mem_append_left _ hr)).1
  have hmapB : ∀ q, inB.map (resolve ((session.gates data circuit q).take k)) =
      inB.map (resolve (session.gates data circuit q)) := fun q =>
    Session.map_resolve_take q fun r hr => (hin r (List.mem_append_right _ hr)).1
  -- the peer's correlations, read before its setup
  have hcorr : ((session.gates data circuit (peerId p)).getD k default).otCorrelations
      (states (peerId p)) = appendAll (inA.map (value (secretValues session data circuit (peerId p)))) := by
    rw [Session.gates_getD_of _ hspec, instantiate, hmapA, hmapB, Gate.otCorrelations]
    exact appendShares_map_resolve _ _ _ (by simpa using hlen.symm) fun r hr =>
      hinv.secretShare_read _ r (hin r (List.mem_append_left _ hr)).2 (hin r (List.mem_append_left _ hr)).1
  -- the inputs, read after the loop that draws `δ_c`
  have hinputs : ∀ state : PartyState, (∀ h : WireHandle, h.gateId ≠ k → state.read h = (states p).read h) →
      ∀ refs ⊆ inA ++ inB, appendShares state (·.secretShare) refs.length
        (refs.map (resolve (session.gates data circuit p))) =
          appendAll (refs.map (value (secretValues session data circuit p))) :=
    fun state hframe refs hsub => appendShares_map_resolve _ _ _ rfl fun r hr => by
      have hle : (resolve (session.gates data circuit p) r).gateId ≤ r.gate :=
        Session.resolve_le hwf p (hin r (hsub hr)).2
      rw [hframe _ (by have := (hin r (hsub hr)).1; omega)]
      exact hinv.secretShare_read p r (hin r (hsub hr)).2 (hin r (hsub hr)).1
  have hframe := fun h hne => @PartyState.read_updateWires_of_ne (states p) k
    (fun wire_i (wire_o : BooleanBEAVYWire) =>
      { wire_o with secretShare := (data p).tape.draw k wire_i wire_o.numSimd, setupReady := true })
    h hne
  have hC : (secretValues session data circuit p).getD k [] =
      (List.range inA.length).map fun j => (data p).tape.draw k j (width circuit.shapes ⟨k, j⟩) := by
    rw [List.getD_eq_getElem?_getD, getElem?_secretValues p hk, Option.getD_some,
      (List.getElem?_eq_some_iff.mp hspec).2]
    simp only [GateSpec.secretShares, length_take_secretValues p hk.le, hlen]
    exact List.map_congr_left fun j hj => by
      rw [Circuit.width_binary_self hwf hspec (.inl rfl) (List.mem_range.mp hj)]
  simp only [Session.setupStep, hcorr, Session.gates_getD_of p hspec, instantiate,
    Session.length_take_gates p hk.le, hmapA, hmapB]
  rw [Gate.evaluateSetup, BooleanBEAVYANDGate.evaluateSetup]
  simp only [PartyState.setANDGate_andGates_self, List.length_map, andMembers]
  rw [hinputs _ hframe inB (List.subset_append_right _ _), ← hlen,
    hinputs _ hframe inA (List.subset_append_left _ _), appendShares_ownWires, hC]
  congr 3
  refine List.map_congr_left fun j hj => ?_
  have hjB : j < inB.length := hlen ▸ List.mem_range.mp hj
  obtain ⟨hnum, halloc⟩ := hinv.own_wire p
    ((Circuit.hasWire_self hspec).mpr (by simpa [GateSpec.shape] using hjB))
    (Session.resolve_and_self p hspec hjB)
  rw [PartyState.read_updateWires_self _ _ halloc, hnum]

/-- The setup of the gate at position `k` at every party keeps the invariant. -/
theorem SetupInv.step (hwf : circuit.WellFormed session.numParties)
    (hrng : ∀ i < session.numParties, ∀ i' < session.numParties, ∀ key numBits,
      getBits ((data i).myRng i') key numBits = getBits ((data i').theirRng i) key numBits)
    {k : Nat} (hk : k < circuit.length) {states : Nat → PartyState}
    (hinv : SetupInv session data circuit k states) :
    SetupInv session data circuit (k + 1) (session.setupStep data (session.gates data circuit) k states) := by
  have hid : ∀ p, ((session.gates data circuit p).getD k default).gateId = k := fun p => by
    rw [Session.gates_getD p hk, instantiate_gateId, Session.length_take_gates p hk.le]
  refine hinv.extend hwf (fun p h hne => ?_) (fun p h => ?_) (fun p g => ?_) (fun p g hne => ?_)
    (hinv.secretShare_step hwf hk) (fun _ _ _ hspec _ hj => hinv.publicShare_step hwf hrng hk hspec hj)
    (fun _ _ hspec p => hinv.andGates_step hwf hk hspec p)
  · exact Gate.read_evaluateSetup_of_ne _ _ _ _ _ (by rwa [hid])
  · exact Gate.numSimd_evaluateSetup _ _ _ _ _ h
  · exact Gate.length_evaluateSetup_wires _ _ _ _ _ g
  · exact Gate.andGates_evaluateSetup_of_ne _ _ _ _ _ (by rwa [hid])

/-- The setup phase: after `evaluate_setup` of the first `k` gates at every party, the
invariant holds. -/
theorem setupPhase_inv (hwf : circuit.WellFormed session.numParties)
    (hrng : ∀ i < session.numParties, ∀ i' < session.numParties, ∀ key numBits,
      getBits ((data i).myRng i') key numBits = getBits ((data i').theirRng i) key numBits) :
    ∀ k ≤ circuit.length, SetupInv session data circuit k (session.setupPhase data
      (session.gates data circuit) (fun p => resultState (session.build data circuit p)) k)
  | 0, _ => SetupInv.init session data circuit hwf
  | k + 1, hk => (setupPhase_inv hwf hrng k (by omega)).step hwf hrng hk

end Step

end MotionBeavy
