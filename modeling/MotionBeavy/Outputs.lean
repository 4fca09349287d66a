import MotionBeavy.Messages

/-
Module: MotionBeavy.Outputs
Purpose: What the parties learn from a run. At an Output gate the owner (every party when
  the owner is `ALL_PARTIES`) XORs its own `δ`s with the ones every other party sends it,
  cuts the sum at the running bit offsets and XORs each wire's `Δ` in; that is the
  plaintext value of the gate's inputs, which the gate sets on its output promise. No other
  gate touches that promise, so after a run `get_output_future` returns the plaintext at
  the owner (at every party for `ALL_PARTIES`) and throws
  `logic_error("not this parties output")` at every other party.
Trusted boundary: none
Main exports: Gate.outputs_evaluateOnline, foldl_xor_appendAll,
  OnlineInv.output_evaluateOnline, OutputsOk, OutputsOk.step, Session.run_outputs
-/

namespace MotionBeavy

open BitVector

/-! ### Only an Output gate sets an output promise -/

theorem BooleanBEAVYInputGateSender.outputs_onlineLoop (gateId numSimd : Nat)
    (inputs : List BitVector) :
    ∀ (l : List Nat) (publicShares : BitVector) (state : PartyState),
      (resultState ((onlineLoop gateId numSimd inputs l publicShares).run state)).outputs =
        state.outputs
  | [], _, _ => rfl
  | wire_i :: rest, publicShares, state => by
      unfold onlineLoop
      cases inputs[wire_i]? with
      | none => rfl
      | some inputBits =>
          by_cases hlen : inputBits.length ≠ numSimd
          · simp [hlen, resultState]
          · simp only [hlen, run_bind, run_get, run_set, if_false, run_pure]
            rw [outputs_onlineLoop gateId numSimd inputs rest]
            rfl

/-- `evaluate_online` of a gate leaves every output promise but its own as it was, whether
it completes or throws. -/
theorem Gate.outputs_evaluateOnline (provider : BEAVYProvider) (inputs : Nat → List BitVector)
    (inbox : Nat → BitVector) (gate : Gate) (state : PartyState) {g : Nat}
    (hg : g ≠ gate.gateId) :
    (resultState ((gate.evaluateOnline provider inputs inbox).run state)).outputs g =
      state.outputs g := by
  cases gate with
  | inputSender gateId _ numWires numSimd =>
      have h := BooleanBEAVYInputGateSender.outputs_onlineLoop gateId numSimd (inputs gateId)
        (List.range numWires) [] state
      simp only [Gate.evaluateOnline, BooleanBEAVYInputGateSender.evaluateOnline, run_bind]
      split <;> simp_all [resultState]
  | output gateId outputOwner ins =>
      simp only [Gate.gateId] at hg
      simp only [Gate.evaluateOnline, run_modifyGet, resultState,
        BooleanBEAVYOutputGate.evaluateOnline]
      split_ifs <;> simp [PartyState.setOutput, hg]
  | inv gateId isMyJob ins =>
      cases isMyJob <;>
        simp [Gate.evaluateOnline, resultState, BooleanBEAVYINVGate.evaluateOnline,
          PartyState.updateWires]
  | inputReceiver | xor | and =>
      simp [Gate.evaluateOnline, resultState, BooleanBEAVYInputGateReceiver.evaluateOnline,
        BooleanBEAVYXORGate.evaluateOnline, BooleanBEAVYANDGate.evaluateOnline,
        PartyState.updateWires, PartyState.setANDGate]

/-! ### What the owner of an Output gate computes -/

/-- The Output gate's loop over `party_id` XORs whole concatenations; wire by wire that is
the XOR over the parties of each wire's vectors, when every party's vector of a wire has
the wire's length. -/
theorem foldl_xor_appendAll {α : Type} (refs : List α) (f : Nat → α → BitVector) (w : α → Nat)
    (hw : ∀ s r, (f s r).length = w r) (p : Nat) :
    ∀ n, (List.range n).foldl
        (fun acc s => if s = p then acc else acc ^^^ appendAll (refs.map (f s)))
        (appendAll (refs.map (f p))) =
      appendAll (refs.map fun r =>
        (List.range n).foldl (fun acc s => if s = p then acc else acc ^^^ f s r) (f p r))
  | 0 => rfl
  | n + 1 => by
      simp only [List.range_succ, List.foldl_append, List.foldl_cons, List.foldl_nil]
      rw [foldl_xor_appendAll refs f w hw p n]
      by_cases hn : n = p
      · simp only [if_pos hn]
      · have hlen : ∀ r, ((List.range n).foldl (fun acc s => if s = p then acc else acc ^^^ f s r)
            (f p r)).length = w r := fun r =>
          ((foldl_xor_skip n (· = p) (fun s => f s r) (f p r) fun s _ _ => by
            rw [hw, hw]).1).trans (hw p r)
        simp only [if_neg hn]
        rw [appendAll_xor (List.forall₂_map_left_iff.mpr (List.forall₂_map_right_iff.mpr
          (List.forall₂_same.mpr fun r _ => by rw [hlen, hw]))), List.zipWith_map,
          List.zipWith_same]

section Output

variable {session : Session} {data : Nat → PartyData} {circuit : Circuit}

/-- What party `s` hands party `p` at an Output gate that `p` learns: its `δ`s on the gate's
inputs. -/
theorem OnlineInv.deliveredAt_output {numParties : Nat} (hwf : circuit.WellFormed numParties)
    (hall : session.numParties ≤ session.allParties) {k : Nat} {states : Nat → PartyState}
    (hinv : OnlineInv session data circuit k states) {inputs : List WireRef} {outputOwner : Nat}
    (hspec : circuit[k]? = some (.output inputs outputOwner)) {p s : Nat}
    (hp : p < session.numParties) (hs : s < session.numParties) (hsp : s ≠ p)
    (howner : outputOwner = session.allParties ∨ outputOwner = p) :
    session.deliveredAt data (session.gates data circuit) k p states s =
      appendAll (inputs.map (value (secretValues session data circuit s))) := by
  have hos : outputOwner ≠ s := by rcases howner with h | h <;> omega
  rw [Session.deliveredAt, hinv.sentAt_output hwf hspec s, if_pos hos]
  rcases howner with h | h
  · rw [if_pos h, find?_broadcastBitsMessage _ _ hp (Ne.symm hsp)]
    rfl
  · rw [if_neg (by omega), h]
    simp [sendBitsMessage]

/-- At an Output gate that party `p` learns, `evaluate_online` sets the output promise to the
plaintext values of the gate's inputs: the XOR over the parties of the `δ`s, cut at the
running offsets, XOR each wire's `Δ`. -/
theorem OnlineInv.output_evaluateOnline (hwf : circuit.WellFormed session.numParties)
    (hfit : InputsFit circuit fun owner => (data owner).inputs)
    (hall : session.numParties ≤ session.allParties) {k : Nat} {states : Nat → PartyState}
    (hinv : OnlineInv session data circuit k states) {inputs : List WireRef} {outputOwner : Nat}
    (hspec : circuit[k]? = some (.output inputs outputOwner)) {p : Nat}
    (hp : p < session.numParties) (howner : outputOwner = session.allParties ∨ outputOwner = p) :
    (BooleanBEAVYOutputGate.evaluateOnline (session.provider data p)
      (session.deliveredAt data (session.gates data circuit) k p states) k outputOwner
      (inputs.map (resolve (session.gates data circuit p))) (states p)).2 =
      (states p).setOutput k (inputs.map (value (plainValues (fun owner => (data owner).inputs)
        circuit))) := by
  have hin := Circuit.hasWire_of_output hwf hspec
  have hsec := fun s => length_value (@lanes_secretValues session data circuit _ hwf s)
  -- wire by wire, the XOR over the parties of the `δ`s
  let W := fun r => (List.range session.numParties).foldl
    (fun acc s => if s = p then acc else acc ^^^ value (secretValues session data circuit s) r)
    (value (secretValues session data circuit p) r)
  have hWlen : ∀ r, (W r).length = width circuit.shapes r := fun r =>
    ((foldl_xor_skip _ (· = p) _ _ fun s _ _ => by rw [hsec, hsec]).1).trans (hsec p r)
  have hWbit : ∀ r l, (W r).bit l =
      laneXor session.numParties (fun s => value (secretValues session data circuit s) r) l :=
    fun r l => by
      rw [(foldl_xor_skip _ (· = p) _ _ fun s _ _ => by rw [hsec, hsec]).2, add_sum_skip hp,
        laneXor]
      exact Finset.sum_congr rfl fun s _ => by split_ifs with h <;> simp only [h]
  have hshare : (List.range session.numParties).foldl (fun share party_id =>
      if party_id = p then share
      else share ^^^ session.deliveredAt data (session.gates data circuit) k p states party_id)
        (appendAll ((inputs.map (resolve (session.gates data circuit p))).map
          fun wire => ((states p).read wire).secretShare)) = appendAll (inputs.map W) := by
    have hmine : appendAll ((inputs.map (resolve (session.gates data circuit p))).map
        fun wire => ((states p).read wire).secretShare) =
          appendAll (inputs.map (value (secretValues session data circuit p))) := by
      rw [List.map_map]
      exact congrArg appendAll (List.map_congr_left fun r hr => hinv.secretShare_read p r (hin r hr).2)
    rw [hmine]
    refine (List.foldl_ext _ _ _ fun acc s hs => ?_).trans
      (foldl_xor_appendAll inputs (fun s => value (secretValues session data circuit s))
        (width circuit.shapes) hsec p session.numParties)
    by_cases hsp : s = p
    · rw [if_pos hsp, if_pos hsp]
    · rw [if_neg hsp, if_neg hsp, hinv.deliveredAt_output hwf hall hspec hp
        (List.mem_range.mp hs) hsp howner]
  have hnum : (inputs.map (resolve (session.gates data circuit p))).map
      (fun wire => ((states p).read wire).numSimd) = (inputs.map W).map List.length := by
    simp only [List.map_map]
    exact List.map_congr_left fun r hr => (hinv.numSimd_read p r (hin r hr).2).trans (hWlen r).symm
  simp only [BooleanBEAVYOutputGate.evaluateOnline, Session.provider]
  rw [if_pos howner, hshare, hnum, splitRunning_appendAll]
  simp only [List.map_map, List.zipWith_map, List.zipWith_same]
  congr 1
  refine List.map_congr_left fun r hr => ?_
  obtain ⟨hlen, hbit⟩ := hinv.publicShare_read p hp r (hin r hr).2 (hin r hr).1
  have hplain := length_value (lanes_plainValues hwf hfit) r
  refine ext_bit (by simp [hWlen, hlen, hplain]) fun l hl => ?_
  simp only [Function.comp_apply, length_xor, hWlen, hlen, min_self] at hl
  rw [Function.comp_apply, bit_xor ((hWlen r).trans hlen.symm), hbit l hl, hWbit, publicValue,
    add_left_comm,
    BooleanRing.add_self, add_zero]

/-- The states after an online step that succeeds are the results of every party's
`evaluate_online`. -/
theorem Session.states_of_onlineStep {gates : Nat → List Gate} {k : Nat}
    {states states' : Nat → PartyState} (h : session.onlineStep data gates k states = .ok states')
    (p : Nat) :
    states' p = resultState (session.onlineAt data gates k p
      (session.deliveredAt data gates k p states) states) := by
  dsimp only [Session.onlineStep] at h
  split at h
  · cases h
  · cases h
    rfl

variable (session data circuit)

/-- After the online steps of the first `k` gates, the output promise of each of those
Output gates holds the plaintext values of the gate's inputs at its owner, and at every
party when the owner is `ALL_PARTIES`. -/
def OutputsOk (k : Nat) (states : Nat → PartyState) : Prop :=
  ∀ k' < k, ∀ inputs outputOwner, circuit[k']? = some (.output inputs outputOwner) →
    ∀ p < session.numParties, outputOwner = session.allParties ∨ outputOwner = p →
      (states p).outputs k' =
        some (inputs.map (value (plainValues (fun owner => (data owner).inputs) circuit)))

variable {session data circuit}

/-- One online step keeps the outputs: the Output gate at position `k` sets its promise to
the plaintext, and no gate touches another gate's promise. -/
theorem OutputsOk.step (hwf : circuit.WellFormed session.numParties)
    (hfit : InputsFit circuit fun owner => (data owner).inputs)
    (hall : session.numParties ≤ session.allParties) {k : Nat} (hk : k < circuit.length)
    {states states' : Nat → PartyState} (hinv : OnlineInv session data circuit k states)
    (hout : OutputsOk session data circuit k states)
    (hstep : session.onlineStep data (session.gates data circuit) k states = .ok states') :
    OutputsOk session data circuit (k + 1) states' := by
  intro k' hk' inputs outputOwner hspec p hp howner
  rw [Session.states_of_onlineStep hstep p]
  rcases Nat.lt_or_eq_of_le (Nat.le_of_lt_succ hk') with hlt | rfl
  · have hid : ((session.gates data circuit p).getD k default).gateId = k := by
      rw [Session.gates_getD p hk, instantiate_gateId, Session.length_take_gates p hk.le]
    rw [Session.onlineAt, Gate.outputs_evaluateOnline _ _ _ _ _ (by omega)]
    exact hout k' hlt inputs outputOwner hspec p hp howner
  · rw [Session.onlineAt_output p hspec, resultState,
      Session.map_resolve_take p fun r hr => (Circuit.hasWire_of_output hwf hspec r hr).1,
      hinv.output_evaluateOnline hwf hfit hall hspec hp howner]
    simp [PartyState.setOutput]

/-- The online phase keeps both invariants, gate by gate. -/
theorem onlinePhase_outputs (hwf : circuit.WellFormed session.numParties)
    (hand : ∀ inA inB, GateSpec.and inA inB ∈ circuit → session.numParties = 2)
    (hfit : InputsFit circuit fun owner => (data owner).inputs) (hjob : ∀ g, session.OneJob g)
    (hall : session.numParties ≤ session.allParties) {start : Nat → PartyState}
    (hstart : OnlineInv session data circuit 0 start) :
    ∀ k ≤ circuit.length, ∃ states,
      session.onlinePhase data (session.gates data circuit) start k = .ok states ∧
        OnlineInv session data circuit k states ∧ OutputsOk session data circuit k states
  | 0, _ => ⟨start, rfl, hstart, fun _ h => absurd h (Nat.not_lt_zero _)⟩
  | k + 1, hk => by
      obtain ⟨states, hrun, hinv, hout⟩ :=
        onlinePhase_outputs hwf hand hfit hjob hall hstart k (by omega)
      obtain ⟨states', hstep, hinv'⟩ := hinv.step hwf hand hfit hjob hk
      exact ⟨states', by rw [Session.onlinePhase, hrun]; exact hstep, hinv',
        hout.step hwf hfit hall hk hinv hstep⟩

end Output

/-! ### An AND whose output only party `1` learns -/

/-- One input bit at each party, their AND, and its output to party `1` only. -/
def secretAndCircuit : Circuit :=
  [.input 0 1 1, .input 1 1 1, .and [⟨0, 0⟩] [⟨1, 0⟩], .output [⟨2, 0⟩] 1]

theorem secretAndCircuit_wellFormed : secretAndCircuit.WellFormed twoPartySession.numParties := by
  simp [secretAndCircuit, twoPartySession, Circuit.WellFormed, wellFormedFrom,
    GateSpec.WellFormed, GateSpec.shape, RefsValid, width]

theorem onesData_fit_secretAnd : InputsFit secretAndCircuit fun owner => (onesData owner).inputs := by
  intro k o nw ns h j hj
  rcases k with _ | _ | _ | _ | k <;> simp [secretAndCircuit] at h
  all_goals obtain ⟨rfl, rfl, rfl⟩ := h
  all_goals exact ⟨[true], by simp [onesData, show j = 0 by omega]⟩

end MotionBeavy
