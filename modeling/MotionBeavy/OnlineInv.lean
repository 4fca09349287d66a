import MotionBeavy.Online

/-
Module: MotionBeavy.OnlineInv
Purpose: The invariant of the online phase of the BEAVY Boolean protocol. After the setup
  phase and `evaluate_online` of the first `k` gates, every party holds on each wire of
  those gates the public share `Δ` whose lanes are the plaintext value XOR every party's
  `δ`, and the setup facts the later gates read are intact. One step lemma per gate kind
  whose online step is local or a broadcast of masked inputs: input, output, INV, XOR.
Trusted boundary: none
Main exports: publicValue, PublicShareOk, OnlineInv, OnlineInv.step_of, OnlineInv.step_input,
  OnlineInv.step_output, OnlineInv.step_inv, OnlineInv.step_xor, Session.OneJob
-/

namespace MotionBeavy

open BitVector

section Invariant

variable (session : Session) (data : Nat → PartyData) (circuit : Circuit)

/-- Lane `l` of the public share `Δ` every party must hold on wire `r`: the plaintext value
XOR every party's `δ`. -/
def publicValue (r : WireRef) (l : Nat) : Bool :=
  (value (plainValues (fun owner => (data owner).inputs) circuit) r).bit l +
    laneXor session.numParties (fun q => value (secretValues session data circuit q) r) l

/-- Party `p`'s public share of wire `r` in `state` is the one the protocol promises. -/
def PublicShareOk (state : PartyState) (p : Nat) (r : WireRef) : Prop :=
  (state.read (resolve (session.gates data circuit p) r)).publicShare.length =
      width circuit.shapes r ∧
    ∀ l < width circuit.shapes r,
      (state.read (resolve (session.gates data circuit p) r)).publicShare.bit l =
        publicValue session data circuit r l

/-- The parties' states after the setup phase and `evaluate_online` of the first `k` gates:
the setup facts the later gates still read (lane counts, wire objects, secret shares, the
input owners' masks, the AND members), and the promised public share on every wire of the
first `k` gates at every party. -/
structure OnlineInv (k : Nat) (states : Nat → PartyState) : Prop where
  numSimd_read : ∀ p r, circuit.HasWire r →
    ((states p).read (resolve (session.gates data circuit p) r)).numSimd = width circuit.shapes r
  allocated : ∀ p r, circuit.HasWire r →
    (resolve (session.gates data circuit p) r).index <
      ((states p).wires (resolve (session.gates data circuit p) r).gateId).length
  secretShare_read : ∀ p r, circuit.HasWire r →
    ((states p).read (resolve (session.gates data circuit p) r)).secretShare =
      value (secretValues session data circuit p) r
  publicShare_owner : ∀ k', k ≤ k' → ∀ inputOwner numWires numSimd,
    circuit[k']? = some (.input inputOwner numWires numSimd) → ∀ wire_i < numWires,
      ((states inputOwner).read ⟨k', wire_i⟩).publicShare.length = numSimd ∧
      ∀ l, ((states inputOwner).read ⟨k', wire_i⟩).publicShare.bit l =
        laneXor session.numParties (fun p => value (secretValues session data circuit p) ⟨k', wire_i⟩) l
  andGates_eq : ∀ k', k ≤ k' → ∀ inA inB, circuit[k']? = some (.and inA inB) → ∀ p,
    (states p).andGates k' = andMembers session data circuit k' inA inB p
  publicShare_read : ∀ p < session.numParties, ∀ r, circuit.HasWire r → r.gate < k →
    PublicShareOk session data circuit (states p) p r

variable {session data circuit}

/-- The online phase starts from the end of the setup phase. -/
theorem OnlineInv.start {states : Nat → PartyState}
    (hsetup : SetupInv session data circuit circuit.length states) :
    OnlineInv session data circuit 0 states := by
  have hlt : ∀ {k' : Nat} {spec : GateSpec}, circuit[k']? = some spec → k' < circuit.length :=
    fun h => (List.getElem?_eq_some_iff.mp h).1
  exact ⟨hsetup.numSimd_read, hsetup.allocated,
    fun p r hr => hsetup.secretShare_read p r hr (gate_lt_of_valid hr |>.trans_eq (by simp [Circuit.shapes])),
    fun k' _ o nw ns hspec => hsetup.publicShare_owner k' (hlt hspec) o nw ns hspec,
    fun k' _ inA inB hspec => hsetup.andGates_eq k' (hlt hspec) inA inB hspec,
    fun _ _ _ _ h => absurd h (Nat.not_lt_zero _)⟩

/-- One gate's online step at every party keeps the invariant, given the frame and the
promised public shares on the gate's own wires. -/
theorem OnlineInv.extend {numParties : Nat} (hwf : circuit.WellFormed numParties) {k : Nat}
    {states states' : Nat → PartyState} (hinv : OnlineInv session data circuit k states)
    (hframe : ∀ p, OnlineFrame k (states p) (states' p))
    (hown : ∀ p < session.numParties, ∀ j, circuit.HasWire ⟨k, j⟩ →
      PublicShareOk session data circuit (states' p) p ⟨k, j⟩) :
    OnlineInv session data circuit (k + 1) states' := by
  refine ⟨fun p r hr => ?_, fun p r hr => ?_, fun p r hr => ?_,
    fun k' hk' o nw ns hspec j hj => ?_, fun k' hk' inA inB hspec p => ?_,
    fun p hp r hr hlt => ?_⟩
  · rw [(hframe p).numSimd_read]
    exact hinv.numSimd_read p r hr
  · rw [(hframe p).length_wires]
    exact hinv.allocated p r hr
  · rw [(hframe p).secretShare_read]
    exact hinv.secretShare_read p r hr
  · rw [(hframe o).read_of_ne _ (by simp only; omega)]
    exact hinv.publicShare_owner k' (by omega) o nw ns hspec j hj
  · rw [(hframe p).andGates_of_ne _ (by omega)]
    exact hinv.andGates_eq k' (by omega) inA inB hspec p
  · rcases Nat.lt_or_eq_of_le (Nat.le_of_lt_succ hlt) with hlt | heq
    · have hle : (resolve (session.gates data circuit p) r).gateId ≤ r.gate :=
        Session.resolve_le hwf p hr
      unfold PublicShareOk
      rw [(hframe p).read_of_ne _ (by omega)]
      exact hinv.publicShare_read p hp r hr hlt
    · obtain ⟨g, j⟩ := r
      simp only at heq
      subst heq
      exact hown p hp j hr

end Invariant

/-! ### One gate's online step at every party -/

section Step

variable {session : Session} {data : Nat → PartyData} {circuit : Circuit}

/-- A gate whose `evaluate_online` throws at no party: the online step succeeds, and the
invariant extends when the new states keep the frame and carry the promised public shares
on the gate's own wires. -/
theorem OnlineInv.step_of {numParties : Nat} (hwf : circuit.WellFormed numParties) {k : Nat}
    {states : Nat → PartyState} (hinv : OnlineInv session data circuit k states)
    (next : Nat → (Nat → BitVector) → PartyState)
    (hrun : ∀ p inbox, ∃ effects, session.onlineAt data (session.gates data circuit) k p inbox states =
      .ok effects (next p inbox))
    (hframe : ∀ p inbox, OnlineFrame k (states p) (next p inbox))
    (hown : ∀ p < session.numParties, ∀ j, circuit.HasWire ⟨k, j⟩ →
      PublicShareOk session data circuit
        (next p (session.deliveredAt data (session.gates data circuit) k p states)) p ⟨k, j⟩) :
    ∃ states', session.onlineStep data (session.gates data circuit) k states = .ok states' ∧
      OnlineInv session data circuit (k + 1) states' := by
  have hok : ∀ p inbox,
      resultError (session.onlineAt data (session.gates data circuit) k p inbox states) = none ∧
        resultState (session.onlineAt data (session.gates data circuit) k p inbox states) =
          next p inbox := fun p inbox => by
    obtain ⟨_, h⟩ := hrun p inbox
    rw [h]
    exact ⟨rfl, rfl⟩
  refine ⟨_, ?_, hinv.extend hwf (fun p => hframe p _) hown⟩
  rw [Session.onlineStep_eq_ok session data _ fun p _ => (hok p _).1]
  exact congrArg Except.ok (funext fun p => (hok p _).2)

/-! #### Input gates -/

/-- The plaintext value of an input wire is what the owner's input future delivers. -/
theorem value_plainValues_input {inputs : Nat → Nat → List BitVector}
    {k inputOwner numWires numSimd : Nat}
    (hspec : circuit[k]? = some (.input inputOwner numWires numSimd)) {j : Nat} (hj : j < numWires) :
    value (plainValues inputs circuit) ⟨k, j⟩ = (inputs inputOwner k).getD j [] := by
  have hlt : k < circuit.length := (List.getElem?_eq_some_iff.mp hspec).1
  rw [plainValues, value_extendBy_self hspec]
  simp [GateSpec.evaluate, List.getElem?_range hj, inf_of_le_left hlt.le]

theorem Circuit.width_input_self {k inputOwner numWires numSimd : Nat}
    (hspec : circuit[k]? = some (.input inputOwner numWires numSimd)) {j : Nat} (hj : j < numWires) :
    width circuit.shapes ⟨k, j⟩ = numSimd := by
  rw [width, Circuit.shapes_getD hspec]
  simp [GateSpec.shape, List.getElem?_replicate, hj]

theorem Session.resolve_input_self (p : Nat) {k inputOwner numWires numSimd : Nat}
    (hspec : circuit[k]? = some (.input inputOwner numWires numSimd)) {j : Nat} (hj : j < numWires) :
    resolve (session.gates data circuit p) ⟨k, j⟩ = ⟨k, j⟩ := by
  have hlt : k < circuit.length := (List.getElem?_eq_some_iff.mp hspec).1
  rw [Session.resolve_self_of p hspec]
  simp only [instantiate, Session.length_take_gates p hlt.le]
  split <;> exact ownWires_getD hj

/-- The gate every party builds for an input call: the owner's sender, everyone else's
receiver. -/
theorem Session.gates_input (p : Nat) {k inputOwner numWires numSimd : Nat}
    (hspec : circuit[k]? = some (.input inputOwner numWires numSimd)) :
    (session.gates data circuit p).getD k default =
      if inputOwner = p then
        .inputSender k (inputIdOf ((session.gates data circuit p).take k)) numWires numSimd
      else .inputReceiver k (inputIdOf ((session.gates data circuit p).take k)) numWires numSimd
        inputOwner := by
  have hlt : k < circuit.length := (List.getElem?_eq_some_iff.mp hspec).1
  rw [Session.gates_getD_of p hspec]
  simp only [instantiate, Session.provider, Session.length_take_gates p hlt.le]

/-- The input owner's `evaluate_online` at an input call: it broadcasts its masked inputs. -/
theorem OnlineInv.onlineAt_inputSender (hfit : InputsFit circuit fun owner => (data owner).inputs)
    {k : Nat} {states : Nat → PartyState} (hinv : OnlineInv session data circuit k states)
    {inputOwner numWires numSimd : Nat}
    (hspec : circuit[k]? = some (.input inputOwner numWires numSimd)) (inbox : Nat → BitVector) :
    session.onlineAt data (session.gates data circuit) k inputOwner inbox states =
      .ok { sent := (broadcastBitsMessage (session.provider data inputOwner)
          (appendAll ((List.range numWires).map fun i =>
            ((states inputOwner).read ⟨k, i⟩).publicShare ^^^ ((data inputOwner).inputs k).getD i []))) }
        (BooleanBEAVYInputGateSender.publishedBelow ((data inputOwner).inputs k) k numWires
          (states inputOwner)) := by
  have hwires : numWires ≤ ((states inputOwner).wires k).length := by
    rcases Nat.eq_zero_or_pos numWires with h0 | hpos
    · omega
    · have hr : circuit.HasWire ⟨k, numWires - 1⟩ := by
        rw [Circuit.hasWire_self hspec]
        simp [GateSpec.shape]
        omega
      have h := hinv.allocated inputOwner ⟨k, numWires - 1⟩ hr
      rw [Session.resolve_input_self inputOwner hspec (by omega)] at h
      exact Nat.le_of_pred_lt h
  simp only [Session.onlineAt, Session.gates_input inputOwner hspec, if_pos rfl, Gate.evaluateOnline]
  refine BooleanBEAVYInputGateSender.evaluateOnline_run_of_fits _ _ _ _ _ _ hwires fun i hi => ?_
  obtain ⟨v, hv, hlen⟩ := hfit k inputOwner numWires numSimd hspec i hi
  simp [inputFits, hv, hlen]

/-- Every other party's `evaluate_online` at an input call: the receiver's. -/
theorem Session.onlineAt_inputReceiver {k inputOwner numWires numSimd : Nat}
    (hspec : circuit[k]? = some (.input inputOwner numWires numSimd)) {p : Nat} (hpo : p ≠ inputOwner)
    (inbox : Nat → BitVector) (states : Nat → PartyState) :
    session.onlineAt data (session.gates data circuit) k p inbox states =
      .ok (BooleanBEAVYInputGateReceiver.evaluateOnline inbox k numSimd inputOwner (states p)).1
        (BooleanBEAVYInputGateReceiver.evaluateOnline inbox k numSimd inputOwner (states p)).2 := by
  simp only [Session.onlineAt, Session.gates_input p hspec, if_neg (Ne.symm hpo),
    Gate.evaluateOnline, run_modifyGet]

/-- The online step of an input gate on fitting inputs: the owner XORs its inputs into the
masks and broadcasts the results, every other party cuts its wires out of that message. -/
theorem OnlineInv.step_input (hwf : circuit.WellFormed session.numParties)
    (hfit : InputsFit circuit fun owner => (data owner).inputs) {k : Nat}
    {states : Nat → PartyState} (hinv : OnlineInv session data circuit k states)
    {inputOwner numWires numSimd : Nat}
    (hspec : circuit[k]? = some (.input inputOwner numWires numSimd)) :
    ∃ states', session.onlineStep data (session.gates data circuit) k states = .ok states' ∧
      OnlineInv session data circuit (k + 1) states' := by
  have hlt : k < circuit.length := (List.getElem?_eq_some_iff.mp hspec).1
  have ho : inputOwner < session.numParties := Circuit.wellFormed_of_getElem? hwf hspec
  have hwire : ∀ {j}, circuit.HasWire ⟨k, j⟩ ↔ j < numWires := fun {j} => by
    rw [Circuit.hasWire_self hspec]
    simp [GateSpec.shape]
  have hres : ∀ p {j}, j < numWires → resolve (session.gates data circuit p) ⟨k, j⟩ = ⟨k, j⟩ :=
    fun p _ hj => Session.resolve_input_self p hspec hj
  have halloc : ∀ p {j}, j < numWires → j < ((states p).wires k).length := fun p j hj => by
    simpa [hres p hj] using hinv.allocated p ⟨k, j⟩ (hwire.mpr hj)
  have hfits : ∀ i < numWires, ∃ v, ((data inputOwner).inputs k)[i]? = some v ∧ v.length = numSimd :=
    hfit k inputOwner numWires numSimd hspec
  let payload := appendAll ((List.range numWires).map fun i =>
    ((states inputOwner).read ⟨k, i⟩).publicShare ^^^ ((data inputOwner).inputs k).getD i [])
  have hsender := hinv.onlineAt_inputSender hfit hspec
  refine hinv.step_of hwf (fun p inbox => if p = inputOwner then
      BooleanBEAVYInputGateSender.publishedBelow ((data inputOwner).inputs k) k numWires
        (states inputOwner)
    else (BooleanBEAVYInputGateReceiver.evaluateOnline inbox k numSimd inputOwner (states p)).2)
    (fun p inbox => ?_) (fun p inbox => ?_) (fun p hp j hr => ?_) <;> dsimp only
  · by_cases hpo : p = inputOwner
    · subst hpo
      exact ⟨_, by rw [if_pos rfl]; exact hsender inbox⟩
    · exact ⟨_, by rw [if_neg hpo]; exact Session.onlineAt_inputReceiver hspec hpo inbox states⟩
  · by_cases hpo : p = inputOwner
    · subst hpo
      rw [if_pos rfl]
      exact OnlineFrame.publishedBelow _ _ _ _
    · rw [if_neg hpo]
      exact OnlineFrame.inputReceiver _ _ _ _ _
  · have hj := hwire.mp hr
    have hmask := hinv.publicShare_owner k le_rfl _ _ _ hspec
    obtain ⟨v, hv, hvlen⟩ := hfits j hj
    have hx : ((data inputOwner).inputs k).getD j [] = v := by simp [hv]
    have hpub : ((if p = inputOwner then
        BooleanBEAVYInputGateSender.publishedBelow ((data inputOwner).inputs k) k numWires
          (states inputOwner)
        else (BooleanBEAVYInputGateReceiver.evaluateOnline
          (session.deliveredAt data (session.gates data circuit) k p states) k numSimd inputOwner
          (states p)).2).read ⟨k, j⟩).publicShare =
        ((states inputOwner).read ⟨k, j⟩).publicShare ^^^ v := by
      by_cases hpo : p = inputOwner
      · subst hpo
        simp only [↓reduceIte, BooleanBEAVYInputGateSender.publishedBelow,
          PartyState.read_updateWires_self _ _ (halloc _ hj), if_pos hj, hx]
      · have hdel : session.deliveredAt data (session.gates data circuit) k p states inputOwner =
            payload := Session.deliveredAt_of_broadcast session data _ (hsender _) rfl hp hpo
        simp only [if_neg hpo, BooleanBEAVYInputGateReceiver.evaluateOnline,
          PartyState.read_updateWires_self _ _ (halloc _ hj), hdel]
        rw [@subset_appendAll_of_width _ numSimd ?_ _ (by simpa using hj)]
        · simp [hv]
        · simp only [List.mem_map, List.mem_range]
          rintro _ ⟨i, hi, rfl⟩
          obtain ⟨w, hw, hwlen⟩ := hfits i hi
          simp [(hmask i hi).1, hw, hwlen]
    rw [PublicShareOk, hres p hj, hpub, Circuit.width_input_self hspec hj]
    refine ⟨by simp [(hmask j hj).1, hvlen], fun l _ => ?_⟩
    rw [bit_xor ((hmask j hj).1.trans hvlen.symm), (hmask j hj).2, publicValue,
      value_plainValues_input hspec hj, hx, add_comm]

/-! #### Output gates -/

/-- An Output gate's `evaluate_online` at party `p`. -/
theorem Session.onlineAt_output (p : Nat) {k : Nat} {inputs : List WireRef} {outputOwner : Nat}
    (hspec : circuit[k]? = some (.output inputs outputOwner)) (inbox : Nat → BitVector)
    (states : Nat → PartyState) :
    session.onlineAt data (session.gates data circuit) k p inbox states =
      .ok (BooleanBEAVYOutputGate.evaluateOnline (session.provider data p) inbox k outputOwner
          (inputs.map (resolve ((session.gates data circuit p).take k))) (states p)).1
        (BooleanBEAVYOutputGate.evaluateOnline (session.provider data p) inbox k outputOwner
          (inputs.map (resolve ((session.gates data circuit p).take k))) (states p)).2 := by
  have hlt : k < circuit.length := (List.getElem?_eq_some_iff.mp hspec).1
  simp only [Session.onlineAt, Session.gates_getD_of p hspec, instantiate,
    Session.length_take_gates p hlt.le, Gate.evaluateOnline, run_modifyGet]

/-- The online step of an output gate: it has no wires, and no party throws. -/
theorem OnlineInv.step_output {numParties : Nat} (hwf : circuit.WellFormed numParties) {k : Nat}
    {states : Nat → PartyState} (hinv : OnlineInv session data circuit k states)
    {inputs : List WireRef} {outputOwner : Nat} (hspec : circuit[k]? = some (.output inputs outputOwner)) :
    ∃ states', session.onlineStep data (session.gates data circuit) k states = .ok states' ∧
      OnlineInv session data circuit (k + 1) states' := by
  let result := fun p inbox => BooleanBEAVYOutputGate.evaluateOnline (session.provider data p) inbox
    k outputOwner (inputs.map (resolve ((session.gates data circuit p).take k))) (states p)
  refine hinv.step_of hwf (fun p inbox => (result p inbox).2)
    (fun p inbox => ⟨(result p inbox).1, Session.onlineAt_output p hspec inbox states⟩)
    (fun p inbox => OnlineFrame.output _ _ _ _ _ _) (fun p _ j hr => ?_)
  simp [Circuit.hasWire_self hspec, GateSpec.shape] at hr

/-! #### INV gates -/

/-- Complementing one party's share complements the XOR over the parties, lane by lane. -/
theorem laneXor_complement_one {n q : Nat} {job : Nat → Bool} (hq : q < n) (hjob : job q = true)
    (honly : ∀ q' < n, job q' = true → q' = q) {shares : Nat → BitVector} {l : Nat}
    (hl : ∀ p < n, l < (shares p).length) :
    laneXor n (fun p => if job p then ~~~(shares p) else shares p) l = laneXor n shares l + 1 := by
  have hlane : ∀ p ∈ Finset.range n, (if job p then ~~~(shares p) else shares p).bit l =
      (shares p).bit l + if q = p then 1 else 0 := fun p hp => by
    have hp := Finset.mem_range.mp hp
    by_cases hjp : job p = true
    · obtain rfl := honly p hp hjp
      simp [hjp, bit_not (hl _ hp)]
    · have hne : q ≠ p := fun h => hjp (h ▸ hjob)
      simp [hjp, hne]
  rw [laneXor, laneXor, Finset.sum_congr rfl hlane, Finset.sum_add_distrib, Finset.sum_ite_eq,
    if_pos (Finset.mem_range.mpr hq)]

/-- `is_my_job(gate_id)` designates exactly one party for gate `g`. -/
def Session.OneJob (session : Session) (g : Nat) : Prop :=
  ∃ q < session.numParties, session.isMyJob q g = true ∧
    ∀ q' < session.numParties, session.isMyJob q' g = true → q' = q

theorem Session.gates_inv (p : Nat) {k : Nat} {refs : List WireRef}
    (hspec : circuit[k]? = some (.inv refs)) (hrefs : ∀ r ∈ refs, r.gate < k) :
    (session.gates data circuit p).getD k default =
      .inv k (session.isMyJob p k) (refs.map (resolve (session.gates data circuit p))) := by
  have hlt : k < circuit.length := (List.getElem?_eq_some_iff.mp hspec).1
  rw [Session.gates_getD_of p hspec]
  simp only [instantiate, Session.provider, Session.length_take_gates p hlt.le,
    Session.map_resolve_take p hrefs]

theorem value_plainValues_inv {inputs : Nat → Nat → List BitVector} {k : Nat} {refs : List WireRef}
    (hspec : circuit[k]? = some (.inv refs)) (hrefs : ∀ r ∈ refs, r.gate < k) {j : Nat}
    (hj : j < refs.length) :
    value (plainValues inputs circuit) ⟨k, j⟩ = ~~~(value (plainValues inputs circuit) refs[j]) := by
  rw [plainValues, value_extendBy_self hspec]
  simp [GateSpec.evaluate, List.getElem?_eq_getElem hj,
    value_take_of_lt _ (hrefs _ (List.getElem_mem hj))]

theorem value_secretValues_inv (p : Nat) {k : Nat} {refs : List WireRef}
    (hspec : circuit[k]? = some (.inv refs)) (hrefs : ∀ r ∈ refs, r.gate < k) {j : Nat}
    (hj : j < refs.length) :
    value (secretValues session data circuit p) ⟨k, j⟩ =
      if session.isMyJob p k then ~~~(value (secretValues session data circuit p) refs[j])
      else value (secretValues session data circuit p) refs[j] := by
  have hlt : k < circuit.length := (List.getElem?_eq_some_iff.mp hspec).1
  rw [value_secretValues_self p hspec]
  simp [GateSpec.secretShares, List.getElem?_eq_getElem hj, inf_of_le_left hlt.le,
    value_take_of_lt _ (hrefs _ (List.getElem_mem hj))]

/-- The online step of an INV gate: the designated party copies `Δ` onto its own wires and
every other party forwards its input wires, so each output wire carries its input's `Δ`;
that is the promised one, as the plaintext and exactly one party's `δ` are complemented. -/
theorem OnlineInv.step_inv (hwf : circuit.WellFormed session.numParties)
    (hfit : InputsFit circuit fun owner => (data owner).inputs) {k : Nat} (hjob : session.OneJob k)
    {states : Nat → PartyState} (hinv : OnlineInv session data circuit k states)
    {refs : List WireRef} (hspec : circuit[k]? = some (.inv refs)) :
    ∃ states', session.onlineStep data (session.gates data circuit) k states = .ok states' ∧
      OnlineInv session data circuit (k + 1) states' := by
  have hw := Circuit.wellFormed_of_getElem? hwf hspec
  have hin : ∀ r ∈ refs, r.gate < k ∧ circuit.HasWire r := fun r hr =>
    Circuit.hasWire_of_take (hw.1 r hr)
  have hrefs : ∀ r ∈ refs, r.gate < k := fun r hr => (hin r hr).1
  refine hinv.step_of hwf (fun p _ => BooleanBEAVYINVGate.evaluateOnline k
      (session.isMyJob p k) (refs.map (resolve (session.gates data circuit p))) (states p))
    (fun p inbox => ⟨{}, ?_⟩) (fun p _ => OnlineFrame.inv _ _ _ _) (fun p hp j hr => ?_)
  · simp only [Session.onlineAt, Session.gates_inv p hspec hrefs, Gate.evaluateOnline, run_bind,
      run_modify, run_pure]
  have hj : j < refs.length := by simpa [Circuit.hasWire_self hspec, GateSpec.shape] using hr
  have hrj := hin _ (List.getElem_mem hj)
  obtain ⟨hlen, hbit⟩ := hinv.publicShare_read p hp _ hrj.2 hrj.1
  have hpub : ((BooleanBEAVYINVGate.evaluateOnline k (session.isMyJob p k)
      (refs.map (resolve (session.gates data circuit p))) (states p)).read
        (resolve (session.gates data circuit p) ⟨k, j⟩)).publicShare =
      ((states p).read (resolve (session.gates data circuit p) refs[j])).publicShare := by
    have halloc := hinv.allocated p ⟨k, j⟩ hr
    rw [resolve, Session.gates_inv p hspec hrefs] at halloc ⊢
    cases hjp : session.isMyJob p k
    · simp [Gate.outputs, BooleanBEAVYINVGate.evaluateOnline, hjp, List.getElem?_eq_getElem hj]
    · simp only [Gate.outputs, hjp, ↓reduceIte, List.length_map, ownWires_getD hj] at halloc ⊢
      simp [BooleanBEAVYINVGate.evaluateOnline, hjp, PartyState.read_updateWires_self _ _ halloc,
        List.getElem?_eq_getElem hj]
  have hwidth : width circuit.shapes ⟨k, j⟩ = width circuit.shapes refs[j] := by
    rw [width, Circuit.shapes_getD hspec]
    simp [GateSpec.shape, List.getElem?_eq_getElem hj, width_take_of_lt _ hrj.1]
  rw [PublicShareOk, hpub, hwidth]
  refine ⟨hlen, fun l hl => ?_⟩
  obtain ⟨q, hq, hjq, honly⟩ := hjob
  have hplain := length_value (lanes_plainValues hwf hfit) refs[j]
  have hsec := fun p => length_value (@lanes_secretValues session data circuit _ hwf p) refs[j]
  rw [hbit l hl, publicValue, publicValue, value_plainValues_inv hspec hrefs hj,
    bit_not (hplain ▸ hl)]
  simp only [value_secretValues_inv _ hspec hrefs hj]
  rw [laneXor_complement_one hq hjq honly fun p _ => (hsec p) ▸ hl, add_add_add_comm,
    BooleanRing.add_self, add_zero]

/-! #### XOR gates -/

/-- XOR of two parties-indexed shares adds their lanes. -/
theorem laneXor_xor {n l : Nat} {a b : Nat → BitVector} (hlen : ∀ p < n, (a p).length = (b p).length) :
    laneXor n (fun p => a p ^^^ b p) l = laneXor n a l + laneXor n b l := by
  rw [laneXor, laneXor, laneXor, ← Finset.sum_add_distrib]
  exact Finset.sum_congr rfl fun p hp => bit_xor (hlen p (Finset.mem_range.mp hp)) l

theorem Session.gates_xor (p : Nat) {k : Nat} {inA inB : List WireRef}
    (hspec : circuit[k]? = some (.xor inA inB)) (hrefs : ∀ r ∈ inA ++ inB, r.gate < k) :
    (session.gates data circuit p).getD k default =
      .xor k (inB.map (resolve (session.gates data circuit p)))
        (inA.map (resolve (session.gates data circuit p))) := by
  have hlt : k < circuit.length := (List.getElem?_eq_some_iff.mp hspec).1
  rw [Session.gates_getD_of p hspec]
  simp only [instantiate, Session.length_take_gates p hlt.le,
    Session.map_resolve_take p fun r hr => hrefs r (List.mem_append_left _ hr),
    Session.map_resolve_take p fun r hr => hrefs r (List.mem_append_right _ hr)]

theorem value_plainValues_xor {inputs : Nat → Nat → List BitVector} {k : Nat}
    {inA inB : List WireRef} (hspec : circuit[k]? = some (.xor inA inB))
    (hrefs : ∀ r ∈ inA ++ inB, r.gate < k) {j : Nat} (hjA : j < inA.length) (hjB : j < inB.length) :
    value (plainValues inputs circuit) ⟨k, j⟩ =
      value (plainValues inputs circuit) inA[j] ^^^ value (plainValues inputs circuit) inB[j] := by
  rw [plainValues, value_extendBy_self hspec]
  simp [GateSpec.evaluate, List.getElem?_zipWith, List.getElem?_eq_getElem hjA,
    List.getElem?_eq_getElem hjB,
    value_take_of_lt _ (hrefs _ (List.mem_append_left _ (List.getElem_mem hjA))),
    value_take_of_lt _ (hrefs _ (List.mem_append_right _ (List.getElem_mem hjB)))]

theorem value_secretValues_xor (p : Nat) {k : Nat} {inA inB : List WireRef}
    (hspec : circuit[k]? = some (.xor inA inB)) (hrefs : ∀ r ∈ inA ++ inB, r.gate < k) {j : Nat}
    (hjA : j < inA.length) (hjB : j < inB.length) :
    value (secretValues session data circuit p) ⟨k, j⟩ =
      value (secretValues session data circuit p) inB[j] ^^^
        value (secretValues session data circuit p) inA[j] := by
  rw [value_secretValues_self p hspec]
  simp [GateSpec.secretShares, List.getElem?_zipWith, List.getElem?_eq_getElem hjA,
    List.getElem?_eq_getElem hjB,
    value_take_of_lt _ (hrefs _ (List.mem_append_left _ (List.getElem_mem hjA))),
    value_take_of_lt _ (hrefs _ (List.mem_append_right _ (List.getElem_mem hjB)))]

/-- The online step of an XOR gate: each output wire's `Δ` is the XOR of its inputs' `Δ`s,
which is the promised one as plaintext and `δ`s are XORed alike. -/
theorem OnlineInv.step_xor (hwf : circuit.WellFormed session.numParties)
    (hfit : InputsFit circuit fun owner => (data owner).inputs) {k : Nat}
    {states : Nat → PartyState} (hinv : OnlineInv session data circuit k states)
    {inA inB : List WireRef} (hspec : circuit[k]? = some (.xor inA inB)) :
    ∃ states', session.onlineStep data (session.gates data circuit) k states = .ok states' ∧
      OnlineInv session data circuit (k + 1) states' := by
  obtain ⟨hv, hne, hlenAB, hwidth⟩ := Circuit.wellFormed_of_getElem? hwf hspec
  have hin := Circuit.binaryInputs hv hne hwidth
  have hrefs : ∀ r ∈ inA ++ inB, r.gate < k := fun r hr => (hin r hr).1
  refine hinv.step_of hwf (fun p _ => BooleanBEAVYXORGate.evaluateOnline k
      (inB.map (resolve (session.gates data circuit p)))
      (inA.map (resolve (session.gates data circuit p))) (states p))
    (fun p inbox => ⟨{}, ?_⟩) (fun p _ => OnlineFrame.xor _ _ _ _) (fun p hp j hr => ?_)
  · simp only [Session.onlineAt, Session.gates_xor p hspec hrefs, Gate.evaluateOnline, run_bind,
      run_modify, run_pure]
  have hjB : j < inB.length := by simpa [Circuit.hasWire_self hspec, GateSpec.shape] using hr
  have hjA : j < inA.length := hlenAB ▸ hjB
  have hA := hin _ (List.mem_append_left _ (List.getElem_mem hjA))
  have hB := hin _ (List.mem_append_right _ (List.getElem_mem hjB))
  have hres : resolve (session.gates data circuit p) ⟨k, j⟩ = ⟨k, j⟩ := by
    rw [resolve, Session.gates_xor p hspec hrefs]
    simpa [Gate.outputs] using ownWires_getD hjB
  have halloc := hinv.allocated p ⟨k, j⟩ hr
  rw [hres] at halloc
  obtain ⟨hlenA, hbitA⟩ := hinv.publicShare_read p hp _ hA.2.1 hA.1
  obtain ⟨hlenB, hbitB⟩ := hinv.publicShare_read p hp _ hB.2.1 hB.1
  have hwk : width circuit.shapes ⟨k, j⟩ = width circuit.shapes inB[j] := by
    rw [Circuit.width_binary_self hwf hspec (.inr rfl) hjB, List.getD_eq_getElem _ _ hjB]
  have hwAB : width circuit.shapes inA[j] = width circuit.shapes inB[j] := hA.2.2.trans hB.2.2.symm
  dsimp only
  rw [PublicShareOk, hres, BooleanBEAVYXORGate.evaluateOnline,
    PartyState.read_updateWires_self _ _ halloc]
  simp only [getD_map_resolve _ hjA, getD_map_resolve _ hjB, List.getD_eq_getElem _ _ hjA,
    List.getD_eq_getElem _ _ hjB, hwk]
  have hlenAB' := hlenB.trans (hlenA.trans hwAB).symm
  refine ⟨by simp [hlenA, hlenB, hwAB], fun l hl => ?_⟩
  have hsec := fun q r => length_value (@lanes_secretValues session data circuit _ hwf q) r
  have hplain := length_value (lanes_plainValues hwf hfit)
  rw [bit_xor hlenAB', hbitB l hl, hbitA l (hwAB ▸ hl), publicValue, publicValue, publicValue,
    value_plainValues_xor hspec hrefs hjA hjB, bit_xor (by rw [hplain, hplain, hwAB])]
  simp only [value_secretValues_xor _ hspec hrefs hjA hjB]
  rw [laneXor_xor fun q _ => by rw [hsec, hsec, hwAB]]
  ring

end Step

end MotionBeavy
