import MotionBeavy.Correctness

/-
Module: MotionBeavy.Messages
Purpose: Message accounting of a run. While it constructs the circuit a party registers
  futures (`register_for_bits_message` in the constructors of the input receiver and the
  AND gate, `register_for_bits_messages` in the Output gate's); in the online phase each
  gate's `evaluate_online` sends bits messages (`broadcast_bits_message`,
  `send_bits_message`) and reads registered futures. For every gate and every ordered pair
  of distinct parties, the sender sends the recipient one message exactly when the
  recipient registered one future for it, of the registered number of bits, and the
  recipient reads that future once, provided every vector `count_bits` sums has fewer than
  `2^31` lanes. With `2^31` lanes the AND gate registers `2^64 - 2^31` bits for a message
  of `2^31` bits.
Trusted boundary: none
Main exports: GateSpec.registrations, registrationsFrom, Session.registered_eq,
  MessagesMatch, Circuit.CountBitsFit, Session.messages_match,
  andGate_registers_wrapped_count
-/

namespace MotionBeavy

open BitVector

/-! ### What construction registers -/

/-- Builder wires as the wire objects `count_bits` reads: only their lane counts. -/
def laneWires (shapes : List (List Nat)) (refs : List WireRef) : List BooleanBEAVYWire :=
  refs.map fun r => { numSimd := width shapes r }

/-- The futures the factory call for `spec` registers as gate `shapes.length`, after calls
with lane counts `shapes`: the receiver's `num_wires * num_simd` bits from the input owner,
the Output gate's `count_bits(inputs_)` from every other party when this party or every
party is the owner, the AND gate's `count_bits(inputs_a_)` from `1 - my_id`. -/
def GateSpec.registrations (provider : BEAVYProvider) (shapes : List (List Nat)) :
    GateSpec → List Registration
  | .input inputOwner numWires numSimd =>
      if inputOwner = provider.myId then [] else [⟨inputOwner, shapes.length, numWires * numSimd⟩]
  | .output inputs outputOwner =>
      if outputOwner = provider.allParties ∨ outputOwner = provider.myId then
        (List.range provider.numParties).filterMap fun party_id =>
          if party_id = provider.myId then none
          else some ⟨party_id, shapes.length, countBits (laneWires shapes inputs)⟩
      else []
  | .inv _ | .xor .. => []
  | .and _ inB => [⟨peerId provider.myId, shapes.length, countBits (laneWires shapes inB)⟩]

/-- The futures registered while constructing `circuit` after calls with lane counts
`shapes`. -/
def registrationsFrom (provider : BEAVYProvider) : List (List Nat) → Circuit → List Registration
  | _, [] => []
  | shapes, spec :: rest =>
      spec.registrations provider shapes ++
        registrationsFrom provider (shapes ++ [spec.shape shapes]) rest

/-- The wires of earlier gates, read in a state that agrees with the built one on them, have
the builder's lane counts. -/
theorem BuildInv.map_numSimd_read {shapes : List (List Nat)} {built : List Gate}
    {state state' : PartyState} (hinv : BuildInv shapes built state)
    (hread : ∀ h : WireHandle, h.gateId < built.length → state'.read h = state.read h)
    {refs : List WireRef} (hv : RefsValid shapes refs) :
    ((refs.map (resolve built)).map state'.read).map (·.numSimd) =
      (laneWires shapes refs).map (·.numSimd) := by
  simp only [List.map_map, laneWires]
  refine List.map_congr_left fun r hr => ?_
  have hlt : (resolve built r).gateId < built.length := Nat.lt_of_le_of_lt
    (hinv.resolve_le r (hv r hr)) (hinv.length_eq ▸ gate_lt_of_valid (hv r hr))
  simp only [Function.comp_apply, hread _ hlt, hinv.numSimd_read r (hv r hr)]

/-- One factory call on a well-formed gate registers `spec.registrations`. -/
theorem BuildInv.registrations_construct {numParties : Nat} (provider : BEAVYProvider)
    {shapes : List (List Nat)} {built : List Gate} {state : PartyState} {spec : GateSpec}
    (hinv : BuildInv shapes built state) (hwf : spec.WellFormed numParties shapes)
    {gate : Gate} {state' : PartyState}
    (hrun : (constructGate provider built spec).run state = .ok gate state') :
    state'.registrations = state.registrations ++ spec.registrations provider shapes := by
  have hlen := hinv.length_eq
  cases spec with
  | input inputOwner numWires numSimd =>
    by_cases howner : inputOwner = provider.myId
    · simp only [constructGate, howner, ↓reduceIte, BooleanBEAVYInputGateSender.run_construct,
        EStateM.Result.ok.injEq] at hrun
      simp [← hrun.2, GateSpec.registrations, howner]
    · simp only [constructGate, howner, ↓reduceIte, BooleanBEAVYInputGateReceiver.run_construct,
        EStateM.Result.ok.injEq] at hrun
      simp [← hrun.2, GateSpec.registrations, howner, hlen]
  | output inputs outputOwner =>
    simp only [constructGate, BooleanBEAVYOutputGate.run_construct, EStateM.Result.ok.injEq] at hrun
    rw [← hrun.2, GateSpec.registrations,
      countBits_congr (hinv.map_numSimd_read (fun _ _ => rfl) hwf), hlen]
    split <;> simp
  | inv inputs =>
    obtain ⟨hv, hne, hw⟩ := hwf
    simp only [constructGate, BooleanBEAVYINVGate.construct, run_bind,
      basicUnaryGate_run (by simpa using hne) (lanesEq_of_refsValid hinv hv hw), run_pure,
      EStateM.Result.ok.injEq] at hrun
    rw [← hrun.2]
    split <;> simp [GateSpec.registrations]
  | xor inA inB =>
    obtain ⟨hv, hne, hlenAB, hw⟩ := hwf
    simp only [constructGate, BooleanBEAVYXORGate.construct, run_bind,
      basicBinaryGate_run (by simpa using hne) (by simpa using hlenAB.symm)
        (lanesEq_of_refsValid hinv (fun r hr => hv r (List.mem_append_right _ hr))
          (fun r hr => hw r (List.mem_append_right _ hr)))
        (lanesEq_of_refsValid hinv (fun r hr => hv r (List.mem_append_left _ hr))
          (fun r hr => hw r (List.mem_append_left _ hr))),
      run_pure, EStateM.Result.ok.injEq] at hrun
    simp [← hrun.2, GateSpec.registrations]
  | and inA inB =>
    obtain ⟨hv, hne, hlenAB, hw⟩ := hwf
    have hvB : RefsValid shapes inB := fun r hr => hv r (List.mem_append_right _ hr)
    simp only [constructGate, BooleanBEAVYANDGate.construct, run_bind,
      basicBinaryGate_run (by simpa using hne) (by simpa using hlenAB.symm)
        (lanesEq_of_refsValid hinv hvB (fun r hr => hw r (List.mem_append_right _ hr)))
        (lanesEq_of_refsValid hinv (fun r hr => hv r (List.mem_append_left _ hr))
          (fun r hr => hw r (List.mem_append_left _ hr))),
      run_get, registerForBitsMessage, run_modify, run_pure, EStateM.Result.ok.injEq] at hrun
    rw [← hrun.2, countBits_congr (hinv.map_numSimd_read
      (fun h hh => PartyState.read_setWires_of_ne _ _ (Nat.ne_of_lt hh)) hvB)]
    simp [GateSpec.registrations, hlen]

theorem buildCircuit_registrations_from {numParties : Nat} (provider : BEAVYProvider) :
    ∀ (circuit : Circuit) (shapes : List (List Nat)) (built : List Gate) (state : PartyState),
      BuildInv shapes built state → wellFormedFrom numParties shapes circuit →
      ∀ {gates : List Gate} {state' : PartyState},
        (buildCircuit provider circuit built).run state = .ok gates state' →
        state'.registrations = state.registrations ++ registrationsFrom provider shapes circuit
  | [], _, _, _, _, _, _, _, hrun => by
    simp only [buildCircuit, run_pure, EStateM.Result.ok.injEq] at hrun
    simp [← hrun.2, registrationsFrom]
  | _ :: rest, _, _, _, hinv, ⟨hspec, hrest⟩, _, _, hrun => by
    obtain ⟨state₁, hrun₁, hinv₁⟩ := hinv.construct provider hspec
    simp only [buildCircuit, run_bind, hrun₁] at hrun
    rw [buildCircuit_registrations_from provider rest _ _ state₁ hinv₁ hrest hrun,
      hinv.registrations_construct provider hspec hrun₁, registrationsFrom, List.append_assoc]

/-- Every registration of a factory call carries its gate id. -/
theorem gateId_of_mem_registrations {provider : BEAVYProvider} {shapes : List (List Nat)}
    {spec : GateSpec} {reg : Registration} (h : reg ∈ spec.registrations provider shapes) :
    reg.gateId = shapes.length := by
  cases spec <;> simp only [GateSpec.registrations] at h
  case input => split at h <;> simp_all
  case output =>
    split at h
    · obtain ⟨_, -, ha⟩ := List.mem_filterMap.mp h
      split at ha
      · simp at ha
      · cases ha; rfl
    · simp at h
  all_goals simp_all

theorem le_gateId_of_mem_registrationsFrom (provider : BEAVYProvider) :
    ∀ (circuit : Circuit) (shapes : List (List Nat)) {reg : Registration},
      reg ∈ registrationsFrom provider shapes circuit → shapes.length ≤ reg.gateId
  | [], _, _, h => by simp [registrationsFrom] at h
  | _ :: rest, _, _, h => by
    rcases List.mem_append.mp h with h | h
    · exact (gateId_of_mem_registrations h).ge
    · have := le_gateId_of_mem_registrationsFrom provider rest _ h
      simp only [List.length_append, List.length_singleton] at this
      omega

/-- The registrations with the gate id of call `j` are that call's. -/
theorem filter_gateId_registrationsFrom (provider : BEAVYProvider) :
    ∀ (circuit : Circuit) (shapes : List (List Nat)) {j : Nat} (hj : j < circuit.length),
      (registrationsFrom provider shapes circuit).filter (·.gateId = shapes.length + j) =
        circuit[j].registrations provider
          ((extendBy GateSpec.shape shapes circuit).take (shapes.length + j))
  | [], _, _, hj => absurd hj (Nat.not_lt_zero _)
  | spec :: rest, shapes, 0, _ => by
    rw [registrationsFrom, List.filter_append, List.filter_eq_self.mpr, List.filter_eq_nil_iff.mpr,
      List.append_nil, Nat.add_zero, take_extendBy]
    · rfl
    · intro reg hreg
      have := le_gateId_of_mem_registrationsFrom provider rest _ hreg
      simp only [List.length_append, List.length_singleton] at this
      simp only [decide_eq_true_eq]
      omega
    · intro reg hreg
      simp [gateId_of_mem_registrations hreg]
  | spec :: rest, shapes, j + 1, hj => by
    rw [registrationsFrom, List.filter_append, List.filter_eq_nil_iff.mpr, List.nil_append]
    · have h := filter_gateId_registrationsFrom provider rest (shapes ++ [spec.shape shapes])
        (j := j) (by simpa using hj)
      simp only [List.length_append, List.length_singleton] at h
      rw [show shapes.length + (j + 1) = shapes.length + 1 + j by omega, h]
      rfl
    · intro reg hreg
      simp [gateId_of_mem_registrations hreg]

section Registered

variable {session : Session} {data : Nat → PartyData} {circuit : Circuit}

/-- The futures a party registers while it constructs a well-formed circuit. -/
theorem Session.registered_eq (hwf : circuit.WellFormed session.numParties) (p : Nat) :
    session.registered data circuit p = registrationsFrom (session.provider data p) [] circuit := by
  obtain ⟨state, hrun, -⟩ := buildCircuit_run (session.provider data p) hwf
  have h := buildCircuit_registrations_from (session.provider data p) circuit [] [] {}
    BuildInv.empty hwf hrun
  rw [Session.registered, Session.build, hrun, resultState, h]
  rfl

/-- The futures party `r` registers for sender `s` at gate `k`. -/
theorem Session.filter_registered (hwf : circuit.WellFormed session.numParties) {k : Nat}
    (hk : k < circuit.length) (r s : Nat) :
    (session.registered data circuit r).filter (fun reg => reg.sender = s ∧ reg.gateId = k) =
      (circuit[k].registrations (session.provider data r) (circuit.shapes.take k)).filter
        (·.sender = s) := by
  have h : (registrationsFrom (session.provider data r) [] circuit).filter (·.gateId = k) =
      circuit[k].registrations (session.provider data r) (circuit.shapes.take k) := by
    simpa using filter_gateId_registrationsFrom (session.provider data r) circuit [] hk
  rw [Session.registered_eq hwf, ← h, List.filter_filter]
  congr 1
  funext reg
  simp [and_comm]

end Registered

/-! ### What the online phase sends and reads -/

/-- The entries of a party-indexed `filterMap` that skips `my_id`, for one party. -/
theorem filter_filterMap_range {α : Type} (n myId r : Nat) (f : Nat → α) (key : α → Nat)
    (hkey : ∀ i, key (f i) = i) :
    ((List.range n).filterMap fun i => if i = myId then none else some (f i)).filter
        (fun x => key x = r) = if r < n ∧ r ≠ myId then [f r] else [] := by
  induction n with
  | zero => simp
  | succ n ih =>
    rw [List.range_succ, List.filterMap_append, List.filter_append, ih]
    by_cases hn : n = myId
    · subst hn
      have hiff : (r < n + 1 ∧ r ≠ n) ↔ (r < n ∧ r ≠ n) := by omega
      simp [hiff]
    · by_cases hr : n = r
      · subst hr
        have h₁ : ¬ (n < n ∧ n ≠ myId) := by omega
        simp [hn, hkey, h₁]
      · have hiff : (r < n + 1 ∧ r ≠ myId) ↔ (r < n ∧ r ≠ myId) := by omega
        simp [hn, hkey, hr, hiff]

theorem filter_recipient_broadcast (provider : BEAVYProvider) (payload : BitVector) (r : Nat) :
    (broadcastBitsMessage provider payload).filter (·.recipient = r) =
      if r < provider.numParties ∧ r ≠ provider.myId then [⟨r, payload⟩] else [] :=
  filter_filterMap_range _ _ _ (fun i => (⟨i, payload⟩ : BitsMessage)) (·.recipient) fun _ => rfl

theorem count_filter_range_ne (n myId s : Nat) :
    ((List.range n).filter (· ≠ myId)).count s = if s < n ∧ s ≠ myId then 1 else 0 := by
  have hnodup := (List.nodup_range n).filter (fun x => decide (x ≠ myId))
  split_ifs with h
  · exact List.count_eq_one_of_mem hnodup (by simpa using h)
  · exact List.count_eq_zero_of_not_mem (by simpa using h)

/-- The Output gate's messages and reads, whatever its futures deliver. -/
theorem BooleanBEAVYOutputGate.effects_evaluateOnline (provider : BEAVYProvider)
    (inbox : Nat → BitVector) (gateId outputOwner : Nat) (inputs : List WireHandle)
    (state : PartyState) :
    (evaluateOnline provider inbox gateId outputOwner inputs state).1 =
      { sent := if outputOwner ≠ provider.myId then
            (if outputOwner = provider.allParties then
              broadcastBitsMessage provider (appendAll (inputs.map fun wire => (state.read wire).secretShare))
            else sendBitsMessage outputOwner (appendAll (inputs.map fun wire => (state.read wire).secretShare)))
          else []
        read := if outputOwner = provider.allParties ∨ outputOwner = provider.myId then
            (List.range provider.numParties).filter (· ≠ provider.myId) else [] } := by
  unfold evaluateOnline
  by_cases h₁ : outputOwner = provider.myId <;> by_cases h₂ : outputOwner = provider.allParties <;>
    simp [h₁, h₂]

/-- Sender `s`'s bits messages to `r`, `r`'s registrations for `s` and `r`'s reads agree: the
messages have the sizes of the registrations, of which there is at most one, and `r` reads
`s`'s future as often as it registered one. -/
def MessagesMatch (sent : List BitsMessage) (regs : List Registration) (reads : List Nat)
    (s r : Nat) : Prop :=
  (sent.filter (·.recipient = r)).map (·.payload.length) = regs.map (·.numBits) ∧
    regs.length ≤ 1 ∧ reads.count s = regs.length

section Online

variable {session : Session} {data : Nat → PartyData} {circuit : Circuit}

theorem Session.sentAt_of_onlineAt {gates : Nat → List Gate} {k p : Nat}
    {states : Nat → PartyState} {effects : OnlineEffects}
    (h : ∀ inbox, ∃ state, session.onlineAt data gates k p inbox states = .ok effects state) :
    session.sentAt data gates k p states = effects.sent := by
  obtain ⟨_, h⟩ := h fun _ => []
  rw [Session.sentAt, h]

theorem Session.readAt_of_onlineAt {gates : Nat → List Gate} {k p : Nat}
    {states : Nat → PartyState} {effects : OnlineEffects}
    (h : ∀ inbox, ∃ state, session.onlineAt data gates k p inbox states = .ok effects state) :
    session.readAt data gates k p states = effects.read := by
  obtain ⟨_, h⟩ := h (session.deliveredAt data gates k p states)
  rw [Session.readAt, h]

/-! #### What each gate sends and reads -/
/-- At an input gate the owner broadcasts the public values of the gate's wires. -/
theorem OnlineInv.sentAt_inputSender (hfit : InputsFit circuit fun owner => (data owner).inputs)
    {k : Nat} {states : Nat → PartyState} (hinv : OnlineInv session data circuit k states)
    {inputOwner numWires numSimd : Nat}
    (hspec : circuit[k]? = some (.input inputOwner numWires numSimd)) :
    session.sentAt data (session.gates data circuit) k inputOwner states =
      broadcastBitsMessage (session.provider data inputOwner) (appendAll ((List.range numWires).map
        fun i => (List.range numSimd).map (publicValue session data circuit ⟨k, i⟩))) := by
  rw [Session.sentAt_of_onlineAt fun inbox => ⟨_, hinv.onlineAt_inputSender hfit hspec inbox⟩]
  dsimp only
  congr 2
  refine List.map_congr_left fun i hi => ?_
  have hi := List.mem_range.mp hi
  obtain ⟨v, hv, hvlen⟩ := hfit k inputOwner numWires numSimd hspec i hi
  obtain ⟨hlen, hbit⟩ := hinv.publicShare_owner k le_rfl _ _ _ hspec i hi
  have hinput : ((data inputOwner).inputs k).getD i [] = v := by
    rw [List.getD_eq_getElem?_getD, hv, Option.getD_some]
  rw [hinput]
  refine ext_bit (by simp [hlen, hvlen]) fun l hl => ?_
  simp only [length_xor, hlen, hvlen, min_self] at hl
  rw [bit_xor (hlen.trans hvlen.symm), hbit, bit_map_range _ hl, publicValue,
    value_plainValues_input hspec hi, hinput, add_comm]

/-- At an Output gate every party but the owner sends its `δ`s on the gate's inputs: to every
other party when the owner is `ALL_PARTIES`, else to the owner. -/
theorem OnlineInv.sentAt_output {numParties : Nat} (hwf : circuit.WellFormed numParties) {k : Nat}
    {states : Nat → PartyState} (hinv : OnlineInv session data circuit k states)
    {inputs : List WireRef} {outputOwner : Nat}
    (hspec : circuit[k]? = some (.output inputs outputOwner)) (s : Nat) :
    session.sentAt data (session.gates data circuit) k s states =
      if outputOwner ≠ s then
        (if outputOwner = session.allParties then
          broadcastBitsMessage (session.provider data s)
            (appendAll (inputs.map (value (secretValues session data circuit s))))
        else sendBitsMessage outputOwner
          (appendAll (inputs.map (value (secretValues session data circuit s)))))
      else [] := by
  have hin := Circuit.hasWire_of_output hwf hspec
  have hshare : appendAll ((inputs.map (resolve (session.gates data circuit s))).map
      fun wire => ((states s).read wire).secretShare) =
        appendAll (inputs.map (value (secretValues session data circuit s))) := by
    rw [List.map_map]
    exact congrArg appendAll (List.map_congr_left fun r hr => hinv.secretShare_read s r (hin r hr).2)
  rw [Session.sentAt_of_onlineAt fun inbox => ⟨_, by rw [Session.onlineAt_output s hspec inbox states,
    BooleanBEAVYOutputGate.effects_evaluateOnline]⟩, Session.map_resolve_take s fun r hr => (hin r hr).1,
    hshare]
  rfl

/-- At an Output gate the owner, or every party when the owner is `ALL_PARTIES`, reads the
futures of every other party. -/
theorem Session.readAt_output {k : Nat} {inputs : List WireRef} {outputOwner : Nat}
    (hspec : circuit[k]? = some (.output inputs outputOwner)) (r : Nat) (states : Nat → PartyState) :
    session.readAt data (session.gates data circuit) k r states =
      if outputOwner = session.allParties ∨ outputOwner = r then
        (List.range session.numParties).filter (· ≠ r)
      else [] := by
  rw [Session.readAt_of_onlineAt fun inbox => ⟨_, by rw [Session.onlineAt_output r hspec inbox states,
    BooleanBEAVYOutputGate.effects_evaluateOnline]⟩]
  rfl

/-- A party that does not own an input gate sends nothing there. -/
theorem Session.sentAt_inputReceiver {k inputOwner numWires numSimd : Nat}
    (hspec : circuit[k]? = some (.input inputOwner numWires numSimd)) {s : Nat}
    (hso : s ≠ inputOwner) (states : Nat → PartyState) :
    session.sentAt data (session.gates data circuit) k s states = [] := by
  rw [Session.sentAt_of_onlineAt fun inbox =>
    ⟨_, Session.onlineAt_inputReceiver hspec hso inbox states⟩]

/-- INV and XOR gates send nothing. -/
theorem Session.sentAt_inv_xor {k : Nat} {spec : GateSpec} (hspec : circuit[k]? = some spec)
    (hkind : (∃ refs, spec = .inv refs) ∨ ∃ inA inB, spec = .xor inA inB) (s : Nat)
    (states : Nat → PartyState) :
    session.sentAt data (session.gates data circuit) k s states = [] := by
  rcases hkind with ⟨refs, rfl⟩ | ⟨inA, inB, rfl⟩ <;>
    simp only [Session.sentAt, Session.onlineAt, Session.gates_getD_of s hspec, instantiate,
      Gate.evaluateOnline, run_bind, run_modify, run_pure]


/-! #### Messages against registrations -/

/-- The lane counts of the calls before a call of the circuit are that many. -/
theorem min_length_shapes {circuit : Circuit} {k : Nat} {spec : GateSpec}
    (hspec : circuit[k]? = some spec) : k ⊓ circuit.shapes.length = k := by
  have := (List.getElem?_eq_some_iff.mp hspec).1
  simp [Circuit.shapes]
  omega

/-- Input gates: the owner broadcasts `num_wires * num_simd` bits, every other party
registered that many from the owner and reads the owner's future. -/
theorem OnlineInv.messagesMatch_input (hfit : InputsFit circuit fun owner => (data owner).inputs)
    {k : Nat} {states : Nat → PartyState} (hinv : OnlineInv session data circuit k states)
    {inputOwner numWires numSimd : Nat}
    (hspec : circuit[k]? = some (.input inputOwner numWires numSimd)) {s r : Nat}
    (hr : r < session.numParties) (hsr : s ≠ r) :
    MessagesMatch (session.sentAt data (session.gates data circuit) k s states)
      (((GateSpec.input inputOwner numWires numSimd).registrations (session.provider data r)
        (circuit.shapes.take k)).filter (·.sender = s))
      (session.readAt data (session.gates data circuit) k r states) s r := by
  have hreceiver : ∀ p ≠ inputOwner, ∀ inbox, ∃ state,
      session.onlineAt data (session.gates data circuit) k p inbox states =
        .ok { read := [inputOwner] } state :=
    fun p hpo inbox => ⟨_, Session.onlineAt_inputReceiver hspec hpo inbox states⟩
  have hsender : ∃ payload : BitVector, payload.length = numWires * numSimd ∧ ∀ inbox, ∃ state,
      session.onlineAt data (session.gates data circuit) k inputOwner inbox states =
        .ok { sent := broadcastBitsMessage (session.provider data inputOwner) payload } state := by
    refine ⟨_, ?_, fun inbox => ⟨_, hinv.onlineAt_inputSender hfit hspec inbox⟩⟩
    rw [length_appendAll_of_width, List.length_map, List.length_range]
    intro v hv
    obtain ⟨i, hi, rfl⟩ := List.mem_map.mp hv
    have hi := List.mem_range.mp hi
    obtain ⟨x, hx, hxlen⟩ := hfit k inputOwner numWires numSimd hspec i hi
    rw [length_xor, (hinv.publicShare_owner k le_rfl _ _ _ hspec i hi).1,
      List.getD_eq_getElem?_getD, hx, Option.getD_some, hxlen, min_self]
  have hmin := min_length_shapes hspec
  obtain ⟨payload, hpay, hsender⟩ := hsender
  by_cases hso : s = inputOwner
  · subst hso
    rw [Session.sentAt_of_onlineAt hsender, Session.readAt_of_onlineAt (hreceiver r (Ne.symm hsr))]
    simp [MessagesMatch, filter_recipient_broadcast, Session.provider, hr, Ne.symm hsr,
      GateSpec.registrations, hpay, hmin, hsr]
  · rw [Session.sentAt_of_onlineAt (hreceiver s hso)]
    by_cases hro : r = inputOwner
    · subst hro
      rw [Session.readAt_of_onlineAt hsender]
      simp [MessagesMatch, GateSpec.registrations, Session.provider]
    · rw [Session.readAt_of_onlineAt (hreceiver r hro)]
      simp [MessagesMatch, GateSpec.registrations, Session.provider, Ne.symm hro, Ne.symm hso,
        List.count_singleton']

/-- Output gates: a party other than the owner sends its `δ`s to the owner, or to every
other party when the owner is `ALL_PARTIES`; the owner, or every party, registered
`count_bits` bits from every other party and reads their futures. -/
theorem OnlineInv.messagesMatch_output (hwf : circuit.WellFormed session.numParties)
    (hall : session.numParties ≤ session.allParties) {k : Nat} {states : Nat → PartyState}
    (hinv : OnlineInv session data circuit k states) {inputs : List WireRef} {outputOwner : Nat}
    (hspec : circuit[k]? = some (.output inputs outputOwner))
    (hbits : (inputs.map (width circuit.shapes)).sum < 2 ^ 31) {s r : Nat}
    (hs : s < session.numParties) (hr : r < session.numParties) (hsr : s ≠ r) :
    MessagesMatch (session.sentAt data (session.gates data circuit) k s states)
      (((GateSpec.output inputs outputOwner).registrations (session.provider data r)
        (circuit.shapes.take k)).filter (·.sender = s))
      (session.readAt data (session.gates data circuit) k r states) s r := by
  have hin : ∀ r ∈ inputs, r.gate < k := fun r hr => (Circuit.hasWire_of_output hwf hspec r hr).1
  have hshare : (appendAll (inputs.map (value (secretValues session data circuit s)))).length =
      (inputs.map (width circuit.shapes)).sum := by
    simp only [length_appendAll, List.map_map, Function.comp_def,
      length_value (lanes_secretValues hwf s)]
  have hlanes : (laneWires (circuit.shapes.take k) inputs).map (·.numSimd) =
      inputs.map (width circuit.shapes) := by
    simp only [laneWires, List.map_map]
    exact List.map_congr_left fun r hr => width_take_of_lt _ (hin r hr)
  have hmin := min_length_shapes hspec
  have hregs : ((GateSpec.output inputs outputOwner).registrations (session.provider data r)
      (circuit.shapes.take k)).filter (·.sender = s) =
        if outputOwner = session.allParties ∨ outputOwner = r then
          [⟨s, k, (inputs.map (width circuit.shapes)).sum⟩] else [] := by
    simp only [GateSpec.registrations, Session.provider]
    split_ifs
    · rw [filter_filterMap_range _ _ _ (fun i => (⟨i, _, _⟩ : Registration)) (·.sender)
        fun _ => rfl, if_pos ⟨hs, hsr⟩, countBits_eq_sum (hlanes ▸ hbits), hlanes]
      simp [hmin]
    · rfl
  rw [hinv.sentAt_output hwf hspec s, Session.readAt_output hspec r, MessagesMatch, hregs]
  generalize appendAll (inputs.map (value (secretValues session data circuit s))) = share at hshare
  by_cases hc : outputOwner = session.allParties ∨ outputOwner = r
  · have hos : outputOwner ≠ s := by rcases hc with h | h <;> omega
    have hcount : ((List.range session.numParties).filter (· ≠ r)).count s = 1 := by
      rw [count_filter_range_ne, if_pos ⟨hs, hsr⟩]
    simp only [if_pos hos, if_pos hc, hcount]
    rcases hc with h | h
    · rw [if_pos h, filter_recipient_broadcast, if_pos ⟨hr, Ne.symm hsr⟩]
      simp [hshare]
    · rw [if_neg (by omega), h]
      simp [sendBitsMessage, hshare]
  · simp only [if_neg hc]
    simp only [not_or] at hc
    by_cases hos : outputOwner = s
    · simp [hos]
    · simp [hos, hc.1, hc.2, sendBitsMessage]

/-- An AND gate's bits messages from party `s` to party `r`: one, of `num_wires * num_simd`
bits. -/
theorem OnlineInv.sentAt_and (hwf : circuit.WellFormed session.numParties) {k : Nat}
    {states : Nat → PartyState} (hinv : OnlineInv session data circuit k states)
    {inA inB : List WireRef} (hspec : circuit[k]? = some (.and inA inB)) {s r : Nat}
    (hs : s < session.numParties) (hr : r < session.numParties) (hsr : s ≠ r) :
    ((session.sentAt data (session.gates data circuit) k s states).filter (·.recipient = r)).map
        (·.payload.length) = [inB.length * width circuit.shapes (inB.headD ⟨0, 0⟩)] := by
  obtain ⟨hv, hne, -, hwidth⟩ := Circuit.wellFormed_of_getElem? hwf hspec
  have hin := Circuit.binaryInputs hv hne hwidth
  rw [Session.sentAt_of_onlineAt fun inbox => ⟨_, Session.onlineAt_and session data s hspec
      (fun x hx => (hin x hx).1) inbox states⟩, filter_recipient_broadcast,
    if_pos ⟨hr, Ne.symm hsr⟩]
  simp [(hinv.andShare_lanes hwf hspec hs).1]

/-- AND gates of two parties: each party broadcasts its share of `Δ_y`, of
`count_bits(inputs_a_)` bits, registered by the other party, which reads it. -/
theorem OnlineInv.messagesMatch_and (hwf : circuit.WellFormed session.numParties)
    (hN : session.numParties = 2) {k : Nat} {states : Nat → PartyState}
    (hinv : OnlineInv session data circuit k states) {inA inB : List WireRef}
    (hspec : circuit[k]? = some (.and inA inB))
    (hbits : (inB.map (width circuit.shapes)).sum < 2 ^ 31) {s r : Nat}
    (hs : s < session.numParties) (hr : r < session.numParties) (hsr : s ≠ r) :
    MessagesMatch (session.sentAt data (session.gates data circuit) k s states)
      (((GateSpec.and inA inB).registrations (session.provider data r)
        (circuit.shapes.take k)).filter (·.sender = s))
      (session.readAt data (session.gates data circuit) k r states) s r := by
  obtain ⟨hv, hne, -, hwidth⟩ := Circuit.wellFormed_of_getElem? hwf hspec
  have hin := Circuit.binaryInputs hv hne hwidth
  have hpeer : peerId r = s := by
    have : r = 0 ∧ s = 1 ∨ r = 1 ∧ s = 0 := by omega
    rcases this with ⟨rfl, rfl⟩ | ⟨rfl, rfl⟩ <;> rfl
  have hsum : (inB.map (width circuit.shapes)).sum =
      inB.length * width circuit.shapes (inB.headD ⟨0, 0⟩) := by
    rw [List.map_congr_left fun x hx => (hin x (List.mem_append_right _ hx)).2.2, List.map_const',
      List.sum_replicate, smul_eq_mul]
  have hlanes : (laneWires (circuit.shapes.take k) inB).map (·.numSimd) =
      inB.map (width circuit.shapes) := by
    simp only [laneWires, List.map_map]
    exact List.map_congr_left fun x hx => width_take_of_lt _ (hin x (List.mem_append_right _ hx)).1
  have hmin := min_length_shapes hspec
  rw [MessagesMatch, hinv.sentAt_and hwf hspec hs hr hsr, Session.readAt_of_onlineAt fun inbox =>
    ⟨_, Session.onlineAt_and session data r hspec (fun x hx => (hin x hx).1) inbox states⟩]
  simp [GateSpec.registrations, Session.provider, hpeer, countBits_eq_sum (hlanes ▸ hbits), hlanes,
    hsum, hmin]

/-- The vectors `count_bits` sums: an Output gate's `inputs_`, an AND gate's `inputs_a_`. -/
def GateSpec.countedRefs : GateSpec → List WireRef
  | .output inputs _ => inputs
  | .and _ inB => inB
  | _ => []

/-- Every vector `count_bits` sums has fewer than `2^31` lanes. -/
def Circuit.CountBitsFit (circuit : Circuit) : Prop :=
  ∀ spec ∈ circuit, (spec.countedRefs.map (width circuit.shapes)).sum < 2 ^ 31

instance (circuit : Circuit) : Decidable circuit.CountBitsFit :=
  inferInstanceAs (Decidable (∀ spec ∈ circuit, _ < 2 ^ 31))

/-- The messages of gate `k` between two distinct parties match, for every gate kind. -/
theorem OnlineInv.messagesMatch (hwf : circuit.WellFormed session.numParties)
    (hand : ∀ inA inB, GateSpec.and inA inB ∈ circuit → session.numParties = 2)
    (hfit : InputsFit circuit fun owner => (data owner).inputs)
    (hall : session.numParties ≤ session.allParties) (hbits : circuit.CountBitsFit)
    {k : Nat} (hk : k < circuit.length) {states : Nat → PartyState}
    (hinv : OnlineInv session data circuit k states) {s r : Nat} (hs : s < session.numParties)
    (hr : r < session.numParties) (hsr : s ≠ r) :
    MessagesMatch (session.sentAt data (session.gates data circuit) k s states)
      ((circuit[k].registrations (session.provider data r) (circuit.shapes.take k)).filter
        (·.sender = s))
      (session.readAt data (session.gates data circuit) k r states) s r := by
  have hspec : circuit[k]? = some circuit[k] := List.getElem?_eq_getElem hk
  have hmem : circuit[k] ∈ circuit := List.getElem_mem hk
  have hfits := hbits _ hmem
  generalize circuit[k] = spec at hspec hmem hfits
  have hsilent : (∀ p inbox, ∃ state, session.onlineAt data (session.gates data circuit) k p inbox
      states = .ok {} state) → spec.registrations (session.provider data r) (circuit.shapes.take k) = [] →
      MessagesMatch (session.sentAt data (session.gates data circuit) k s states)
        ((spec.registrations (session.provider data r) (circuit.shapes.take k)).filter (·.sender = s))
        (session.readAt data (session.gates data circuit) k r states) s r := fun heff hregs => by
    rw [Session.sentAt_of_onlineAt (heff s), Session.readAt_of_onlineAt (heff r), hregs]
    simp [MessagesMatch]
  cases spec with
  | input => exact hinv.messagesMatch_input hfit hspec hr hsr
  | output => exact hinv.messagesMatch_output hwf hall hspec hfits hs hr hsr
  | and => exact hinv.messagesMatch_and hwf (hand _ _ hmem) hspec hfits hs hr hsr
  | inv | xor =>
    refine hsilent (fun p inbox => ?_) rfl
    simp only [Session.onlineAt, Session.gates_getD_of p hspec, instantiate, Gate.evaluateOnline,
      run_bind, run_modify, run_pure]
    exact ⟨_, rfl⟩

/-- Message accounting over a run: at every gate, for every ordered pair of distinct parties,
the sender's bits messages to the recipient have the sizes of the futures the recipient
registered for that sender and gate, of which there is at most one, and the recipient reads
the sender's future exactly as often as it registered one. -/
theorem Session.messages_match (hwf : circuit.WellFormed session.numParties)
    (hand : ∀ inA inB, GateSpec.and inA inB ∈ circuit → session.numParties = 2)
    (hfit : InputsFit circuit fun owner => (data owner).inputs)
    (hrng : ∀ i < session.numParties, ∀ i' < session.numParties, ∀ key numBits,
      getBits ((data i).myRng i') key numBits = getBits ((data i').theirRng i) key numBits)
    (hjob : ∀ g, session.OneJob g) (hall : session.numParties ≤ session.allParties)
    (hbits : circuit.CountBitsFit) {k : Nat} (hk : k < circuit.length) {s r : Nat}
    (hs : s < session.numParties) (hr : r < session.numParties) (hsr : s ≠ r) :
    ∃ sent reads, session.sentIn data circuit k s = .ok sent ∧
      session.readIn data circuit k r = .ok reads ∧
      MessagesMatch sent ((session.registered data circuit r).filter
        fun reg => reg.sender = s ∧ reg.gateId = k) reads s r := by
  obtain ⟨states, hstates, hinv⟩ := Session.statesBefore_inv hwf hand hfit hrng hjob hk.le
  refine ⟨_, _, by rw [Session.sentIn, hstates, Session.builtGates_eq hwf]; rfl,
    by rw [Session.readIn, hstates, Session.builtGates_eq hwf]; rfl, ?_⟩
  rw [Session.filter_registered hwf hk]
  exact hinv.messagesMatch hwf hand hfit hall hbits hk hs hr hsr

end Online

theorem messages_match_one_and :
    twoPartySession.numParties ≤ twoPartySession.allParties ∧ andCircuit.CountBitsFit ∧
      ∃ sent reads, twoPartySession.sentIn onesData andCircuit 2 0 = .ok sent ∧
        twoPartySession.readIn onesData andCircuit 2 1 = .ok reads ∧
        MessagesMatch sent ((twoPartySession.registered onesData andCircuit 1).filter
          fun reg => reg.sender = 0 ∧ reg.gateId = 2) reads 0 1 :=
  ⟨le_rfl, by decide, Session.messages_match andCircuit_wellFormed (fun _ _ _ => rfl) onesData_fit
    (fun _ _ _ _ _ _ => rfl) twoPartySession_oneJob le_rfl (by decide) (by decide) (by decide)
    (by decide) (by decide)⟩

/-- One AND gate on two input wires of `2^31` lanes, one from each party. -/
def wideAndCircuit : Circuit := [.input 0 1 (2 ^ 31), .input 1 1 (2 ^ 31), .and [⟨0, 0⟩] [⟨1, 0⟩]]

/-- Both parties input `2^31` ones; the coins and generators are all zero. -/
def wideData : Nat → PartyData := fun _ =>
  ⟨fun _ => [List.replicate (2 ^ 31) true], ⟨fun _ _ _ => false, fun _ _ => false⟩,
    fun _ _ _ => false, fun _ _ _ => false⟩

/-- At `2^31` lanes the accounting breaks: party 1 registers `2^64 - 2^31` bits from party 0
for the AND gate, while party 0 sends it a message of `2^31` bits. -/
theorem andGate_registers_wrapped_count :
    (twoPartySession.registered wideData wideAndCircuit 1).filter
        (fun reg => reg.sender = 0 ∧ reg.gateId = 2) = [⟨0, 2, 2 ^ 64 - 2 ^ 31⟩] ∧
      (twoPartySession.sentIn wideData wideAndCircuit 2 0).map
        (fun sent => (sent.filter (·.recipient = 1)).map (·.payload.length)) = .ok [2 ^ 31] := by
  have hwf : wideAndCircuit.WellFormed twoPartySession.numParties := by
    simp [wideAndCircuit, twoPartySession, Circuit.WellFormed, wellFormedFrom, GateSpec.WellFormed,
      GateSpec.shape, RefsValid, width]
  have hfit : InputsFit wideAndCircuit fun owner => (wideData owner).inputs := by
    intro k o nw ns h j hj
    rcases k with _ | _ | _ | k <;> simp only [wideAndCircuit, List.getElem?_cons_zero,
      List.getElem?_cons_succ, Option.some.injEq, GateSpec.input.injEq, List.getElem?_nil,
      reduceCtorEq] at h
    all_goals obtain ⟨rfl, rfl, rfl⟩ := h
    all_goals exact ⟨_, by rw [show j = 0 by omega]; rfl, List.length_replicate _ _⟩
  obtain ⟨states, hstates, hinv⟩ := Session.statesBefore_inv hwf (fun _ _ _ => rfl) hfit
    (fun _ _ _ _ _ _ => rfl) twoPartySession_oneJob (show 2 ≤ wideAndCircuit.length by decide)
  have hsent := hinv.sentAt_and hwf
    (show wideAndCircuit[2]? = some (.and [⟨0, 0⟩] [⟨1, 0⟩]) from rfl)
    (show 0 < twoPartySession.numParties by decide) (show 1 < twoPartySession.numParties by decide)
    (show 0 ≠ 1 by decide)
  have hwidth : width wideAndCircuit.shapes ⟨1, 0⟩ = 2 ^ 31 := rfl
  simp only [List.headD_cons, hwidth, List.length_singleton, Nat.one_mul] at hsent
  refine ⟨by decide, ?_⟩
  rw [Session.sentIn, hstates, Session.builtGates_eq hwf]
  exact congrArg Except.ok hsent

end MotionBeavy
