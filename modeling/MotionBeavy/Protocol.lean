import MotionBeavy.Build

/-
Module: MotionBeavy.Protocol
Purpose: The joint run of the BEAVY Boolean protocol by all parties. Every party constructs
  the same circuit, runs `evaluate_setup` of all gates in gate-id order and then
  `evaluate_online` of all gates in gate-id order. The parties advance gate by gate in
  lock step: the bits messages of gate `k` are delivered before any party evaluates gate
  `k + 1`, which a party's futures enforce in the C++ code. The message layer hands each
  registered future the payload its sender sent for that gate id; the XCOT-bit pair of an
  AND gate is the ideal functionality: the sender's outputs are read from its random tape
  and the receiver obtains the peer sender's outputs XOR (choices AND the peer's
  correlations). A party that throws stops the run.
Trusted boundary: the scheduler, the message layer and the OT provider are not under src/;
  they are modelled from the spec (exactly-once delivery keyed by gate id, the XCOT-bit
  relation "sender output XOR peer receiver output = peer choices AND sender
  correlations").
Main exports: Session, PartyData, Session.provider, idealXCOTBit, Session.setupPhase,
  Session.onlinePhase, Execution, Session.run, Session.registered, Session.sentIn,
  Session.readIn
-/

namespace MotionBeavy

/-- The public parameters of a run: the number of parties, `is_my_job(gate_id)` at each
party, and the constant `ALL_PARTIES`. -/
structure Session where
  numParties : Nat
  isMyJob : Nat → Nat → Bool
  allParties : Nat

/-- What one party brings to a run: what its input futures deliver (by gate id), its coins,
and its randomness generators toward every other party. -/
structure PartyData where
  inputs : Nat → List BitVector
  tape : RandomTape
  myRng : Nat → Prg
  theirRng : Nat → Prg

/-- The `BEAVYProvider` of party `p`. -/
def Session.provider (session : Session) (data : Nat → PartyData) (p : Nat) : BEAVYProvider where
  myId := p
  numParties := session.numParties
  isMyJob := session.isMyJob p
  allParties := session.allParties
  myRng := (data p).myRng
  theirRng := (data p).theirRng

/-- The gates party `p` constructs for a circuit. -/
def Session.gates (session : Session) (data : Nat → PartyData) (circuit : Circuit) (p : Nat) :
    List Gate :=
  buildGates (session.provider data p) circuit

/-- `delta_b_share_` as an AND gate's `evaluate_setup` passes it to `SetCorrelations`. -/
def Gate.otCorrelations (state : PartyState) : Gate → BitVector
  | .and _ inputsA inputsB => appendShares state (·.secretShare) inputsA.length inputsB
  | _ => []

/-- The ideal XCOT-bit pair of AND gate `gateId` at one party: the party's sender outputs are
read from its tape, and its receiver obtains the peer sender's outputs XOR (the choices AND
the peer's correlations). -/
def idealXCOTBit (gateId : Nat) (tape peerTape : RandomTape) (peerCorrelations : BitVector) :
    XCOTBit where
  senderOutputs correlations := (List.range correlations.length).map (tape.otSender gateId)
  receiverOutputs choices :=
    (List.range peerCorrelations.length).map (peerTape.otSender gateId) ^^^
      (choices &&& peerCorrelations)

/-! ### Results of the parties -/

section Results

variable {ε σ α : Type}

/-- The exception a party's result carries, if any. -/
def resultError : EStateM.Result ε σ α → Option ε
  | .ok .. => none
  | .error e _ => some e

/-- The state a party's result leaves, exception or not. -/
def resultState : EStateM.Result ε σ α → σ
  | .ok _ s => s
  | .error _ s => s

/-- The value a party's result returns, or the default on an exception. -/
def resultValue [Inhabited α] : EStateM.Result ε σ α → α
  | .ok a _ => a
  | .error .. => default

/-- The first exception among the results of parties `p < numParties`. -/
def firstError (numParties : Nat) (results : Nat → EStateM.Result ε σ α) : Option ε :=
  (List.range numParties).findSome? fun p => resultError (results p)

theorem firstError_eq_none {numParties : Nat} {results : Nat → EStateM.Result ε σ α}
    (h : ∀ p < numParties, resultError (results p) = none) : firstError numParties results = none := by
  rw [firstError, List.findSome?_eq_none_iff]
  exact fun p hp => h p (List.mem_range.mp hp)

end Results

/-! ### The two phases -/

section Phases

variable (session : Session) (data : Nat → PartyData) (gates : Nat → List Gate)

/-- Every party runs `evaluate_setup` of gate `k`; the OT outputs of an AND gate come from
the ideal XCOT-bit fed with both parties' correlations. -/
def Session.setupStep (k : Nat) (states : Nat → PartyState) (p : Nat) : PartyState :=
  let q := peerId p
  ((gates p).getD k default).evaluateSetup (session.provider data p) (data p).tape
    (idealXCOTBit k (data p).tape (data q).tape (((gates q).getD k default).otCorrelations (states q)))
    (states p)

/-- The parties' states after `evaluate_setup` of the first `k` gates. -/
def Session.setupPhase (init : Nat → PartyState) : Nat → Nat → PartyState
  | 0 => init
  | k + 1 => session.setupStep data gates k (Session.setupPhase init k)

/-- Gate `k`'s `evaluate_online` at party `p`, given what its futures deliver. -/
def Session.onlineAt (k p : Nat) (inbox : Nat → BitVector) (states : Nat → PartyState) :
    EStateM.Result Error PartyState OnlineEffects :=
  (((gates p).getD k default).evaluateOnline (session.provider data p) (data p).inputs inbox).run
    (states p)

/-- The bits messages party `p` hands to the message layer at gate `k`. Every gate sends
before it reads a future, so they are computed with an empty inbox. -/
def Session.sentAt (k p : Nat) (states : Nat → PartyState) : List BitsMessage :=
  match session.onlineAt data gates k p (fun _ => []) states with
  | .ok effects _ => effects.sent
  | .error .. => []

/-- What the future party `r` registered for sender `s` at gate `k` delivers: the payload of
the message `s` sent to `r` for that gate id. -/
def Session.deliveredAt (k r : Nat) (states : Nat → PartyState) (s : Nat) : BitVector :=
  ((session.sentAt data gates k s states).find? (·.recipient == r)).elim [] BitsMessage.payload

/-- The senders whose registered futures party `r` reads at gate `k`. -/
def Session.readAt (k r : Nat) (states : Nat → PartyState) : List Nat :=
  match session.onlineAt data gates k r (session.deliveredAt data gates k r states) states with
  | .ok effects _ => effects.read
  | .error .. => []

/-- Every party runs `evaluate_online` of gate `k`; the run stops at an exception. -/
def Session.onlineStep (k : Nat) (states : Nat → PartyState) : Except Error (Nat → PartyState) :=
  let result := fun p => session.onlineAt data gates k p (session.deliveredAt data gates k p states) states
  match firstError session.numParties result with
  | some e => .error e
  | none => .ok fun p => resultState (result p)

/-- The parties' states after `evaluate_online` of the first `k` gates. -/
def Session.onlinePhase (start : Nat → PartyState) : Nat → Except Error (Nat → PartyState)
  | 0 => .ok start
  | k + 1 => (Session.onlinePhase start k).bind (session.onlineStep data gates k)

end Phases

/-! ### The run -/

/-- What a run leaves: every party's gates and state. -/
structure Execution where
  gates : Nat → List Gate
  states : Nat → PartyState

/-- Construction at party `p`. -/
def Session.build (session : Session) (data : Nat → PartyData) (circuit : Circuit) (p : Nat) :
    EStateM.Result Error PartyState (List Gate) :=
  (buildCircuit (session.provider data p) circuit []).run {}

/-- Construct the circuit at every party, then the setup phase, then the online phase. -/
def Session.run (session : Session) (data : Nat → PartyData) (circuit : Circuit) :
    Except Error Execution :=
  let built := session.build data circuit
  match firstError session.numParties built with
  | some e => .error e
  | none =>
      let gates := fun p => resultValue (built p)
      let start := session.setupPhase data gates (fun p => resultState (built p)) circuit.length
      (session.onlinePhase data gates start circuit.length).map fun states => ⟨gates, states⟩

/-! ### What a run exchanges -/

/-- The gates party `p` holds once it has constructed the circuit. -/
def Session.builtGates (session : Session) (data : Nat → PartyData) (circuit : Circuit) (p : Nat) :
    List Gate :=
  resultValue (session.build data circuit p)

/-- The futures party `p` registers while it constructs the circuit. -/
def Session.registered (session : Session) (data : Nat → PartyData) (circuit : Circuit) (p : Nat) :
    List Registration :=
  (resultState (session.build data circuit p)).registrations

/-- The parties' states before `evaluate_online` of gate `k`, after construction and the setup
phase. -/
def Session.statesBefore (session : Session) (data : Nat → PartyData) (circuit : Circuit)
    (k : Nat) : Except Error (Nat → PartyState) :=
  let gates := session.builtGates data circuit
  session.onlinePhase data gates
    (session.setupPhase data gates (fun p => resultState (session.build data circuit p))
      circuit.length) k

/-- The bits messages party `s` hands to the message layer at gate `k` of a run. -/
def Session.sentIn (session : Session) (data : Nat → PartyData) (circuit : Circuit) (k s : Nat) :
    Except Error (List BitsMessage) :=
  (session.statesBefore data circuit k).map (session.sentAt data (session.builtGates data circuit) k s)

/-- The senders whose futures party `r` reads at gate `k` of a run. -/
def Session.readIn (session : Session) (data : Nat → PartyData) (circuit : Circuit) (k r : Nat) :
    Except Error (List Nat) :=
  (session.statesBefore data circuit k).map (session.readAt data (session.builtGates data circuit) k r)

end MotionBeavy
