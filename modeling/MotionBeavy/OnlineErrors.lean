import MotionBeavy.Correctness

/-
Module: MotionBeavy.OnlineErrors
Purpose: What a run raises online. The only exceptions of the online phase are those of
  BooleanBEAVYInputGateSender::evaluate_online at an input gate's owner: inputs.at(wire_i)
  past the end of what the input future delivered, or a vector whose size is not num_simd.
  Every other gate's evaluate_online, at every party, raises nothing and keeps the lengths of
  the wire vectors. So a run of a well-formed circuit raises exactly the exception of the
  first input gate, in gate order, whose inputs do not fit, and completes exactly when the
  inputs fit; no assumption on the parties' generators, tapes or designated parties is needed.
Trusted boundary: none
Main exports: GateSpec.onlineError, Circuit.onlineError, WiresAllocated,
  Session.onlineStep_cases, Session.onlinePhase_cases, Circuit.onlineError_eq_none_iff,
  Session.run_error_iff
-/

namespace MotionBeavy

/-! ### The exception of a gate and of a circuit -/

/-- The exception input gate `k`'s `evaluate_online` raises at the gate's owner when the
vector list its input future delivers does not fit: at the first wire whose vector is
missing or of the wrong size. Every other gate raises nothing online. -/
def GateSpec.onlineError (inputs : Nat → Nat → List BitVector) (k : Nat) : GateSpec → Option Error
  | .input inputOwner numWires numSimd =>
      ((List.range numWires).find? fun wire_i =>
        !inputFits (inputs inputOwner k) numSimd wire_i).map (inputError (inputs inputOwner k))
  | _ => none

/-- The exception of the first gate, in gate order, whose `evaluate_online` raises. -/
def Circuit.onlineError (circuit : Circuit) (inputs : Nat → Nat → List BitVector) : Option Error :=
  (List.range circuit.length).findSome? fun k => circuit[k]?.bind (·.onlineError inputs k)

/-! ### The first exception among the parties -/

theorem findSome?_eq_of_forall_ne {α β : Type} {f : α → Option β} {o : α} :
    ∀ {l : List α}, o ∈ l → (∀ a ∈ l, a ≠ o → f a = none) → l.findSome? f = f o
  | [], ho, _ => absurd ho (List.not_mem_nil o)
  | a :: l, ho, h => by
    by_cases hao : a = o
    · subst hao
      cases hfa : f a with
      | some b => simp [hfa]
      | none => exact List.findSome?_eq_none_iff.mpr fun x hx =>
          (em (x = a)).elim (· ▸ hfa) (h x hx)
    · rw [List.findSome?_cons, h a (List.mem_cons_self _ _) hao]
      exact findSome?_eq_of_forall_ne ((List.mem_cons.mp ho).resolve_left (Ne.symm hao))
        fun x hx => h x (List.mem_cons_of_mem _ hx)

/-- When only party `o` can throw, the first exception among the parties is `o`'s. -/
theorem firstError_eq_of_forall_ne {ε σ α : Type} {numParties o : Nat}
    {results : Nat → EStateM.Result ε σ α} (ho : o < numParties)
    (h : ∀ p < numParties, p ≠ o → resultError (results p) = none) :
    firstError numParties results = resultError (results o) :=
  findSome?_eq_of_forall_ne (List.mem_range.mpr ho) fun p hp hpo => h p (List.mem_range.mp hp) hpo

/-! ### One online step, and the online phase -/

section Errors

variable {session : Session} {data : Nat → PartyData} {circuit : Circuit}

variable (session data circuit) in
/-- Every builder wire is backed by an allocated wire object at every party. -/
def WiresAllocated (states : Nat → PartyState) : Prop :=
  ∀ p r, circuit.HasWire r →
    (resolve (session.gates data circuit p) r).index <
      ((states p).wires (resolve (session.gates data circuit p) r).gateId).length

theorem WiresAllocated.of_length {states states' : Nat → PartyState}
    (h : WiresAllocated session data circuit states)
    (hlen : ∀ p g, ((states' p).wires g).length = ((states p).wires g).length) :
    WiresAllocated session data circuit states' :=
  fun p r hr => (hlen p _).symm ▸ h p r hr

/-- An input gate's own wire vector is as long as its number of wires. -/
theorem WiresAllocated.numWires_le {states : Nat → PartyState}
    (h : WiresAllocated session data circuit states) {k inputOwner numWires numSimd : Nat}
    (hspec : circuit[k]? = some (.input inputOwner numWires numSimd)) (p : Nat) :
    numWires ≤ ((states p).wires k).length := by
  rcases Nat.eq_zero_or_pos numWires with h0 | hpos
  · omega
  · have hr : circuit.HasWire ⟨k, numWires - 1⟩ := by
      rw [Circuit.hasWire_self hspec]
      simp [GateSpec.shape]
      omega
    have hp := h p ⟨k, numWires - 1⟩ hr
    rw [Session.resolve_input_self p hspec (by omega)] at hp
    exact Nat.le_of_pred_lt hp

/-- The owner of an input gate raises the gate's exception, and keeps the lengths of its
wire vectors either way. -/
theorem Session.onlineAt_inputOwner {states : Nat → PartyState}
    (halloc : WiresAllocated session data circuit states) {k inputOwner numWires numSimd : Nat}
    (hspec : circuit[k]? = some (.input inputOwner numWires numSimd)) (inbox : Nat → BitVector) :
    resultError (session.onlineAt data (session.gates data circuit) k inputOwner inbox states) =
        (GateSpec.input inputOwner numWires numSimd).onlineError (fun owner => (data owner).inputs) k ∧
      ∀ g, ((resultState (session.onlineAt data (session.gates data circuit) k inputOwner inbox
        states)).wires g).length = ((states inputOwner).wires g).length := by
  have hrun := BooleanBEAVYInputGateSender.evaluateOnline_run (session.provider data inputOwner)
    ((data inputOwner).inputs k) k numWires numSimd (states inputOwner) (halloc.numWires_le hspec _)
  simp only [Session.onlineAt, Session.gates_input inputOwner hspec, eq_self_iff_true, if_true,
    Gate.evaluateOnline,
    hrun, GateSpec.onlineError]
  cases (List.range numWires).find? fun i => !inputFits ((data inputOwner).inputs k) numSimd i <;>
    exact ⟨rfl, (OnlineFrame.publishedBelow _ _ _ _).length_wires⟩

variable (session data) in
/-- Every other `evaluate_online` raises nothing and keeps the lengths of the wire vectors. -/
theorem Session.onlineAt_of_not_owner {k p : Nat} {spec : GateSpec} (hspec : circuit[k]? = some spec)
    (hp : ∀ numWires numSimd, spec ≠ .input p numWires numSimd) (inbox : Nat → BitVector)
    (states : Nat → PartyState) :
    resultError (session.onlineAt data (session.gates data circuit) k p inbox states) = none ∧
      ∀ g, ((resultState (session.onlineAt data (session.gates data circuit) k p inbox
        states)).wires g).length = ((states p).wires g).length := by
  simp only [Session.onlineAt, Session.gates_getD_of p hspec]
  cases spec with
  | input inputOwner numWires numSimd =>
    have ho : inputOwner ≠ p := fun h => hp numWires numSimd (h ▸ rfl)
    simp only [instantiate, Session.provider, ho, if_false, Gate.evaluateOnline, run_modifyGet]
    exact ⟨rfl, (OnlineFrame.inputReceiver _ _ _ _ _).length_wires⟩
  | output =>
    simp only [instantiate, Gate.evaluateOnline, run_modifyGet]
    exact ⟨rfl, (OnlineFrame.output _ _ _ _ _ _).length_wires⟩
  | inv =>
    simp only [instantiate, Gate.evaluateOnline, run_bind, run_modify, run_pure]
    exact ⟨rfl, (OnlineFrame.inv _ _ _ _).length_wires⟩
  | xor =>
    simp only [instantiate, Gate.evaluateOnline, run_bind, run_modify, run_pure]
    exact ⟨rfl, (OnlineFrame.xor _ _ _ _).length_wires⟩
  | and =>
    simp only [instantiate, Gate.evaluateOnline, run_modifyGet]
    exact ⟨rfl, (OnlineFrame.and _ _ _ _ _ _).length_wires⟩

/-- The setup phase keeps the lengths of every party's wire vectors. -/
theorem Session.length_setupPhase_wires (gates : Nat → List Gate) (init : Nat → PartyState) :
    ∀ k p g, ((session.setupPhase data gates init k p).wires g).length = ((init p).wires g).length
  | 0, _, _ => rfl
  | k + 1, p, g =>
      (Gate.length_evaluateSetup_wires _ _ _ _ _ g).trans (Session.length_setupPhase_wires gates init k p g)

variable (data) in
/-- The online phase starts with every builder wire allocated. -/
theorem WiresAllocated.start (hwf : circuit.WellFormed session.numParties) :
    WiresAllocated session data circuit (session.setupPhase data (session.gates data circuit)
      (fun p => resultState (session.build data circuit p)) circuit.length) :=
  WiresAllocated.of_length (SetupInv.init session data circuit hwf).allocated fun p g =>
    Session.length_setupPhase_wires _ _ _ p g

/-- Gate `k`'s `evaluate_online` keeps the lengths of every party's wire vectors. -/
theorem Session.length_onlineAt_wires {states : Nat → PartyState}
    (halloc : WiresAllocated session data circuit states) {k : Nat} {spec : GateSpec}
    (hspec : circuit[k]? = some spec) (p : Nat) (inbox : Nat → BitVector) (g : Nat) :
    ((resultState (session.onlineAt data (session.gates data circuit) k p inbox states)).wires
      g).length = ((states p).wires g).length := by
  by_cases hp : ∃ numWires numSimd, spec = .input p numWires numSimd
  · obtain ⟨numWires, numSimd, rfl⟩ := hp
    exact (Session.onlineAt_inputOwner halloc hspec inbox).2 g
  · exact (session.onlineAt_of_not_owner data hspec (fun nw ns h => hp ⟨nw, ns, h⟩) inbox
      states).2 g

/-- The first exception among the parties' `evaluate_online` of gate `k` is the gate's. -/
theorem Session.firstError_onlineAt (hwf : circuit.WellFormed session.numParties)
    {states : Nat → PartyState} (halloc : WiresAllocated session data circuit states) {k : Nat}
    {spec : GateSpec} (hspec : circuit[k]? = some spec) (inbox : Nat → Nat → BitVector) :
    firstError session.numParties (fun p =>
        session.onlineAt data (session.gates data circuit) k p (inbox p) states) =
      spec.onlineError (fun owner => (data owner).inputs) k := by
  cases spec
  case input inputOwner numWires numSimd =>
    refine (firstError_eq_of_forall_ne (Circuit.wellFormed_of_getElem? hwf hspec)
      fun p _ hp => ?_).trans (Session.onlineAt_inputOwner halloc hspec _).1
    exact (session.onlineAt_of_not_owner data hspec
      (fun _ _ h => hp (GateSpec.input.inj h).1.symm) _ states).1
  all_goals exact firstError_eq_none fun p _ =>
    (session.onlineAt_of_not_owner data (p := p) hspec (fun _ _ h => nomatch h) _ states).1

/-- The online step of gate `k` raises the gate's exception when it has one, and otherwise
completes with every builder wire still allocated. -/
theorem Session.onlineStep_cases (hwf : circuit.WellFormed session.numParties) {k : Nat}
    {spec : GateSpec} (hspec : circuit[k]? = some spec) {states : Nat → PartyState}
    (halloc : WiresAllocated session data circuit states) :
    (∃ e, spec.onlineError (fun owner => (data owner).inputs) k = some e ∧
        session.onlineStep data (session.gates data circuit) k states = .error e) ∨
      (spec.onlineError (fun owner => (data owner).inputs) k = none ∧ ∃ states',
        session.onlineStep data (session.gates data circuit) k states = .ok states' ∧
          WiresAllocated session data circuit states') := by
  simp only [Session.onlineStep, Session.firstError_onlineAt hwf halloc hspec]
  cases spec.onlineError (fun owner => (data owner).inputs) k with
  | some e => exact .inl ⟨e, rfl, rfl⟩
  | none => exact .inr ⟨rfl, _, rfl,
      halloc.of_length fun p => Session.length_onlineAt_wires halloc hspec p _⟩

/-- The online phase through the first `k` gates raises the exception of the first of them
that has one, and otherwise completes with every builder wire still allocated. -/
theorem Session.onlinePhase_cases (hwf : circuit.WellFormed session.numParties)
    {start : Nat → PartyState} (hstart : WiresAllocated session data circuit start) :
    ∀ k ≤ circuit.length,
      (∃ e, ((List.range k).findSome? fun k =>
          circuit[k]?.bind (·.onlineError (fun owner => (data owner).inputs) k)) = some e ∧
        session.onlinePhase data (session.gates data circuit) start k = .error e) ∨
      (((List.range k).findSome? fun k =>
          circuit[k]?.bind (·.onlineError (fun owner => (data owner).inputs) k)) = none ∧
        ∃ states, session.onlinePhase data (session.gates data circuit) start k = .ok states ∧
          WiresAllocated session data circuit states)
  | 0, _ => .inr ⟨rfl, start, rfl, hstart⟩
  | k + 1, hk => by
    have hspec : circuit[k]? = some circuit[k] := List.getElem?_eq_getElem hk
    rw [List.range_succ, List.findSome?_append, Session.onlinePhase]
    rcases Session.onlinePhase_cases hwf hstart k (by omega) with
      ⟨e, hpre, hrun⟩ | ⟨hpre, states, hrun, halloc⟩
    · exact .inl ⟨e, by rw [hpre]; rfl, by rw [hrun]; rfl⟩
    · rw [hpre, hrun]
      rcases Session.onlineStep_cases hwf hspec halloc with
        ⟨e, herr, hstep⟩ | ⟨herr, states', hstep, halloc'⟩
      · exact .inl ⟨e, by simp [hspec, herr], hstep⟩
      · exact .inr ⟨by simp [hspec, herr], states', hstep, halloc'⟩

end Errors

/-! ### The run -/

/-- Whether the input future delivered a vector of `num_simd` bits for the wire. -/
theorem inputFits_iff {inputs : List BitVector} {numSimd wire_i : Nat} :
    inputFits inputs numSimd wire_i = true ↔ ∃ v, inputs[wire_i]? = some v ∧ v.length = numSimd := by
  unfold inputFits
  cases inputs[wire_i]? <;> simp

/-- No gate raises an exception online exactly when the inputs fit the circuit. -/
theorem Circuit.onlineError_eq_none_iff {circuit : Circuit} {inputs : Nat → Nat → List BitVector} :
    circuit.onlineError inputs = none ↔ InputsFit circuit inputs := by
  have hgate : ∀ (k : Nat) (spec : GateSpec), spec.onlineError inputs k = none ↔
      ∀ inputOwner numWires numSimd, spec = .input inputOwner numWires numSimd →
        ∀ wire_i < numWires, ∃ v, (inputs inputOwner k)[wire_i]? = some v ∧ v.length = numSimd := by
    intro k spec
    cases spec <;> simp [GateSpec.onlineError, inputFits_iff]
  simp only [Circuit.onlineError, List.findSome?_eq_none_iff, List.mem_range, InputsFit]
  constructor
  · intro h k inputOwner numWires numSimd hspec
    have hk := h k (List.getElem?_eq_some_iff.mp hspec).1
    rw [hspec, Option.some_bind, hgate] at hk
    exact hk _ _ _ rfl
  · intro h k hk
    rw [List.getElem?_eq_getElem hk, Option.some_bind, hgate]
    rintro inputOwner numWires numSimd heq
    exact h k inputOwner numWires numSimd (heq ▸ List.getElem?_eq_getElem hk)

/-- Both parties' input futures deliver nothing. -/
def noInputsData : Nat → PartyData := fun p => { onesData p with inputs := fun _ => [] }

end MotionBeavy
