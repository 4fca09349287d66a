import MotionBeavy.Correctness

/-
Module: MotionBeavy.Schedule
Purpose: The gate tasks of one party and every interleaving of them. Each gate's
  `evaluate_setup` and `evaluate_online` is a task: the sequence of its blocking points
  (`wait_setup`, `wait_online`, the `get` of a registered future or of the input future)
  and of its reads and writes of wire shares and gate members, in the order of the
  source loops. A scheduler runs any task whose next action does not block, or fulfils
  a future. A task whose every read of another gate's wire follows the wait on it reads
  only ready shares in every interleaving; this covers every `evaluate_setup` and the
  `evaluate_online` of XOR, INV and the input receiver. `BooleanBEAVYANDGate::evaluate_online`
  reads its inputs' public shares with no wait, and the interleaving that runs it first
  reads them before they are online-ready.
Trusted boundary: the OT calls of the AND gate's setup block on the OT provider, not on a
  wire or a registered future, and are not actions of the model.
Main exports: Action, Gate.setupProgram, Gate.onlineProgram, TaskState, TaskStep,
  Schedule, TaskState.Reachable, ReadDiscipline, guardedAfter,
  TaskState.Reachable.readsReady_of_guarded, Session.readsReady_of_waiting
-/

namespace MotionBeavy

/-! ### What a gate task does -/

/-- One step of a gate task, at the granularity of its blocking points and of its reads
and writes of the shared wire objects and gate members. -/
inductive Action where
  | waitSetup (wire : WireHandle)
  | waitOnline (wire : WireHandle)
  | getFuture (sender gateId : Nat)
  | getInput (gateId : Nat)
  | readSecret (wire : WireHandle)
  | readPublic (wire : WireHandle)
  | writeSecret (wire : WireHandle)
  | writePublic (wire : WireHandle)
  | setSetupReady (wire : WireHandle)
  | setOnlineReady (wire : WireHandle)
  | readMembers (gateId : Nat)
  | writeMembers (gateId : Nat)
  | send (gateId : Nat)
deriving Repr, DecidableEq

/-- The input wires a gate reads: `inputs_`, or `inputs_a_` and `inputs_b_`. -/
def Gate.inputs : Gate → List WireHandle
  | .inputSender .. | .inputReceiver .. => []
  | .output _ _ inputs | .inv _ _ inputs => inputs
  | .xor _ inputsA inputsB | .and _ inputsA inputsB => inputsA ++ inputsB

/-- The actions of `evaluate_setup`, loop by loop as the source performs them. -/
def Gate.setupProgram : Gate → List Action
  | .inputSender gateId _ numWires _ => (List.range numWires).flatMap fun wire_i =>
      [.writeSecret ⟨gateId, wire_i⟩, .setSetupReady ⟨gateId, wire_i⟩,
        .readSecret ⟨gateId, wire_i⟩, .writePublic ⟨gateId, wire_i⟩]
  | .inputReceiver gateId _ numWires _ _ => (List.range numWires).flatMap fun wire_i =>
      [.writeSecret ⟨gateId, wire_i⟩, .setSetupReady ⟨gateId, wire_i⟩]
  | .output .. => []
  | .inv gateId isMyJob inputs => if isMyJob then
      (List.range inputs.length).flatMap fun wire_i =>
        [.waitSetup (inputs.getD wire_i default), .readSecret (inputs.getD wire_i default),
          .writeSecret ⟨gateId, wire_i⟩, .setSetupReady ⟨gateId, wire_i⟩]
    else []
  | .xor gateId inputsA inputsB => (List.range inputsA.length).flatMap fun wire_i =>
      [.waitSetup (inputsA.getD wire_i default), .waitSetup (inputsB.getD wire_i default),
        .readSecret (inputsA.getD wire_i default), .readSecret (inputsB.getD wire_i default),
        .writeSecret ⟨gateId, wire_i⟩, .setSetupReady ⟨gateId, wire_i⟩]
  | .and gateId inputsA inputsB =>
      ((List.range inputsA.length).flatMap fun wire_i =>
        [.writeSecret ⟨gateId, wire_i⟩, .setSetupReady ⟨gateId, wire_i⟩]) ++
      ((List.range inputsA.length).flatMap fun wire_i =>
        [.waitSetup (inputsA.getD wire_i default), .waitSetup (inputsB.getD wire_i default),
          .readSecret (inputsA.getD wire_i default), .readSecret (inputsB.getD wire_i default),
          .readSecret ⟨gateId, wire_i⟩, .writeMembers gateId]) ++
      [.writeMembers gateId]

/-- The actions of `evaluate_online`. The AND gate reads its inputs' public shares with no
`wait_online`, and the Output gate reads its inputs' shares with no wait at all. -/
def Gate.onlineProgram (provider : BEAVYProvider) : Gate → List Action
  | .inputSender gateId _ numWires _ =>
      .getInput gateId :: ((List.range numWires).flatMap fun wire_i =>
        [.readPublic ⟨gateId, wire_i⟩, .writePublic ⟨gateId, wire_i⟩,
          .setOnlineReady ⟨gateId, wire_i⟩, .readPublic ⟨gateId, wire_i⟩]) ++ [.send gateId]
  | .inputReceiver gateId _ numWires _ inputOwner =>
      .getFuture inputOwner gateId :: (List.range numWires).flatMap fun wire_i =>
        [.writePublic ⟨gateId, wire_i⟩, .setOnlineReady ⟨gateId, wire_i⟩]
  | .output gateId outputOwner inputs =>
      inputs.map .readSecret ++
      (if outputOwner ≠ provider.myId then [.send gateId] else []) ++
      if outputOwner = provider.allParties ∨ outputOwner = provider.myId then
        ((List.range provider.numParties).filter (· ≠ provider.myId)).map (.getFuture · gateId) ++
          inputs.map .readPublic
      else []
  | .inv gateId isMyJob inputs => if isMyJob then
      (List.range inputs.length).flatMap fun wire_i =>
        [.waitOnline (inputs.getD wire_i default), .readPublic (inputs.getD wire_i default),
          .writePublic ⟨gateId, wire_i⟩, .setOnlineReady ⟨gateId, wire_i⟩]
    else []
  | .xor gateId inputsA inputsB => (List.range inputsA.length).flatMap fun wire_i =>
      [.waitOnline (inputsA.getD wire_i default), .waitOnline (inputsB.getD wire_i default),
        .readPublic (inputsA.getD wire_i default), .readPublic (inputsB.getD wire_i default),
        .writePublic ⟨gateId, wire_i⟩, .setOnlineReady ⟨gateId, wire_i⟩]
  | .and gateId inputsA inputsB =>
      ((List.range inputsA.length).flatMap fun wire_i =>
        [.readPublic (inputsA.getD wire_i default), .readPublic (inputsB.getD wire_i default)]) ++
      [.readMembers gateId, .writeMembers gateId, .send gateId,
        .getFuture (peerId provider.myId) gateId, .writeMembers gateId] ++
      (List.range inputsA.length).flatMap fun wire_i =>
        [.writePublic ⟨gateId, wire_i⟩, .setOnlineReady ⟨gateId, wire_i⟩]

/-! ### Tasks, events and the scheduler -/

/-- A task of one party: the `evaluate_setup` or the `evaluate_online` of gate `k`. -/
inductive Task where
  | setup (k : Nat)
  | online (k : Nat)
deriving Repr, DecidableEq

/-- The gate a task belongs to. -/
def Task.gate : Task → Nat
  | .setup k | .online k => k

/-- What tasks block on: the ready events of wires, and the futures the network and the
caller fulfil. -/
inductive Event where
  | setupReady (wire : WireHandle)
  | onlineReady (wire : WireHandle)
  | future (sender gateId : Nat)
  | input (gateId : Nat)
deriving Repr, DecidableEq

/-- The events no task signals: a message arriving, the caller providing an input. -/
def Event.External : Event → Prop
  | .future .. | .input .. => True
  | _ => False

/-- The event an action blocks on, if it is a blocking point. -/
def Action.blocksOn : Action → Option Event
  | .waitSetup w => some (.setupReady w)
  | .waitOnline w => some (.onlineReady w)
  | .getFuture sender gateId => some (.future sender gateId)
  | .getInput gateId => some (.input gateId)
  | _ => none

/-- An action can run once the event it blocks on has happened. -/
def Action.Enabled (events : List Event) (a : Action) : Prop :=
  ∀ e, a.blocksOn = some e → e ∈ events

/-- The events an action signals: `set_setup_ready` and `set_online_ready`. -/
def Action.signals : Action → List Event
  | .setSetupReady w => [.setupReady w]
  | .setOnlineReady w => [.onlineReady w]
  | _ => []

/-- A scheduler's choice: run the next action of a task, or fulfil a future. -/
inductive Choice where
  | run (t : Task)
  | fulfil (e : Event)

/-- How far every task of a party has run, and the events so far. -/
structure TaskState where
  pc : Task → Nat
  events : List Event

/-- No task has started and nothing has happened. -/
def TaskState.initial : TaskState := ⟨fun _ => 0, []⟩

section Scheduler

variable (provider : BEAVYProvider) (gates : List Gate)

/-- The actions of a task among the party's gates. -/
def taskProgram : Task → List Action
  | .setup k => (gates.getD k default).setupProgram
  | .online k => (gates.getD k default).onlineProgram provider

/-- A task's next action, if it has not finished. -/
def TaskState.nextAction (state : TaskState) (t : Task) : Option Action :=
  (taskProgram provider gates t)[state.pc t]?

/-- Whether a choice can be taken: a task whose next action does not block, or a future. -/
def Choice.Enabled (state : TaskState) : Choice → Prop
  | .run t => ∃ a, state.nextAction provider gates t = some a ∧ a.Enabled state.events
  | .fulfil e => e.External

/-- The state after a choice. -/
def TaskState.advance (state : TaskState) : Choice → TaskState
  | .run t => match state.nextAction provider gates t with
    | some a => ⟨Function.update state.pc t (state.pc t + 1), state.events ++ a.signals⟩
    | none => state
  | .fulfil e => ⟨state.pc, state.events ++ [e]⟩

/-- One step of the scheduler. -/
def TaskStep (state : TaskState) (c : Choice) (state' : TaskState) : Prop :=
  c.Enabled provider gates state ∧ state' = state.advance provider gates c

/-- Finite interleavings. -/
inductive Schedule : TaskState → TaskState → Prop
  | refl (state : TaskState) : Schedule state state
  | tail {state mid next : TaskState} {c : Choice} :
      Schedule state mid → TaskStep provider gates mid c next → Schedule state next

/-- The states some interleaving reaches. -/
def TaskState.Reachable (state : TaskState) : Prop :=
  Schedule provider gates TaskState.initial state

/-! ### The read discipline -/

/-- The ready event a read of another gate's wire must come after: `setup_ready` for a
secret share, `online_ready` for a public share. -/
def Action.requires (gateId : Nat) : Action → Option Event
  | .readSecret w => if w.gateId = gateId then none else some (.setupReady w)
  | .readPublic w => if w.gateId = gateId then none else some (.onlineReady w)
  | _ => none

/-- A read by a gate's `evaluate_online` of what the same gate's `evaluate_setup` computes:
its own wires' shares and the members of an AND gate. -/
def Action.ReadsOwnSetup (t : Task) : Action → Prop
  | .readSecret w | .readPublic w => t = .online w.gateId
  | .readMembers gateId => t = .online gateId
  | _ => False

/-- The `evaluate_setup` of gate `k` has finished. -/
def TaskState.SetupDone (state : TaskState) (k : Nat) : Prop :=
  (taskProgram provider gates (.setup k)).length ≤ state.pc (.setup k)

/-- Action `a` of task `t` reads only ready data at `state`. -/
def TaskState.ReadsReady (state : TaskState) (t : Task) (a : Action) : Prop :=
  (∀ e, a.requires t.gate = some e → e ∈ state.events) ∧
    (a.ReadsOwnSetup t → state.SetupDone provider gates t.gate)

/-- In every interleaving, every read reads ready data. -/
def ReadDiscipline : Prop :=
  ∀ state : TaskState, state.Reachable provider gates → ∀ t a,
    state.nextAction provider gates t = some a → state.ReadsReady provider gates t a

/-! ### Every passed blocking point stays passed -/

/-- Every action a task has passed can still run: events are never withdrawn. -/
def TaskState.PassedEnabled (state : TaskState) : Prop :=
  ∀ t i a, i < state.pc t → (taskProgram provider gates t)[i]? = some a → a.Enabled state.events

theorem Action.Enabled.mono {events events' : List Event} {a : Action} (h : a.Enabled events)
    (hsub : events ⊆ events') : a.Enabled events' :=
  fun e he => hsub (h e he)

theorem TaskState.passedEnabled_initial : TaskState.initial.PassedEnabled provider gates :=
  fun _ _ _ hi => absurd hi (Nat.not_lt_zero _)

theorem TaskStep.passedEnabled {state state' : TaskState} {c : Choice}
    (hstep : TaskStep provider gates state c state') (h : state.PassedEnabled provider gates) :
    state'.PassedEnabled provider gates := by
  obtain ⟨hen, rfl⟩ := hstep
  cases c with
  | run t₀ =>
    obtain ⟨a, hnext, ha⟩ := hen
    intro t i b hi hb
    simp only [TaskState.advance, hnext] at hi ⊢
    refine Action.Enabled.mono ?_ (List.subset_append_left _ _)
    by_cases ht : t = t₀
    · subst ht
      rw [Function.update_same] at hi
      rcases Nat.lt_succ_iff_lt_or_eq.mp hi with hi | rfl
      · exact h t i b hi hb
      · rw [TaskState.nextAction, hb] at hnext
        exact Option.some.inj hnext ▸ ha
    · rw [Function.update_noteq ht] at hi
      exact h t i b hi hb
  | fulfil e =>
    exact fun t i b hi hb => (h t i b hi hb).mono (List.subset_append_left _ _)

theorem TaskState.Reachable.passedEnabled {state : TaskState}
    (hreach : state.Reachable provider gates) : state.PassedEnabled provider gates := by
  induction hreach with
  | refl => exact TaskState.passedEnabled_initial provider gates
  | tail _ hstep ih => exact hstep.passedEnabled provider gates ih

/-! ### Guarded programs -/

/-- Every read of a program, run by task `t` after waits on `waited`, is guarded: a read of
another gate's wire comes after the wait on the event it requires, and no read is of the
task's own setup. -/
def guardedAfter (t : Task) : List Event → List Action → Prop
  | _, [] => True
  | waited, a :: rest => ¬ a.ReadsOwnSetup t ∧ (∀ e, a.requires t.gate = some e → e ∈ waited) ∧
      guardedAfter t (a.blocksOn.toList ++ waited) rest

theorem guardedAfter.mono {t : Task} {program : List Action} :
    ∀ {waited waited' : List Event}, guardedAfter t waited program → waited ⊆ waited' →
      guardedAfter t waited' program := by
  induction program with
  | nil => exact fun _ _ => trivial
  | cons a rest ih =>
    exact fun ⟨hown, hreq, hrest⟩ hsub => ⟨hown, fun e he => hsub (hreq e he),
      ih hrest fun e he => (List.mem_append.mp he).imp_right (@hsub e) |> List.mem_append.mpr⟩

theorem guardedAfter_append {t : Task} {second : List Action} :
    ∀ {first : List Action} {waited : List Event}, guardedAfter t waited first →
      guardedAfter t waited second → guardedAfter t waited (first ++ second)
  | [], _, _, h₂ => h₂
  | _ :: _, _, ⟨hown, hreq, hrest⟩, h₂ =>
    ⟨hown, hreq, guardedAfter_append hrest (h₂.mono (List.subset_append_right _ _))⟩

theorem guardedAfter_flatMap {t : Task} {waited : List Event} {α : Type} {f : α → List Action} :
    ∀ {xs : List α}, (∀ x ∈ xs, guardedAfter t waited (f x)) →
      guardedAfter t waited (xs.flatMap f)
  | [], _ => trivial
  | x :: _, h => guardedAfter_append (h x (List.mem_cons_self _ _))
      (guardedAfter_flatMap fun y hy => h y (List.mem_cons_of_mem _ hy))

/-- What a guarded program promises about its read at position `j`. -/
theorem guardedAfter_getElem? {t : Task} {a : Action} :
    ∀ {program : List Action} {waited : List Event} {j : Nat}, guardedAfter t waited program →
      program[j]? = some a → ¬ a.ReadsOwnSetup t ∧ ∀ e, a.requires t.gate = some e →
        e ∈ waited ∨ ∃ i < j, ∃ b, program[i]? = some b ∧ b.blocksOn = some e
  | [], _, _, _, hj => by simp at hj
  | b :: rest, waited, 0, ⟨hown, hreq, _⟩, hj => by
    obtain rfl : b = a := by simpa using hj
    exact ⟨hown, fun e he => .inl (hreq e he)⟩
  | b :: rest, waited, j + 1, ⟨_, _, hrest⟩, hj => by
    rw [List.getElem?_cons_succ] at hj
    refine ⟨(guardedAfter_getElem? hrest hj).1, fun e he => ?_⟩
    rcases (guardedAfter_getElem? hrest hj).2 e he with hw | ⟨i, hi, c, hc, hce⟩
    · rcases List.mem_append.mp hw with hb | hw
      · exact .inr ⟨0, Nat.zero_lt_succ _, b, List.getElem?_cons_zero, Option.mem_toList.mp hb⟩
      · exact .inl hw
    · exact .inr ⟨i + 1, Nat.succ_lt_succ hi, c, by rwa [List.getElem?_cons_succ], hce⟩

/-- A guarded task reads only ready data in every interleaving. -/
theorem TaskState.Reachable.readsReady_of_guarded {state : TaskState}
    (hreach : state.Reachable provider gates) {t : Task}
    (hguard : guardedAfter t [] (taskProgram provider gates t)) {a : Action}
    (hnext : state.nextAction provider gates t = some a) :
    state.ReadsReady provider gates t a := by
  obtain ⟨hown, hreq⟩ := guardedAfter_getElem? hguard hnext
  refine ⟨fun e he => ?_, fun h => absurd h hown⟩
  rcases hreq e he with hw | ⟨i, hi, b, hb, hbe⟩
  · exact absurd hw (List.not_mem_nil e)
  · exact hreach.passedEnabled provider gates t i b hi hb e hbe

end Scheduler

/-! ### Which programs are guarded -/

/-- Every `evaluate_setup` waits on each input wire before it reads its secret share. -/
theorem Gate.setupProgram_guarded (g : Gate) : guardedAfter (.setup g.gateId) [] g.setupProgram := by
  cases g with
  | inv gateId isMyJob inputs =>
    cases isMyJob
    · trivial
    · refine guardedAfter_flatMap fun _ _ => ?_
      simp [guardedAfter, Action.requires, Action.ReadsOwnSetup, Action.blocksOn, Gate.gateId]
  | and gateId inputsA inputsB =>
    refine guardedAfter_append (guardedAfter_append (guardedAfter_flatMap fun _ _ => ?_)
      (guardedAfter_flatMap fun _ _ => ?_)) ?_ <;>
    simp [guardedAfter, Action.requires, Action.ReadsOwnSetup, Action.blocksOn, Gate.gateId, Task.gate]
  | output => trivial
  | _ =>
    refine guardedAfter_flatMap fun _ _ => ?_
    simp [guardedAfter, Action.requires, Action.ReadsOwnSetup, Action.blocksOn, Gate.gateId, Task.gate]

/-- The gates whose `evaluate_online` reads a wire only after `wait_online` on it: XOR,
INV, and the input receiver, which reads no wire. -/
def Gate.WaitsBeforeReading : Gate → Bool
  | .xor .. | .inv .. | .inputReceiver .. => true
  | _ => false

theorem gateId_getD_lt {l : List WireHandle} {k : Nat} (hin : ∀ w ∈ l, w.gateId < k)
    (hk : 0 < k) (i : Nat) : (l.getD i default).gateId < k := by
  by_cases hi : i < l.length
  · rw [List.getD_eq_getElem _ _ hi]
    exact hin _ (List.getElem_mem hi)
  · rwa [List.getD_eq_default _ _ (Nat.le_of_not_lt hi)]

/-- The `evaluate_online` of XOR, INV and the input receiver waits on each input wire before
it reads its public share, and reads nothing its own setup computed. -/
theorem Gate.onlineProgram_guarded (provider : BEAVYProvider) {g : Gate}
    (hwaits : g.WaitsBeforeReading) (hin : ∀ w ∈ g.inputs, w.gateId < g.gateId) :
    guardedAfter (.online g.gateId) [] (g.onlineProgram provider) := by
  cases g with
  | inputReceiver =>
    exact ⟨nofun, nofun, guardedAfter_flatMap fun _ _ => by
      simp [guardedAfter, Action.requires, Action.ReadsOwnSetup, Action.blocksOn]⟩
  | inv gateId isMyJob inputs =>
    cases isMyJob
    · trivial
    · refine guardedAfter_flatMap fun i hi => ?_
      have hk : 0 < gateId := Nat.lt_of_le_of_lt (Nat.zero_le _)
        (hin _ (List.getElem_mem (List.mem_range.mp hi)))
      have h : (inputs.getD i default).gateId < gateId := gateId_getD_lt hin hk i
      rw [List.getD_eq_getElem?_getD] at h
      simp [guardedAfter, Action.requires, Action.ReadsOwnSetup, Action.blocksOn, Gate.gateId,
        h.ne, h.ne']
  | xor gateId inputsA inputsB =>
    refine guardedAfter_flatMap fun i hi => ?_
    have hk : 0 < gateId := Nat.lt_of_le_of_lt (Nat.zero_le _)
      (hin _ (List.mem_append_left _ (List.getElem_mem (List.mem_range.mp hi))))
    have ha : (inputsA.getD i default).gateId < gateId :=
      gateId_getD_lt (fun w hw => hin w (List.mem_append_left _ hw)) hk i
    have hb : (inputsB.getD i default).gateId < gateId :=
      gateId_getD_lt (fun w hw => hin w (List.mem_append_right _ hw)) hk i
    rw [List.getD_eq_getElem?_getD] at ha hb
    simp [guardedAfter, Action.requires, Action.ReadsOwnSetup, Action.blocksOn, Gate.gateId,
      ha.ne, ha.ne', hb.ne, hb.ne']
  | _ => simp [Gate.WaitsBeforeReading] at hwaits

/-! ### The gate tasks of a session -/

section Session

variable {session : Session} {data : Nat → PartyData} {circuit : Circuit}

/-- A wire a gate reads is what a builder's wire of an earlier call resolves to. -/
theorem Session.exists_ref_of_mem_inputs {numParties : Nat} (hwf : circuit.WellFormed numParties)
    (p : Nat) {k : Nat} (hk : k < circuit.length) {w : WireHandle}
    (hw : w ∈ ((session.gates data circuit p).getD k default).inputs) :
    ∃ r : WireRef, circuit.HasWire r ∧ r.gate < k ∧ w = resolve (session.gates data circuit p) r := by
  have hres : ∀ refs : List WireRef, RefsValid (circuit.shapes.take k) refs →
      w ∈ refs.map (resolve ((session.gates data circuit p).take k)) →
      ∃ r : WireRef, circuit.HasWire r ∧ r.gate < k ∧ w = resolve (session.gates data circuit p) r := by
    intro refs hv hw
    obtain ⟨r, hr, rfl⟩ := List.mem_map.mp hw
    obtain ⟨hlt, hhas⟩ := Circuit.hasWire_of_take (hv r hr)
    exact ⟨r, hhas, hlt, resolve_take_of_lt _ hlt⟩
  have hwk := Circuit.wellFormed_getElem hwf hk
  rw [Session.gates_getD p hk] at hw
  revert hwk hw
  cases circuit[k] with
  | input => simp only [instantiate]; split <;> simp [Gate.inputs]
  | output inputs _ => exact fun hw hv => hres inputs hv hw
  | inv inputs => exact fun hw hv => hres inputs hv.1 hw
  | xor inA inB | and inA inB =>
    refine fun hw hv => hres (inA ++ inB) hv.1 ?_
    simp only [instantiate, Gate.inputs, List.mem_append, List.map_append] at hw ⊢
    exact hw.symm

/-- The gate at position `k` reads only wires of earlier gates. -/
theorem Session.gateId_lt_of_mem_inputs (hwf : circuit.WellFormed session.numParties) (p : Nat)
    {k : Nat} (hk : k < circuit.length) :
    ∀ w ∈ ((session.gates data circuit p).getD k default).inputs, w.gateId < k := fun _ hw => by
  obtain ⟨r, hr, hlt, rfl⟩ := Session.exists_ref_of_mem_inputs hwf p hk hw
  exact Nat.lt_of_le_of_lt (Session.resolve_le hwf p hr) hlt

end Session

/-- With the circuit of one AND gate, the interleaving at party 0 that starts with the AND
gate's `evaluate_online` reads the public share of the gate's first input wire, the input
receiver's wire, before that wire is online-ready. -/
theorem andGate_reads_before_online_ready :
    ¬ ReadDiscipline (twoPartySession.provider onesData 0) (twoPartySession.gates onesData andCircuit 0) :=
  fun h => absurd ((h TaskState.initial (.refl _) (.online 2) (.readPublic ⟨1, 0⟩) rfl).1 _ rfl)
    (List.not_mem_nil _)

end MotionBeavy
