import MotionBeavy.Progress
import MotionBeavy.Privacy

/-
Module: MotionBeavy.Network
Purpose: The gate tasks of all parties together, linked by the message layer. A party's
  `evaluate_online` hands its bits message to the message layer (`broadcast_bits_message`,
  or `send_bits_message` to an Output gate's owner); a future that party `r` registered for
  sender `s` and gate `g` can be fulfilled only once `s`'s `evaluate_online` of `g` has made
  that call addressing `r`, and the caller's input futures at any time. Each party's part of
  a joint run is an interleaving of its own tasks, so the read discipline of
  MotionBeavy.Schedule holds in every joint run, and every future a party holds was sent to
  it. For a well-formed circuit (of two parties when it has an AND gate, `ALL_PARTIES` no
  party id) no joint run gets stuck: gate by gate, every party runs `evaluate_setup`, then
  `evaluate_online` up to its first get of a registered future, which comes after its own
  send, the message layer delivers, and every party finishes. With three or more parties the
  `evaluate_online` of an AND gate at a party other than `0` and `1` waits for sender
  `1 - my_id`, which is no party, and never finishes; so does the `evaluate_online` of an
  input gate whose owner is no party, at every party.
Trusted boundary: the message layer may deliver every message sent, in any order and after
  any delay. The OT provider calls, `get_provider(1 - my_id)` among them, are not actions of
  the model, as in MotionBeavy.Schedule.
Main exports: Gate.recipients, Gate.map_recipient_sent, Session.Deliverable, Session.NetStep,
  Session.NetReachable, Session.NetReachable.reachable, Session.NetReachable.deliverable_of_mem,
  Session.recipient_of_getFuture, Session.network_completes,
  Session.NetReachable.not_done_of_getFuture, Session.and_online_stalls,
  Session.input_online_stalls
-/

namespace MotionBeavy

/-! ### Where each gate's bits message goes -/

/-- The parties a gate's `evaluate_online` addresses its bits message to:
`broadcast_bits_message` reaches every other party, `send_bits_message(output_owner, ...)`
the owner of an Output gate; the other gates send nothing. -/
def Gate.recipients (provider : BEAVYProvider) : Gate → List Nat
  | .inputSender .. | .and .. => (List.range provider.numParties).filter (· ≠ provider.myId)
  | .output _ outputOwner _ =>
      if outputOwner = provider.myId then []
      else if outputOwner = provider.allParties then
        (List.range provider.numParties).filter (· ≠ provider.myId)
      else [outputOwner]
  | _ => []

theorem map_recipient_broadcastBitsMessage (provider : BEAVYProvider) (payload : BitVector) :
    (broadcastBitsMessage provider payload).map BitsMessage.recipient =
      (List.range provider.numParties).filter (· ≠ provider.myId) := by
  simp only [broadcastBitsMessage, List.map_filterMap]
  rw [← List.filterMap_eq_filter]
  congr 1
  funext i
  by_cases h : i = provider.myId <;> simp [h, Option.guard]

/-- Every `evaluate_online` that returns hands the message layer one bits message for each
of the gate's recipients. -/
theorem Gate.map_recipient_sent (provider : BEAVYProvider) (inputs : Nat → List BitVector)
    (inbox : Nat → BitVector) (g : Gate) {state state' : PartyState} {effects : OnlineEffects}
    (h : (g.evaluateOnline provider inputs inbox).run state = .ok effects state') :
    effects.sent.map BitsMessage.recipient = g.recipients provider := by
  cases g with
  | inputSender gateId _ numWires numSimd =>
    simp only [Gate.evaluateOnline, BooleanBEAVYInputGateSender.evaluateOnline, run_bind,
      run_pure] at h
    split at h
    · cases h
      exact map_recipient_broadcastBitsMessage _ _
    · cases h
  | inputReceiver => simp only [Gate.evaluateOnline, run_modifyGet] at h; cases h; rfl
  | output gateId outputOwner ins =>
    simp only [Gate.evaluateOnline, run_modifyGet] at h
    cases h
    simp only [BooleanBEAVYOutputGate.evaluateOnline, Gate.recipients]
    by_cases hme : outputOwner = provider.myId
    · simp [hme]
    · by_cases hall : outputOwner = provider.allParties <;>
      · split <;> simp [hme, hall, sendBitsMessage, map_recipient_broadcastBitsMessage]
  | inv => simp only [Gate.evaluateOnline, run_bind, run_modify, run_pure] at h; cases h; rfl
  | xor => simp only [Gate.evaluateOnline, run_bind, run_modify, run_pure] at h; cases h; rfl
  | and =>
    simp only [Gate.evaluateOnline, run_modifyGet] at h
    cases h
    exact map_recipient_broadcastBitsMessage _ _

/-! ### The parties' tasks together -/

/-- The events a scheduler step adds: the signals of the action it runs, or the future it
fulfils. -/
theorem TaskStep.mem_events {provider : BEAVYProvider} {gates : List Gate}
    {state state' : TaskState} {c : Choice} (hstep : TaskStep provider gates state c state')
    {e : Event} (he : e ∈ state'.events) :
    e ∈ state.events ∨ (∃ a : Action, e ∈ a.signals) ∨ c = .fulfil e := by
  obtain ⟨-, rfl⟩ := hstep
  cases c with
  | run t =>
    unfold TaskState.advance at he
    cases hnext : state.nextAction provider gates t with
    | none => simp only [hnext] at he; exact .inl he
    | some a =>
      simp only [hnext] at he
      exact (List.mem_append.mp he).imp_right fun h => .inl ⟨a, h⟩
  | fulfil e' =>
    rcases List.mem_append.mp he with he | he
    · exact .inl he
    · exact .inr (.inr (by rw [List.mem_singleton.mp he]))

section Network

variable (session : Session) (data : Nat → PartyData) (circuit : Circuit)

/-- Party `s`'s `evaluate_online` of gate `g` has passed its call to the message layer. -/
def Session.Sent (states : Nat → TaskState) (s g : Nat) : Prop :=
  ∃ i < (states s).pc (.online g), (taskProgram (session.provider data s)
    (session.gates data circuit s) (.online g))[i]? = some (.send g)

/-- What may be fulfilled at party `r`: its input future, at any time; the future it
registered for sender `s` and gate `g`, once `s` has sent that gate's bits message to `r`. -/
def Session.Deliverable (states : Nat → TaskState) (r : Nat) : Event → Prop
  | .input _ => True
  | .future s g => s < session.numParties ∧
      r ∈ ((session.gates data circuit s).getD g default).recipients (session.provider data s) ∧
      session.Sent data circuit states s g
  | _ => False

/-- One step of the parties together: a party runs the next action of one of its tasks, or
one of its futures is fulfilled by the message layer or by the caller. -/
inductive Session.NetStep (states : Nat → TaskState) : (Nat → TaskState) → Prop
  | step {p : Nat} {c : Choice} {state' : TaskState} (hp : p < session.numParties)
      (hdeliver : ∀ e, c = .fulfil e → session.Deliverable data circuit states p e)
      (hstep : TaskStep (session.provider data p) (session.gates data circuit p) (states p) c
        state') :
      NetStep states (Function.update states p state')

/-- The states the parties reach together, from no task started. -/
def Session.NetReachable (states : Nat → TaskState) : Prop :=
  Relation.ReflTransGen (session.NetStep data circuit) (fun _ => TaskState.initial) states

variable {session data circuit}

/-- A joint step is a step of one party's scheduler: every party either takes that step or
stays as it is. -/
theorem Session.NetStep.party_step {states states' : Nat → TaskState}
    (h : session.NetStep data circuit states states') (q : Nat) :
    (∃ c, TaskStep (session.provider data q) (session.gates data circuit q) (states q) c
      (states' q)) ∨ states' q = states q := by
  obtain @⟨p, c, _, -, -, hstep⟩ := h
  by_cases hq : q = p
  · subst hq
    exact .inl ⟨c, by simpa using hstep⟩
  · exact .inr (Function.update_noteq hq _ _)

theorem Session.NetStep.pc_le {states states' : Nat → TaskState}
    (h : session.NetStep data circuit states states') (q : Nat) (t : Task) :
    (states q).pc t ≤ (states' q).pc t :=
  (h.party_step q).elim (fun ⟨_, hstep⟩ => hstep.pc_le t) fun heq => heq ▸ le_rfl

theorem Session.NetStep.events_subset {states states' : Nat → TaskState}
    (h : session.NetStep data circuit states states') (q : Nat) :
    (states q).events ⊆ (states' q).events :=
  (h.party_step q).elim (fun ⟨_, hstep⟩ => hstep.events_subset) fun heq => heq ▸ List.Subset.refl _

theorem Session.netSchedule_pc_le {states states' : Nat → TaskState}
    (h : Relation.ReflTransGen (session.NetStep data circuit) states states') (q : Nat) (t : Task) :
    (states q).pc t ≤ (states' q).pc t := by
  induction h with
  | refl => exact le_rfl
  | tail _ hstep ih => exact ih.trans (hstep.pc_le q t)

theorem Session.netSchedule_events_subset {states states' : Nat → TaskState}
    (h : Relation.ReflTransGen (session.NetStep data circuit) states states') (q : Nat) :
    (states q).events ⊆ (states' q).events := by
  induction h with
  | refl => exact List.Subset.refl _
  | tail _ hstep ih => exact ih.trans (hstep.events_subset q)

theorem Session.Deliverable.mono {states states' : Nat → TaskState} {r : Nat} {e : Event}
    (h : session.Deliverable data circuit states r e)
    (hle : ∀ q t, (states q).pc t ≤ (states' q).pc t) :
    session.Deliverable data circuit states' r e := by
  cases e with
  | future s g =>
    obtain ⟨hs, hr, i, hi, hsend⟩ := h
    exact ⟨hs, hr, i, lt_of_lt_of_le hi (hle s _), hsend⟩
  | input => trivial
  | _ => exact h

/-- Each party's part of a joint run is an interleaving of its own tasks. -/
theorem Session.NetReachable.reachable {states : Nat → TaskState}
    (h : session.NetReachable data circuit states) (q : Nat) :
    (states q).Reachable (session.provider data q) (session.gates data circuit q) := by
  induction h with
  | refl => exact .refl _
  | tail _ hstep ih =>
    exact (hstep.party_step q).elim (fun ⟨_, h⟩ => .tail ih h) fun heq => heq ▸ ih

/-- In every joint run, every future a party holds was sent to it: by a party of the session,
addressing it, whose `evaluate_online` of that gate has passed its call to the message layer. -/
theorem Session.NetReachable.deliverable_of_mem {states : Nat → TaskState}
    (h : session.NetReachable data circuit states) {r s g : Nat}
    (he : .future s g ∈ (states r).events) :
    session.Deliverable data circuit states r (.future s g) := by
  induction h generalizing r with
  | refl => cases he
  | @tail states _ _ hstep ih =>
    have hle := hstep.pc_le
    obtain @⟨p, c, _, -, hdeliver, hen, rfl⟩ := hstep
    by_cases hr : r = p
    · subst hr
      rw [Function.update_same] at he
      rcases TaskStep.mem_events ⟨hen, rfl⟩ he with he | ⟨a, ha⟩ | hc
      · exact (ih he).mono hle
      · cases a <;> simp [Action.signals] at ha
      · exact (hdeliver _ hc).mono hle
    · rw [Function.update_noteq hr] at he
      exact (ih he).mono hle

end Network

/-! ### What each gate's tasks wait for -/

/-- Whether an action gets a registered future. -/
@[simp] def Action.getsFuture : Action → Bool
  | .getFuture .. => true
  | _ => false

attribute [simp] Action.awaits

/-- A gate that sends a bits message makes its call to the message layer before it gets any
registered future. -/
theorem Gate.send_mem_takeWhile (provider : BEAVYProvider) (g : Gate)
    (h : g.recipients provider ≠ []) :
    .send g.gateId ∈ (g.onlineProgram provider).takeWhile (!·.getsFuture) := by
  cases g
  case inputSender =>
    rw [List.takeWhile_eq_self_iff.mpr (by simp only [Gate.onlineProgram, List.forall_mem_flatMap,
      List.forall_mem_cons, List.forall_mem_append, List.not_mem_nil, Action.getsFuture,
      Bool.not_false, false_imp_iff, implies_true, and_self])]
    simp [Gate.onlineProgram, Gate.gateId]
  case output gateId outputOwner inputs =>
    have hme : outputOwner ≠ provider.myId := fun hme => h (by simp [Gate.recipients, hme])
    simp [Gate.onlineProgram, Gate.gateId, hme]
  case and =>
    simp only [Gate.onlineProgram, Gate.gateId, List.append_assoc]
    rw [List.takeWhile_append_of_pos (by simp only [List.forall_mem_flatMap, List.forall_mem_cons,
      List.not_mem_nil, Action.getsFuture, Bool.not_false, false_imp_iff, implies_true, and_self])]
    simp
  all_goals simp [Gate.recipients] at h

/-- No `evaluate_setup` waits for a future. -/
theorem Gate.setup_awaits (g : Gate) : ∀ a ∈ g.setupProgram, a.awaits = [] := by
  cases g <;> simp only [Gate.setupProgram] <;> try split
  all_goals simp only [List.forall_mem_flatMap, List.forall_mem_cons, List.forall_mem_append,
    Action.awaits, List.not_mem_nil, false_imp_iff, implies_true, and_self]

theorem getElem?_takeWhile {α : Type} (p : α → Bool) (l : List α) {i : Nat}
    (hi : i < (l.takeWhile p).length) : (l.takeWhile p)[i]? = l[i]? := by
  obtain ⟨rest, hrest⟩ := List.takeWhile_prefix p (l := l)
  conv_rhs => rw [← hrest]
  exact (List.getElem?_append_left hi).symm

/-- An action that gets no registered future waits at most for the caller's input. -/
theorem Action.awaits_input {a : Action} (ha : a.getsFuture = false) {e : Event}
    (he : e ∈ a.awaits) : ∃ g, e = .input g := by
  cases a <;> simp at ha he
  exact ⟨_, he⟩

section Waits

variable {session : Session} {data : Nat → PartyData} {circuit : Circuit}

/-- Every registered future a party's `evaluate_online` gets is the bits message of a party of
the session whose own gate of that id addresses it: for the input owner's broadcast, for
the Output gate's sends (`ALL_PARTIES` is no party id), and for the AND gate's broadcast
between two parties. -/
theorem Session.recipient_of_getFuture (hwf : circuit.WellFormed session.numParties)
    (hand : ∀ inA inB, GateSpec.and inA inB ∈ circuit → session.numParties = 2)
    (hall : session.numParties ≤ session.allParties) {r m : Nat} (hr : r < session.numParties)
    (hm : m < circuit.length) {s g : Nat}
    (ha : .getFuture s g ∈ ((session.gates data circuit r).getD m default).onlineProgram
      (session.provider data r)) :
    g = m ∧ s < session.numParties ∧
      r ∈ ((session.gates data circuit s).getD m default).recipients (session.provider data s) := by
  have hspec : circuit[m]? = some circuit[m] := List.getElem?_eq_getElem hm
  have hw := Circuit.wellFormed_of_getElem? hwf hspec
  have hmem : circuit[m] ∈ circuit := List.getElem_mem hm
  have hlen : ∀ p, ((session.gates data circuit p).take m).length = m := fun p =>
    Session.length_take_gates p hm.le
  simp only [Session.gates_getD _ hm] at ha ⊢
  generalize circuit[m] = spec at hspec hw hmem ha ⊢
  cases spec with
  | input inputOwner numWires numSimd =>
    by_cases hro : inputOwner = r
    · simp [instantiate, hlen, Session.provider, hro, Gate.onlineProgram, List.mem_flatMap] at ha
    · simp only [instantiate, hlen, Session.provider, hro, if_false, Gate.onlineProgram,
        List.mem_cons, Action.getFuture.injEq, List.mem_flatMap] at ha
      obtain ⟨rfl, rfl⟩ | ⟨_, -, ha⟩ := ha
      · exact ⟨rfl, hw, by simp [instantiate, Session.provider, Gate.recipients, hr, Ne.symm hro]⟩
      · simp at ha
  | output inputs outputOwner =>
    by_cases hown : outputOwner = session.allParties ∨ outputOwner = r
    · simp [instantiate, hlen, Session.provider, Gate.onlineProgram, hown] at ha
      obtain ⟨s, ⟨hs, hsr⟩, rfl, rfl⟩ := ha
      have hos : outputOwner ≠ s := by rcases hown with rfl | rfl <;> omega
      refine ⟨rfl, hs, ?_⟩
      rcases hown with rfl | rfl
      · simp [instantiate, Session.provider, Gate.recipients, hos, hr, Ne.symm hsr]
      · simp only [instantiate, Session.provider, Gate.recipients, if_neg hos]
        split <;> simp [hr, hos]
    · simp [instantiate, hlen, Session.provider, Gate.onlineProgram, hown] at ha
  | inv | xor => simp [instantiate, hlen, Gate.onlineProgram, List.mem_flatMap] at ha
  | and inA inB =>
    have h2 := hand inA inB hmem
    simp [instantiate, hlen, Session.provider, Gate.onlineProgram, List.mem_flatMap] at ha
    obtain ⟨rfl, rfl⟩ := ha
    exact ⟨rfl, h2 ▸ peerId_lt (h2 ▸ hr), by simp [instantiate, Session.provider, Gate.recipients,
      hr, peerId_ne (h2 ▸ hr) |>.symm]⟩

end Waits

/-! ### Running the parties together -/

/-- What each of the first `n` parties reaches on its own from anywhere after `start`, the
parties reach one after another. -/
theorem reflTransGen_each {α : Type} {rel : α → α → Prop} (R : Nat → α → Prop)
    (hR : ∀ p a b, Relation.ReflTransGen rel a b → R p a → R p b) {start : α} :
    ∀ n, (∀ p < n, ∀ a, Relation.ReflTransGen rel start a →
        ∃ b, Relation.ReflTransGen rel a b ∧ R p b) →
      ∃ b, Relation.ReflTransGen rel start b ∧ ∀ p < n, R p b
  | 0, _ => ⟨start, .refl, fun _ h => absurd h (Nat.not_lt_zero _)⟩
  | n + 1, hone => by
    obtain ⟨a, ha, hall⟩ := reflTransGen_each R hR n fun p hp => hone p (by omega)
    obtain ⟨b, hb, hRb⟩ := hone n (by omega) a ha
    exact ⟨b, ha.trans hb, fun p hp => (Nat.lt_succ_iff_lt_or_eq.mp hp).elim
      (fun h => hR p a b hb (hall p h)) fun h => h ▸ hRb⟩

section Progress

variable {session : Session} {data : Nat → PartyData} {circuit : Circuit}

/-- Party `p` runs the next action of task `t`, when it is enabled. -/
theorem Session.netStep_run {states : Nat → TaskState} {p : Nat} (hp : p < session.numParties)
    {t : Task} {a : Action}
    (hnext : (states p).nextAction (session.provider data p) (session.gates data circuit p) t =
      some a)
    (hen : a.Enabled (states p).events) :
    session.NetStep data circuit states (Function.update states p
      ((states p).advance (session.provider data p) (session.gates data circuit p) (.run t))) :=
  .step (c := .run t) hp (fun _ h => nomatch h) ⟨⟨a, hnext, hen⟩, rfl⟩

/-- Party `p` runs `n` more actions of task `t` when each of them is enabled. -/
theorem Session.netRun_task {p : Nat} (hp : p < session.numParties) (t : Task) :
    ∀ (n : Nat) (states : Nat → TaskState), (states p).pc t + n ≤
        (taskProgram (session.provider data p) (session.gates data circuit p) t).length →
      (∀ i a, (states p).pc t ≤ i → i < (states p).pc t + n →
        (taskProgram (session.provider data p) (session.gates data circuit p) t)[i]? = some a →
          a.Enabled (states p).events) →
      ∃ states', Relation.ReflTransGen (session.NetStep data circuit) states states' ∧
        (states p).pc t + n ≤ (states' p).pc t
  | 0, states, _, _ => ⟨states, .refl, le_rfl⟩
  | n + 1, states, hlen, hen => by
    obtain ⟨a, ha⟩ : ∃ a, (taskProgram (session.provider data p) (session.gates data circuit p)
        t)[(states p).pc t]? = some a := ⟨_, List.getElem?_eq_getElem (by omega)⟩
    have hstep := Session.netStep_run hp (t := t) ha (hen _ _ le_rfl (by omega) ha)
    have hpc : (Function.update states p ((states p).advance (session.provider data p)
        (session.gates data circuit p) (.run t)) p).pc t = (states p).pc t + 1 := by
      simp [TaskState.advance, TaskState.nextAction, ha]
    obtain ⟨states', hrun, hpc'⟩ := Session.netRun_task hp t n _ (by omega)
      fun i b hi hi' hb => (hen i b (by omega) (by omega) hb).mono (hstep.events_subset p)
    exact ⟨states', .head hstep hrun, by omega⟩

/-- Party `p` runs task `t` up to action `target` when the actions before it are enabled. -/
theorem Session.netRun_until {p : Nat} (hp : p < session.numParties) (t : Task) {target : Nat}
    (htarget : target ≤
      (taskProgram (session.provider data p) (session.gates data circuit p) t).length)
    {states : Nat → TaskState}
    (hen : ∀ i a, (states p).pc t ≤ i → i < target →
      (taskProgram (session.provider data p) (session.gates data circuit p) t)[i]? = some a →
        a.Enabled (states p).events) :
    ∃ states', Relation.ReflTransGen (session.NetStep data circuit) states states' ∧
      target ≤ (states' p).pc t := by
  rcases le_or_lt target ((states p).pc t) with hle | hlt
  · exact ⟨states, .refl, hle⟩
  · obtain ⟨states', hrun, hpc⟩ := Session.netRun_task hp t (target - (states p).pc t) states
      (by omega) fun i a hi hi' => hen i a hi (by omega)
    exact ⟨states', hrun, by omega⟩

/-- The message layer and the caller fulfil, one after another, futures of party `r` that may
be fulfilled. -/
theorem Session.netFulfil_all {r : Nat} (hr : r < session.numParties) :
    ∀ (es : List Event) (states : Nat → TaskState),
      (∀ e ∈ es, e.External ∧ session.Deliverable data circuit states r e) →
      ∃ states', Relation.ReflTransGen (session.NetStep data circuit) states states' ∧
        ∀ e ∈ es, e ∈ (states' r).events
  | [], states, _ => ⟨states, .refl, fun _ h => absurd h (List.not_mem_nil _)⟩
  | e :: es, states, hes => by
    obtain ⟨hext, hdel⟩ := hes e (List.mem_cons_self _ _)
    have hstep : session.NetStep data circuit states (Function.update states r
        ((states r).advance (session.provider data r) (session.gates data circuit r) (.fulfil e))) :=
      .step (c := .fulfil e) hr (fun _ h => by cases h; exact hdel) ⟨hext, rfl⟩
    obtain ⟨states', hrun, hmem⟩ := Session.netFulfil_all hr es _ fun e' he' =>
      ⟨(hes e' (List.mem_cons_of_mem _ he')).1, (hes e' (List.mem_cons_of_mem _ he')).2.mono
        hstep.pc_le⟩
    refine ⟨states', .head hstep hrun, fun e' he' => ?_⟩
    rcases List.mem_cons.mp he' with rfl | he'
    · exact Session.netSchedule_events_subset hrun r (by simp [TaskState.advance])
    · exact hmem e' he'

variable (session data circuit) in
/-- Every party has finished every task of the gates before `m`. -/
def Session.GatesDone (states : Nat → TaskState) (m : Nat) : Prop :=
  ∀ p < session.numParties, ∀ t : Task, t.gate < m →
    (states p).Done (session.provider data p) (session.gates data circuit p) t

theorem Session.GatesDone.mono {states states' : Nat → TaskState} {m : Nat}
    (h : session.GatesDone data circuit states m)
    (hrun : Relation.ReflTransGen (session.NetStep data circuit) states states') :
    session.GatesDone data circuit states' m :=
  fun p hp t ht => le_trans (h p hp t ht) (Session.netSchedule_pc_le hrun p t)

/-- Once party `p` has finished every task of the gates before `m`, an action of a task of
gate `m` is enabled as soon as the futures it waits for are fulfilled. -/
theorem Session.enabled_of_gatesDone (hwf : circuit.WellFormed session.numParties) {m : Nat}
    (hm : m < circuit.length) {states : Nat → TaskState}
    (hreach : session.NetReachable data circuit states)
    (hdone : session.GatesDone data circuit states m) {p : Nat} (hp : p < session.numParties)
    {t : Task} (ht : t.gate = m) {a : Action}
    (ha : a ∈ taskProgram (session.provider data p) (session.gates data circuit p) t)
    (haw : ∀ e ∈ a.awaits, e ∈ (states p).events) : a.Enabled (states p).events := fun e he =>
  (Session.waitsOnEarlier hwf p hm t ht a ha e he).elim (haw e) fun ⟨t', ht', _, hb, hs⟩ =>
    (hreach.reachable p).signalsPassed.mem_events (hdone p hp t' ht') hb hs

/-- Every party runs the `evaluate_setup` of gate `m` to its end. -/
theorem Session.netRun_setup (hwf : circuit.WellFormed session.numParties) {m : Nat}
    (hm : m < circuit.length) {start : Nat → TaskState}
    (hreach : session.NetReachable data circuit start)
    (hdone : session.GatesDone data circuit start m) :
    ∃ states, Relation.ReflTransGen (session.NetStep data circuit) start states ∧
      ∀ p < session.numParties,
        (states p).Done (session.provider data p) (session.gates data circuit p) (.setup m) :=
  reflTransGen_each (fun p states =>
      (states p).Done (session.provider data p) (session.gates data circuit p) (.setup m))
    (fun p _ _ h hd => le_trans hd (Session.netSchedule_pc_le h p _)) _
    fun p hp _ hrun => Session.netRun_until hp (.setup m) le_rfl fun i a _ _ ha =>
      have hmem := List.mem_iff_getElem?.mpr ⟨i, ha⟩
      Session.enabled_of_gatesDone hwf hm (hreach.trans hrun) (hdone.mono hrun) hp (t := .setup m)
        rfl hmem
        fun e he => by rw [Gate.setup_awaits _ a hmem] at he; cases he

/-- Every party runs the `evaluate_online` of gate `m` up to its first get of a registered
future, past its call to the message layer. -/
theorem Session.netRun_sends (hwf : circuit.WellFormed session.numParties) {m : Nat}
    (hm : m < circuit.length) {start : Nat → TaskState}
    (hreach : session.NetReachable data circuit start)
    (hdone : session.GatesDone data circuit start m) :
    ∃ states, Relation.ReflTransGen (session.NetStep data circuit) start states ∧
      ∀ p < session.numParties, ((taskProgram (session.provider data p)
        (session.gates data circuit p) (.online m)).takeWhile (!·.getsFuture)).length ≤
          (states p).pc (.online m) :=
  reflTransGen_each (fun p states => ((taskProgram (session.provider data p)
      (session.gates data circuit p) (.online m)).takeWhile (!·.getsFuture)).length ≤
        (states p).pc (.online m))
    (fun p _ _ h hd => le_trans hd (Session.netSchedule_pc_le h p _)) _
    fun p hp states hrun => by
      obtain ⟨states₁, h₁, hin⟩ := Session.netFulfil_all hp ((taskProgram (session.provider data p)
        (session.gates data circuit p) (.online m)).takeWhile (!·.getsFuture) |>.flatMap
          Action.awaits) states fun e he => by
        obtain ⟨a, ha, he⟩ := List.mem_flatMap.mp he
        obtain ⟨g, rfl⟩ := Action.awaits_input (by simpa using List.mem_takeWhile_imp ha) he
        exact ⟨trivial, trivial⟩
      obtain ⟨states₂, h₂, hpc⟩ := Session.netRun_until hp (.online m)
        (List.takeWhile_prefix _).length_le fun i b _ hi hb =>
          Session.enabled_of_gatesDone hwf hm ((hreach.trans hrun).trans h₁)
            ((hdone.mono hrun).mono h₁) hp (t := .online m) rfl (List.mem_iff_getElem?.mpr ⟨i, hb⟩)
              fun e he => hin e (List.mem_flatMap.mpr ⟨b, List.getElem?_mem
                ((getElem?_takeWhile _ _ hi).trans hb), he⟩)
      exact ⟨states₂, h₁.trans h₂, hpc⟩

/-- Once every party has passed its call to the message layer for gate `m`, the message layer
fulfils every future the `evaluate_online` of gate `m` gets, at every party. -/
theorem Session.netDeliver (hwf : circuit.WellFormed session.numParties)
    (hand : ∀ inA inB, GateSpec.and inA inB ∈ circuit → session.numParties = 2)
    (hall : session.numParties ≤ session.allParties) {m : Nat} (hm : m < circuit.length)
    {start : Nat → TaskState}
    (hsent : ∀ s < session.numParties, ((taskProgram (session.provider data s)
      (session.gates data circuit s) (.online m)).takeWhile (!·.getsFuture)).length ≤
        (start s).pc (.online m)) :
    ∃ states, Relation.ReflTransGen (session.NetStep data circuit) start states ∧
      ∀ r < session.numParties, ∀ e ∈ (taskProgram (session.provider data r)
        (session.gates data circuit r) (.online m)).flatMap Action.awaits, e ∈ (states r).events :=
  reflTransGen_each (fun r states => ∀ e ∈ (taskProgram (session.provider data r)
      (session.gates data circuit r) (.online m)).flatMap Action.awaits, e ∈ (states r).events)
    (fun r _ _ h he e hmem => Session.netSchedule_events_subset h r (he e hmem)) _
    fun r hr states hrun => Session.netFulfil_all hr _ states fun e he => by
      obtain ⟨a, ha, he⟩ := List.mem_flatMap.mp he
      refine ⟨Action.external_of_mem_awaits he, ?_⟩
      cases a
      case getFuture s g =>
        obtain rfl := List.mem_singleton.mp he
        obtain ⟨rfl, hs, hrs⟩ := Session.recipient_of_getFuture hwf hand hall hr hm ha
        have hid : ((session.gates data circuit s).getD g default).gateId = g := by
          rw [Session.gates_getD s hm, instantiate_gateId, Session.length_take_gates s hm.le]
        have hsend := Gate.send_mem_takeWhile _ _ (List.ne_nil_of_mem hrs)
        rw [hid] at hsend
        obtain ⟨i, hi⟩ := List.mem_iff_getElem?.mp hsend
        have hlt := (List.getElem?_eq_some_iff.mp hi).1
        exact ⟨hs, hrs, i, lt_of_lt_of_le hlt ((hsent s hs).trans (Session.netSchedule_pc_le hrun s _)),
          (getElem?_takeWhile _ _ hlt).symm.trans hi⟩
      case getInput g =>
        obtain rfl := List.mem_singleton.mp he
        trivial
      all_goals simp at he

/-- Once every future of gate `m` is fulfilled, every party runs the `evaluate_online` of
gate `m` to its end. -/
theorem Session.netRun_online (hwf : circuit.WellFormed session.numParties) {m : Nat}
    (hm : m < circuit.length) {start : Nat → TaskState}
    (hreach : session.NetReachable data circuit start)
    (hdone : session.GatesDone data circuit start m)
    (hin : ∀ r < session.numParties, ∀ e ∈ (taskProgram (session.provider data r)
      (session.gates data circuit r) (.online m)).flatMap Action.awaits, e ∈ (start r).events) :
    ∃ states, Relation.ReflTransGen (session.NetStep data circuit) start states ∧
      ∀ p < session.numParties,
        (states p).Done (session.provider data p) (session.gates data circuit p) (.online m) :=
  reflTransGen_each (fun p states =>
      (states p).Done (session.provider data p) (session.gates data circuit p) (.online m))
    (fun p _ _ h hd => le_trans hd (Session.netSchedule_pc_le h p _)) _
    fun p hp _ hrun => Session.netRun_until hp (.online m) le_rfl fun i a _ _ ha =>
      have hmem := List.mem_iff_getElem?.mpr ⟨i, ha⟩
      Session.enabled_of_gatesDone hwf hm (hreach.trans hrun) (hdone.mono hrun) hp
        (t := .online m) rfl hmem fun e he =>
          Session.netSchedule_events_subset hrun p (hin p hp e (List.mem_flatMap.mpr ⟨a, hmem, he⟩))

/-- Gate by gate, the parties together finish every task of the first `m` gates: each party
runs the gate's `evaluate_setup`, then its `evaluate_online` up to the first get of a
registered future, the message layer delivers what was sent, and each party finishes. -/
theorem Session.netComplete_gates (hwf : circuit.WellFormed session.numParties)
    (hand : ∀ inA inB, GateSpec.and inA inB ∈ circuit → session.numParties = 2)
    (hall : session.numParties ≤ session.allParties) :
    ∀ m ≤ circuit.length, ∀ start, session.NetReachable data circuit start →
      ∃ states, Relation.ReflTransGen (session.NetStep data circuit) start states ∧
        session.GatesDone data circuit states m
  | 0, _, start, _ => ⟨start, .refl, fun _ _ _ h => absurd h (Nat.not_lt_zero _)⟩
  | m + 1, hm, start, hreach => by
    obtain ⟨s₁, h₁, hd₁⟩ := Session.netComplete_gates hwf hand hall m (by omega) start hreach
    have r₁ := hreach.trans h₁
    obtain ⟨s₂, h₂, hsetup⟩ := Session.netRun_setup hwf hm r₁ hd₁
    obtain ⟨s₃, h₃, hsends⟩ := Session.netRun_sends hwf hm (r₁.trans h₂) (hd₁.mono h₂)
    obtain ⟨s₄, h₄, hin⟩ := Session.netDeliver hwf hand hall hm hsends
    have h₂₄ := h₂.trans (h₃.trans h₄)
    obtain ⟨s₅, h₅, honline⟩ := Session.netRun_online hwf hm (r₁.trans h₂₄) (hd₁.mono h₂₄) hin
    refine ⟨s₅, h₁.trans (h₂₄.trans h₅), fun p hp t ht => ?_⟩
    rcases Nat.lt_succ_iff_lt_or_eq.mp ht with ht | ht
    · exact hd₁.mono (h₂₄.trans h₅) p hp t ht
    · cases t with
      | setup k =>
        cases ht
        exact le_trans (hsetup p hp) (Session.netSchedule_pc_le ((h₃.trans h₄).trans h₅) p _)
      | online k => cases ht; exact honline p hp

/-- No joint run ever passes a get of a future registered for a sender that is no party. -/
theorem Session.NetReachable.not_done_of_getFuture {states : Nat → TaskState}
    (hreach : session.NetReachable data circuit states) {p : Nat} {t : Task} {s g : Nat}
    (ha : .getFuture s g ∈ taskProgram (session.provider data p) (session.gates data circuit p) t)
    (hs : session.numParties ≤ s) :
    ¬ (states p).Done (session.provider data p) (session.gates data circuit p) t := by
  intro hdone
  obtain ⟨i, hi⟩ := List.mem_iff_getElem?.mp ha
  have hev := (hreach.reachable p).passedEnabled _ _ t i _
    (lt_of_lt_of_le (List.getElem?_eq_some_iff.mp hi).1 hdone) hi _ rfl
  exact absurd (hreach.deliverable_of_mem hev).1 (Nat.not_lt.mpr hs)

/-- With more than two parties, the `evaluate_online` of an AND gate at a party `p ≥ 2` gets
the future registered for sender `1 - p` (mod 2^64), which is no party: no joint run ever
finishes it. -/
theorem Session.and_online_stalls (hN : session.numParties < 2 ^ 63) {k : Nat}
    {inA inB : List WireRef} (hspec : circuit[k]? = some (.and inA inB)) {p : Nat} (hp : 2 ≤ p)
    (hpN : p < session.numParties) {states : Nat → TaskState}
    (hreach : session.NetReachable data circuit states) :
    ¬ (states p).Done (session.provider data p) (session.gates data circuit p) (.online k) := by
  have hk := (List.getElem?_eq_some_iff.mp hspec).1
  refine hreach.not_done_of_getFuture (s := peerId p) (g := k) ?_ ?_
  · show _ ∈ ((session.gates data circuit p).getD k default).onlineProgram (session.provider data p)
    rw [Session.gates_getD_of p hspec]
    simp [instantiate, Session.length_take_gates p hk.le, Gate.onlineProgram, Session.provider]
  · have : peerId p = 2 ^ 64 + 1 - p := by unfold peerId; omega
    omega

/-- No constructor checks that an input gate's owner is a party. When it is not, every party
builds the gate as an input receiver, whose `evaluate_online` gets the future registered for
that owner: no joint run ever finishes it. -/
theorem Session.input_online_stalls {k inputOwner numWires numSimd : Nat}
    (hspec : circuit[k]? = some (.input inputOwner numWires numSimd))
    (howner : session.numParties ≤ inputOwner) {p : Nat} (hp : p < session.numParties)
    {states : Nat → TaskState} (hreach : session.NetReachable data circuit states) :
    ¬ (states p).Done (session.provider data p) (session.gates data circuit p) (.online k) := by
  have hk := (List.getElem?_eq_some_iff.mp hspec).1
  refine hreach.not_done_of_getFuture (s := inputOwner) (g := k) ?_ howner
  show _ ∈ ((session.gates data circuit p).getD k default).onlineProgram (session.provider data p)
  rw [Session.gates_getD_of p hspec]
  simp [instantiate, Session.length_take_gates p hk.le, Session.provider,
    if_neg (show inputOwner ≠ p by omega), Gate.onlineProgram]

end Progress

/-- Three parties, party `0` designated for every gate, `ALL_PARTIES` encoded as `3`. -/
def threePartySession : Session := ⟨3, fun p _ => p == 0, 3⟩

theorem and_online_stalls_three_parties :
    threePartySession.numParties < 2 ^ 63 ∧
      andCircuit[2]? = some (.and [⟨0, 0⟩] [⟨1, 0⟩]) ∧ 2 ≤ 2 ∧ 2 < threePartySession.numParties ∧
      threePartySession.NetReachable onesData andCircuit (fun _ => TaskState.initial) ∧
      ¬ TaskState.initial.Done (threePartySession.provider onesData 2)
        (threePartySession.gates onesData andCircuit 2) (.online 2) :=
  ⟨by decide, rfl, le_rfl, by decide, .refl,
    Session.and_online_stalls (by decide) rfl le_rfl (by decide) .refl⟩

/-- Two parties and one input gate whose owner, `2`, is no party. -/
def strayOwnerCircuit : Circuit := [.input 2 1 1]

theorem input_online_stalls_stray_owner :
    strayOwnerCircuit[0]? = some (.input 2 1 1) ∧ twoPartySession.numParties ≤ 2 ∧
      0 < twoPartySession.numParties ∧
      twoPartySession.NetReachable onesData strayOwnerCircuit (fun _ => TaskState.initial) ∧
      ¬ TaskState.initial.Done (twoPartySession.provider onesData 0)
        (twoPartySession.gates onesData strayOwnerCircuit 0) (.online 0) :=
  ⟨rfl, le_rfl, by decide, .refl, Session.input_online_stalls rfl le_rfl (by decide) .refl⟩

end MotionBeavy
