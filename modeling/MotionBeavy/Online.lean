import MotionBeavy.Setup
import MotionBeavy.InputSender

/-
Module: MotionBeavy.Online
Purpose: What one gate's `evaluate_online` does at a party, for every gate kind: the new
  state, the bits messages it hands to the message layer, and the frame of what it leaves
  alone (everything but the public shares and online events of its own wires, its AND
  members and its output value). The message layer of the lock-step run delivers a
  broadcast payload to every other party, and a step of the online phase succeeds when no
  party throws.
Trusted boundary: none
Main exports: OnlineFrame, find?_broadcastBitsMessage, Session.deliveredAt_of_broadcast,
  Session.onlineStep_eq_ok
-/

namespace MotionBeavy

open BitVector

/-! ### What one gate's online step leaves alone -/

/-- `state'` differs from `state` at most in the public shares and online events of the
wires of gate `gateId`, in the members of AND gate `gateId` and in the output value of gate
`gateId`. -/
structure OnlineFrame (gateId : Nat) (state state' : PartyState) : Prop where
  read_of_ne : ∀ h : WireHandle, h.gateId ≠ gateId → state'.read h = state.read h
  numSimd_read : ∀ h, (state'.read h).numSimd = (state.read h).numSimd
  secretShare_read : ∀ h, (state'.read h).secretShare = (state.read h).secretShare
  length_wires : ∀ g, (state'.wires g).length = (state.wires g).length
  andGates_of_ne : ∀ g ≠ gateId, state'.andGates g = state.andGates g

namespace OnlineFrame

theorem refl (gateId : Nat) (state : PartyState) : OnlineFrame gateId state state :=
  ⟨fun _ _ => rfl, fun _ => rfl, fun _ => rfl, fun _ => rfl, fun _ _ => rfl⟩

theorem trans {gateId : Nat} {s₁ s₂ s₃ : PartyState} (h₁ : OnlineFrame gateId s₁ s₂)
    (h₂ : OnlineFrame gateId s₂ s₃) : OnlineFrame gateId s₁ s₃ :=
  ⟨fun h hne => (h₂.read_of_ne h hne).trans (h₁.read_of_ne h hne),
    fun h => (h₂.numSimd_read h).trans (h₁.numSimd_read h),
    fun h => (h₂.secretShare_read h).trans (h₁.secretShare_read h),
    fun g => (h₂.length_wires g).trans (h₁.length_wires g),
    fun g hne => (h₂.andGates_of_ne g hne).trans (h₁.andGates_of_ne g hne)⟩

/-- The loop over a gate's own wires that sets their public shares and online events. -/
theorem updateWires (state : PartyState) (gateId : Nat) {f}
    (hf : ∀ wire_i wire, (f wire_i wire).numSimd = wire.numSimd ∧
      (f wire_i wire).secretShare = wire.secretShare) :
    OnlineFrame gateId state (state.updateWires gateId f) :=
  ⟨fun _ hne => PartyState.read_updateWires_of_ne _ _ hne,
    PartyState.proj_read_updateWires (·.numSimd) _ _ fun i w => (hf i w).1,
    PartyState.proj_read_updateWires (·.secretShare) _ _ fun i w => (hf i w).2,
    PartyState.length_updateWires_wires _ _ _, fun _ _ => rfl⟩

theorem setANDGate (state : PartyState) (gateId : Nat) (m : ANDGateMembers) :
    OnlineFrame gateId state (state.setANDGate gateId m) :=
  ⟨fun _ _ => rfl, fun _ => rfl, fun _ => rfl, fun _ => rfl,
    fun _ hne => PartyState.setANDGate_andGates_of_ne _ _ hne⟩

theorem setOutput (state : PartyState) (gateId : Nat) (v : List BitVector) :
    OnlineFrame gateId state (state.setOutput gateId v) :=
  ⟨fun _ _ => rfl, fun _ => rfl, fun _ => rfl, fun _ => rfl, fun _ _ => rfl⟩

end OnlineFrame

/-! ### Each gate's online step -/

section Gates

variable (provider : BEAVYProvider) (inputs : Nat → List BitVector) (inbox : Nat → BitVector)

theorem BooleanBEAVYInputGateSender.evaluateOnline_run_of_fits (inputs : List BitVector)
    (gateId numWires numSimd : Nat) (state : PartyState)
    (hwires : numWires ≤ (state.wires gateId).length)
    (hfit : ∀ wire_i < numWires, inputFits inputs numSimd wire_i = true) :
    (evaluateOnline provider inputs gateId numWires numSimd).run state =
      .ok { sent := broadcastBitsMessage provider (appendAll ((List.range numWires).map
          fun i => (state.read ⟨gateId, i⟩).publicShare ^^^ inputs.getD i [])) }
        (publishedBelow inputs gateId numWires state) := by
  have h := onlineLoop_run inputs gateId numSimd state numWires 0 [] (by omega)
  have hnone : (List.range' 0 numWires).find? (fun i => !inputFits inputs numSimd i) = none :=
    List.find?_eq_none.mpr fun i hi => by simp [hfit i (by simpa [List.mem_range'] using hi)]
  rw [publishedBelow_zero, hnone, Nat.zero_add, ← List.range_eq_range'] at h
  simp only [evaluateOnline, run_bind, h, List.nil_append, run_pure]

theorem OnlineFrame.publishedBelow (inputs : List BitVector) (gateId k : Nat) (state : PartyState) :
    OnlineFrame gateId state (BooleanBEAVYInputGateSender.publishedBelow inputs gateId k state) :=
  OnlineFrame.updateWires _ _ fun _ _ => by constructor <;> split <;> rfl

theorem OnlineFrame.inputReceiver (gateId numSimd inputOwner : Nat) (state : PartyState) :
    OnlineFrame gateId state
      (BooleanBEAVYInputGateReceiver.evaluateOnline inbox gateId numSimd inputOwner state).2 :=
  OnlineFrame.updateWires _ _ fun _ _ => ⟨rfl, rfl⟩

theorem OnlineFrame.output (gateId outputOwner : Nat) (ins : List WireHandle) (state : PartyState) :
    OnlineFrame gateId state
      (BooleanBEAVYOutputGate.evaluateOnline provider inbox gateId outputOwner ins state).2 := by
  by_cases h : outputOwner = provider.allParties ∨ outputOwner = provider.myId
  · simp only [BooleanBEAVYOutputGate.evaluateOnline, if_pos h]
    exact OnlineFrame.setOutput _ _ _
  · simp only [BooleanBEAVYOutputGate.evaluateOnline, if_neg h]
    exact OnlineFrame.refl _ _

theorem OnlineFrame.inv (gateId : Nat) (isMyJob : Bool) (ins : List WireHandle) (state : PartyState) :
    OnlineFrame gateId state (BooleanBEAVYINVGate.evaluateOnline gateId isMyJob ins state) := by
  cases isMyJob
  · exact OnlineFrame.refl _ _
  · exact OnlineFrame.updateWires _ _ fun _ _ => ⟨rfl, rfl⟩

theorem OnlineFrame.xor (gateId : Nat) (inputsA inputsB : List WireHandle) (state : PartyState) :
    OnlineFrame gateId state (BooleanBEAVYXORGate.evaluateOnline gateId inputsA inputsB state) :=
  OnlineFrame.updateWires _ _ fun _ _ => ⟨rfl, rfl⟩

theorem OnlineFrame.and (gateId : Nat) (inputsA inputsB : List WireHandle) (state : PartyState) :
    OnlineFrame gateId state
      (BooleanBEAVYANDGate.evaluateOnline provider inbox gateId inputsA inputsB state).2 :=
  (OnlineFrame.setANDGate _ _ _).trans (OnlineFrame.updateWires _ _ fun _ _ => ⟨rfl, rfl⟩)

end Gates

/-! ### The message layer of the lock-step run -/

theorem find?_filterMap_recipient (myId r : Nat) (payload : BitVector) :
    ∀ l : List Nat, r ∈ l → r ≠ myId →
      (l.filterMap fun party_id =>
          if party_id = myId then none else some (⟨party_id, payload⟩ : BitsMessage)).find?
        (·.recipient == r) = some ⟨r, payload⟩
  | [], hr, _ => absurd hr (List.not_mem_nil r)
  | i :: l, hr, hne => by
      by_cases hi : i = myId
      · have hl : r ∈ l := (List.mem_cons.mp hr).resolve_left fun h => hne (h ▸ hi)
        simp [hi, find?_filterMap_recipient myId r payload l hl hne]
      · by_cases hir : i = r
        · subst hir
          simp [hi]
        · have hl : r ∈ l := (List.mem_cons.mp hr).resolve_left fun h => hir h.symm
          simp [hi, hir, find?_filterMap_recipient myId r payload l hl hne]

/-- A broadcast reaches every other party of the session with its payload. -/
theorem find?_broadcastBitsMessage (provider : BEAVYProvider) (payload : BitVector) {r : Nat}
    (hr : r < provider.numParties) (hne : r ≠ provider.myId) :
    (broadcastBitsMessage provider payload).find? (·.recipient == r) = some ⟨r, payload⟩ :=
  find?_filterMap_recipient _ _ _ _ (List.mem_range.mpr hr) hne

section Step

variable (session : Session) (data : Nat → PartyData) (gates : Nat → List Gate)

/-- A step of the online phase in which no party throws. -/
theorem Session.onlineStep_eq_ok {k : Nat} {states : Nat → PartyState}
    (h : ∀ p < session.numParties, resultError (session.onlineAt data gates k p
      (session.deliveredAt data gates k p states) states) = none) :
    session.onlineStep data gates k states = .ok fun p => resultState (session.onlineAt data gates k p
      (session.deliveredAt data gates k p states) states) := by
  simp only [Session.onlineStep, firstError_eq_none h]

/-- What party `r` receives from `s` when `s` broadcasts at gate `k`. -/
theorem Session.deliveredAt_of_broadcast {k r s : Nat} {states : Nat → PartyState}
    {effects : OnlineEffects} {state' : PartyState} {payload : BitVector}
    (hrun : session.onlineAt data gates k s (fun _ => []) states = .ok effects state')
    (hsent : effects.sent = broadcastBitsMessage (session.provider data s) payload)
    (hr : r < session.numParties) (hne : r ≠ s) :
    session.deliveredAt data gates k r states s = payload := by
  simp only [Session.deliveredAt, Session.sentAt, hrun, hsent]
  rw [find?_broadcastBitsMessage _ _ hr hne]
  rfl

end Step

end MotionBeavy
