import MotionBeavy.Protocol
import Mathlib.Algebra.BigOperators.Group.Finset

/-
Module: MotionBeavy.Shares
Purpose: What every party's shares must be, stated over the builder's wires. The secret
  shares `δ` of a party follow from its tape, its generators and the gate kinds alone
  (`secretValues`); the members of an AND gate follow from both parties' `δ` and the ideal
  XCOT-bit (`andMembers`), and lane by lane its two `Delta_y` shares add up to
  `δ_c + δ_a·δ_b`. The lane-count facts: a circuit's plaintext values and every party's
  `δ` have the builder's lane counts.
Trusted boundary: none
Main exports: Circuit.inputId, Circuit.HasWire, Circuit.wellFormed_getElem, laneXor,
  secretValues, andMembers, InputsFit, length_value_secretValues, length_value_plainValues,
  laneSum_andMembers
-/

namespace MotionBeavy

open BitVector

/-! ### Positions of a circuit -/

/-- `r` names an output wire of a call of the circuit. -/
def Circuit.HasWire (circuit : Circuit) (r : WireRef) : Prop :=
  r.index < (circuit.shapes.getD r.gate []).length

theorem wellFormedFrom_getElem {numParties : Nat} :
    ∀ (l : Circuit) (shapes : List (List Nat)), wellFormedFrom numParties shapes l →
      ∀ k (hk : k < l.length),
        l[k].WellFormed numParties ((extendBy GateSpec.shape shapes l).take (shapes.length + k))
  | [], _, _, _, hk => absurd hk (Nat.not_lt_zero _)
  | a :: l, shapes, ⟨ha, _⟩, 0, _ => by
      have h := take_extendBy GateSpec.shape shapes (a :: l)
      simp only [Nat.add_zero, h]
      exact ha
  | a :: l, shapes, ⟨_, hl⟩, k + 1, hk => by
      have h := wellFormedFrom_getElem l _ hl k (by simpa using hk)
      rw [List.length_append, List.length_singleton, Nat.add_right_comm] at h
      exact h

/-- The call at position `k` of a well-formed circuit is well formed after the first `k`. -/
theorem Circuit.wellFormed_getElem {numParties : Nat} {circuit : Circuit}
    (hwf : circuit.WellFormed numParties) {k : Nat} (hk : k < circuit.length) :
    circuit[k].WellFormed numParties (circuit.shapes.take k) := by
  simpa using wellFormedFrom_getElem circuit [] hwf k hk

/-- The call a circuit has at position `k` is well formed after the first `k` calls. -/
theorem Circuit.wellFormed_of_getElem? {numParties : Nat} {circuit : Circuit}
    (hwf : circuit.WellFormed numParties) {k : Nat} {spec : GateSpec}
    (hspec : circuit[k]? = some spec) : spec.WellFormed numParties (circuit.shapes.take k) := by
  obtain ⟨hk, rfl⟩ := List.getElem?_eq_some_iff.mp hspec
  exact Circuit.wellFormed_getElem hwf hk

theorem getD_take_of_lt {α : Type} (l : List α) (d : α) {i k : Nat} (h : i < k) :
    (l.take k).getD i d = l.getD i d := by
  simp only [List.getD_eq_getElem?_getD, List.getElem?_take_of_lt h]

/-- A wire named by a call at position `k` is a wire of an earlier call. -/
theorem Circuit.hasWire_of_take {circuit : Circuit} {k : Nat} {r : WireRef}
    (h : r.index < ((circuit.shapes.take k).getD r.gate []).length) :
    r.gate < k ∧ circuit.HasWire r := by
  have hlt : r.gate < k := Nat.lt_of_lt_of_le (gate_lt_of_valid h) (List.length_take_le _ _)
  exact ⟨hlt, by rwa [getD_take_of_lt _ _ hlt] at h⟩

/-- The inputs of an Output call are wires of earlier calls. -/
theorem Circuit.hasWire_of_output {numParties : Nat} {circuit : Circuit}
    (hwf : circuit.WellFormed numParties) {k : Nat} {inputs : List WireRef} {outputOwner : Nat}
    (hspec : circuit[k]? = some (.output inputs outputOwner)) :
    ∀ r ∈ inputs, r.gate < k ∧ circuit.HasWire r := fun r hr =>
  Circuit.hasWire_of_take (Circuit.wellFormed_of_getElem? hwf hspec r hr)

theorem width_take_of_lt (shapes : List (List Nat)) {k : Nat} {r : WireRef} (h : r.gate < k) :
    width (shapes.take k) r = width shapes r := by
  simp only [width, getD_take_of_lt _ _ h]

theorem value_take_of_lt (values : List (List BitVector)) {k : Nat} {r : WireRef}
    (h : r.gate < k) : value (values.take k) r = value values r := by
  simp only [value, getD_take_of_lt _ _ h]

/-- A value of lane counts `shapes` has the lane count of each wire. -/
theorem length_value {values : List (List BitVector)} {shapes : List (List Nat)}
    (h : values.map (·.map List.length) = shapes) (r : WireRef) :
    (value values r).length = width shapes r := by
  subst h
  simp only [value, width, List.getD_eq_getElem?_getD, List.getElem?_map]
  cases values[r.gate]? with
  | none => rfl
  | some vs =>
      simp only [Option.map_some', Option.getD_some, List.getElem?_map]
      cases vs[r.index]? <;> rfl

/-- Two lists of wires of one lane count have values of equal lengths, wire by wire. -/
theorem forall₂_length_value {values : List (List BitVector)} {shapes : List (List Nat)}
    (h : values.map (·.map List.length) = shapes) {xs ys : List WireRef}
    (hlen : xs.length = ys.length) {w : Nat} (hw : ∀ r ∈ xs ++ ys, width shapes r = w) :
    List.Forall₂ (fun v u => v.length = u.length) (xs.map (value values)) (ys.map (value values)) := by
  rw [List.forall₂_iff_get]
  refine ⟨by simp [hlen], fun i _ _ => ?_⟩
  simp only [List.get_eq_getElem, List.getElem_map, length_value h]
  rw [hw _ (List.mem_append_left _ (List.getElem_mem _)),
    hw _ (List.mem_append_right _ (List.getElem_mem _))]

theorem map_eq_map_range_getD {α β : Type} (l : List α) (d : α) (f : α → β) :
    l.map f = (List.range l.length).map fun i => f (l.getD i d) := by
  apply List.ext_getElem (by simp)
  intro i h _
  have hi : i < l.length := by simpa using h
  simp only [List.getElem_map, List.getElem_range, List.getD_eq_getElem _ _ hi]

/-- A front-to-back evaluation whose every call returns the lane counts of its shape has
the lane counts of the circuit. -/
theorem lanes_extendBy (circuit : Circuit) (g : List (List BitVector) → GateSpec → List BitVector)
    (hg : ∀ k (hk : k < circuit.length) (values : List (List BitVector)),
      values.map (·.map List.length) = circuit.shapes.take k →
      (g values circuit[k]).map List.length = circuit[k].shape (circuit.shapes.take k)) :
    (extendBy g [] circuit).map (·.map List.length) = circuit.shapes := by
  have hprefix : ∀ k ≤ circuit.length,
      ((extendBy g [] circuit).take k).map (·.map List.length) = circuit.shapes.take k := by
    intro k hk
    induction k with
    | zero => simp
    | succ k ih =>
        rw [take_succ_extendBy g circuit hk, Circuit.shapes,
          take_succ_extendBy GateSpec.shape circuit hk, List.map_append, ih (by omega),
          ← Circuit.shapes, List.map_singleton, hg k hk _ (ih (by omega))]
  have h := hprefix circuit.length (Nat.le_refl _)
  rwa [List.take_of_length_le (by simp), List.take_of_length_le (by simp [Circuit.shapes])] at h

/-! ### Lanes summed over the parties -/

/-- Lane `l` of the XOR over the parties `p < n` of `shares p` (XOR is `+` in `Bool`). -/
def laneXor (n : Nat) (shares : Nat → BitVector) (l : Nat) : Bool :=
  ∑ p ∈ Finset.range n, (shares p).bit l

/-- The loops over `party_id` that XOR a vector from every party but one into an
accumulator (`BooleanBEAVYInputGateSender::evaluate_setup`,
`BooleanBEAVYOutputGate::evaluate_online`). -/
theorem foldl_xor_skip (n : Nat) (skip : Nat → Prop) [DecidablePred skip] (f : Nat → BitVector)
    (init : BitVector) (hlen : ∀ p < n, ¬skip p → (f p).length = init.length) :
    ((List.range n).foldl (fun acc p => if skip p then acc else acc ^^^ f p) init).length =
        init.length ∧
      ∀ l, ((List.range n).foldl (fun acc p => if skip p then acc else acc ^^^ f p) init).bit l =
        init.bit l + ∑ p ∈ Finset.range n, if skip p then 0 else (f p).bit l := by
  induction n with
  | zero => simp
  | succ n ih =>
      obtain ⟨ihlen, ihbit⟩ := ih fun p hp => hlen p (by omega)
      simp only [List.range_succ, List.foldl_append, List.foldl_cons, List.foldl_nil,
        Finset.sum_range_succ]
      by_cases hs : skip n
      · simp only [hs, ↓reduceIte, add_zero]
        exact ⟨ihlen, ihbit⟩
      · have hn : (f n).length = init.length := hlen n (by omega) hs
        simp only [hs, ↓reduceIte, length_xor, ihlen, hn, min_self, true_and]
        intro l
        rw [bit_xor (by rw [ihlen, hn]), ihbit, add_assoc]

/-- Adding the skipped party's lane to the sum over the others gives the sum over all. -/
theorem add_sum_skip {n o : Nat} (ho : o < n) (y : Bool) (x : Nat → Bool) :
    y + ∑ p ∈ Finset.range n, (if p = o then 0 else x p) =
      ∑ p ∈ Finset.range n, if p = o then y else x p := by
  have hmem : o ∈ Finset.range n := Finset.mem_range.mpr ho
  rw [← Finset.add_sum_erase _ _ hmem, ← Finset.add_sum_erase _ (fun p => if p = o then y else x p) hmem]
  simp only [↓reduceIte, zero_add]
  congr 1
  exact Finset.sum_congr rfl fun p hp => by simp [Finset.ne_of_mem_erase hp]

/-! ### Secret shares -/

section Semantics

variable (session : Session) (data : Nat → PartyData) (circuit : Circuit)

/-- The secret shares `δ` party `p` holds on the outputs of the call at position
`sec.length`, given its shares on the earlier wires: the owner of an input draws `δ` from
its tape and every other party takes the owner's PRG stream toward it; INV complements at
the designated party and forwards elsewhere; XOR adds; AND draws a fresh `δ_c`. -/
def GateSpec.secretShares (p : Nat) (sec : List (List BitVector)) : GateSpec → List BitVector
  | .input inputOwner numWires numSimd => (List.range numWires).map fun wire_i =>
      if inputOwner = p then (data p).tape.draw sec.length wire_i numSimd
      else getBits ((data p).theirRng inputOwner) (circuit.inputId sec.length + wire_i) numSimd
  | .output .. => []
  | .inv inputs => inputs.map fun r =>
      if session.isMyJob p sec.length then ~~~(value sec r) else value sec r
  | .xor inA inB => List.zipWith (· ^^^ ·) (inB.map (value sec)) (inA.map (value sec))
  | .and _ inB => (List.range inB.length).map fun wire_i =>
      (data p).tape.draw sec.length wire_i (width circuit.shapes (inB.getD wire_i ⟨0, 0⟩))

/-- Party `p`'s secret shares on every wire of the circuit. -/
def secretValues (p : Nat) : List (List BitVector) :=
  extendBy (GateSpec.secretShares session data circuit p) [] circuit

/-- The members the setup of AND gate `k` (builder inputs `inA`, `inB`) leaves at party `p`
of a two-party run: `δ_a` and `δ_b` from the shares of `inputs_a_` (the caller's `inB`)
and `inputs_b_`, and `Delta_y_share_ = δ_c ⊕ δ_a·δ_b ⊕` the two ideal OT outputs. -/
def andMembers (k : Nat) (inA inB : List WireRef) (p : Nat) : ANDGateMembers :=
  let sec := secretValues session data circuit
  let deltaA := appendAll (inB.map (value (sec p)))
  let deltaB := appendAll (inA.map (value (sec p)))
  let ot := idealXCOTBit k (data p).tape (data (peerId p)).tape
    (appendAll (inA.map (value (sec (peerId p)))))
  { deltaAShare := deltaA
    deltaBShare := deltaB
    DeltaYShare := appendAll ((sec p).getD k []) ^^^
      ((deltaA &&& deltaB) ^^^ ot.senderOutputs deltaB ^^^ ot.receiverOutputs deltaA) }

variable {session data circuit}

theorem getElem?_secretValues (p : Nat) {k : Nat} (hk : k < circuit.length) :
    (secretValues session data circuit p)[k]? = some (circuit[k].secretShares session data circuit
      p ((secretValues session data circuit p).take k)) := by
  simpa using getElem?_extendBy (GateSpec.secretShares session data circuit p) [] circuit hk

/-- Every party's `δ` has the builder's lane counts. -/
theorem lanes_secretValues {numParties : Nat} (hwf : circuit.WellFormed numParties) (p : Nat) :
    (secretValues session data circuit p).map (·.map List.length) = circuit.shapes := by
  refine lanes_extendBy circuit _ fun k hk sec hsec => ?_
  have hw := Circuit.wellFormed_getElem hwf hk
  generalize circuit[k] = spec at hw
  cases spec with
  | input inputOwner numWires numSimd =>
      simp [GateSpec.secretShares, GateSpec.shape, Function.comp_def, apply_ite List.length,
        List.map_const']
  | output inputs outputOwner => rfl
  | inv inputs =>
      simp only [GateSpec.secretShares, GateSpec.shape, List.map_map]
      refine List.map_congr_left fun r _ => ?_
      split <;> simp [length_value hsec]
  | xor inA inB =>
      obtain ⟨_, _, hlen, hwidth⟩ := hw
      have hfa := forall₂_length_value hsec hlen.symm fun r hr =>
        hwidth r (List.mem_append.mpr (List.mem_append.mp hr).symm)
      simp only [GateSpec.secretShares, GateSpec.shape, map_length_zipWith_xor hfa, List.map_map]
      exact List.map_congr_left fun r _ => length_value hsec r
  | and inA inB =>
      obtain ⟨hv, _, _, _⟩ := hw
      simp only [GateSpec.secretShares, GateSpec.shape, List.map_map, Function.comp_def,
        RandomTape.length_draw]
      rw [map_eq_map_range_getD inB ⟨0, 0⟩]
      refine List.map_congr_left fun j hj => ?_
      have hj' : j < inB.length := by simpa using hj
      rw [List.getD_eq_getElem _ _ hj']
      rw [width_take_of_lt _ (Circuit.hasWire_of_take (hv _ (List.mem_append_right _
        (List.getElem_mem hj')))).1]

/-- The wires of a binary call are wires of earlier calls, all of the lane count of the
caller's first `inB` wire. -/
theorem Circuit.binaryInputs {k : Nat} {inA inB : List WireRef}
    (hv : RefsValid (circuit.shapes.take k) (inA ++ inB)) (hne : inB ≠ [])
    (hw : ∀ r ∈ inA ++ inB, width (circuit.shapes.take k) r =
      width (circuit.shapes.take k) (inB.headD ⟨0, 0⟩)) :
    ∀ r ∈ inA ++ inB, r.gate < k ∧ circuit.HasWire r ∧
      width circuit.shapes r = width circuit.shapes (inB.headD ⟨0, 0⟩) := by
  have hhead : inB.headD ⟨0, 0⟩ ∈ inA ++ inB :=
    List.mem_append_right _ (by cases inB <;> simp_all)
  have hh := Circuit.hasWire_of_take (hv _ hhead)
  intro r hr
  have h := Circuit.hasWire_of_take (hv r hr)
  refine ⟨h.1, h.2, ?_⟩
  rw [← width_take_of_lt _ h.1, ← width_take_of_lt _ hh.1]
  exact hw r hr

/-- The AND gate's vectors `δ_a`, `δ_b` and `δ_c` all have `num_wires * num_simd` bits. -/
theorem length_andMembers {numParties : Nat} (hwf : circuit.WellFormed numParties) {k : Nat}
    {inA inB : List WireRef} (hk : circuit[k]? = some (.and inA inB)) (p : Nat) :
    (appendAll (inB.map (value (secretValues session data circuit p)))).length =
        inB.length * width circuit.shapes (inB.headD ⟨0, 0⟩) ∧
      (appendAll (inA.map (value (secretValues session data circuit p)))).length =
        inB.length * width circuit.shapes (inB.headD ⟨0, 0⟩) ∧
      (appendAll ((secretValues session data circuit p).getD k [])).length =
        inB.length * width circuit.shapes (inB.headD ⟨0, 0⟩) := by
  have hlt : k < circuit.length := (List.getElem?_eq_some_iff.mp hk).1
  have hspec : circuit[k] = .and inA inB := (List.getElem?_eq_some_iff.mp hk).2
  obtain ⟨hv, hne, hlen, hwidth⟩ := Circuit.wellFormed_of_getElem? hwf hk
  have hin := Circuit.binaryInputs hv hne hwidth
  have hsec : (secretValues session data circuit p).map (·.map List.length) = circuit.shapes :=
    lanes_secretValues hwf p
  refine ⟨?_, ?_, ?_⟩
  · rw [@length_appendAll_of_width _ (width circuit.shapes (inB.headD ⟨0, 0⟩)), List.length_map]
    simp only [List.mem_map]
    rintro _ ⟨r, hr, rfl⟩
    rw [length_value hsec, (hin r (List.mem_append_right _ hr)).2.2]
  · rw [@length_appendAll_of_width _ (width circuit.shapes (inB.headD ⟨0, 0⟩)),
      List.length_map, hlen]
    simp only [List.mem_map]
    rintro _ ⟨r, hr, rfl⟩
    rw [length_value hsec, (hin r (List.mem_append_left _ hr)).2.2]
  · rw [List.getD_eq_getElem?_getD, getElem?_secretValues p hlt, Option.getD_some, hspec,
      @length_appendAll_of_width _ (width circuit.shapes (inB.headD ⟨0, 0⟩))]
    · simp [GateSpec.secretShares]
    simp only [GateSpec.secretShares, List.mem_map, List.mem_range]
    rintro _ ⟨j, hj, rfl⟩
    rw [RandomTape.length_draw, List.getD_eq_getElem _ _ hj]
    exact (hin _ (List.mem_append_right _ (List.getElem_mem hj))).2.2

/-- The lane identity behind the AND gate: when each party's OT sender output masks the
other party's receiver output, the two `Delta_y` shares add up to `δ_c + δ_a·δ_b`. -/
theorem and_triple_lane (c₀ c₁ a₀ a₁ b₀ b₁ s₀ s₁ : Bool) :
    c₀ + (a₀ * b₀ + s₀ + (s₁ + a₀ * b₁)) + (c₁ + (a₁ * b₁ + s₁ + (s₀ + a₁ * b₀))) =
      c₀ + c₁ + (a₀ + a₁) * (b₀ + b₁) := by
  revert c₀ c₁ a₀ a₁ b₀ b₁ s₀ s₁
  decide

/-- Lane by lane, the two parties' `Delta_y_share_` after setup add up to
`δ_c + δ_a·δ_b`: the cross terms and both OT sender outputs cancel. -/
theorem laneSum_andMembers {numParties : Nat} (hwf : circuit.WellFormed numParties) {k : Nat}
    {inA inB : List WireRef} (hk : circuit[k]? = some (.and inA inB)) (m : Nat) :
    (andMembers session data circuit k inA inB 0).DeltaYShare.bit m +
        (andMembers session data circuit k inA inB 1).DeltaYShare.bit m =
      (appendAll ((secretValues session data circuit 0).getD k [])).bit m +
        (appendAll ((secretValues session data circuit 1).getD k [])).bit m +
        ((andMembers session data circuit k inA inB 0).deltaAShare.bit m +
            (andMembers session data circuit k inA inB 1).deltaAShare.bit m) *
          ((andMembers session data circuit k inA inB 0).deltaBShare.bit m +
            (andMembers session data circuit k inA inB 1).deltaBShare.bit m) := by
  obtain ⟨hA0, hB0, hC0⟩ := @length_andMembers session data circuit _ hwf _ _ _ hk 0
  obtain ⟨hA1, hB1, hC1⟩ := @length_andMembers session data circuit _ hwf _ _ _ hk 1
  simp only [andMembers, idealXCOTBit, peerId_zero, peerId_one]
  simp only [bit_and, bit_xor, length_xor, length_and, List.length_map, List.length_range, hA0, hB0,
    hC0, hA1, hB1, hC1, min_self]
  exact and_triple_lane _ _ _ _ _ _ _ _

end Semantics

/-! ### Plaintext values -/

/-- What the input futures deliver fits the circuit: the owner of every input gate gets at
least `num_wires` vectors of `num_simd` bits for it. -/
def InputsFit (circuit : Circuit) (inputs : Nat → Nat → List BitVector) : Prop :=
  ∀ k inputOwner numWires numSimd, circuit[k]? = some (.input inputOwner numWires numSimd) →
    ∀ wire_i < numWires, ∃ v, (inputs inputOwner k)[wire_i]? = some v ∧ v.length = numSimd

/-- The plaintext values of a well-formed circuit on fitting inputs have the builder's lane
counts. -/
theorem lanes_plainValues {numParties : Nat} {circuit : Circuit}
    {inputs : Nat → Nat → List BitVector} (hwf : circuit.WellFormed numParties)
    (hfit : InputsFit circuit inputs) :
    (plainValues inputs circuit).map (·.map List.length) = circuit.shapes := by
  refine lanes_extendBy circuit _ fun k hk values hvalues => ?_
  have hlenk : values.length = k := by
    simpa [Circuit.shapes, Nat.min_eq_left (Nat.le_of_lt hk)] using congrArg List.length hvalues
  have hw := Circuit.wellFormed_getElem hwf hk
  have hspec : circuit[k]? = some circuit[k] := List.getElem?_eq_getElem hk
  generalize circuit[k] = spec at hw hspec
  cases spec with
  | input inputOwner numWires numSimd =>
      simp only [GateSpec.evaluate, GateSpec.shape, List.map_map, hlenk]
      rw [List.eq_replicate_iff]
      refine ⟨by simp, fun b hb => ?_⟩
      obtain ⟨j, hj, rfl⟩ := List.mem_map.mp hb
      obtain ⟨v, hv, hlen⟩ := hfit k _ _ _ hspec j (List.mem_range.mp hj)
      simp [List.getD_eq_getElem?_getD, hv, hlen]
  | output inputs outputOwner => rfl
  | inv refs =>
      simp only [GateSpec.evaluate, GateSpec.shape, List.map_map]
      exact List.map_congr_left fun r _ => by simp [length_value hvalues]
  | xor inA inB =>
      obtain ⟨_, _, hlen, hwidth⟩ := hw
      simp only [GateSpec.evaluate, GateSpec.shape,
        map_length_zipWith_xor (forall₂_length_value hvalues hlen hwidth), List.map_map,
        Function.comp_def]
      rw [List.map_eq_replicate_iff.mpr fun r hr => (length_value hvalues r).trans
          (hwidth r (List.mem_append_left _ hr)),
        List.map_eq_replicate_iff.mpr fun r hr => hwidth r (List.mem_append_right _ hr), hlen]
  | and inA inB =>
      obtain ⟨_, _, hlen, hwidth⟩ := hw
      simp only [GateSpec.evaluate, GateSpec.shape, map_length_zipWith (fun a b => length_and a b)
        (forall₂_length_value hvalues hlen hwidth), List.map_map, Function.comp_def]
      rw [List.map_eq_replicate_iff.mpr fun r hr => (length_value hvalues r).trans
          (hwidth r (List.mem_append_left _ hr)),
        List.map_eq_replicate_iff.mpr fun r hr => hwidth r (List.mem_append_right _ hr), hlen]

end MotionBeavy
