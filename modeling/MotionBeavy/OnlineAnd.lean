import MotionBeavy.OnlineInv

/-
Module: MotionBeavy.OnlineAnd
Purpose: The online step of the BEAVY AND gate in a two-party run. Each party broadcasts its
  share of `Δ_y` (its `Delta_y_share_` plus the cross terms `Δ_a·δ_b` and `Δ_b·δ_a`, and
  `Δ_a·Δ_b` at the designated party), XORs in the peer's share and cuts the sum into its
  output wires. Lane by lane the two broadcast shares add up to the plaintext AND XOR both
  parties' `δ_c`, which is the public share the invariant promises.
Trusted boundary: none
Main exports: Session.andShare, OnlineInv.andShare_lanes, OnlineInv.laneSum_andShare,
  OnlineInv.step_and
-/

namespace MotionBeavy

open BitVector

/-- The share of `Δ_y` party `p` broadcasts at the AND call at position `k` (builder inputs
`inA`, `inB`). -/
def Session.andShare (session : Session) (data : Nat → PartyData) (circuit : Circuit)
    (states : Nat → PartyState) (k : Nat) (inA inB : List WireRef) (p : Nat) : BitVector :=
  BooleanBEAVYANDGate.broadcastShare (session.provider data p) k
    (inB.map (resolve (session.gates data circuit p)))
    (inA.map (resolve (session.gates data circuit p))) (states p)

/-- The lane identity of the online AND step: when the two `Delta_y` shares add up to
`δ_c + δ_a·δ_b` and exactly one party adds `Δ_a·Δ_b`, the two broadcast shares add up to
the plaintext AND plus `δ_c`. -/
theorem and_online_lane {y₀ y₁ c₀ c₁ a₀ a₁ b₀ b₁ va vb t₀ t₁ pa pb : Bool}
    (hy : y₀ + y₁ = c₀ + c₁ + (a₀ + a₁) * (b₀ + b₁)) (hpb : pb = vb + (a₀ + a₁))
    (hpa : pa = va + (b₀ + b₁)) (ht : t₀ + t₁ = 1) :
    y₀ + pb * b₀ + pa * a₀ + t₀ * (pb * pa) + (y₁ + pb * b₁ + pa * a₁ + t₁ * (pb * pa)) =
      va * vb + (c₀ + c₁) := by
  have hsplit : y₀ + pb * b₀ + pa * a₀ + t₀ * (pb * pa) + (y₁ + pb * b₁ + pa * a₁ + t₁ * (pb * pa)) =
      (y₀ + y₁) + pb * (b₀ + b₁) + pa * (a₀ + a₁) + (t₀ + t₁) * (pb * pa) := by ring
  rw [hsplit, hy, hpb, hpa, ht, one_mul]
  clear hsplit hy hpb hpa ht
  revert c₀ c₁ a₀ a₁ b₀ b₁ va vb
  decide

section AndGate

variable {session : Session} {data : Nat → PartyData} {circuit : Circuit}

/-- In a two-party run exactly one of the parties `0` and `1` is designated. -/
theorem Session.OneJob.add_eq_one {k : Nat} (h : session.OneJob k) (hN : session.numParties = 2) :
    session.isMyJob 0 k + session.isMyJob 1 k = 1 := by
  obtain ⟨q, hq, hjq, honly⟩ := h
  rw [hN] at hq honly
  have hother : ∀ q' < 2, q' ≠ q → session.isMyJob q' k = false := fun q' hq' hne =>
    Bool.eq_false_iff.mpr fun h => hne (honly q' hq' h)
  rcases (by omega : q = 0 ∨ q = 1) with rfl | rfl
  · rw [hjq, hother 1 (by omega) (by omega)]
    rfl
  · rw [hjq, hother 0 (by omega) (by omega)]
    rfl

theorem Session.gates_and (p : Nat) {k : Nat} {inA inB : List WireRef}
    (hspec : circuit[k]? = some (.and inA inB)) (hrefs : ∀ r ∈ inA ++ inB, r.gate < k) :
    (session.gates data circuit p).getD k default =
      .and k (inB.map (resolve (session.gates data circuit p)))
        (inA.map (resolve (session.gates data circuit p))) := by
  have hlt : k < circuit.length := (List.getElem?_eq_some_iff.mp hspec).1
  rw [Session.gates_getD_of p hspec]
  simp only [instantiate, Session.length_take_gates p hlt.le,
    Session.map_resolve_take p fun r hr => hrefs r (List.mem_append_left _ hr),
    Session.map_resolve_take p fun r hr => hrefs r (List.mem_append_right _ hr)]

theorem value_plainValues_and {inputs : Nat → Nat → List BitVector} {k : Nat}
    {inA inB : List WireRef} (hspec : circuit[k]? = some (.and inA inB))
    (hrefs : ∀ r ∈ inA ++ inB, r.gate < k) {j : Nat} (hjA : j < inA.length) (hjB : j < inB.length) :
    value (plainValues inputs circuit) ⟨k, j⟩ =
      value (plainValues inputs circuit) (inA.getD j ⟨0, 0⟩) &&&
        value (plainValues inputs circuit) (inB.getD j ⟨0, 0⟩) := by
  rw [plainValues, value_extendBy_self hspec]
  simp [GateSpec.evaluate, List.getElem?_zipWith, List.getElem?_eq_getElem hjA,
    List.getElem?_eq_getElem hjB, List.getD_eq_getElem _ _ hjA, List.getD_eq_getElem _ _ hjB,
    value_take_of_lt _ (hrefs _ (List.mem_append_left _ (List.getElem_mem hjA))),
    value_take_of_lt _ (hrefs _ (List.mem_append_right _ (List.getElem_mem hjB)))]

/-- Lane `l` of wire `j` in the concatenated `δ_c` of an AND gate. -/
theorem bit_appendAll_secretValues_and (hwf : circuit.WellFormed session.numParties) (p : Nat)
    {k : Nat} {inA inB : List WireRef} (hspec : circuit[k]? = some (.and inA inB)) {j l : Nat}
    (hj : j < inB.length) (hl : l < width circuit.shapes (inB.headD ⟨0, 0⟩)) :
    (appendAll ((secretValues session data circuit p).getD k [])).bit
        (j * width circuit.shapes (inB.headD ⟨0, 0⟩) + l) =
      (value (secretValues session data circuit p) ⟨k, j⟩).bit l := by
  have hlt : k < circuit.length := (List.getElem?_eq_some_iff.mp hspec).1
  obtain ⟨hv, hne, -, hwidth⟩ := Circuit.wellFormed_of_getElem? hwf hspec
  have hin := Circuit.binaryInputs hv hne hwidth
  have hrow : (secretValues session data circuit p).getD k [] = (List.range inB.length).map
      fun wire_i => (data p).tape.draw k wire_i (width circuit.shapes (inB.getD wire_i ⟨0, 0⟩)) := by
    rw [List.getD_eq_getElem?_getD, getElem?_secretValues p hlt, Option.getD_some,
      (List.getElem?_eq_some_iff.mp hspec).2]
    simp [GateSpec.secretShares, inf_of_le_left hlt.le]
  have hdraw : ∀ x ∈ List.range inB.length, ((data p).tape.draw k x
      (width circuit.shapes (inB.getD x ⟨0, 0⟩))).length = width circuit.shapes (inB.headD ⟨0, 0⟩) :=
    fun x hx => by
      have hx' := List.mem_range.mp hx
      rw [RandomTape.length_draw, List.getD_eq_getElem _ _ hx']
      exact (hin _ (List.mem_append_right _ (List.getElem_mem hx'))).2.2
  rw [hrow, bit_appendAll_map hdraw (by simpa using hj) hl, List.getElem_range,
    value_secretValues_and hwf p hspec hj, Circuit.width_binary_self hwf hspec (.inl rfl) hj]

/-- The AND members' vectors all have `num_wires * num_simd` bits. -/
theorem length_andMembers_fields (hwf : circuit.WellFormed session.numParties) {k : Nat}
    {inA inB : List WireRef} (hspec : circuit[k]? = some (.and inA inB)) (p : Nat) :
    (andMembers session data circuit k inA inB p).deltaAShare.length =
        inB.length * width circuit.shapes (inB.headD ⟨0, 0⟩) ∧
      (andMembers session data circuit k inA inB p).deltaBShare.length =
        inB.length * width circuit.shapes (inB.headD ⟨0, 0⟩) ∧
      (andMembers session data circuit k inA inB p).DeltaYShare.length =
        inB.length * width circuit.shapes (inB.headD ⟨0, 0⟩) := by
  obtain ⟨hA, hB, hC⟩ := @length_andMembers session data circuit _ hwf _ _ _ hspec p
  obtain ⟨-, hB', -⟩ := @length_andMembers session data circuit _ hwf _ _ _ hspec (peerId p)
  simp only [andMembers, idealXCOTBit, length_xor, length_and, List.length_map, List.length_range,
    hA, hB, hC, hB', min_self, and_self]

/-- The share party `p` broadcasts at an AND gate, lane by lane: its `Delta_y_share_` plus
the public shares of the inputs times its `δ`s, plus `Δ_a·Δ_b` when it is designated. -/
theorem OnlineInv.andShare_lanes (hwf : circuit.WellFormed session.numParties) {k : Nat}
    {states : Nat → PartyState} (hinv : OnlineInv session data circuit k states)
    {inA inB : List WireRef} (hspec : circuit[k]? = some (.and inA inB)) {p : Nat}
    (hp : p < session.numParties) :
    (session.andShare data circuit states k inA inB p).length =
        inB.length * width circuit.shapes (inB.headD ⟨0, 0⟩) ∧
      ∀ j < inB.length, ∀ l < width circuit.shapes (inB.headD ⟨0, 0⟩),
        (session.andShare data circuit states k inA inB p).bit
            (j * width circuit.shapes (inB.headD ⟨0, 0⟩) + l) =
          (andMembers session data circuit k inA inB p).DeltaYShare.bit
              (j * width circuit.shapes (inB.headD ⟨0, 0⟩) + l) +
            publicValue session data circuit (inB.getD j ⟨0, 0⟩) l *
              (andMembers session data circuit k inA inB p).deltaBShare.bit
                (j * width circuit.shapes (inB.headD ⟨0, 0⟩) + l) +
            publicValue session data circuit (inA.getD j ⟨0, 0⟩) l *
              (andMembers session data circuit k inA inB p).deltaAShare.bit
                (j * width circuit.shapes (inB.headD ⟨0, 0⟩) + l) +
            session.isMyJob p k * (publicValue session data circuit (inB.getD j ⟨0, 0⟩) l *
              publicValue session data circuit (inA.getD j ⟨0, 0⟩) l) := by
  obtain ⟨hv, hne, hlenAB, hwidth⟩ := Circuit.wellFormed_of_getElem? hwf hspec
  have hin := Circuit.binaryInputs hv hne hwidth
  have hok : ∀ r ∈ inA ++ inB, PublicShareOk session data circuit (states p) p r := fun r hr =>
    hinv.publicShare_read p hp r (hin r hr).2.1 (hin r hr).1
  have hpubw : ∀ r ∈ inA ++ inB, ((states p).read
      (resolve (session.gates data circuit p) r)).publicShare.length =
        width circuit.shapes (inB.headD ⟨0, 0⟩) := fun r hr => (hok r hr).1.trans (hin r hr).2.2
  have hpubA : ∀ r ∈ inB, _ := fun r hr => hpubw r (List.mem_append_right inA hr)
  have hpubB : ∀ r ∈ inA, _ := fun r hr => hpubw r (List.mem_append_left inB hr)
  have hDA := appendShares_map_resolve (states p) (·.publicShare) (session.gates data circuit p)
    (List.length_map inB (resolve (session.gates data circuit p)))
    (f := fun r => ((states p).read (resolve (session.gates data circuit p) r)).publicShare)
    fun _ _ => rfl
  have hDB := appendShares_map_resolve (states p) (·.publicShare) (session.gates data circuit p)
    ((List.length_map inB (resolve (session.gates data circuit p))).trans hlenAB.symm)
    (f := fun r => ((states p).read (resolve (session.gates data circuit p) r)).publicShare)
    fun _ _ => rfl
  obtain ⟨hlA, hlB, hlY⟩ := @length_andMembers_fields session data circuit hwf _ _ _ hspec p
  have hlDA := length_appendAll_of_width (List.forall_mem_map.mpr hpubA)
  have hlDB := length_appendAll_of_width (List.forall_mem_map.mpr hpubB)
  simp only [List.length_map] at hlDA hlDB
  rw [hlenAB] at hlDB
  simp only [Session.andShare, BooleanBEAVYANDGate.broadcastShare, hDA, hDB,
    hinv.andGates_eq k le_rfl _ _ hspec p, Session.provider]
  refine ⟨?_, fun j hj l hl => ?_⟩
  · cases session.isMyJob p k <;> simp [hlDA, hlDB, hlA, hlB, hlY]
  · have hjA : j < inA.length := hlenAB ▸ hj
    have hlane : ∀ r ∈ inA ++ inB, l < width circuit.shapes r := fun r hr => (hin r hr).2.2 ▸ hl
    have hbA := bit_appendAll_map hpubA hj hl
    have hbB := bit_appendAll_map hpubB hjA hl
    rw [(hok _ (List.mem_append_right _ (List.getElem_mem hj))).2 l
      (hlane _ (List.mem_append_right _ (List.getElem_mem hj)))] at hbA
    rw [(hok _ (List.mem_append_left _ (List.getElem_mem hjA))).2 l
      (hlane _ (List.mem_append_left _ (List.getElem_mem hjA)))] at hbB
    have hfalse : ∀ x : Bool, false * x = 0 := fun _ => rfl
    have htrue : ∀ x : Bool, true * x = x := fun _ => rfl
    rw [List.getD_eq_getElem _ _ hj, List.getD_eq_getElem _ _ hjA]
    cases session.isMyJob p k <;>
      simp only [Bool.false_eq_true, ↓reduceIte, bit_xor, bit_and, length_xor, length_and, hlDA,
        hlDB, hlA, hlB, hlY, min_self, hbA, hbB, hfalse, htrue, add_zero]

/-- Lane by lane, the two parties' broadcast shares add up to the public share the
invariant promises on the AND gate's output wire. -/
theorem OnlineInv.laneSum_andShare (hwf : circuit.WellFormed session.numParties)
    (hN : session.numParties = 2)
    {k : Nat} (hjob : session.OneJob k) {states : Nat → PartyState}
    (hinv : OnlineInv session data circuit k states) {inA inB : List WireRef}
    (hspec : circuit[k]? = some (.and inA inB)) {j l : Nat} (hj : j < inB.length)
    (hl : l < width circuit.shapes (inB.headD ⟨0, 0⟩)) :
    (session.andShare data circuit states k inA inB 0).bit
          (j * width circuit.shapes (inB.headD ⟨0, 0⟩) + l) +
        (session.andShare data circuit states k inA inB 1).bit
          (j * width circuit.shapes (inB.headD ⟨0, 0⟩) + l) =
      publicValue session data circuit ⟨k, j⟩ l := by
  obtain ⟨hv, hne, hlenAB, hwidth⟩ := Circuit.wellFormed_of_getElem? hwf hspec
  have hin := Circuit.binaryInputs hv hne hwidth
  have hjA : j < inA.length := hlenAB ▸ hj
  have hsec : ∀ p, ∀ r ∈ inA ++ inB, (value (secretValues session data circuit p) r).length =
      width circuit.shapes (inB.headD ⟨0, 0⟩) := fun p r hr =>
    (length_value (lanes_secretValues hwf p) r).trans (hin r hr).2.2
  have hdA : ∀ p, (andMembers session data circuit k inA inB p).deltaAShare.bit
      (j * width circuit.shapes (inB.headD ⟨0, 0⟩) + l) =
        (value (secretValues session data circuit p) (inB.getD j ⟨0, 0⟩)).bit l := fun p => by
    rw [List.getD_eq_getElem _ _ hj]
    exact bit_appendAll_map (fun r hr => hsec p r (List.mem_append_right _ hr)) hj hl
  have hdB : ∀ p, (andMembers session data circuit k inA inB p).deltaBShare.bit
      (j * width circuit.shapes (inB.headD ⟨0, 0⟩) + l) =
        (value (secretValues session data circuit p) (inA.getD j ⟨0, 0⟩)).bit l := fun p => by
    rw [List.getD_eq_getElem _ _ hjA]
    exact bit_appendAll_map (fun r hr => hsec p r (List.mem_append_left _ hr)) hjA hl
  have hlx : ∀ r, laneXor session.numParties
      (fun q => value (secretValues session data circuit q) r) l =
        (value (secretValues session data circuit 0) r).bit l +
          (value (secretValues session data circuit 1) r).bit l := fun r => by
    simp [laneXor, hN, Finset.sum_range_succ]
  have hsum := @laneSum_andMembers session data circuit _ hwf _ _ _ hspec
    (j * width circuit.shapes (inB.headD ⟨0, 0⟩) + l)
  rw [hdA 0, hdA 1, hdB 0, hdB 1, bit_appendAll_secretValues_and hwf 0 hspec hj hl,
    bit_appendAll_secretValues_and hwf 1 hspec hj hl] at hsum
  have htarget : publicValue session data circuit ⟨k, j⟩ l =
      (value (plainValues (fun owner => (data owner).inputs) circuit) (inA.getD j ⟨0, 0⟩)).bit l *
          (value (plainValues (fun owner => (data owner).inputs) circuit) (inB.getD j ⟨0, 0⟩)).bit l +
        ((value (secretValues session data circuit 0) ⟨k, j⟩).bit l +
          (value (secretValues session data circuit 1) ⟨k, j⟩).bit l) := by
    rw [publicValue, value_plainValues_and hspec (fun r hr => (hin r hr).1) hjA hj, bit_and, hlx]
  rw [(hinv.andShare_lanes hwf hspec (by omega)).2 j hj l hl,
    (hinv.andShare_lanes hwf hspec (by omega)).2 j hj l hl, hdA 0, hdA 1, hdB 0, hdB 1, htarget]
  exact and_online_lane hsum (by rw [publicValue, hlx]) (by rw [publicValue, hlx])
    (hjob.add_eq_one hN)

/-- `evaluate_online` of the AND call at position `k`: party `p` broadcasts its share of
`Δ_y` and reads its peer's. -/
theorem Session.onlineAt_and (session : Session) (data : Nat → PartyData) (p : Nat) {k : Nat} {inA inB : List WireRef}
    (hspec : circuit[k]? = some (.and inA inB)) (hrefs : ∀ r ∈ inA ++ inB, r.gate < k)
    (inbox : Nat → BitVector) (states : Nat → PartyState) :
    session.onlineAt data (session.gates data circuit) k p inbox states =
      .ok { sent := broadcastBitsMessage (session.provider data p)
              (session.andShare data circuit states k inA inB p),
            read := [peerId p] }
        (BooleanBEAVYANDGate.evaluateOnline (session.provider data p) inbox k
          (inB.map (resolve (session.gates data circuit p)))
          (inA.map (resolve (session.gates data circuit p))) (states p)).2 := by
  simp only [Session.onlineAt, Session.gates_and p hspec hrefs, Gate.evaluateOnline, run_modifyGet]
  rfl

/-- The online step of an AND gate in a two-party run: every party broadcasts its share of
`Δ_y`, XORs in the peer's and cuts the sum into its output wires, which then carry the
promised public share. -/
theorem OnlineInv.step_and (hwf : circuit.WellFormed session.numParties)
    (hN : session.numParties = 2)
    {k : Nat} (hjob : session.OneJob k) {states : Nat → PartyState}
    (hinv : OnlineInv session data circuit k states) {inA inB : List WireRef}
    (hspec : circuit[k]? = some (.and inA inB)) :
    ∃ states', session.onlineStep data (session.gates data circuit) k states = .ok states' ∧
      OnlineInv session data circuit (k + 1) states' := by
  obtain ⟨hv, hne, hlenAB, hwidth⟩ := Circuit.wellFormed_of_getElem? hwf hspec
  have hin := Circuit.binaryInputs hv hne hwidth
  have hrefs : ∀ r ∈ inA ++ inB, r.gate < k := fun r hr => (hin r hr).1
  let result := fun p inbox => BooleanBEAVYANDGate.evaluateOnline (session.provider data p) inbox k
    (inB.map (resolve (session.gates data circuit p)))
    (inA.map (resolve (session.gates data circuit p))) (states p)
  have hrun := fun p inbox => Session.onlineAt_and session data p hspec hrefs inbox states
  refine hinv.step_of hwf (fun p inbox => (result p inbox).2) (fun p inbox => ⟨_, hrun p inbox⟩)
    (fun p _ => OnlineFrame.and _ _ _ _ _ _) (fun p hp j hr => ?_)
  have hj : j < inB.length := by simpa [Circuit.hasWire_self hspec, GateSpec.shape] using hr
  have hres := @Session.resolve_and_self session data circuit p _ _ _ hspec _ hj
  have halloc : j < ((states p).wires k).length := by
    simpa [hres] using hinv.allocated p ⟨k, j⟩ hr
  have hhead : inB.getD 0 ⟨0, 0⟩ = inB.headD ⟨0, 0⟩ := by cases inB <;> rfl
  have hnum : ((states p).read ((inB.map (resolve (session.gates data circuit p))).getD 0
      default)).numSimd = width circuit.shapes (inB.headD ⟨0, 0⟩) := by
    have hmem : inB.getD 0 ⟨0, 0⟩ ∈ inA ++ inB := List.mem_append_right _ (by
      rw [List.getD_eq_getElem _ _ (List.length_pos.mpr hne)]
      exact List.getElem_mem _)
    rw [getD_map_resolve _ (List.length_pos.mpr hne), hinv.numSimd_read p _ (hin _ hmem).2.1, hhead]
  have hpeer : peerId p < session.numParties ∧ p ≠ peerId p := by
    rcases (by omega : p = 0 ∨ p = 1) with rfl | rfl <;> simp [hN]
  have hdel : session.deliveredAt data (session.gates data circuit) k p states (peerId p) =
      session.andShare data circuit states k inA inB (peerId p) :=
    Session.deliveredAt_of_broadcast session data _ (hrun (peerId p) _) rfl hp hpeer.2
  obtain ⟨hlen₀, -⟩ := hinv.andShare_lanes hwf hspec hp
  obtain ⟨hlen₁, -⟩ := hinv.andShare_lanes hwf hspec hpeer.1
  have hwk : width circuit.shapes ⟨k, j⟩ = width circuit.shapes (inB.headD ⟨0, 0⟩) := by
    rw [Circuit.width_binary_self hwf hspec (.inl rfl) hj, List.getD_eq_getElem _ _ hj]
    exact (hin _ (List.mem_append_right _ (List.getElem_mem hj))).2.2
  have halloc' : ∀ m, j < (((states p).setANDGate k m).wires k).length := fun m => by
    simpa using halloc
  have hmy : (session.provider data p).myId = p := rfl
  have hself : BooleanBEAVYANDGate.broadcastShare (session.provider data p) k
      (inB.map (resolve (session.gates data circuit p)))
      (inA.map (resolve (session.gates data circuit p))) (states p) =
        session.andShare data circuit states k inA inB p := rfl
  dsimp only
  simp only [PublicShareOk, hres, result, BooleanBEAVYANDGate.evaluateOnline, hmy, hdel, hself]
  rw [PartyState.read_updateWires_self _ _ (halloc' _)]
  simp only [PartyState.read_setANDGate, hnum, hwk]
  have hsucc : (j + 1) * width circuit.shapes (inB.headD ⟨0, 0⟩) =
      j * width circuit.shapes (inB.headD ⟨0, 0⟩) + width circuit.shapes (inB.headD ⟨0, 0⟩) :=
    Nat.succ_mul _ _
  have hle := Nat.mul_le_mul_right (width circuit.shapes (inB.headD ⟨0, 0⟩))
    (show j + 1 ≤ inB.length from hj)
  refine ⟨by simp only [length_subset, length_xor, hlen₀, hlen₁, min_self]; omega,
    fun l hl => ?_⟩
  rw [bit_subset _ (by omega), bit_xor (hlen₀.trans hlen₁.symm)]
  rcases (by omega : p = 0 ∨ p = 1) with rfl | rfl
  · exact hinv.laneSum_andShare hwf hN hjob hspec hj hl
  · rw [peerId_one, add_comm]
    exact hinv.laneSum_andShare hwf hN hjob hspec hj hl

end AndGate

end MotionBeavy
