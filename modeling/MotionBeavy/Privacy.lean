import MotionBeavy.Outputs
import Mathlib.Tactic.LinearCombination

/-
Module: MotionBeavy.Privacy
Purpose: Privacy of the two-party protocol against one semi-honest party `p`. Two runs
  differ in the other party's clear inputs (`x` and `x'`) and coins; when `x` and `x'`
  give the same plaintext on the inputs of every Output gate `p` learns, shifting the
  other party's coins by `tapeShift` (an involution that reads only `x`, `x'` and `p`'s
  data) makes everything `p` receives identical: the outputs of its XCOT-bit receivers
  and every bits message sent to it. The shift moves every coin the other party draws for
  a wire by the difference `x` and `x'` make on that wire, so the other party's `δ` moves
  by the plaintext difference and every public `Δ` stays; it moves the OT-sender outputs
  of each AND gate by `p`'s `δ_a` times the difference on `δ_b`, so `p`'s OT outputs stay.
Trusted boundary: the XCOT-bit is the ideal functionality of the protocol model.
Main exports: runInputs, runData, laneDiff, otShift, tapeShift, tapeShift_bijective,
  bit_secretValues_tapeShift, publicValue_tapeShift, OnlineInv.andShare_tapeShift,
  Session.otReceivedIn, Session.receivedIn, Session.otReceivedIn_tapeShift,
  Session.receivedIn_tapeShift, Session.view_tapeShift
-/

namespace MotionBeavy

open BitVector

/-! ### Two runs that differ in the other party's inputs and coins -/

/-- The clear inputs of a run: party `p`'s own, and `theirs` for every other party. -/
def runInputs (mine : Nat → List BitVector) (p : Nat) (theirs : Nat → List BitVector) :
    Nat → Nat → List BitVector :=
  fun owner => if owner = p then mine else theirs

/-- The parties' data of a run: party `p`'s own, and every other party's with `theirs` as
its inputs and `tape` as its coins. -/
def runData (data : Nat → PartyData) (p : Nat) (theirs : Nat → List BitVector)
    (tape : RandomTape) : Nat → PartyData :=
  fun owner => if owner = p then data owner else { data owner with inputs := theirs, tape := tape }

/-- The difference two input assignments of the other party make on lane `l` of wire `r`. -/
def laneDiff (circuit : Circuit) (mine : Nat → List BitVector) (p : Nat)
    (x x' : Nat → List BitVector) (r : WireRef) (l : Nat) : Bool :=
  (value (plainValues (runInputs mine p x) circuit) r).bit l +
    (value (plainValues (runInputs mine p x') circuit) r).bit l

/-- How far the OT-sender output `m` of gate `k` moves: at an AND gate, `p`'s `δ_a` times
the difference the inputs make on `δ_b`. -/
def otShift (session : Session) (circuit : Circuit) (p : Nat) (dp : PartyData)
    (x x' : Nat → List BitVector) (k m : Nat) : Bool :=
  match circuit[k]? with
  | some (.and inA inB) =>
      (appendAll (inB.map (value (secretValues session (fun _ => dp) circuit p)))).bit m *
        ((appendAll (inA.map (value (plainValues (runInputs dp.inputs p x) circuit)))).bit m +
          (appendAll (inA.map (value (plainValues (runInputs dp.inputs p x') circuit)))).bit m)
  | _ => false

/-- The other party's coins that make its run on `x'` look to party `p` like its run on `x`:
each coin drawn for a lane of a wire moves by the difference the inputs make there, each
OT-sender output by `otShift`. It reads only `x`, `x'` and `p`'s data `dp`. -/
def tapeShift (session : Session) (circuit : Circuit) (p : Nat) (dp : PartyData)
    (x x' : Nat → List BitVector) (tape : RandomTape) : RandomTape where
  random k w l := tape.random k w l + laneDiff circuit dp.inputs p x x' ⟨k, w⟩ l
  otSender k m := tape.otSender k m + otShift session circuit p dp x x' k m

section Shift

variable {session : Session} {data : Nat → PartyData} {circuit : Circuit} {p : Nat}
  {x x' : Nat → List BitVector}

theorem tapeShift_involutive (dp : PartyData) :
    Function.Involutive (tapeShift session circuit p dp x x') := fun tape => by
  cases tape
  simp only [tapeShift, add_assoc, BooleanRing.add_self, add_zero]

/-- The shift is a bijection of the other party's coins. -/
theorem tapeShift_bijective (dp : PartyData) :
    Function.Bijective (tapeShift session circuit p dp x x') :=
  (tapeShift_involutive dp).bijective

@[simp] theorem runData_self (theirs : Nat → List BitVector) (tape : RandomTape) :
    runData data p theirs tape p = data p := if_pos rfl

theorem runData_of_ne (theirs : Nat → List BitVector) (tape : RandomTape) {o : Nat} (h : o ≠ p) :
    runData data p theirs tape o = { data o with inputs := theirs, tape := tape } := if_neg h

theorem runData_inputs (theirs : Nat → List BitVector) (tape : RandomTape) :
    (fun o => (runData data p theirs tape o).inputs) = runInputs (data p).inputs p theirs := by
  funext o
  by_cases h : o = p
  · subst h; simp [runInputs]
  · simp [runData_of_ne _ _ h, runInputs, h]

@[simp] theorem runData_myRng (theirs : Nat → List BitVector) (tape : RandomTape) (o : Nat) :
    (runData data p theirs tape o).myRng = (data o).myRng := by
  unfold runData; split <;> rfl

@[simp] theorem runData_theirRng (theirs : Nat → List BitVector) (tape : RandomTape) (o : Nat) :
    (runData data p theirs tape o).theirRng = (data o).theirRng := by
  unfold runData; split <;> rfl

theorem runData_tape_of_ne (theirs : Nat → List BitVector) (tape : RandomTape) {o : Nat}
    (h : o ≠ p) : (runData data p theirs tape o).tape = tape := by
  rw [runData_of_ne _ _ h]

/-- The providers of a run are the parties' own: they read the generators only. -/
@[simp] theorem Session.provider_runData (theirs : Nat → List BitVector) (tape : RandomTape) :
    session.provider (runData data p theirs tape) = session.provider data :=
  funext fun o => by simp [Session.provider]

/-- A party's secret shares depend on its own data only. -/
theorem secretValues_congr {data' : Nat → PartyData} (q : Nat) (h : data' q = data q) :
    secretValues session data' circuit q = secretValues session data circuit q := by
  have hshares : GateSpec.secretShares session data' circuit q =
      GateSpec.secretShares session data circuit q := by
    funext sec spec
    cases spec <;> simp only [GateSpec.secretShares, h]
  rw [secretValues, secretValues, hshares]

/-- Party `p`'s own shares are the same in every run. -/
theorem secretValues_runData_self (theirs theirs' : Nat → List BitVector) (tape tape' : RandomTape) :
    secretValues session (runData data p theirs' tape') circuit p =
      secretValues session (runData data p theirs tape) circuit p :=
  secretValues_congr p (by simp)

theorem secretValues_runData_const (theirs : Nat → List BitVector) (tape : RandomTape) :
    secretValues session (fun _ => data p) circuit p =
      secretValues session (runData data p theirs tape) circuit p :=
  secretValues_congr p (by simp)

theorem RandomTape.bit_draw (tape : RandomTape) (gateId wire_i : Nat) {numBits l : Nat}
    (hl : l < numBits) : (tape.draw gateId wire_i numBits).bit l = tape.random gateId wire_i l :=
  bit_map_range _ hl

theorem peerId_ne {p : Nat} (hp : p < 2) : peerId p ≠ p := by
  rcases (by omega : p = 0 ∨ p = 1) with rfl | rfl <;> decide

theorem peerId_lt {p : Nat} (hp : p < 2) : peerId p < 2 := by
  rcases (by omega : p = 0 ∨ p = 1) with rfl | rfl <;> decide

theorem peerId_peerId {p : Nat} (hp : p < 2) : peerId (peerId p) = p := by
  rcases (by omega : p = 0 ∨ p = 1) with rfl | rfl <;> rfl

/-- In a two-party run the party other than `p` is `peerId p`. -/
theorem eq_peerId {p o : Nat} (hp : p < 2) (ho : o < 2) (hne : o ≠ p) : o = peerId p := by
  rcases (by omega : p = 0 ∧ o = 1 ∨ p = 1 ∧ o = 0) with ⟨rfl, rfl⟩ | ⟨rfl, rfl⟩ <;> rfl

/-! ### The other party's shares in the two runs -/

/-- The other party's secret shares in the run on `x'` with shifted coins are its shares in
the run on `x`, moved on every lane by the difference the inputs make there: by induction
over the circuit, as fresh draws move by the difference, the other party's own inputs draw
fresh `δ`, `p`'s inputs are masked by generators the shift does not touch, and INV and XOR
carry the difference as the plaintext does. -/
theorem bit_secretValues_tapeShift (hwf : circuit.WellFormed 2) (hp : p < 2)
    (hfit : InputsFit circuit (runInputs (data p).inputs p x))
    (hfit' : InputsFit circuit (runInputs (data p).inputs p x')) (T : RandomTape)
    {r : WireRef} (hr : circuit.HasWire r) {l : Nat} (hl : l < width circuit.shapes r) :
    (value (secretValues session (runData data p x' (tapeShift session circuit p (data p) x x' T))
        circuit (peerId p)) r).bit l =
      (value (secretValues session (runData data p x T) circuit (peerId p)) r).bit l +
        laneDiff circuit (data p).inputs p x x' r l := by
  have hq : peerId p ≠ p := peerId_ne hp
  obtain ⟨k, hgate⟩ : ∃ k, r.gate = k := ⟨_, rfl⟩
  induction k using Nat.strong_induction_on generalizing r l with
  | _ k ih =>
  obtain ⟨g, j⟩ := r
  dsimp only at hgate
  subst g
  have hk : k < circuit.length := by simpa [Circuit.shapes] using gate_lt_of_valid hr
  have hspec : circuit[k]? = some circuit[k] := List.getElem?_eq_getElem hk
  have hw := Circuit.wellFormed_getElem hwf hk
  generalize circuit[k] = spec at hspec hw
  have hj := (Circuit.hasWire_self hspec).mp hr
  have hplain := fun (y : Nat → List BitVector) (hy : InputsFit circuit (runInputs (data p).inputs p y)) =>
    length_value (lanes_plainValues hwf hy)
  have hsec := fun (d : Nat → PartyData) => length_value (@lanes_secretValues session d circuit _ hwf (peerId p))
  cases spec with
  | input o nw ns =>
      simp only [GateSpec.shape, List.length_replicate] at hj
      rw [Circuit.width_input_self hspec hj] at hl
      rw [value_secretValues_self _ hspec, value_secretValues_self _ hspec]
      simp only [GateSpec.secretShares, length_take_secretValues _ hk.le, List.getD_eq_getElem?_getD,
        List.getElem?_map, List.getElem?_range hj, Option.map_some', Option.getD_some]
      by_cases ho : o = peerId p
      · simp only [ho, if_true, runData_of_ne _ _ hq, RandomTape.bit_draw _ _ _ hl, tapeShift]
      · have hop : o = p := by
          by_contra hne
          exact ho (eq_peerId hp hw hne)
        have hzero : laneDiff circuit (data p).inputs p x x' ⟨k, j⟩ l = 0 := by
          rw [laneDiff, value_plainValues_input hspec hj, value_plainValues_input hspec hj]
          simp only [runInputs, hop, if_true, BooleanRing.add_self]
        simp only [ho, if_false, runData_theirRng, hzero, add_zero]
  | output => simp [GateSpec.shape] at hj
  | inv refs =>
      have hj : j < refs.length := by simpa [GateSpec.shape] using hj
      have hrj := Circuit.hasWire_of_take (hw.1 _ (List.getElem_mem hj))
      have hrefs : ∀ r ∈ refs, r.gate < k := fun r hr => (Circuit.hasWire_of_take (hw.1 r hr)).1
      have hwidth : width circuit.shapes ⟨k, j⟩ = width circuit.shapes refs[j] := by
        rw [width, Circuit.shapes_getD hspec]
        simp [GateSpec.shape, List.getElem?_eq_getElem hj, width_take_of_lt _ hrj.1]
      rw [hwidth] at hl
      have ih := ih _ hrj.1 hrj.2 hl rfl
      rw [laneDiff, value_plainValues_inv hspec hrefs hj, value_plainValues_inv hspec hrefs hj,
        bit_not ((hplain x hfit _).symm ▸ hl), bit_not ((hplain x' hfit' _).symm ▸ hl)]
      rw [laneDiff] at ih
      simp only [value_secretValues_inv _ hspec hrefs hj]
      cases session.isMyJob (peerId p) k
      · simp only [Bool.false_eq_true, if_false, ih]
        linear_combination -BooleanRing.add_self (1 : Bool)
      · simp only [if_true, bit_not ((hsec _ _).symm ▸ hl), ih]
        linear_combination -BooleanRing.add_self (1 : Bool)
  | xor inA inB =>
      obtain ⟨hv, hne, hlen, hwid⟩ := hw
      have hin := Circuit.binaryInputs hv hne hwid
      have hjB : j < inB.length := by simpa [GateSpec.shape] using hj
      have hjA : j < inA.length := hlen ▸ hjB
      have hrefs : ∀ r ∈ inA ++ inB, r.gate < k := fun r hr => (hin r hr).1
      have hA := hin _ (List.mem_append_left _ (List.getElem_mem hjA))
      have hB := hin _ (List.mem_append_right _ (List.getElem_mem hjB))
      rw [Circuit.width_binary_self hwf hspec (.inr rfl) hjB, List.getD_eq_getElem _ _ hjB] at hl
      have hlA : l < width circuit.shapes inA[j] := by rw [hA.2.2, ← hB.2.2]; exact hl
      rw [laneDiff, value_plainValues_xor hspec hrefs hjA hjB, value_plainValues_xor hspec hrefs hjA hjB,
        bit_xor (by rw [hplain x hfit, hplain x hfit, hA.2.2, hB.2.2]),
        bit_xor (by rw [hplain x' hfit', hplain x' hfit', hA.2.2, hB.2.2]),
        value_secretValues_xor _ hspec hrefs hjA hjB, value_secretValues_xor _ hspec hrefs hjA hjB,
        bit_xor (by rw [hsec, hsec, hA.2.2, hB.2.2]), bit_xor (by rw [hsec, hsec, hA.2.2, hB.2.2]),
        ih _ hA.1 hA.2.1 hlA rfl, ih _ hB.1 hB.2.1 hl rfl, laneDiff, laneDiff]
      ring
  | and inA inB =>
      have hjB : j < inB.length := by simpa [GateSpec.shape] using hj
      rw [value_secretValues_and hwf _ hspec hjB, value_secretValues_and hwf _ hspec hjB,
        runData_of_ne _ _ hq, runData_of_ne _ _ hq]
      simp only [RandomTape.bit_draw _ _ _ hl, tapeShift]

/-- The lanes of two parties' shares add up as the lanes of `p`'s and its peer's. -/
theorem laneXor_two {p : Nat} (hp : p < 2) (shares : Nat → BitVector) (l : Nat) :
    laneXor 2 shares l = (shares p).bit l + (shares (peerId p)).bit l := by
  rcases (by omega : p = 0 ∨ p = 1) with rfl | rfl <;>
    simp [laneXor, Finset.sum_range_succ, add_comm]

/-- A public value of a two-party run: the plaintext XOR `p`'s and the other party's `δ`. -/
theorem publicValue_runData (hN : session.numParties = 2) (hp : p < 2)
    (theirs : Nat → List BitVector) (tape : RandomTape) (r : WireRef) (l : Nat) :
    publicValue session (runData data p theirs tape) circuit r l =
      (value (plainValues (runInputs (data p).inputs p theirs) circuit) r).bit l +
        ((value (secretValues session (runData data p theirs tape) circuit p) r).bit l +
          (value (secretValues session (runData data p theirs tape) circuit (peerId p)) r).bit l) := by
  rw [publicValue, runData_inputs, hN, laneXor_two hp]

/-- Every public value `Δ` is the same in the two runs: the other party's `δ` moves by the
plaintext difference. -/
theorem publicValue_tapeShift (hN : session.numParties = 2) (hwf : circuit.WellFormed 2)
    (hp : p < 2) (hfit : InputsFit circuit (runInputs (data p).inputs p x))
    (hfit' : InputsFit circuit (runInputs (data p).inputs p x')) (T : RandomTape)
    {r : WireRef} (hr : circuit.HasWire r) {l : Nat} (hl : l < width circuit.shapes r) :
    publicValue session (runData data p x' (tapeShift session circuit p (data p) x x' T)) circuit r l =
      publicValue session (runData data p x T) circuit r l := by
  rw [publicValue_runData hN hp, publicValue_runData hN hp,
    secretValues_runData_self, bit_secretValues_tapeShift hwf hp hfit hfit' T hr hl, laneDiff]
  linear_combination BooleanRing.add_self
    ((value (plainValues (runInputs (data p).inputs p x') circuit) r).bit l)

/-- Where the two inputs give the same plaintext, the other party's `δ` is the same. -/
theorem value_secretValues_tapeShift (hwf : circuit.WellFormed 2) (hp : p < 2)
    (hfit : InputsFit circuit (runInputs (data p).inputs p x))
    (hfit' : InputsFit circuit (runInputs (data p).inputs p x')) (T : RandomTape)
    {r : WireRef} (hr : circuit.HasWire r)
    (hplain : value (plainValues (runInputs (data p).inputs p x) circuit) r =
      value (plainValues (runInputs (data p).inputs p x') circuit) r) :
    value (secretValues session (runData data p x' (tapeShift session circuit p (data p) x x' T))
        circuit (peerId p)) r =
      value (secretValues session (runData data p x T) circuit (peerId p)) r := by
  have hlen := fun d => length_value (@lanes_secretValues session d circuit _ hwf (peerId p)) r
  refine ext_bit (by rw [hlen, hlen]) fun l hl => ?_
  rw [bit_secretValues_tapeShift hwf hp hfit hfit' T hr (hlen _ ▸ hl), laneDiff, hplain,
    BooleanRing.add_self, add_zero]

end Shift

/-! ### The lanes of an AND gate -/

theorem lane_lt {n w j l : Nat} (hj : j < n) (hl : l < w) : j * w + l < n * w :=
  calc j * w + l < j * w + w := by omega
    _ = (j + 1) * w := by ring
    _ ≤ n * w := Nat.mul_le_mul_right w hj

/-- Every position below `n * w` is lane `l` of wire `j` for some `j < n`, `l < w`. -/
theorem exists_lane_of_lt {n w m : Nat} (h : m < n * w) : ∃ j < n, ∃ l < w, m = j * w + l := by
  have hw : 0 < w := Nat.pos_of_ne_zero fun h0 => by simp [h0] at h
  exact ⟨m / w, (Nat.div_lt_iff_lt_mul hw).mpr h, m % w, Nat.mod_lt _ hw, (Nat.div_add_mod' m w).symm⟩

section AndLanes

variable {session : Session} {data : Nat → PartyData} {circuit : Circuit}

/-- Lane `l` of wire `j` of an AND gate's members at party `p`: `δ_a`, `δ_b`, and the
`Delta_y` share, `δ_c + δ_a·δ_b +` both OT sender outputs `+ δ_a ·` the peer's `δ_b`. -/
theorem andMembers_lanes (hwf : circuit.WellFormed session.numParties) {k : Nat}
    {inA inB : List WireRef} (hspec : circuit[k]? = some (.and inA inB)) (p : Nat) {j l : Nat}
    (hj : j < inB.length) (hl : l < width circuit.shapes (inB.headD ⟨0, 0⟩)) :
    (andMembers session data circuit k inA inB p).deltaAShare.bit
        (j * width circuit.shapes (inB.headD ⟨0, 0⟩) + l) =
        (value (secretValues session data circuit p) (inB.getD j ⟨0, 0⟩)).bit l ∧
      (andMembers session data circuit k inA inB p).deltaBShare.bit
        (j * width circuit.shapes (inB.headD ⟨0, 0⟩) + l) =
        (value (secretValues session data circuit p) (inA.getD j ⟨0, 0⟩)).bit l ∧
      (andMembers session data circuit k inA inB p).DeltaYShare.bit
        (j * width circuit.shapes (inB.headD ⟨0, 0⟩) + l) =
        (value (secretValues session data circuit p) ⟨k, j⟩).bit l +
          (value (secretValues session data circuit p) (inB.getD j ⟨0, 0⟩)).bit l *
            (value (secretValues session data circuit p) (inA.getD j ⟨0, 0⟩)).bit l +
          (data p).tape.otSender k (j * width circuit.shapes (inB.headD ⟨0, 0⟩) + l) +
          (data (peerId p)).tape.otSender k (j * width circuit.shapes (inB.headD ⟨0, 0⟩) + l) +
          (value (secretValues session data circuit p) (inB.getD j ⟨0, 0⟩)).bit l *
            (value (secretValues session data circuit (peerId p)) (inA.getD j ⟨0, 0⟩)).bit l := by
  obtain ⟨hv, hne, hlenAB, hwidth⟩ := Circuit.wellFormed_of_getElem? hwf hspec
  have hin := Circuit.binaryInputs hv hne hwidth
  have hjA : j < inA.length := hlenAB ▸ hj
  have hsec : ∀ q, ∀ r ∈ inA ++ inB, (value (secretValues session data circuit q) r).length =
      width circuit.shapes (inB.headD ⟨0, 0⟩) := fun q r hr =>
    (length_value (lanes_secretValues hwf q) r).trans (hin r hr).2.2
  have hdA : ∀ q, (appendAll (inB.map (value (secretValues session data circuit q)))).bit
      (j * width circuit.shapes (inB.headD ⟨0, 0⟩) + l) =
        (value (secretValues session data circuit q) (inB.getD j ⟨0, 0⟩)).bit l := fun q => by
    rw [List.getD_eq_getElem _ _ hj]
    exact bit_appendAll_map (fun r hr => hsec q r (List.mem_append_right _ hr)) hj hl
  have hdB : ∀ q, (appendAll (inA.map (value (secretValues session data circuit q)))).bit
      (j * width circuit.shapes (inB.headD ⟨0, 0⟩) + l) =
        (value (secretValues session data circuit q) (inA.getD j ⟨0, 0⟩)).bit l := fun q => by
    rw [List.getD_eq_getElem _ _ hjA]
    exact bit_appendAll_map (fun r hr => hsec q r (List.mem_append_left _ hr)) hjA hl
  have hm := lane_lt hj hl
  obtain ⟨hA, hB, hC⟩ := @length_andMembers session data circuit _ hwf _ _ _ hspec p
  obtain ⟨-, hB', -⟩ := @length_andMembers session data circuit _ hwf _ _ _ hspec (peerId p)
  refine ⟨hdA p, hdB p, ?_⟩
  simp only [andMembers, idealXCOTBit]
  simp only [bit_and, bit_xor, length_xor, length_and, List.length_map, List.length_range, hA, hB,
    hC, hB', min_self, bit_map_range _ hm, hdA, hdB,
    bit_appendAll_secretValues_and hwf p hspec hj hl]
  ring

/-- The lane identity behind the AND gate's privacy: when the other party's `δ_c`, `δ_a`,
`δ_b` move by the plaintext differences and its OT sender output by `p`'s `δ_a` times the
difference on `δ_b`, its share of `Δ_y` stays, the public values `P` and `Q` being fixed. -/
theorem and_share_shift_lane {P Q a b ap bp u u' v v' : Bool} (hP : P = v + (ap + a))
    (hQ : Q = u + (bp + b)) (c s sp J : Bool) :
    c + (u * v + u' * v') + (a + (v + v')) * (b + (u + u')) + (s + ap * (u + u')) + sp +
        (a + (v + v')) * bp + P * (b + (u + u')) + Q * (a + (v + v')) + J * (P * Q) =
      c + a * b + s + sp + a * bp + P * b + Q * a + J * (P * Q) := by
  subst hP hQ
  linear_combination ((a + ap) * (u + u') + (b + bp) * (v + v') + 2 * u * v + u' * v' + u' * v +
    u * v') * BooleanRing.add_self (1 : Bool)

/-- The lane identity behind `p`'s OT receiver output: the sender's shift cancels the move of
its correlation. -/
theorem ot_receiver_shift_lane (t a b d : Bool) : t + a * d + a * (b + d) = t + a * b := by
  linear_combination (a * d) * BooleanRing.add_self (1 : Bool)

end AndLanes

/-! ### The other party's AND shares in the two runs -/

section AndShift

variable {session : Session} {data : Nat → PartyData} {circuit : Circuit} {p : Nat}
  {x x' : Nat → List BitVector}

/-- The shift of the OT sender output at lane `l` of wire `j` of an AND gate: `p`'s `δ_a`
times the input difference on the wire's `δ_b`. -/
theorem otShift_and {numParties : Nat} (hwf : circuit.WellFormed numParties)
    (hfit : InputsFit circuit (runInputs (data p).inputs p x))
    (hfit' : InputsFit circuit (runInputs (data p).inputs p x')) {k : Nat}
    {inA inB : List WireRef} (hspec : circuit[k]? = some (.and inA inB)) {j l : Nat}
    (hj : j < inB.length) (hl : l < width circuit.shapes (inB.headD ⟨0, 0⟩)) :
    otShift session circuit p (data p) x x' k (j * width circuit.shapes (inB.headD ⟨0, 0⟩) + l) =
      (value (secretValues session (fun _ => data p) circuit p) (inB.getD j ⟨0, 0⟩)).bit l *
        laneDiff circuit (data p).inputs p x x' (inA.getD j ⟨0, 0⟩) l := by
  obtain ⟨hv, hne, hlenAB, hwidth⟩ := Circuit.wellFormed_of_getElem? hwf hspec
  have hin := Circuit.binaryInputs hv hne hwidth
  have hjA : j < inA.length := hlenAB ▸ hj
  have hwA : ∀ y : Nat → List BitVector, InputsFit circuit (runInputs (data p).inputs p y) →
      ∀ r ∈ inA, (value (plainValues (runInputs (data p).inputs p y) circuit) r).length =
        width circuit.shapes (inB.headD ⟨0, 0⟩) := fun y hy r hr =>
    (length_value (lanes_plainValues hwf hy) r).trans (hin r (List.mem_append_left _ hr)).2.2
  have hwB : ∀ r ∈ inB, (value (secretValues session (fun _ => data p) circuit p) r).length =
      width circuit.shapes (inB.headD ⟨0, 0⟩) := fun r hr =>
    (length_value (lanes_secretValues hwf p) r).trans (hin r (List.mem_append_right _ hr)).2.2
  simp only [otShift, hspec]
  rw [bit_appendAll_map hwB hj hl, bit_appendAll_map (hwA x hfit) hjA hl,
    bit_appendAll_map (hwA x' hfit') hjA hl, laneDiff, List.getD_eq_getElem _ _ hj,
    List.getD_eq_getElem _ _ hjA]

/-- The other party's share of `Δ_y` at an AND gate is the same in the two runs. -/
theorem OnlineInv.andShare_tapeShift (hN : session.numParties = 2)
    (hwf : circuit.WellFormed session.numParties) (hp : p < 2)
    (hfit : InputsFit circuit (runInputs (data p).inputs p x))
    (hfit' : InputsFit circuit (runInputs (data p).inputs p x')) (T : RandomTape) {k : Nat}
    {states₁ states₂ : Nat → PartyState}
    (hinv₁ : OnlineInv session (runData data p x T) circuit k states₁)
    (hinv₂ : OnlineInv session (runData data p x' (tapeShift session circuit p (data p) x x' T))
      circuit k states₂)
    {inA inB : List WireRef} (hspec : circuit[k]? = some (.and inA inB)) :
    session.andShare (runData data p x' (tapeShift session circuit p (data p) x x' T)) circuit
        states₂ k inA inB (peerId p) =
      session.andShare (runData data p x T) circuit states₁ k inA inB (peerId p) := by
  have hwf2 : circuit.WellFormed 2 := hN ▸ hwf
  have hq : peerId p < session.numParties := hN ▸ peerId_lt hp
  obtain ⟨hv, hne, hlenAB, hwidth⟩ := Circuit.wellFormed_of_getElem? hwf hspec
  have hin := Circuit.binaryInputs hv hne hwidth
  obtain ⟨hlen₂, hbit₂⟩ := hinv₂.andShare_lanes hwf hspec hq
  obtain ⟨hlen₁, hbit₁⟩ := hinv₁.andShare_lanes hwf hspec hq
  refine ext_bit (hlen₂.trans hlen₁.symm) fun m hm => ?_
  obtain ⟨j, hj, l, hl, rfl⟩ := exists_lane_of_lt (hlen₂ ▸ hm)
  have hjA : j < inA.length := hlenAB ▸ hj
  have hlane : ∀ r ∈ inA ++ inB, circuit.HasWire r ∧ l < width circuit.shapes r := fun r hr =>
    ⟨(hin r hr).2.1, (hin r hr).2.2 ▸ hl⟩
  have hrB := List.getD_eq_getElem inB ⟨0, 0⟩ hj ▸ hlane _ (List.mem_append_right _ (List.getElem_mem hj))
  have hrA := List.getD_eq_getElem inA ⟨0, 0⟩ hjA ▸ hlane _ (List.mem_append_left _ (List.getElem_mem hjA))
  have hrC : circuit.HasWire ⟨k, j⟩ ∧ l < width circuit.shapes ⟨k, j⟩ :=
    ⟨(Circuit.hasWire_self hspec).mpr (by simpa [GateSpec.shape] using hj),
      by rw [Circuit.width_binary_self hwf hspec (.inl rfl) hj]; exact hrB.2⟩
  obtain ⟨ha₂, hb₂, hy₂⟩ := @andMembers_lanes session
    (runData data p x' (tapeShift session circuit p (data p) x x' T)) circuit hwf k inA inB hspec
    (peerId p) j l hj hl
  obtain ⟨ha₁, hb₁, hy₁⟩ := @andMembers_lanes session (runData data p x T) circuit hwf k inA inB
    hspec (peerId p) j l hj hl
  have hP := @publicValue_runData session data circuit p hN hp x T (inB.getD j ⟨0, 0⟩) l
  have hQ := @publicValue_runData session data circuit p hN hp x T (inA.getD j ⟨0, 0⟩) l
  rw [hbit₂ j hj l hl, hbit₁ j hj l hl, ha₂, hb₂, hy₂, ha₁, hb₁, hy₁, peerId_peerId hp,
    publicValue_tapeShift hN hwf2 hp hfit hfit' T hrB.1 hrB.2,
    publicValue_tapeShift hN hwf2 hp hfit hfit' T hrA.1 hrA.2,
    secretValues_runData_self x x' T (tapeShift session circuit p (data p) x x' T),
    bit_secretValues_tapeShift hwf2 hp hfit hfit' T hrC.1 hrC.2,
    bit_secretValues_tapeShift hwf2 hp hfit hfit' T hrB.1 hrB.2,
    bit_secretValues_tapeShift hwf2 hp hfit hfit' T hrA.1 hrA.2,
    runData_tape_of_ne _ _ (peerId_ne hp), runData_tape_of_ne _ _ (peerId_ne hp), runData_self,
    runData_self]
  simp only [tapeShift]
  rw [otShift_and hwf hfit hfit' hspec hj hl, secretValues_runData_const x T]
  simp only [laneDiff, value_plainValues_and hspec (fun r hr => (hin r hr).1) hjA hj, bit_and]
  exact and_share_shift_lane hP hQ _ _ _ _

end AndShift


/-! ### What party `p` sees -/

/-- `delta_a_share_` as an AND gate's `evaluate_setup` passes it to `SetChoices`, read from
the gate's input wires, which the gate's own setup does not write. -/
def Gate.otChoices (state : PartyState) : Gate → BitVector
  | .and _ inputsA _ => appendShares state (·.secretShare) inputsA.length inputsA
  | _ => []

/-- What party `p`'s XCOT-bit receiver returns in the setup of the gate at position `k` of a
run: the ideal functionality fed with the peer's correlations and `p`'s choices. -/
def Session.otReceivedIn (session : Session) (data : Nat → PartyData) (circuit : Circuit)
    (k p : Nat) : BitVector :=
  let gates := session.builtGates data circuit
  let states := session.setupPhase data gates
    (fun p => resultState (session.build data circuit p)) k
  (idealXCOTBit k (data p).tape (data (peerId p)).tape
    (((gates (peerId p)).getD k default).otCorrelations (states (peerId p)))).receiverOutputs
      (((gates p).getD k default).otChoices (states p))

/-- The payloads of the bits messages party `r` receives from party `s` at gate `k` of a run. -/
def Session.receivedIn (session : Session) (data : Nat → PartyData) (circuit : Circuit)
    (k s r : Nat) : Except Error (List BitVector) :=
  (session.sentIn data circuit k s).map fun sent => (sent.filter (·.recipient = r)).map (·.payload)

theorem bit_appendAll_map_getD {refs : List WireRef} {f : WireRef → BitVector} {w : Nat}
    (hw : ∀ r ∈ refs, (f r).length = w) {j l : Nat} (hj : j < refs.length) (hl : l < w) :
    (appendAll (refs.map f)).bit (j * w + l) = (f (refs.getD j ⟨0, 0⟩)).bit l := by
  rw [List.getD_eq_getElem _ _ hj]
  exact bit_appendAll_map hw hj hl

section ViewOfRun

variable {session : Session} {data : Nat → PartyData} {circuit : Circuit}

/-- Party `p`'s OT receiver output at an AND gate: the ideal XCOT-bit on the peer's `δ_b` and
`p`'s `δ_a`, as the setup phase computes them. -/
theorem Session.otReceivedIn_and (hwf : circuit.WellFormed session.numParties)
    (hrng : ∀ i < session.numParties, ∀ i' < session.numParties, ∀ key numBits,
      getBits ((data i).myRng i') key numBits = getBits ((data i').theirRng i) key numBits)
    {k : Nat} {inA inB : List WireRef} (hspec : circuit[k]? = some (.and inA inB)) (p : Nat) :
    session.otReceivedIn data circuit k p =
      (idealXCOTBit k (data p).tape (data (peerId p)).tape
        (appendAll (inA.map (value (secretValues session data circuit (peerId p)))))).receiverOutputs
          (appendAll (inB.map (value (secretValues session data circuit p)))) := by
  obtain ⟨hv, -, hlen, -⟩ := Circuit.wellFormed_of_getElem? hwf hspec
  have hin : ∀ r ∈ inA ++ inB, r.gate < k ∧ circuit.HasWire r := fun r hr =>
    Circuit.hasWire_of_take (hv r hr)
  have hinv := setupPhase_inv hwf hrng k (List.getElem?_eq_some_iff.mp hspec).1.le
  have hread : ∀ q, ∀ refs ⊆ inA ++ inB, ∀ n, n = refs.length →
      appendShares (session.setupPhase data (session.gates data circuit)
        (fun p => resultState (session.build data circuit p)) k q) (·.secretShare) n
          (refs.map (resolve (session.gates data circuit q))) =
        appendAll (refs.map (value (secretValues session data circuit q))) :=
    fun q refs hsub n hn => appendShares_map_resolve _ _ _ hn fun r hr =>
      hinv.secretShare_read q r (hin r (hsub hr)).2 (hin r (hsub hr)).1
  simp only [Session.otReceivedIn, Session.builtGates_eq hwf,
    Session.gates_and p hspec fun r hr => (hin r hr).1,
    Session.gates_and (peerId p) hspec fun r hr => (hin r hr).1, Gate.otCorrelations,
    Gate.otChoices, List.length_map]
  rw [hread _ inA (List.subset_append_left _ _) _ hlen.symm,
    hread _ inB (List.subset_append_right _ _) _ rfl]

end ViewOfRun

/-! ### Privacy -/

section Privacy

variable {session : Session} {data : Nat → PartyData} {circuit : Circuit} {p : Nat}
  {x x' : Nat → List BitVector}

theorem hrng_runData
    (hrng : ∀ i < session.numParties, ∀ i' < session.numParties, ∀ key numBits,
      getBits ((data i).myRng i') key numBits = getBits ((data i').theirRng i) key numBits)
    (theirs : Nat → List BitVector) (tape : RandomTape) :
    ∀ i < session.numParties, ∀ i' < session.numParties, ∀ key numBits,
      getBits ((runData data p theirs tape i).myRng i') key numBits =
        getBits ((runData data p theirs tape i').theirRng i) key numBits := by
  simpa only [runData_myRng, runData_theirRng] using hrng

/-- `p`'s OT receiver output at every AND gate is the same in the two runs. -/
theorem Session.otReceivedIn_tapeShift (hN : session.numParties = 2)
    (hwf : circuit.WellFormed session.numParties)
    (hrng : ∀ i < session.numParties, ∀ i' < session.numParties, ∀ key numBits,
      getBits ((data i).myRng i') key numBits = getBits ((data i').theirRng i) key numBits)
    (hp : p < 2) (hfit : InputsFit circuit (runInputs (data p).inputs p x))
    (hfit' : InputsFit circuit (runInputs (data p).inputs p x')) (T : RandomTape) {k : Nat}
    {inA inB : List WireRef} (hspec : circuit[k]? = some (.and inA inB)) :
    session.otReceivedIn (runData data p x' (tapeShift session circuit p (data p) x x' T))
        circuit k p =
      session.otReceivedIn (runData data p x T) circuit k p := by
  have hwf2 : circuit.WellFormed 2 := hN ▸ hwf
  obtain ⟨hv, hne, hlenAB, hwidth⟩ := Circuit.wellFormed_of_getElem? hwf hspec
  have hin := Circuit.binaryInputs hv hne hwidth
  have hsec : ∀ d q, ∀ r ∈ inA ++ inB, (value (secretValues session d circuit q) r).length =
      width circuit.shapes (inB.headD ⟨0, 0⟩) := fun d q r hr =>
    (length_value (lanes_secretValues hwf q) r).trans (hin r hr).2.2
  have hlenA := fun d q => (@length_andMembers session d circuit _ hwf _ _ _ hspec q).1
  have hlenB := fun d q => (@length_andMembers session d circuit _ hwf _ _ _ hspec q).2.1
  rw [Session.otReceivedIn_and hwf (hrng_runData hrng _ _) hspec,
    Session.otReceivedIn_and hwf (hrng_runData hrng _ _) hspec]
  simp only [idealXCOTBit, runData_self, runData_tape_of_ne _ _ (peerId_ne hp),
    secretValues_runData_self x x' T (tapeShift session circuit p (data p) x x' T)]
  refine ext_bit (by simp [hlenA, hlenB]) fun m hm => ?_
  simp only [length_xor, length_and, List.length_map, List.length_range, hlenA, hlenB,
    min_self] at hm
  obtain ⟨j, hj, l, hl, rfl⟩ := exists_lane_of_lt hm
  have hjA : j < inA.length := hlenAB ▸ hj
  have hrA := List.getD_eq_getElem inA ⟨0, 0⟩ hjA ▸
    hin _ (List.mem_append_left _ (List.getElem_mem hjA))
  rw [bit_xor (by simp [hlenA, hlenB]), bit_xor (by simp [hlenA, hlenB]), bit_map_range _ (by
      rw [hlenB]; exact hm), bit_map_range _ (by rw [hlenB]; exact hm), bit_and, bit_and,
    bit_appendAll_map_getD (fun r hr => hsec _ _ r (List.mem_append_right _ hr)) hj hl,
    bit_appendAll_map_getD (fun r hr => hsec _ _ r (List.mem_append_left _ hr)) hjA hl,
    bit_appendAll_map_getD (fun r hr => hsec _ _ r (List.mem_append_left _ hr)) hjA hl,
    bit_secretValues_tapeShift hwf2 hp hfit hfit' T hrA.2.1 (hrA.2.2 ▸ hl)]
  simp only [tapeShift]
  rw [otShift_and hwf hfit hfit' hspec hj hl, secretValues_runData_const x T]
  exact ot_receiver_shift_lane _ _ _ _

/-- Everything the other party sends `p` at gate `k` is the same in the two runs: the public
values at its input gates, its `δ`s on the inputs of the Output gates `p` learns, and its
share of `Δ_y` at the AND gates. -/
theorem OnlineInv.receivedAt_tapeShift (hN : session.numParties = 2)
    (hwf : circuit.WellFormed session.numParties) (hp : p < 2)
    (hfit : InputsFit circuit (runInputs (data p).inputs p x))
    (hfit' : InputsFit circuit (runInputs (data p).inputs p x'))
    (hout : ∀ (k : Nat) (inputs : List WireRef) (outputOwner : Nat),
      circuit[k]? = some (.output inputs outputOwner) →
      outputOwner = p ∨ outputOwner = session.allParties → ∀ r ∈ inputs,
        value (plainValues (runInputs (data p).inputs p x) circuit) r =
          value (plainValues (runInputs (data p).inputs p x') circuit) r)
    (T : RandomTape) {k : Nat} (hk : k < circuit.length) {states₁ states₂ : Nat → PartyState}
    (hinv₁ : OnlineInv session (runData data p x T) circuit k states₁)
    (hinv₂ : OnlineInv session (runData data p x' (tapeShift session circuit p (data p) x x' T))
      circuit k states₂) :
    ((session.sentAt (runData data p x' (tapeShift session circuit p (data p) x x' T))
        (session.gates (runData data p x' (tapeShift session circuit p (data p) x x' T)) circuit)
        k (peerId p) states₂).filter (·.recipient = p)).map (·.payload) =
      ((session.sentAt (runData data p x T) (session.gates (runData data p x T) circuit) k
        (peerId p) states₁).filter (·.recipient = p)).map (·.payload) := by
  have hwf2 : circuit.WellFormed 2 := hN ▸ hwf
  have hspec : circuit[k]? = some circuit[k] := List.getElem?_eq_getElem hk
  have hw := Circuit.wellFormed_getElem hwf hk
  generalize circuit[k] = spec at hspec hw
  cases spec with
  | input o nw ns =>
      by_cases ho : o = peerId p
      · subst ho
        have hlane : ∀ i ∈ List.range nw, ∀ l ∈ List.range ns,
            circuit.HasWire ⟨k, i⟩ ∧ l < width circuit.shapes ⟨k, i⟩ := fun i hi l hl =>
          ⟨(Circuit.hasWire_self hspec).mpr (by simpa [GateSpec.shape] using hi),
            by rw [Circuit.width_input_self hspec (List.mem_range.mp hi)]; exact List.mem_range.mp hl⟩
        rw [hinv₂.sentAt_inputSender (by rw [runData_inputs]; exact hfit') hspec,
          hinv₁.sentAt_inputSender (by rw [runData_inputs]; exact hfit) hspec,
          Session.provider_runData, Session.provider_runData,
          List.map_congr_left fun i hi => List.map_congr_left fun l hl =>
            publicValue_tapeShift hN hwf2 hp hfit hfit' T (hlane i hi l hl).1 (hlane i hi l hl).2]
      · rw [Session.sentAt_inputReceiver hspec (Ne.symm ho),
          Session.sentAt_inputReceiver hspec (Ne.symm ho)]
  | output inputs outputOwner =>
      rw [hinv₂.sentAt_output hwf hspec, hinv₁.sentAt_output hwf hspec, Session.provider_runData,
        Session.provider_runData]
      by_cases hlearns : outputOwner = p ∨ outputOwner = session.allParties
      · rw [List.map_congr_left fun r hr => value_secretValues_tapeShift hwf2 hp hfit hfit' T
          (Circuit.hasWire_of_take (hw r hr)).2 (hout k inputs outputOwner hspec hlearns r hr)]
      · simp only [not_or] at hlearns
        simp only [if_neg hlearns.2]
        split_ifs <;> simp [sendBitsMessage, hlearns.1]
  | inv refs =>
      rw [Session.sentAt_inv_xor hspec (.inl ⟨refs, rfl⟩), Session.sentAt_inv_xor hspec (.inl ⟨refs, rfl⟩)]
  | xor inA inB =>
      rw [Session.sentAt_inv_xor hspec (.inr ⟨inA, inB, rfl⟩),
        Session.sentAt_inv_xor hspec (.inr ⟨inA, inB, rfl⟩)]
  | and inA inB =>
      have hrefs : ∀ r ∈ inA ++ inB, r.gate < k := fun r hr => (Circuit.hasWire_of_take (hw.1 r hr)).1
      rw [Session.sentAt_of_onlineAt fun inbox =>
          ⟨_, Session.onlineAt_and session _ (peerId p) hspec hrefs inbox states₂⟩,
        Session.sentAt_of_onlineAt fun inbox =>
          ⟨_, Session.onlineAt_and session _ (peerId p) hspec hrefs inbox states₁⟩,
        Session.provider_runData, Session.provider_runData,
        hinv₁.andShare_tapeShift hN hwf hp hfit hfit' T hinv₂ hspec]

/-- The messages `p` receives from the other party at every gate of the two runs are the
same. -/
theorem Session.receivedIn_tapeShift (hN : session.numParties = 2)
    (hwf : circuit.WellFormed session.numParties)
    (hjob : ∀ g, session.OneJob g)
    (hrng : ∀ i < session.numParties, ∀ i' < session.numParties, ∀ key numBits,
      getBits ((data i).myRng i') key numBits = getBits ((data i').theirRng i) key numBits)
    (hp : p < 2) (hfit : InputsFit circuit (runInputs (data p).inputs p x))
    (hfit' : InputsFit circuit (runInputs (data p).inputs p x'))
    (hout : ∀ (k : Nat) (inputs : List WireRef) (outputOwner : Nat),
      circuit[k]? = some (.output inputs outputOwner) →
      outputOwner = p ∨ outputOwner = session.allParties → ∀ r ∈ inputs,
        value (plainValues (runInputs (data p).inputs p x) circuit) r =
          value (plainValues (runInputs (data p).inputs p x') circuit) r)
    (T : RandomTape) {k : Nat} (hk : k < circuit.length) :
    session.receivedIn (runData data p x' (tapeShift session circuit p (data p) x x' T)) circuit
        k (peerId p) p =
      session.receivedIn (runData data p x T) circuit k (peerId p) p := by
  obtain ⟨states₁, hs₁, hinv₁⟩ := Session.statesBefore_inv hwf (fun _ _ _ => hN)
    (by rw [runData_inputs]; exact hfit) (hrng_runData hrng x T) hjob hk.le
  obtain ⟨states₂, hs₂, hinv₂⟩ := Session.statesBefore_inv hwf (fun _ _ _ => hN)
    (by rw [runData_inputs]; exact hfit') (hrng_runData hrng x' (tapeShift session circuit p (data p) x x' T)) hjob hk.le
  rw [Session.receivedIn, Session.receivedIn, Session.sentIn, Session.sentIn, hs₁, hs₂,
    Session.builtGates_eq hwf, Session.builtGates_eq hwf]
  exact congrArg Except.ok (hinv₁.receivedAt_tapeShift hN hwf hp hfit hfit' hout T hk hinv₂)

/-- Privacy of the two-party protocol against a semi-honest party `p`, with an ideal
XCOT-bit: take two inputs `x`, `x'` of the other party that give the same plaintext on the
inputs of every Output gate `p` learns. For any coins `T` of the other party, the run on
`x'` with the coins `tapeShift … T` shows `p` the same view as the run on `x` with `T`.
The shift is a bijection of the coins that reads only `x`, `x'` and `p`'s data. The view
is `p`'s own data, every party's generators, `p`'s OT receiver output at every AND gate,
and every bits message `p` receives at every gate. -/
theorem Session.view_tapeShift (hN : session.numParties = 2)
    (hwf : circuit.WellFormed session.numParties) (hjob : ∀ g, session.OneJob g)
    (hrng : ∀ i < session.numParties, ∀ i' < session.numParties, ∀ key numBits,
      getBits ((data i).myRng i') key numBits = getBits ((data i').theirRng i) key numBits)
    (hp : p < 2) (hfit : InputsFit circuit (runInputs (data p).inputs p x))
    (hfit' : InputsFit circuit (runInputs (data p).inputs p x'))
    (hout : ∀ (k : Nat) (inputs : List WireRef) (outputOwner : Nat),
      circuit[k]? = some (.output inputs outputOwner) →
      outputOwner = p ∨ outputOwner = session.allParties → ∀ r ∈ inputs,
        value (plainValues (runInputs (data p).inputs p x) circuit) r =
          value (plainValues (runInputs (data p).inputs p x') circuit) r) :
    Function.Bijective (tapeShift session circuit p (data p) x x') ∧ ∀ T : RandomTape,
      runData data p x' (tapeShift session circuit p (data p) x x' T) p = runData data p x T p ∧
      (∀ o, (runData data p x' (tapeShift session circuit p (data p) x x' T) o).myRng =
          (runData data p x T o).myRng ∧
        (runData data p x' (tapeShift session circuit p (data p) x x' T) o).theirRng =
          (runData data p x T o).theirRng) ∧
      (∀ (k : Nat) (inA inB : List WireRef), circuit[k]? = some (.and inA inB) →
        session.otReceivedIn (runData data p x' (tapeShift session circuit p (data p) x x' T))
            circuit k p =
          session.otReceivedIn (runData data p x T) circuit k p) ∧
      ∀ k < circuit.length, ∀ s < session.numParties, s ≠ p →
        session.receivedIn (runData data p x' (tapeShift session circuit p (data p) x x' T))
            circuit k s p =
          session.receivedIn (runData data p x T) circuit k s p :=
  ⟨tapeShift_bijective (data p), fun T => ⟨by simp, fun o => by simp, fun _ _ _ hspec =>
    Session.otReceivedIn_tapeShift hN hwf hrng hp hfit hfit' T hspec, fun k hk s hs hsp => by
      rw [eq_peerId hp (hN ▸ hs) hsp]
      exact Session.receivedIn_tapeShift hN hwf hjob hrng hp hfit hfit' hout T hk⟩⟩

end Privacy

/-! ### The other party's input to an AND whose output only it learns -/

/-- Party `0` inputs `1`; party `1` inputs the bit `b`. -/
theorem secretAndCircuit_fit (b : Bool) :
    InputsFit secretAndCircuit (runInputs (onesData 0).inputs 0 fun _ => [[b]]) := by
  intro k o nw ns h j hj
  rcases k with _ | _ | _ | _ | k <;> simp [secretAndCircuit] at h
  all_goals obtain ⟨rfl, rfl, rfl⟩ := h
  · exact ⟨[true], by simp [runInputs, onesData, show j = 0 by omega]⟩
  · exact ⟨[b], by simp [runInputs, show j = 0 by omega]⟩

/-- Party `0` learns no output of the circuit. -/
theorem secretAndCircuit_hidden (x x' : Nat → List BitVector) (k : Nat) (inputs : List WireRef)
    (outputOwner : Nat) (h : secretAndCircuit[k]? = some (.output inputs outputOwner))
    (howner : outputOwner = 0 ∨ outputOwner = twoPartySession.allParties) : ∀ r ∈ inputs,
      value (plainValues (runInputs (onesData 0).inputs 0 x) secretAndCircuit) r =
        value (plainValues (runInputs (onesData 0).inputs 0 x') secretAndCircuit) r := by
  rcases k with _ | _ | _ | _ | k <;> simp [secretAndCircuit] at h
  simp [twoPartySession, ← h.2] at howner

theorem view_tapeShift_secret_and :
    twoPartySession.receivedIn (runData onesData 0 (fun _ => [[false]])
        (tapeShift twoPartySession secretAndCircuit 0 (onesData 0) (fun _ => [[true]])
          (fun _ => [[false]]) (onesData 1).tape)) secretAndCircuit 2 1 0 =
      twoPartySession.receivedIn (runData onesData 0 (fun _ => [[true]]) (onesData 1).tape)
        secretAndCircuit 2 1 0 ∧
    twoPartySession.otReceivedIn (runData onesData 0 (fun _ => [[false]])
        (tapeShift twoPartySession secretAndCircuit 0 (onesData 0) (fun _ => [[true]])
          (fun _ => [[false]]) (onesData 1).tape)) secretAndCircuit 2 0 =
      twoPartySession.otReceivedIn (runData onesData 0 (fun _ => [[true]]) (onesData 1).tape)
        secretAndCircuit 2 0 :=
  have h := (Session.view_tapeShift rfl secretAndCircuit_wellFormed twoPartySession_oneJob
    (fun _ _ _ _ _ _ => rfl) (by decide) (secretAndCircuit_fit true) (secretAndCircuit_fit false)
    (secretAndCircuit_hidden _ _)).2 (onesData 1).tape
  ⟨h.2.2.2 2 (by decide) 1 (by decide) (by decide), h.2.2.1 2 _ _ rfl⟩

end MotionBeavy
