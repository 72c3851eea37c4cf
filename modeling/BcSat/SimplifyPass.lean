import BcSat.SimplifyTidyCall

set_option autoImplicit false

/-!
# The loop of `BC::simplify`

`BC::simplify` resets the marks, pushes every gate, and calls `Gate::simplify` on each popped
gate until the stack is empty or a call returns false. On an acyclic store in the shape the rules
rely on, without `THRESHOLD` gates and with bare inputs and constants, each call loses no solution
and leaves the store acyclic and tidy, so the whole loop loses no solution: a run that returns
false is on a store without solution, and a run that returns true leaves a store to which every
consistent evaluation extends. The loop is run on fuel, and the results are about the runs that
return.
-/

namespace BcSat

namespace BC

open Circuit

variable {s : BC} {g : Nat}

theorem runStack_keeps (step : BC → Nat → Option (Bool × BC)) (P : Circuit → Prop)
    (hstep : ∀ s g r, P s.circuit → step s g = some r → Keeps s r ∧ (r.1 = true → P r.2.circuit)) :
    ∀ {fuel : Nat} {s : BC} {r : Bool × BC}, P s.circuit → runStack step fuel s = some r →
      Keeps s r ∧ (r.1 = true → P r.2.circuit) := by
  intro fuel
  induction fuel with
  | zero =>
    intro s r hs h
    cases hp : s.pstack with
    | nil => rw [runStack_of_pstack_nil step hp] at h; cases h; exact ⟨.refl s, fun _ => hs⟩
    | cons g rest => rw [runStack.eq_def, hp] at h; cases h
  | succ fuel ih =>
    intro s r hs h
    cases hp : s.pstack with
    | nil => rw [runStack_of_pstack_nil step hp] at h; cases h; exact ⟨.refl s, fun _ => hs⟩
    | cons g rest =>
      rw [runStack.eq_def, hp] at h
      obtain ⟨⟨ok, s'⟩, hst, h⟩ := Option.bind_eq_some.1 h
      obtain ⟨hk, hs'⟩ := hstep { s with pstack := rest } g _ hs hst
      dsimp only at h
      split at h
      · rename_i hok
        subst hok
        obtain ⟨k, hr⟩ := ih (hs' rfl) h
        exact ⟨Keeps.trans (s := s) hk k, hr⟩
      · rename_i hno
        rw [Bool.not_eq_true] at hno
        subst hno
        cases h
        exact ⟨hk, nofun⟩

theorem gate_resetTempFields_eq (x : Nat) : (s.circuit.resetTempFields 0).gate x =
    if x < s.size then { s.gate x with temp := 0 } else s.gate x := by
  split_ifs with hx
  · exact s.circuit.gate_resetTempFields 0 hx
  · rw [(s.circuit.resetTempFields 0).gate_of_size_le (by simpa using hx), ← circuit_gate,
      s.circuit.gate_of_size_le (by simpa using hx)]

theorem tidy_start (hs : s.circuit.Shaped) (hb : s.circuit.LeavesBare)
    (hthr : ∀ x, (s.gate x).type ≠ .threshold) :
    Tidy { s with circuit := s.circuit.resetTempFields 0 }.pushAll := by
  have hgate := gate_resetTempFields_eq (s := s)
  have hframe : ∀ x, ((s.circuit.resetTempFields 0).gate x).type = (s.gate x).type ∧
      ((s.circuit.resetTempFields 0).gate x).children = (s.gate x).children := fun x => by
    rw [hgate]; split_ifs <;> exact ⟨rfl, rfl⟩
  refine Tidy.of_circuit_eq (s := { s with circuit := s.circuit.resetTempFields 0 })
    ⟨hs.of_fields (fun x => (hframe x).1) fun x => (hframe x).2, fun x _ => ?_, fun x => ?_⟩ (circuit_pushAll _)
  · show ((s.circuit.resetTempFields 0).gate x).Plain
    by_cases hx : x < s.size
    · exact Gate.Plain.of_frame ⟨hthr x, hb x hx⟩ (hframe x)
    · rw [hgate, if_neg hx, ← circuit_gate, s.circuit.gate_of_size_le (by simpa using hx)]
      exact Gate.plain_none
  · show ((s.circuit.resetTempFields 0).gate x).temp ≠ 1
    rw [hgate]
    split_ifs with hx
    · exact (by decide : (0 : Int) ≠ 1)
    · rw [← circuit_gate, s.circuit.gate_of_size_le (by simpa using hx)]; decide

theorem implied_resetTempFields : Implied s { s with circuit := s.circuit.resetTempFields 0 } :=
  ⟨Circuit.size_resetTempFields _ _, fun x y h => .single (by
    rw [Edge, gate_resetTempFields_eq] at h
    split_ifs at h
    exacts [h, h])⟩

theorem consistent_resetTempFields {σ : Nat → Bool} (hσ : s.circuit.Consistent σ) :
    (s.circuit.resetTempFields 0).Consistent σ := fun x hx => by
  have hx' : x < s.circuit.size := by simpa using hx
  rw [gateOk_iff, s.circuit.gate_resetTempFields 0 hx']
  exact hσ x hx'

/-- One call on an acyclic tidy store loses no solution and, when it returns true, leaves the
store acyclic and tidy. -/
theorem simplify_step (ha : s.circuit.Acyclic) (ht : Tidy s) {preserve : Bool} {r : Bool × BC}
    (h : s.simplify g preserve = some r) :
    Keeps s r ∧ (r.1 = true → r.2.circuit.Acyclic ∧ Tidy r.2) :=
  ⟨Keeps.of_simplify ht.shaped ht.noMarks ht.leavesBare (ht.type_ne_threshold g) h,
    fun hr => ⟨simplify_acyclic ha ht.leavesBare ht.noMarks h, simplify_tidy ha ht h hr⟩⟩

/-- The loop of `BC::simplify` from a store in the shape its rules rely on. -/
theorem simplifyPass_run (ha : s.circuit.Acyclic) (hs : s.circuit.Shaped) (hb : s.circuit.LeavesBare)
    (hthr : ∀ x, (s.gate x).type ≠ .threshold) {preserve : Bool} {fuel : Nat} {r : Bool × BC}
    (h : s.simplifyPass preserve fuel = some r) :
    Keeps s r ∧ (r.1 = true → r.2.circuit.Acyclic ∧ Tidy r.2) := by
  obtain ⟨k, hr⟩ := runStack_keeps (fun s g => s.simplify g preserve)
    (fun c => c.Acyclic ∧ Tidy { circuit := c })
    (fun _ _ _ hP hst => let ⟨k, hr⟩ := simplify_step hP.1 (hP.2.of_circuit_eq rfl) hst
      ⟨k, fun h => ⟨(hr h).1, (hr h).2.of_circuit_eq rfl⟩⟩)
    ⟨by rw [circuit_pushAll]; exact implied_resetTempFields.acyclic ha,
      (tidy_start hs hb hthr).of_circuit_eq rfl⟩ h
  have hsize : s.size ≤ ({ s with circuit := s.circuit.resetTempFields 0 } : BC).pushAll.size := by
    show s.circuit.size ≤ _
    rw [← circuit_size, circuit_pushAll, circuit_size]
    exact (Circuit.size_resetTempFields _ _).ge
  have k₀ : Keeps s (true, ({ s with circuit := s.circuit.resetTempFields 0 } : BC).pushAll) :=
    .of_consistent hsize fun σ hσ => ⟨rfl, by rw [circuit_pushAll]; exact consistent_resetTempFields hσ⟩
  exact ⟨k₀.trans k, fun h => ⟨(hr h).1, (hr h).2.of_circuit_eq rfl⟩⟩

/-- The loop of `BC::simplify` over an acyclic store in the shape the rules rely on, without
`THRESHOLD` gates and with inputs and constants that have no children, loses no solution: every
run that returns true leaves a store to which each consistent evaluation extends, agreeing on
every old gate, and a run returns false only on a store without consistent evaluation. -/
theorem simplifyPass_keeps (ha : s.circuit.Acyclic) (hs : s.circuit.Shaped) (hb : s.circuit.LeavesBare)
    (hthr : ∀ x, (s.gate x).type ≠ .threshold) {preserve : Bool} {fuel : Nat} {r : Bool × BC}
    (h : s.simplifyPass preserve fuel = some r) : Keeps s r :=
  (simplifyPass_run ha hs hb hthr h).1

/-- `a = AND(NOT(x), y)` forced true: the loop forces `x` false and `y` true, and keeps the one
solution. -/
theorem simplifyPass_keeps_and :
    let s : BC := { circuit := ⟨[{ type := .var, children := [], handles := [.name "x"] },
      { type := .var, children := [], handles := [.name "y"] }, { type := .not, children := [0] },
      { type := .and, children := [2, 1], handles := [.name "a"], determined := true, value := true }]⟩ }
    s.circuit.Acyclic ∧ s.circuit.Shaped ∧ s.circuit.LeavesBare ∧ (∀ x, (s.gate x).type ≠ .threshold) ∧
      ∃ r, s.simplifyPass false 20 = some r ∧ r.1 = true ∧ Keeps s r :=
  have ha : Circuit.Acyclic ⟨[{ type := .var, children := [], handles := [.name "x"] },
      { type := .var, children := [], handles := [.name "y"] }, { type := .not, children := [0] },
      { type := .and, children := [2, 1], handles := [.name "a"], determined := true, value := true }]⟩ :=
    ⟨.ofCheck (fun g => if g = 3 then 2 else if g = 2 then 1 else 0) (by decide)⟩
  have hthr : ∀ x, (BC.gate { circuit := ⟨[{ type := .var, children := [], handles := [.name "x"] },
      { type := .var, children := [], handles := [.name "y"] }, { type := .not, children := [0] },
      { type := .and, children := [2, 1], handles := [.name "a"], determined := true,
        value := true }]⟩ } x).type ≠ .threshold := fun x => by
    unfold BC.gate Circuit.gate
    rcases x with _ | _ | _ | _ | x <;> simp [List.getD, Gate.none]
  ⟨ha, by decide, by decide, hthr, _, rfl, rfl,
    simplifyPass_keeps ha (by decide) (by decide) hthr (show BC.simplifyPass _ false 20 = _ from rfl)⟩

end BC

/-- A mark left by the `THRESHOLD` case. `t = [0,1](y, x, NOT(x), z, NOT(z))` drops the pair on `x`.
At the pair on `z` the bound is `0`, and `remove_cardinality_g_not_g` returns with `y` still
marked `1`. Subset sharing at `g = OR(c, d, e)` then reads `p = OR(c, y)` as a subset of `g` and
makes `p` a child of `g`, though `y = AND(g, w)`: `g → p → y → g`. The loop reaches the same
store. -/
theorem simplifyPass_leaked_mark_cycle :
    let s : BC := { circuit := ⟨[
      { type := .var, children := [], handles := [.name "x"] },
      { type := .var, children := [], handles := [.name "z"] },
      { type := .not, children := [0], handles := [.name "nx"] },
      { type := .not, children := [1], handles := [.name "nz"] },
      { type := .var, children := [], handles := [.name "c"] },
      { type := .var, children := [], handles := [.name "d"] },
      { type := .var, children := [], handles := [.name "e"] },
      { type := .var, children := [], handles := [.name "w"] },
      { type := .or, children := [4, 10], handles := [.name "p"] },
      { type := .or, children := [4, 5, 6], handles := [.name "g"] },
      { type := .and, children := [9, 7], handles := [.name "y"] },
      { type := .and, children := [8, 7], handles := [.name "q"] },
      { type := .threshold, children := [10, 0, 2, 1, 3], handles := [.name "t"], tmax := 1 }]⟩ }
    s.circuit.Acyclic ∧ s.circuit.LeavesBare ∧ BC.NoMarks s ∧
      (∃ s₁, s.simplify 12 false = some (true, s₁) ∧ (s₁.gate 10).temp = 1 ∧
        ∃ s₂, s₁.simplify 9 false = some (true, s₂) ∧ ¬s₂.circuit.Acyclic) ∧
      ∃ r, s.simplifyPass false 100 = some (true, r) ∧ ¬r.circuit.Acyclic :=
  ⟨⟨.ofCheck (fun g => if g = 12 then 4 else if g = 11 then 5 else if g = 8 then 4 else if g = 10 then 3
      else if g = 9 then 2 else if g = 2 ∨ g = 3 then 1 else 0) (by decide)⟩, by decide,
    fun x => by
      unfold BC.gate Circuit.gate
      rcases x with _ | _ | _ | _ | _ | _ | _ | _ | _ | _ | _ | _ | _ | x <;> simp [List.getD, Gate.none],
    ⟨_, rfl, rfl, _, rfl, fun ha => (Circuit.acyclic_iff.1 ha).2
      ⟨9, .tail (.tail (.single (show 8 ∈ [8, 5, 6] by decide)) (show 10 ∈ [4, 10] by decide))
        (show 9 ∈ [9, 7] by decide)⟩⟩,
    _, rfl, fun ha => (Circuit.acyclic_iff.1 ha).2
      ⟨9, .tail (.tail (.single (show 8 ∈ [8, 5, 6] by decide)) (show 10 ∈ [4, 10] by decide))
        (show 9 ∈ [9, 7] by decide)⟩⟩

end BcSat
