import BcSat.NormalizeShape

set_option autoImplicit false

/-!
# The loop of `BC::cnf_normalize`

`BC::cnf_normalize` pushes every gate and pops them one at a time into `Gate::cnf_normalize`,
which pushes the gates it installs or retypes. Every call keeps the store acyclic and shaped, and
on such a store every call is sound. So by induction over the loop every run that returns is
sound: it returns false only when the store has no consistent evaluation, and otherwise a store
with the consistent evaluations of the first, read through the composition of the maps of the
calls.
-/

namespace BcSat

namespace BC

variable {s : BC} {g : Nat}

/-- A loop whose calls are sound on the stores an invariant holds of, and keep it, is sound. -/
theorem runStack_normalizeOk (step : BC → Nat → Option (Bool × BC)) (P : Circuit → Prop)
    (hstep : ∀ s g r, P s.circuit → step s g = some r → NormalizeOk s.circuit r ∧ P r.2.circuit) :
    ∀ {fuel : Nat} {s : BC} {r : Bool × BC}, P s.circuit → runStack step fuel s = some r →
      NormalizeOk s.circuit r := by
  intro fuel
  induction fuel with
  | zero =>
    intro s r _ h
    cases hp : s.pstack with
    | nil => rw [runStack_of_pstack_nil step hp] at h; cases h; exact normalizeOk_true (.refl _)
    | cons g rest => rw [runStack.eq_def, hp] at h; cases h
  | succ fuel ih =>
    intro s r hs h
    cases hp : s.pstack with
    | nil => rw [runStack_of_pstack_nil step hp] at h; cases h; exact normalizeOk_true (.refl _)
    | cons g rest =>
      rw [runStack.eq_def, hp] at h
      obtain ⟨⟨ok, s'⟩, hst, h⟩ := Option.bind_eq_some.1 h
      obtain ⟨hok, hs'⟩ := hstep { s with pstack := rest } g _ hs hst
      dsimp only at h
      split at h
      · obtain ⟨ρ, hρ⟩ := hok.2 ‹_›
        exact normalizeOk_of_sameEvaluations hρ (ih hs' h)
      · rename_i hno
        rw [Bool.not_eq_true] at hno
        subst hno
        cases h
        exact hok

theorem cnfNormalize_step (ha : s.circuit.Acyclic) (hs : s.circuit.Shaped) {r : Bool × BC}
    (h : s.cnfNormalize g = some r) :
    NormalizeOk s.circuit r ∧ r.2.circuit.Acyclic ∧ r.2.circuit.Shaped := by
  refine ⟨?_, cnfNormalize_acyclic ha h, cnfNormalize_shaped ha hs h⟩
  obtain ⟨rk⟩ := ha
  by_cases hg : g < s.size
  · exact cnfNormalize_ok rk hs.wellFormed hg h
  · have ht : (s.gate g).type = .deleted := by
      rw [← circuit_gate, s.circuit.gate_of_size_le (not_lt.1 hg)]; rfl
    simp only [cnfNormalize, ht] at h
    cases h
    exact normalizeOk_true (.refl _)

/-- The loop of `BC::cnf_normalize` over an acyclic shaped store, from the invariant of its steps. -/
theorem normalizeOk_cnfNormalizePass (ha : s.circuit.Acyclic) (hs : s.circuit.Shaped) {fuel : Nat}
    {r : Bool × BC} (h : s.cnfNormalizePass fuel = some r) : NormalizeOk s.circuit r := by
  have := runStack_normalizeOk _ (fun c => c.Acyclic ∧ c.Shaped)
    (fun _ _ _ hc h => let ⟨h₁, h₂, h₃⟩ := cnfNormalize_step hc.1 hc.2 h; ⟨h₁, h₂, h₃⟩)
    (show s.pushAll.circuit.Acyclic ∧ s.pushAll.circuit.Shaped by rw [circuit_pushAll]; exact ⟨ha, hs⟩) h
  rwa [circuit_pushAll] at this

/-- Every run of `BC::cnf_normalize` on an acyclic shaped store that returns is sound: `false`
only when the store has no consistent evaluation, and otherwise a store with its consistent
evaluations, read through a map of the gates that keeps their handles. -/
theorem cnfNormalizePass_sound (ha : s.circuit.Acyclic) (hs : s.circuit.Shaped) {fuel : Nat}
    {r : Bool × BC} (h : s.cnfNormalizePass fuel = some r) : NormalizeOk s.circuit r :=
  normalizeOk_cnfNormalizePass ha hs h

/-- The spec's `[2,2]` over three inputs: its decomposition and the `ATLEAST` array the loop then
builds keep the evaluations. -/
theorem cnfNormalizePass_sound_two_of_three :
    let s : BC := { circuit := ⟨[{ type := .var, children := [] }, { type := .var, children := [] },
      { type := .var, children := [] },
      { type := .threshold, children := [0, 1, 2], tmin := 2, tmax := 2 }]⟩ }
    s.circuit.Acyclic ∧ s.circuit.Shaped ∧
      ∃ r, s.cnfNormalizePass 20 = some r ∧ NormalizeOk s.circuit r :=
  have hacyc : Circuit.Acyclic ⟨[{ type := .var, children := [] }, { type := .var, children := [] },
      { type := .var, children := [] },
      { type := .threshold, children := [0, 1, 2], tmin := 2, tmax := 2 }]⟩ :=
    ⟨.ofCheck (fun g => if g = 3 then 1 else 0) (by decide)⟩
  ⟨hacyc, by decide, _, rfl, @cnfNormalizePass_sound _ hacyc (by decide) 20 _ rfl⟩

/-- The loop leaves the store shaped. -/
theorem cnfNormalizePass_shaped (ha : s.circuit.Acyclic) (hs : s.circuit.Shaped) {fuel : Nat}
    {r : Bool × BC} (h : s.cnfNormalizePass fuel = some r) : r.2.circuit.Shaped :=
  (runStack_invariant _ (fun c => c.Acyclic ∧ c.Shaped)
    (fun _ _ _ hc h => (cnfNormalize_step hc.1 hc.2 h).2)
    (show s.pushAll.circuit.Acyclic ∧ s.pushAll.circuit.Shaped by rw [circuit_pushAll]; exact ⟨ha, hs⟩)
    h).2

/-- `EVEN(a, b, c)` becomes `NOT(ODD(a, b, c))`: the loop keeps the store shaped. -/
theorem cnfNormalizePass_shaped_even :
    let s : BC := { circuit := ⟨[{ type := .var, children := [] }, { type := .var, children := [] },
      { type := .var, children := [] }, { type := .even, children := [0, 1, 2] }]⟩ }
    s.circuit.Acyclic ∧ s.circuit.Shaped ∧
      ∃ r, s.cnfNormalizePass 20 = some r ∧ r.2.circuit.Shaped :=
  have hacyc : Circuit.Acyclic ⟨[{ type := .var, children := [] }, { type := .var, children := [] },
      { type := .var, children := [] }, { type := .even, children := [0, 1, 2] }]⟩ :=
    ⟨.ofCheck (fun g => if g = 3 then 1 else 0) (by decide)⟩
  ⟨hacyc, by decide, _, rfl, @cnfNormalizePass_shaped { circuit := _ } hacyc (by decide) 20 _ rfl⟩

end BC

end BcSat
