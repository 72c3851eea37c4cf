import BcSat.NormalizeAtleast

set_option autoImplicit false

/-!
# One call of `Gate::cnf_normalize`

The switch of `Gate::cnf_normalize` over the cases of `NormalizeSound`, `NormalizeCounting` and
`NormalizeAtleast`. On a well-formed acyclic circuit a call on a live gate returns (it reaches no
`internal_error`, no failed `assert` and no read through a missing child), and what it returns is
sound: `false` only when the circuit has no consistent evaluation, and otherwise a store with the
same consistent evaluations, read through a map of the gates that keeps their handles, the
synthesized gates taking their evaluated values.

Well-formedness is needed: a `REF` over two children is replaced by its first child.
-/

namespace BcSat

namespace BC

variable {s : BC} {g : Nat}

theorem transformIntoConstant_isSome {v : Bool}
    (h : ¬((s.gate g).determined && (s.gate g).value != v) = true) :
    (s.transformIntoConstant g v).isSome := by
  rw [transformIntoConstant, if_neg h]; rfl

theorem normalizeToConstant_isSome (v : Bool) : (s.normalizeToConstant g v).isSome := by
  unfold normalizeToConstant
  split_ifs with h
  · rfl
  · simpa using transformIntoConstant_isSome h

theorem headChild_of_children {ch : Nat} (h : (s.gate g).children = [ch]) :
    s.headChild g = some ch := by
  simp [headChild, h]

section Returns

variable (r : Ranking s.circuit) (hwf : s.circuit.WellFormed)

include r hwf in
theorem normalizeNot_isSome (hg : g < s.size) (ht : (s.gate g).type = .not) :
    (s.normalizeNot g).isSome := by
  obtain ⟨ch, hch, hchl⟩ := unary_child hwf hg (.inr ht)
  have hne : ch ≠ g := child_ne r hg (by simp [hch])
  have hchs : ch < s.size := r.closed g hg ch (by simp [hch])
  simp only [normalizeNot, headChild_of_children hch, Option.some_bind]
  split_ifs with hd hsame hnot
  · rfl
  · simpa using transformIntoConstant_isSome (s := (s.determine ch !(s.gate g).value).addInPstack ch)
      (g := g) (v := (s.gate g).value) (by simp [determine, hne, hd])
  · obtain ⟨gc, hgc, -⟩ := unary_child hwf hchs (.inr hnot)
    simp [headChild_of_children hgc]
  · rfl

include r hwf in
/-- On a well-formed acyclic circuit a call of `Gate::cnf_normalize` on a live gate returns. -/
theorem cnfNormalize_isSome (hg : g < s.size) (hl : (s.gate g).type.Live) :
    (s.cnfNormalize g).isSome := by
  have hcl := r.closed
  cases ht : (s.gate g).type <;> simp only [cnfNormalize, ht]
  case deleted | var | ite | or | and => rfl
  case false | true => unfold normalizeConstant; split_ifs <;> rfl
  case undef => exact absurd ht hl.2
  case ref =>
    obtain ⟨ch, hch, -⟩ := unary_child hwf hg (.inl ht)
    simp [normalizeRef, headChild_of_children hch]
  case not => exact normalizeNot_isSome r hwf hg ht
  case equiv =>
    dsimp only [normalizeEquiv]
    split_ifs
    · exact normalizeToConstant_isSome true
    all_goals rfl
  case even =>
    dsimp only [normalizeEven]
    split_ifs <;> rfl
  case odd =>
    dsimp only [normalizeOdd]
    split_ifs with h₁ h₂
    · rfl
    · rfl
    · simp only [installGate_eq, gate_addInPstack, gate_append_of_lt _ hg]
      split
      · rename_i heq
        have := (hwf g hg hl).2.2 ht
        simp [heq] at this
      · rfl
  case threshold =>
    -- the clip and the unary case first: splitting every condition at once is slow
    dsimp only [normalizeThreshold]
    by_cases h₁ : (s.gate g).children.length < (s.gate g).tmin
    · rw [if_pos h₁]; simp [normalizeToConstant_isSome]
    rw [if_neg h₁]
    by_cases h₂ : min (s.gate g).tmax (s.gate g).children.length < (s.gate g).tmin
    · rw [if_pos h₂]; simp [normalizeToConstant_isSome]
    rw [if_neg h₂]
    by_cases h₃ : (s.gate g).children.length = 1
    · rw [if_pos h₃]
      split_ifs <;> simp [normalizeToConstant_isSome]
      omega
    rw [if_neg h₃]
    split_ifs <;> simp [normalizeToConstant_isSome]
  case atleast =>
    dsimp only [normalizeAtleast]
    split_ifs with h₀ h₁ h₂ h₃
    · simp [normalizeToConstant_isSome]
    · simp [normalizeToConstant_isSome]
    · rfl
    · rfl
    · obtain ⟨s', hrun, -⟩ := atleastRewrite_ok hcl hg ht (by omega) (by omega)
      simp [hrun]

include r hwf in
/-- The switch: every case that returns is sound. -/
theorem cnfNormalize_ok (hg : g < s.size) {res : Bool × BC} (h : s.cnfNormalize g = some res) :
    NormalizeOk s.circuit res := by
  have hcl := r.closed
  cases ht : (s.gate g).type <;> simp only [cnfNormalize, ht] at h
  case deleted | var | ite => cases h; exact normalizeOk_true (.refl _)
  case undef => cases h
  case false =>
    exact normalizeConstant_ok hg (by rw [ht]; decide) (by rw [ht]; decide) (fun _ => by rw [ht]; rfl) h
  case true =>
    exact normalizeConstant_ok hg (by rw [ht]; decide) (by rw [ht]; decide) (fun _ => by rw [ht]; rfl) h
  case ref => exact normalizeRef_ok r hwf hg ht h
  case not => exact normalizeNot_ok r hwf hg ht h
  case or => exact normalizeOrAnd_ok hg (.inl ht) h
  case and => exact normalizeOrAnd_ok hg (.inr ht) h
  case equiv => exact normalizeEquiv_ok hcl hg ht h
  case even => exact normalizeEven_ok hcl hg ht h
  case odd => exact normalizeOdd_ok hcl hg ht h
  case threshold => exact normalizeThreshold_ok hcl hg ht h
  case atleast => exact normalizeAtleast_ok hcl hg ht h

end Returns

/-- One call of `Gate::cnf_normalize` on a live gate of a well-formed acyclic circuit returns;
it returns `false` only when the circuit has no consistent evaluation, and otherwise a store whose
consistent evaluations are those of the circuit, read through a map of the gates that keeps their
handles, the synthesized gates taking their evaluated values. -/
theorem cnfNormalize_sound (hacyc : s.circuit.Acyclic) (hwf : s.circuit.WellFormed)
    (hg : g < s.size) (hl : (s.gate g).type.Live) :
    ∃ res, s.cnfNormalize g = some res ∧ NormalizeOk s.circuit res := by
  obtain ⟨r⟩ := hacyc
  obtain ⟨res, h⟩ := Option.isSome_iff_exists.1 (cnfNormalize_isSome r hwf hg hl)
  exact ⟨res, h, cnfNormalize_ok r hwf hg h⟩

/-- The spec's scenario: `[2,2]` over three inputs becomes `AND(ATLEAST(2), NOT(ATLEAST(3)))`. -/
theorem cnfNormalize_sound_two_of_three :
    let s : BC := { circuit := ⟨[{ type := .var, children := [] }, { type := .var, children := [] },
      { type := .var, children := [] },
      { type := .threshold, children := [0, 1, 2], tmin := 2, tmax := 2 }]⟩ }
    s.circuit.Acyclic ∧ s.circuit.WellFormed ∧ 3 < s.size ∧ (s.gate 3).type.Live ∧
      ∃ res, s.cnfNormalize 3 = some res ∧ NormalizeOk s.circuit res :=
  have hacyc : Circuit.Acyclic ⟨[{ type := .var, children := [] }, { type := .var, children := [] },
      { type := .var, children := [] },
      { type := .threshold, children := [0, 1, 2], tmin := 2, tmax := 2 }]⟩ :=
    ⟨.ofCheck (fun g => if g = 3 then 1 else 0) (by decide)⟩
  ⟨hacyc, by decide, by decide, by decide, cnfNormalize_sound hacyc (by decide) (by decide) (by decide)⟩

end BC

end BcSat
