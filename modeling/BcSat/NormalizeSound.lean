import Mathlib.Data.List.GetD
import BcSat.Normalize

set_option autoImplicit false

/-!
# One normalization step keeps the evaluations

A call of `Gate::cnf_normalize` rewrites one gate, may append gates, may redirect the parents and
handles of a deleted gate, and may determine a child. The evaluations it keeps are read through a
map `ρ` from the old gates to the new ones (a deleted gate is read at its replacement): every
consistent evaluation of the old store extends to the new one, the gates it adds taking their
evaluated values, and every consistent evaluation of the new store read through `ρ` is one of the
old. A call that returns false does so only on a store without consistent evaluation.
-/

namespace BcSat

/-- Gate `gt` with value `v` over the child values `vs` respects its function and its
determined value. -/
def Gate.Holds (gt : Gate) (v : Bool) (vs : List Bool) : Prop :=
  gt.type.Live →
    (gt.type ≠ .var → v = gt.type.eval gt.tmin gt.tmax vs) ∧ (gt.determined → v = gt.value)

theorem Gate.holds_congr {gt gt' : Gate} (h₁ : gt'.type = gt.type) (h₂ : gt'.tmin = gt.tmin)
    (h₃ : gt'.tmax = gt.tmax) (h₄ : gt'.determined = gt.determined) (h₅ : gt'.value = gt.value)
    {v : Bool} {vs : List Bool} : gt'.Holds v vs ↔ gt.Holds v vs := by
  simp only [Gate.Holds, h₁, h₂, h₃, h₄, h₅]

theorem map_redirect {σ : Nat → Bool} {g x : Nat} (h : σ g = σ x) (chs : List Nat) :
    (chs.map fun z => if z = g then x else z).map σ = chs.map σ := by
  rw [List.map_map]
  exact List.map_congr_left fun z _ => by by_cases hz : z = g <;> simp [hz, h]

theorem Circuit.Closed.setValue {c : Circuit} (h : c.Closed) (x : Nat) (v : Bool) :
    (c.setValue x v).Closed := by
  intro y hy ch hch
  simp only [Circuit.setValue, Circuit.size_modify, Circuit.gate_modify] at hy hch ⊢
  split_ifs at hch <;> exact h y hy ch hch

theorem GateType.eval_even_eq_not_odd (lo hi lo' hi' : Nat) (vs : List Bool) :
    GateType.even.eval lo hi vs = !GateType.odd.eval lo' hi' vs := by
  simp only [GateType.eval]
  rcases Nat.mod_two_eq_zero_or_one (vs.count Bool.true) with h | h <;> simp [h]

theorem GateType.eval_odd_cons (lo hi lo' hi' : Nat) (b : Bool) (vs : List Bool) :
    GateType.odd.eval lo hi (b :: vs) = (b != GateType.odd.eval lo' hi' vs) := by
  simp only [GateType.eval, List.count_cons]
  rcases Nat.mod_two_eq_zero_or_one (vs.count Bool.true) with h | h <;> cases b <;>
    simp [h, Nat.add_mod]

theorem GateType.eval_reverse {t : GateType} (ht : t ≠ .ite) (lo hi : Nat) (vs : List Bool) :
    t.eval lo hi vs.reverse = t.eval lo hi vs := by
  cases t <;> simp_all [GateType.eval, List.count_reverse]

theorem GateType.eval_and_eq_true {lo hi : Nat} {vs : List Bool} :
    GateType.and.eval lo hi vs = Bool.true ↔ ∀ v ∈ vs, v = Bool.true := by
  simp only [GateType.eval, beq_iff_eq, List.count_eq_zero]
  exact ⟨fun h v hv => by cases v <;> simp_all, fun h hf => absurd (h _ hf) Bool.false_ne_true⟩

@[simp] theorem GateType.eval_or_two (lo hi : Nat) (v₁ v₂ : Bool) :
    GateType.or.eval lo hi [v₁, v₂] = (v₁ || v₂) := by
  cases v₁ <;> cases v₂ <;> rfl

@[simp] theorem GateType.eval_and_two (lo hi : Nat) (v₁ v₂ : Bool) :
    GateType.and.eval lo hi [v₁, v₂] = (v₁ && v₂) := by
  cases v₁ <;> cases v₂ <;> rfl

theorem GateType.eval_equiv_eq_true {lo hi : Nat} {vs : List Bool} :
    GateType.equiv.eval lo hi vs = Bool.true ↔
      (∀ v ∈ vs, v = Bool.true) ∨ ∀ v ∈ vs, v = Bool.false := by
  simp only [GateType.eval, Bool.not_eq_true', Bool.and_eq_false_iff, decide_eq_false_iff_not,
    Nat.not_lt, Nat.le_zero, List.count_eq_zero]
  constructor
  · rintro (h | h) <;> [right; left] <;> intro v hv <;> cases v <;> simp_all
  · rintro (h | h) <;> [right; left] <;> intro hv <;> simpa using h _ hv

theorem Gate.holds_iff_of_eval {gt gt' : Gate} (hl' : gt'.type.Live) (hl : gt.type.Live)
    (hv' : gt'.type ≠ .var) (hv : gt.type ≠ .var) (hd : gt'.determined = gt.determined)
    (hval : gt'.value = gt.value) {v : Bool} {vs' vs : List Bool}
    (he : gt'.type.eval gt'.tmin gt'.tmax vs' = gt.type.eval gt.tmin gt.tmax vs) :
    gt'.Holds v vs' ↔ gt.Holds v vs := by
  simp [Gate.Holds, hl, hl', hv, hv', hd, hval, he]

namespace Circuit

variable {c c' : Circuit} {σ : Nat → Bool} {x : Nat}

theorem evalFrom_stable {fix : Nat → Option Bool} {rk : Nat → Nat}
    (hrk : ∀ y, fix y = none → ∀ ch ∈ (c.gate y).children, rk ch < rk y) :
    ∀ {y : Nat} (f₁ f₂ : Nat), rk y < f₁ → rk y < f₂ → c.evalFrom fix f₁ y = c.evalFrom fix f₂ y
  | _, 0, _, h, _ => absurd h (Nat.not_lt_zero _)
  | _, _ + 1, 0, _, h => absurd h (Nat.not_lt_zero _)
  | y, f₁ + 1, f₂ + 1, h₁, h₂ => by
    simp only [Circuit.evalFrom]
    cases hy : fix y with
    | some b => rfl
    | none =>
      have hmap : (c.gate y).children.map (c.evalFrom fix f₁) =
          (c.gate y).children.map (c.evalFrom fix f₂) := List.map_congr_left fun ch hch => by
        have := hrk y hy ch hch
        exact evalFrom_stable hrk f₁ f₂ (by omega) (by omega)
      rw [hmap]

theorem gateOk_iff : c.GateOk σ x ↔ (c.gate x).Holds (σ x) ((c.gate x).children.map σ) :=
  Iff.rfl

theorem GateOk.eval (h : c.GateOk σ x) (hl : (c.gate x).type.Live) (hv : (c.gate x).type ≠ .var) :
    σ x = (c.gate x).type.eval (c.gate x).tmin (c.gate x).tmax ((c.gate x).children.map σ) :=
  (h hl).1 hv

theorem GateOk.det (h : c.GateOk σ x) (hl : (c.gate x).type.Live) (hd : (c.gate x).determined) :
    σ x = (c.gate x).value :=
  (h hl).2 hd

section

variable {g : Nat}

/-- Every gate of `c` but `g` holds under `σ`. -/
def ConsistentBut (c : Circuit) (σ : Nat → Bool) (g : Nat) : Prop :=
  ∀ x < c.size, x ≠ g → c.GateOk σ x

namespace ConsistentBut

theorem consistent (h : c.ConsistentBut σ g) (hg : g < c.size → c.GateOk σ g) : c.Consistent σ :=
  fun x hx => if hxg : x = g then hxg ▸ hg (hxg ▸ hx) else h x hx hxg

theorem eval (h : c.ConsistentBut σ g) (hx : x < c.size) (hxg : x ≠ g) (hl : (c.gate x).type.Live)
    (hv : (c.gate x).type ≠ .var) :
    σ x = (c.gate x).type.eval (c.gate x).tmin (c.gate x).tmax ((c.gate x).children.map σ) :=
  (h x hx hxg).eval hl hv

theorem det (h : c.ConsistentBut σ g) (hx : x < c.size) (hxg : x ≠ g) (hl : (c.gate x).type.Live)
    (hd : (c.gate x).determined) : σ x = (c.gate x).value :=
  (h x hx hxg).det hl hd

end ConsistentBut

theorem Consistent.but (hσ : c.Consistent σ) (g : Nat) : c.ConsistentBut σ g := fun x hx _ => hσ x hx

end

/-- `c'` has the consistent evaluations of `c`, gate `x` of `c` being read at `ρ x` in `c'`:
every consistent evaluation of `c` extends to one of `c'`, every consistent evaluation of `c'`
read through `ρ` is one of `c`, and the handles of `x` are at `ρ x`. -/
structure SameEvaluations (c c' : Circuit) (ρ : Nat → Nat) : Prop where
  lt : ∀ x < c.size, ρ x < c'.size
  handles : ∀ x < c.size, ∀ hd ∈ (c.gate x).handles, hd ∈ (c'.gate (ρ x)).handles
  extend : ∀ σ, c.Consistent σ → ∃ σ', c'.Consistent σ' ∧ ∀ x < c.size, σ' (ρ x) = σ x
  restrict : ∀ σ', c'.Consistent σ' → c.Consistent (σ' ∘ ρ)

namespace SameEvaluations

theorem refl (c : Circuit) : c.SameEvaluations c id where
  lt _ hx := hx
  handles _ _ _ hmem := hmem
  extend σ hσ := ⟨σ, hσ, fun _ _ => rfl⟩
  restrict _ hσ := hσ

theorem trans {c₁ c₂ c₃ : Circuit} {ρ₁ ρ₂ : Nat → Nat} (h₁ : c₁.SameEvaluations c₂ ρ₁)
    (h₂ : c₂.SameEvaluations c₃ ρ₂) : c₁.SameEvaluations c₃ (ρ₂ ∘ ρ₁) where
  lt x hx := h₂.lt _ (h₁.lt x hx)
  handles x hx hd hmem := h₂.handles _ (h₁.lt x hx) hd (h₁.handles x hx hd hmem)
  extend σ hσ := by
    obtain ⟨σ₂, hσ₂, hag₂⟩ := h₁.extend σ hσ
    obtain ⟨σ₃, hσ₃, hag₃⟩ := h₂.extend σ₂ hσ₂
    exact ⟨σ₃, hσ₃, fun x hx => (hag₃ _ (h₁.lt x hx)).trans (hag₂ x hx)⟩
  restrict σ' hσ' := h₁.restrict _ (h₂.restrict σ' hσ')

theorem inPlace (g : Nat) (hcl : c.Closed) (hsize : c.size ≤ c'.size)
    (hframe : ∀ x < c.size, x ≠ g → c'.gate x = c.gate x)
    (hhandles : (c'.gate g).handles = (c.gate g).handles)
    (hext : ∀ σ, c.Consistent σ → ∃ σ' : Nat → Bool, (∀ x < c.size, σ' x = σ x) ∧
      ∀ x < c'.size, (x = g ∨ c.size ≤ x) → c'.GateOk σ' x)
    (hres : ∀ σ', c'.Consistent σ' → c.GateOk σ' g) : c.SameEvaluations c' id where
  lt x hx := lt_of_lt_of_le hx hsize
  handles x hx hd hmem := by
    by_cases hxg : x = g
    · subst hxg; simpa [hhandles] using hmem
    · simpa [hframe x hx hxg] using hmem
  extend σ hσ := by
    obtain ⟨σ', hagree, hnew⟩ := hext σ hσ
    refine ⟨σ', fun x hx => ?_, hagree⟩
    by_cases hold : x < c.size ∧ x ≠ g
    · have hch : (c.gate x).children.map σ' = (c.gate x).children.map σ :=
        List.map_congr_left fun ch hch => hagree ch (hcl x hold.1 ch hch)
      rw [gateOk_iff, hframe x hold.1 hold.2, hagree x hold.1, hch]
      exact hσ x hold.1
    · exact hnew x hx (by omega)
  restrict σ' hσ' x hx := by
    by_cases hxg : x = g
    · subst hxg; exact hres σ' hσ'
    · have h := hσ' x (lt_of_lt_of_le hx hsize)
      rwa [gateOk_iff, hframe x hx hxg] at h

theorem of_holds (hsize : c'.size = c.size) (hch : ∀ x, (c'.gate x).children = (c.gate x).children)
    (hhandles : ∀ x, (c'.gate x).handles = (c.gate x).handles)
    (hholds : ∀ σ x, (c'.gate x).Holds (σ x) ((c.gate x).children.map σ) ↔
      (c.gate x).Holds (σ x) ((c.gate x).children.map σ)) : c.SameEvaluations c' id where
  lt x hx := hsize ▸ hx
  handles x _ hd hmem := by rw [id, hhandles]; exact hmem
  extend σ hσ := ⟨σ, fun x hx => by
    rw [gateOk_iff, hch, hholds]; exact hσ x (hsize ▸ hx), fun _ _ => rfl⟩
  restrict σ' hσ' x hx := by
    have h := hσ' x (hsize ▸ hx)
    rwa [gateOk_iff, hch, hholds] at h

theorem setValue {v : Bool} (hdet : (c.gate x).determined → (c.gate x).value = v)
    (hforced : ∀ σ, c.Consistent σ → σ x = v) : c.SameEvaluations (c.setValue x v) id where
  lt y hy := by simpa [Circuit.setValue] using hy
  handles y _ hd hmem := by
    simp only [Circuit.setValue, Circuit.gate_modify]; split_ifs <;> simpa using hmem
  extend σ hσ := by
    refine ⟨σ, fun y hy => ?_, fun _ _ => rfl⟩
    have h := hσ y (by simpa [Circuit.setValue] using hy)
    simp only [Circuit.setValue, gateOk_iff, Circuit.gate_modify] at h ⊢
    split_ifs with hxy
    · obtain ⟨rfl, -⟩ := hxy
      exact fun hl => ⟨(h hl).1, fun _ => hforced σ hσ⟩
    · exact h
  restrict σ' hσ' y hy := by
    have h := hσ' y (by simpa [Circuit.setValue] using hy)
    simp only [Circuit.setValue, gateOk_iff, Circuit.gate_modify] at h ⊢
    split_ifs at h with hxy
    · obtain ⟨rfl, -⟩ := hxy
      exact fun hl => ⟨(h hl).1, fun hd => ((h hl).2 rfl).trans (hdet hd).symm⟩
    · exact h

theorem expand (g : Nat) (hg : g < c.size) (hcl : c.Closed) (hsize : c.size ≤ c'.size)
    (hframe : ∀ x < c.size, x ≠ g → c'.gate x = c.gate x)
    (hhandles : (c'.gate g).handles = (c.gate g).handles) (rk : Nat → Nat)
    (hrk : ∀ y, c.size ≤ y → y < c'.size → ∀ ch ∈ (c'.gate y).children, rk ch < rk y)
    (hfresh : ∀ y, c.size ≤ y → y < c'.size → (c'.gate y).determined = false)
    (hnew : ∀ σ : Nat → Bool, (∀ y, c.size ≤ y → y < c'.size → c'.GateOk σ y) →
      ((c'.gate g).Holds (σ g) ((c'.gate g).children.map σ) ↔
        (c.gate g).Holds (σ g) ((c.gate g).children.map σ))) :
    c.SameEvaluations c' id := by
  refine inPlace g hcl hsize hframe hhandles (fun σ hσ => ?_) fun σ' hσ' => ?_
  · let fix : Nat → Option Bool := fun y => if y < c.size then some (σ y) else none
    have hrk' : ∀ y, fix y = none → ∀ ch ∈ (c'.gate y).children, rk ch < rk y := by
      intro y hy ch hch
      have hy' : c.size ≤ y := by
        by_contra hlt; simp [fix, not_le.1 hlt] at hy
      by_cases hyc : y < c'.size
      · exact hrk y hy' hyc ch hch
      · simp [Circuit.gate_of_size_le _ (not_lt.1 hyc), Gate.none] at hch
    let V : Nat → Bool := fun y => c'.evalFrom fix (rk y + 1) y
    have hold : ∀ x < c.size, V x = σ x := fun x hx => by simp [V, Circuit.evalFrom, fix, hx]
    have hgates : ∀ y, c.size ≤ y → y < c'.size → c'.GateOk V y := by
      intro y hy hyc _
      refine ⟨fun hv => ?_, fun hd => absurd hd (by simp [hfresh y hy hyc])⟩
      have hmap : (c'.gate y).children.map V = (c'.gate y).children.map (c'.evalFrom fix (rk y)) :=
        List.map_congr_left fun ch hch =>
          evalFrom_stable hrk' _ _ (Nat.lt_succ_self _) (hrk y hy hyc ch hch)
      show c'.evalFrom fix (rk y + 1) y = _
      rw [hmap, Circuit.evalFrom]
      simp only [fix, if_neg (not_lt.2 hy), if_neg hv]
    refine ⟨V, hold, fun y hy hy' => ?_⟩
    rcases hy' with rfl | hy'
    · have hch : (c.gate y).children.map V = (c.gate y).children.map σ :=
        List.map_congr_left fun ch hch => hold ch (hcl y hg ch hch)
      rw [gateOk_iff, hnew V hgates, hold y hg, hch]
      exact hσ y hg
    · exact hgates y hy' hy
  · have h := hσ' g (lt_of_lt_of_le hg hsize)
    rw [gateOk_iff, hnew σ' fun y hy hyc => hσ' y hyc] at h
    exact h

end SameEvaluations

/-- The shape `cnf_normalize` relies on: the children of a live gate are live, a `REF` or a
`NOT` has one child (`DEBUG_ASSERT(count_children() == 1)`) and an `ODD` at least one. -/
def WellFormed (c : Circuit) : Prop :=
  ∀ x < c.size, (c.gate x).type.Live → (∀ ch ∈ (c.gate x).children, (c.gate ch).type.Live) ∧
    ((c.gate x).type = .ref ∨ (c.gate x).type = .not → (c.gate x).children.length = 1) ∧
    ((c.gate x).type = .odd → 0 < (c.gate x).children.length)

instance (c : Circuit) : Decidable c.WellFormed := inferInstanceAs (Decidable (∀ x < c.size, _))

end Circuit

namespace BC

variable {s : BC} {g x : Nat}

/-- What one call of `Gate::cnf_normalize` may do: return false on a store without consistent
evaluation, or keep the evaluations of the store. -/
def NormalizeOk (c : Circuit) : Bool × BC → Prop
  | (ok, s') => (ok = false → ¬c.Satisfiable) ∧ (ok = true → ∃ ρ, c.SameEvaluations s'.circuit ρ)

theorem normalizeOk_false {c : Circuit} {s' : BC} (h : ¬c.Satisfiable) : NormalizeOk c (false, s') :=
  ⟨fun _ => h, fun h => Bool.noConfusion h⟩

theorem normalizeOk_true {c : Circuit} {s' : BC} {ρ : Nat → Nat} (h : c.SameEvaluations s'.circuit ρ) :
    NormalizeOk c (true, s') :=
  ⟨fun h => Bool.noConfusion h, fun _ => ⟨ρ, h⟩⟩

theorem NormalizeOk.of_circuit_eq {c : Circuit} {ok : Bool} {s' s'' : BC} (h : NormalizeOk c (ok, s'))
    (e : s''.circuit = s'.circuit) : NormalizeOk c (ok, s'') :=
  ⟨h.1, fun hok => (h.2 hok).imp fun _ hρ => e ▸ hρ⟩

theorem gate_replaceBy (hg : g < s.size) (hx : x < s.size) (hne : x ≠ g) (y : Nat) :
    (s.replaceBy g x).gate y = if y = g then
      { s.gate g with type := .deleted, children := [], handles := [] } else
      { s.gate y with children := (s.gate y).children.map fun z => if z = g then x else z,
                      handles := if y = x then (s.gate g).handles ++ (s.gate y).handles
                        else (s.gate y).handles } := by
  simp only [replaceBy, moveHandles, removeAllChildren, setChildren, setType]
  by_cases hyg : y = g
  · subst hyg; simp [gate_modify, gate_redirectParents, hg, hne]
  · by_cases hyx : y = x
    · subst hyx; simp [gate_modify, gate_redirectParents, hx, hyg, Ne.symm hyg]
    · simp [gate_modify, gate_redirectParents, hyg, hyx, Ne.symm hyg, Ne.symm hyx]

@[simp] theorem size_moveChildren (relink : Bool) (h : Nat) :
    (s.moveChildren relink g h).size = s.size := by
  simp [moveChildren]

@[simp] theorem size_replaceBy : (s.replaceBy g x).size = s.size := by
  simp [replaceBy, moveHandles, removeAllChildren, setChildren, setType]

theorem sameEvaluations_replaceBy (hg : g < s.size) (hx : x < s.size) (hne : x ≠ g)
    (hext : ∀ σ, s.circuit.Consistent σ → σ g = σ x)
    (hres : ∀ σ', (s.replaceBy g x).circuit.Consistent σ' →
      s.circuit.GateOk (σ' ∘ fun y => if y = g then x else y) g) :
    s.circuit.SameEvaluations (s.replaceBy g x).circuit fun y => if y = g then x else y where
  lt y hy := by
    simp only [BC.circuit_size, size_replaceBy] at hy ⊢
    split_ifs <;> omega
  handles y hy hd hmem := by
    simp only [BC.circuit_gate] at hmem ⊢
    by_cases hyg : y = g
    · subst hyg; simp [gate_replaceBy hy hx hne, hne, hmem]
    · rw [if_neg hyg, gate_replaceBy hg hx hne, if_neg hyg]
      split_ifs <;> simp [hmem]
  extend σ hσ := by
    refine ⟨σ, fun y hy => ?_, fun y _ => ?_⟩
    · rw [Circuit.gateOk_iff, BC.circuit_gate, gate_replaceBy hg hx hne]
      by_cases hyg : y = g
      · rw [if_pos hyg]; exact fun hl => absurd rfl hl.1
      · rw [if_neg hyg]
        have hold := hσ y (by simpa only [BC.circuit_size, size_replaceBy] using hy)
        rw [Circuit.gateOk_iff, BC.circuit_gate] at hold
        rwa [Gate.holds_congr rfl rfl rfl rfl rfl, map_redirect (hext σ hσ)]
    · by_cases hyg : y = g
      · simp [hyg, hext σ hσ]
      · simp [hyg]
  restrict σ' hσ' y hy := by
    by_cases hyg : y = g
    · subst hyg; exact hres σ' hσ'
    · have hnew := hσ' y (by simpa only [BC.circuit_size, size_replaceBy] using hy)
      rw [Circuit.gateOk_iff, BC.circuit_gate, gate_replaceBy hg hx hne, if_neg hyg, List.map_map,
        Gate.holds_congr rfl rfl rfl rfl rfl] at hnew
      rw [Circuit.gateOk_iff, BC.circuit_gate]
      simpa [hyg] using hnew

theorem consistent_eval {σ : Nat → Bool} (hσ : s.circuit.Consistent σ) (hx : x < s.size)
    (hl : (s.gate x).type.Live) (hv : (s.gate x).type ≠ .var) :
    σ x = (s.gate x).type.eval (s.gate x).tmin (s.gate x).tmax ((s.gate x).children.map σ) :=
  (hσ x hx).eval hl hv

theorem consistent_det {σ : Nat → Bool} (hσ : s.circuit.Consistent σ) (hx : x < s.size)
    (hl : (s.gate x).type.Live) (hd : (s.gate x).determined) : σ x = (s.gate x).value :=
  (hσ x hx).det hl hd

theorem sameEvaluations_transformIntoConstant (hcl : s.circuit.Closed) (hg : g < s.size)
    {v : Bool} {s' : BC} (h : s.transformIntoConstant g v = some s')
    (hforced : ∀ σ, s.circuit.Consistent σ → σ g = v)
    (hres : ∀ σ', s'.circuit.Consistent σ' → σ' g = v → s.circuit.GateOk σ' g) :
    s.circuit.SameEvaluations s'.circuit id := by
  obtain ⟨hsize, hgate⟩ := transformIntoConstant_gate hg h
  have hnew : s'.gate g = { s.gate g with determined := true, value := v,
                                          type := if v then .true else .false, children := [] } := by
    simp [hgate]
  have hl : (s'.gate g).type.Live := by rw [hnew]; cases v <;> simp [GateType.Live]
  refine Circuit.SameEvaluations.inPlace g hcl (by simp [hsize])
    (fun x _ hx => by simp [hgate, hx]) (by simp [hnew]) (fun σ hσ => ⟨σ, fun _ _ => rfl,
      fun x hx hx' => ?_⟩) fun σ' hσ' => hres σ' hσ' ?_
  · obtain rfl : x = g := by simp only [BC.circuit_size, hsize] at hx hx'; omega
    rw [Circuit.gateOk_iff, BC.circuit_gate, hnew]
    refine fun _ => ⟨fun _ => ?_, fun _ => hforced σ hσ⟩
    cases v <;> simp [GateType.eval, hforced σ hσ]
  · have := consistent_det hσ' (by simpa [hsize] using hg) hl (by simp [hnew])
    simpa [hnew] using this

theorem sameEvaluations_rewrite {s' : BC} (g : Nat) (hsize : s'.size = s.size)
    (hgate : ∀ x, x ≠ g → s'.gate x = s.gate x)
    (hch : (s'.gate g).children = (s.gate g).children)
    (hhandles : (s'.gate g).handles = (s.gate g).handles)
    (hholds : ∀ v vs, vs.length = (s.gate g).children.length →
      ((s'.gate g).Holds v vs ↔ (s.gate g).Holds v vs)) :
    s.circuit.SameEvaluations s'.circuit id := by
  refine Circuit.SameEvaluations.of_holds hsize (fun x => ?_) (fun x => ?_) fun σ x => ?_ <;>
    simp only [BC.circuit_gate] <;> by_cases hx : x = g
  all_goals first
    | (subst hx; first | exact hch | exact hhandles | exact hholds _ _ (by simp))
    | rw [hgate x hx]

theorem normalizeToConstant_ok (hcl : s.circuit.Closed) (hg : g < s.size) {v : Bool}
    (hl : (s.gate g).type.Live) (hv : (s.gate g).type ≠ .var)
    (hconst : ∀ σ : Nat → Bool,
      (s.gate g).type.eval (s.gate g).tmin (s.gate g).tmax ((s.gate g).children.map σ) = v)
    {res : Bool × BC} (h : s.normalizeToConstant g v = some res) : NormalizeOk s.circuit res := by
  have hforced : ∀ σ, s.circuit.Consistent σ → σ g = v := fun σ hσ =>
    (consistent_eval hσ hg hl hv).trans (hconst σ)
  unfold normalizeToConstant at h
  split_ifs at h with hc
  · cases h
    refine normalizeOk_false fun ⟨σ, hσ⟩ => ?_
    simp only [Bool.and_eq_true, bne_iff_ne, ne_eq] at hc
    exact hc.2 ((consistent_det hσ hg hl hc.1).symm.trans (hforced σ hσ))
  · obtain ⟨s', hs', rfl⟩ := Option.map_eq_some'.1 h
    refine normalizeOk_true (sameEvaluations_transformIntoConstant hcl hg hs' hforced
      fun σ' _ hgv => fun _ => ⟨fun _ => hgv.trans (hconst σ').symm, fun hd => hgv.trans ?_⟩)
    simp only [Bool.and_eq_true, bne_iff_ne, ne_eq, not_and, not_not] at hc
    exact (hc hd).symm

@[simp] theorem size_addNotChild (a ch : Nat) : (addNotChild a s ch).size = s.size + 1 := by
  simp [addNotChild]

theorem gate_addNotChild {a : Nat} (ha : a < s.size) (ch : Nat) :
    (addNotChild a s ch).gate x = if x = a then { s.gate a with children := s.size :: (s.gate a).children }
      else if x = s.size then { type := .not, children := [ch] } else s.gate x := by
  by_cases hxa : x = a
  · subst hxa
    simp [addNotChild, addChild, setChildren, ha, Nat.lt_succ_of_lt ha]
  · simp [addNotChild, addChild, setChildren, hxa, Ne.symm hxa, gate_append]

theorem foldl_addNotChild {a : Nat} : ∀ (chs : List Nat) (s : BC), a < s.size →
    (chs.foldl (addNotChild a) s).size = s.size + chs.length ∧
    ∀ x, (chs.foldl (addNotChild a) s).gate x =
      if x = a then { s.gate a with children :=
        ((List.range chs.length).map (s.size + ·)).reverse ++ (s.gate a).children }
      else if s.size ≤ x ∧ x < s.size + chs.length then
        { type := .not, children := [chs.getD (x - s.size) 0] }
      else s.gate x
  | [], s, _ => by
    refine ⟨by simp, fun x => ?_⟩
    split_ifs with h₁ h₂
    · subst h₁; rfl
    · simp only [List.length_nil, Nat.add_zero] at h₂; omega
    · rfl
  | c :: rest, s, ha => by
    have ha' : a < (addNotChild a s c).size := by rw [size_addNotChild]; omega
    obtain ⟨hsize, hgate⟩ := foldl_addNotChild rest (addNotChild a s c) ha'
    rw [List.foldl_cons]
    refine ⟨by rw [hsize, size_addNotChild, List.length_cons]; omega, fun x => ?_⟩
    rw [hgate, size_addNotChild]
    by_cases hxa : x = a
    · subst hxa
      have hL : ((List.range (rest.length + 1)).map (s.size + ·)).reverse =
          ((List.range rest.length).map (s.size + 1 + ·)).reverse ++ [s.size] := by
        rw [List.range_succ_eq_map, List.map_cons, List.map_map, List.reverse_cons]
        congr 3
        funext i; simp only [Function.comp, Nat.succ_eq_add_one]; omega
      simp [gate_addNotChild ha, hL]
    · simp only [gate_addNotChild ha, hxa, if_false, List.length_cons]
      by_cases hxN : x = s.size
      · subst hxN; simp
      · rw [if_neg hxN]
        by_cases hlo : s.size + 1 ≤ x ∧ x < s.size + 1 + rest.length
        · rw [if_pos hlo, if_pos (by omega)]
          obtain ⟨k, rfl⟩ : ∃ k, x = s.size + 1 + k := ⟨x - (s.size + 1), by omega⟩
          simp [show s.size + 1 + k - s.size = k + 1 by omega]
        · rw [if_neg hlo, if_neg (by omega)]

section Cases

variable (r : Ranking s.circuit) (hwf : s.circuit.WellFormed)

include r in
theorem child_ne (hg : g < s.size) {ch : Nat} (hch : ch ∈ (s.gate g).children) : ch ≠ g := by
  intro h
  have := (r.child_lt g hg ch hch).2
  rw [h] at this
  exact Nat.lt_irrefl _ this

include hwf in
theorem unary_child (hg : g < s.size) (ht : (s.gate g).type = .ref ∨ (s.gate g).type = .not) :
    ∃ ch, (s.gate g).children = [ch] ∧ (s.gate ch).type.Live := by
  have hl : (s.gate g).type.Live := by rcases ht with ht | ht <;> rw [ht] <;> decide
  obtain ⟨hlive, har, -⟩ := hwf g hg hl
  simp only [BC.circuit_gate] at hlive har
  obtain ⟨ch, hch⟩ := List.length_eq_one.1 (har ht)
  exact ⟨ch, hch, hlive ch (by simp [hch])⟩

include r hwf in
theorem normalizeRef_ok (hg : g < s.size) (ht : (s.gate g).type = .ref) {res : Bool × BC}
    (h : s.normalizeRef g = some res) : NormalizeOk s.circuit res := by
  obtain ⟨ch, hch, hchl⟩ := unary_child hwf hg (.inl ht)
  have hmem : ch ∈ (s.gate g).children := by simp [hch]
  have hchs : ch < s.size := r.closed g hg ch hmem
  have hne := child_ne r hg hmem
  have hl : (s.gate g).type.Live := by rw [ht]; decide
  have hv : (s.gate g).type ≠ .var := by rw [ht]; decide
  have hsem : ∀ σ, s.circuit.Consistent σ → σ g = σ ch := fun σ hσ => by
    simpa [ht, hch] using consistent_eval hσ hg hl hv
  simp only [normalizeRef, headChild, hch, List.head?_cons, Option.map_some', Option.some.injEq] at h
  subst h
  by_cases hc : ((s.gate g).determined && (s.gate ch).determined &&
      (s.gate g).value != (s.gate ch).value) = true
  · rw [if_pos hc]
    refine normalizeOk_false fun ⟨σ, hσ⟩ => ?_
    simp only [Bool.and_eq_true, bne_iff_ne, ne_eq] at hc
    exact hc.2 (((consistent_det hσ hg hl hc.1.1).symm.trans (hsem σ hσ)).trans
      (consistent_det hσ hchs hchl hc.1.2))
  rw [if_neg hc]
  -- the store once the value of `g` has gone down to `ch`
  have key : ∀ s₁ : BC, s.circuit.SameEvaluations s₁.circuit id → s₁.size = s.size →
      s₁.gate g = s.gate g → (s₁.gate ch).type.Live →
      ((s.gate g).determined → (s₁.gate ch).determined ∧ (s₁.gate ch).value = (s.gate g).value) →
      NormalizeOk s.circuit (true, s₁.replaceBy g ch) := by
    intro s₁ h₁ hsize hgate hchl₁ hdet₁
    refine normalizeOk_true (h₁.trans (sameEvaluations_replaceBy (hsize ▸ hg) (hsize ▸ hchs) hne
      (fun σ hσ => ?_) fun σ' hσ' => ?_))
    · have e := consistent_eval hσ (hsize ▸ hg) (by rw [hgate]; exact hl) (by rw [hgate]; exact hv)
      simpa [hgate, ht, hch] using e
    · have hnew := hσ' ch (by simpa [hsize] using hchs)
      rw [Circuit.gateOk_iff, BC.circuit_gate, gate_replaceBy (hsize ▸ hg) (hsize ▸ hchs) hne,
        if_neg hne, Gate.holds_congr rfl rfl rfl rfl rfl] at hnew
      rw [Circuit.gateOk_iff, BC.circuit_gate, hgate]
      refine fun _ => ⟨fun _ => by simp [ht, hch, hne], fun hd => ?_⟩
      obtain ⟨hd₁, hval⟩ := hdet₁ hd
      simpa [hne, hval] using ((hnew hchl₁).2 hd₁)
  split_ifs with hd
  · refine key _ ?_ (by simp [determine]) (by simp [determine, hne]) ?_ fun _ => ?_
    · simp only [BC.circuit_addInPstack]
      refine Circuit.SameEvaluations.setValue (fun hchd => ?_) fun σ hσ => ?_
      · have hc' : (s.gate ch).determined → (s.gate g).value = (s.gate ch).value := by
          simpa [hd] using hc
        exact (hc' hchd).symm
      · exact (hsem σ hσ).symm.trans (consistent_det hσ hg hl hd)
    · simpa [determine, hchs] using hchl
    · simp [determine, hchs]
  · exact key s (.refl _) rfl rfl hchl fun h => absurd h hd

include r hwf in
theorem normalizeNot_ok (hg : g < s.size) (ht : (s.gate g).type = .not) {res : Bool × BC}
    (h : s.normalizeNot g = some res) : NormalizeOk s.circuit res := by
  obtain ⟨ch, hch, hchl⟩ := unary_child hwf hg (.inr ht)
  have hmem : ch ∈ (s.gate g).children := by simp [hch]
  have hchs : ch < s.size := r.closed g hg ch hmem
  have hne := child_ne r hg hmem
  have hl : (s.gate g).type.Live := by rw [ht]; decide
  have hv : (s.gate g).type ≠ .var := by rw [ht]; decide
  have hsem : ∀ σ, s.circuit.Consistent σ → σ g = !σ ch := fun σ hσ => by
    simpa [ht, hch] using consistent_eval hσ hg hl hv
  simp only [normalizeNot, headChild, hch, List.head?_cons, Option.some_bind] at h
  split_ifs at h with hd hc hnot
  · -- the child is determined to the value of `g`
    cases h
    refine normalizeOk_false fun ⟨σ, hσ⟩ => ?_
    simp only [Bool.and_eq_true, beq_iff_eq] at hc
    have h₁ := (hsem σ hσ).symm.trans (consistent_det hσ hg hl hd)
    rw [consistent_det hσ hchs hchl hc.1, hc.2] at h₁
    cases h₁' : (s.gate g).value <;> simp [h₁'] at h₁
  · -- the value goes down to the child, and `g` becomes a constant
    obtain ⟨s', hs', rfl⟩ := Option.map_eq_some'.1 h
    set s₁ := (s.determine ch !(s.gate g).value).addInPstack ch with hs₁
    have hg₁ : s₁.gate g = s.gate g := by simp [hs₁, determine, hne]
    have hch₁ : s₁.gate ch = { s.gate ch with determined := true, value := !(s.gate g).value } := by
      simp [hs₁, determine, hchs]
    have h₁ : s.circuit.SameEvaluations s₁.circuit id := by
      rw [hs₁, BC.circuit_addInPstack]
      refine Circuit.SameEvaluations.setValue (fun hchd => ?_) fun σ hσ => ?_
      · have hc' : (s.gate ch).determined → ¬(s.gate ch).value = (s.gate g).value := by
          simpa using hc
        cases h' : (s.gate ch).value <;> cases h'' : (s.gate g).value <;> simp_all
      · rw [← consistent_det hσ hg hl hd, hsem σ hσ, Bool.not_not]
    refine normalizeOk_true (h₁.trans (sameEvaluations_transformIntoConstant
      (by simpa [hs₁] using r.closed.setValue ch _) (by simpa [hs₁] using hg) hs' (fun σ hσ => ?_)
      fun σ' hσ' hgv => ?_))
    · exact consistent_det hσ (by simpa [hs₁] using hg) (by rw [hg₁]; exact hl) (by rw [hg₁]; exact hd)
        |>.trans (by rw [hg₁])
    · obtain ⟨hsize, hgate⟩ := transformIntoConstant_gate (by simpa [hs₁] using hg) hs'
      have hchv := consistent_det hσ' (by simpa [hsize, hs₁] using hchs)
        (by simpa [hgate, hne, hch₁] using hchl) (by simp [hgate, hne, hch₁])
      simp only [hgate, hne, if_false, hch₁] at hchv
      rw [Circuit.gateOk_iff, BC.circuit_gate, hg₁]
      exact fun _ => ⟨fun _ => by simp [ht, hch, hchv, hgv], fun _ => hgv⟩
  · -- `NOT(NOT(y))`
    obtain ⟨gc, hgc, hgcl⟩ := unary_child hwf hchs (.inr hnot)
    simp only [hgc, List.head?_cons, Option.map_some', Option.some.injEq] at h
    subst h
    have hgcm : gc ∈ (s.gate ch).children := by simp [hgc]
    have hgcs : gc < s.size := r.closed ch hchs gc hgcm
    have hgcne : gc ≠ g := by
      intro heq
      have h₁ := (r.child_lt ch hchs gc hgcm).2
      have h₂ := (r.child_lt g hg ch hmem).2
      rw [heq] at h₁; omega
    have hchv : ∀ σ, s.circuit.Consistent σ → σ ch = !σ gc := fun σ hσ => by
      simpa [hnot, hgc] using consistent_eval hσ hchs hchl (by rw [hnot]; decide)
    refine normalizeOk_true (sameEvaluations_replaceBy hg hgcs hgcne
      (fun σ hσ => by rw [hsem σ hσ, hchv σ hσ, Bool.not_not]) fun σ' hσ' => ?_)
    have hnew := consistent_eval hσ' (by simpa using hchs) (by simpa [gate_replaceBy hg hgcs hgcne, hne])
      (by simp [gate_replaceBy hg hgcs hgcne, hne, hnot])
    simp only [gate_replaceBy hg hgcs hgcne, hne, if_false, hnot, hgc, hgcne, List.map_cons,
      List.map_nil, GateType.eval_not_one] at hnew
    rw [Circuit.gateOk_iff, BC.circuit_gate]
    refine fun _ => ⟨fun _ => by simp [ht, hch, hne, hnew], fun hd' => absurd hd' hd⟩
  · cases h; exact normalizeOk_true (.refl _)

theorem normalizeConstant_ok (hg : g < s.size) {v : Bool} (hl : (s.gate g).type.Live)
    (hv : (s.gate g).type ≠ .var)
    (hconst : ∀ vs, (s.gate g).type.eval (s.gate g).tmin (s.gate g).tmax vs = v)
    {res : Bool × BC} (h : s.normalizeConstant g v = some res) : NormalizeOk s.circuit res := by
  have hforced : ∀ σ, s.circuit.Consistent σ → σ g = v := fun σ hσ =>
    (consistent_eval hσ hg hl hv).trans (hconst _)
  unfold normalizeConstant at h
  split_ifs at h with hc <;> cases h
  · refine normalizeOk_false fun ⟨σ, hσ⟩ => ?_
    simp only [Bool.and_eq_true, bne_iff_ne, ne_eq] at hc
    exact hc.2 ((consistent_det hσ hg hl hc.1).symm.trans (hforced σ hσ))
  · simp only [Bool.and_eq_true, bne_iff_ne, ne_eq, not_and, not_not] at hc
    exact normalizeOk_true (by simpa using Circuit.SameEvaluations.setValue hc hforced)

theorem normalizeOrAnd_ok (hg : g < s.size) (ht : (s.gate g).type = .or ∨ (s.gate g).type = .and)
    {res : Bool × BC} (h : s.normalizeOrAnd g = some res) : NormalizeOk s.circuit res := by
  unfold normalizeOrAnd at h
  cases h
  split_ifs with hn
  · refine normalizeOk_true (sameEvaluations_rewrite g (by simp [setType]) (fun x hx => by
      simp [setType, Ne.symm hx]) (by simp [setType, hg]) (by simp [setType, hg]) fun v vs hvs => ?_)
    obtain ⟨b, rfl⟩ := List.length_eq_one.1 (hvs.trans hn)
    rcases ht with ht | ht <;> cases b <;> simp [setType, hg, ht, Gate.Holds, GateType.eval, GateType.Live]
  · exact normalizeOk_true (.refl _)

theorem normalizeEven_spec (hg : g < s.size) {res : Bool × BC} (h : s.normalizeEven g = some res) :
    ∃ s', res = (true, s') ∧
      (((s.gate g).children.length = 1 ∧ s'.size = s.size ∧
        ∀ x, s'.gate x = if x = g then { s.gate g with type := .not } else s.gate x) ∨
      s' = s ∨
      ((s.gate g).children.length ≠ 1 ∧ s'.size = s.size + 1 ∧
        ∀ x, s'.gate x = if x = g then { s.gate g with type := .not, children := [s.size] }
          else if x = s.size then { type := .odd, children := (s.gate g).children.reverse }
          else s.gate x)) := by
  have hgN : g ≠ s.size := Nat.ne_of_lt hg
  unfold normalizeEven at h
  simp only [installGate_eq] at h
  split_ifs at h with h1 h2 <;> cases h <;> refine ⟨_, rfl, ?_⟩
  · refine .inl ⟨h1, by simp [setType], fun x => ?_⟩
    by_cases hx : x = g
    · subst hx; simp [setType, hg]
    · simp [setType, hx, Ne.symm hx]
  · exact .inr (.inl rfl)
  · refine .inr (.inr ⟨h1, by simp [moveChildren], fun x => ?_⟩)
    by_cases hxg : x = g
    · subst hxg; simp [moveChildren, setType, addChild, setChildren, gate_modify, hg, hgN,
        Ne.symm hgN, Nat.lt_succ_of_lt hg]
    · by_cases hxN : x = s.size
      · subst hxN; simp [moveChildren, setType, addChild, setChildren, gate_modify, hg, hgN,
          Ne.symm hgN]
      · simp [moveChildren, setType, addChild, setChildren, gate_modify, gate_append, hxg, hxN,
          Ne.symm hxg, Ne.symm hxN]

theorem normalizeEven_ok (hcl : s.circuit.Closed) (hg : g < s.size) (ht : (s.gate g).type = .even)
    {res : Bool × BC} (h : s.normalizeEven g = some res) : NormalizeOk s.circuit res := by
  have hl : (s.gate g).type.Live := by rw [ht]; decide
  have hchs : ∀ x ∈ (s.gate g).children, x < s.size := hcl g hg
  obtain ⟨s', rfl, ⟨h1, hsize, hgate⟩ | rfl | ⟨-, hsize, hgate⟩⟩ := normalizeEven_spec hg h
  · refine normalizeOk_true (sameEvaluations_rewrite g hsize (fun x hx => by simp [hgate, hx])
      (by simp [hgate]) (by simp [hgate]) fun v vs hvs => ?_)
    obtain ⟨b, rfl⟩ := List.length_eq_one.1 (hvs.trans h1)
    cases b <;> simp [hgate, ht, Gate.Holds, GateType.eval, GateType.Live]
  · exact normalizeOk_true (.refl _)
  · have hN : s.size ≠ g := (Nat.ne_of_lt hg).symm
    refine normalizeOk_true (Circuit.SameEvaluations.inPlace g hcl (by simp [hsize])
      (fun x hx hxg => by simp only [BC.circuit_size] at hx; simp [hgate, hxg, hx.ne])
      (by simp [hgate]) (fun σ hσ => ⟨fun y => if y = s.size then
          GateType.odd.eval 0 0 ((s.gate g).children.map σ) else σ y,
        fun y hy => by simp only [BC.circuit_size] at hy; simp [hy.ne], fun y hy hy' => ?_⟩)
      fun σ' hσ' => ?_)
    · have hmap : (s.gate g).children.map (fun y => if y = s.size then
          GateType.odd.eval 0 0 ((s.gate g).children.map σ) else σ y) = (s.gate g).children.map σ :=
        List.map_congr_left fun y hy => by simp [(hchs y hy).ne]
      simp only [BC.circuit_size, hsize] at hy hy'
      rw [Circuit.gateOk_iff, BC.circuit_gate]
      rcases hy' with rfl | hy'
      · have he := consistent_eval hσ hg hl (by rw [ht]; decide)
        rw [ht, GateType.eval_even_eq_not_odd _ _ 0 0] at he
        simp only [hgate, if_true, Gate.Holds, List.map_cons, List.map_nil, hN, if_false,
          (Nat.ne_of_lt hg), GateType.eval_not_one, ht, he]
        exact fun _ => ⟨fun _ => trivial, fun hd => he ▸ consistent_det hσ hg hl hd⟩
      · obtain rfl : y = s.size := by omega
        simp only [hgate, hN, if_false, if_true, Gate.Holds, List.map_reverse, hmap]
        refine fun _ => ⟨fun _ => (GateType.eval_reverse (by decide) _ _ _).symm,
          fun h => absurd h Bool.false_ne_true⟩
    · have hg' : g < s'.size := by simp [hsize]; omega
      have hN' : s.size < s'.size := by simp [hsize]
      have hnew := consistent_eval hσ' hg' (by simp [hgate, GateType.Live]) (by simp [hgate])
      have hodd := consistent_eval hσ' hN' (by simp [hgate, hN, GateType.Live]) (by simp [hgate, hN])
      have hdet := fun hd => consistent_det hσ' hg' (by simp [hgate, GateType.Live])
        (by simpa [hgate] using hd)
      simp only [hgate, if_true, hN, if_false, List.map_cons, List.map_nil, GateType.eval_not_one,
        List.map_reverse, GateType.eval_reverse (show GateType.odd ≠ .ite by decide)] at hnew hodd hdet
      rw [Circuit.gateOk_iff, BC.circuit_gate, Gate.Holds, ht]
      exact fun _ => ⟨fun _ => by rw [hnew, hodd, GateType.eval_even_eq_not_odd _ _ 0 0], hdet⟩

theorem normalizeOdd_spec (hg : g < s.size) {res : Bool × BC} (h : s.normalizeOdd g = some res) :
    ∃ s', res = (true, s') ∧
      (((s.gate g).children.length = 1 ∧ s'.size = s.size ∧
        ∀ x, s'.gate x = if x = g then { s.gate g with type := .ref } else s.gate x) ∨
      s' = s ∨
      (∃ c₁ rest, (s.gate g).children = c₁ :: rest ∧ rest ≠ [] ∧ s'.size = s.size + 1 ∧
        ∀ x, s'.gate x = if x = g then { s.gate g with children := [c₁, s.size] }
          else if x = s.size then { type := .odd, children := rest.reverse }
          else s.gate x)) := by
  have hgN : g ≠ s.size := Nat.ne_of_lt hg
  unfold normalizeOdd at h
  simp only [installGate_eq, gate_addInPstack, gate_append_of_lt _ hg] at h
  split_ifs at h with h1 h2
  · cases h
    refine ⟨_, rfl, .inl ⟨h1, by simp [setType], fun x => ?_⟩⟩
    by_cases hx : x = g
    · subst hx; simp [setType, hg]
    · simp [setType, hx, Ne.symm hx]
  · cases h; exact ⟨_, rfl, .inr (.inl rfl)⟩
  · split at h
    · cases h
    · rename_i c₁ rest hcs
      cases h
      refine ⟨_, rfl, .inr (.inr ⟨c₁, rest, hcs, fun hr => h1 (by simp [hcs, hr]),
        by simp [moveChildren], fun x => ?_⟩)⟩
      by_cases hxg : x = g
      · subst hxg; simp [moveChildren, addChild, setChildren, gate_modify, hg, hgN,
          Ne.symm hgN, Nat.lt_succ_of_lt hg]
      · by_cases hxN : x = s.size
        · subst hxN; simp [moveChildren, addChild, setChildren, gate_modify, hg, hgN, Ne.symm hgN,
            Nat.lt_succ_of_lt hg]
        · simp [moveChildren, addChild, setChildren, gate_modify, gate_append, hxg, hxN,
            Ne.symm hxg, Ne.symm hxN]

theorem normalizeOdd_ok (hcl : s.circuit.Closed) (hg : g < s.size) (ht : (s.gate g).type = .odd)
    {res : Bool × BC} (h : s.normalizeOdd g = some res) : NormalizeOk s.circuit res := by
  have hl : (s.gate g).type.Live := by rw [ht]; decide
  have hchs : ∀ x ∈ (s.gate g).children, x < s.size := hcl g hg
  obtain ⟨s', rfl, ⟨h1, hsize, hgate⟩ | rfl | ⟨c₁, rest, hcs, -, hsize, hgate⟩⟩ := normalizeOdd_spec hg h
  · refine normalizeOk_true (sameEvaluations_rewrite g hsize (fun x hx => by simp [hgate, hx])
      (by simp [hgate]) (by simp [hgate]) fun v vs hvs => ?_)
    obtain ⟨b, rfl⟩ := List.length_eq_one.1 (hvs.trans h1)
    cases b <;> simp [hgate, ht, Gate.Holds, GateType.eval, GateType.Live]
  · exact normalizeOk_true (.refl _)
  · have hN : s.size ≠ g := (Nat.ne_of_lt hg).symm
    have hc₁ : c₁ < s.size := hchs c₁ (by simp [hcs])
    have hrest : ∀ x ∈ rest, x < s.size := fun x hx => hchs x (by simp [hcs, hx])
    have hg' : g < s'.size := by simp [hsize]; omega
    have hN' : s.size < s'.size := by simp [hsize]
    refine normalizeOk_true (Circuit.SameEvaluations.inPlace g hcl (by simp [hsize])
      (fun x hx hxg => by simp only [BC.circuit_size] at hx; simp [hgate, hxg, hx.ne])
      (by simp [hgate]) (fun σ hσ => ⟨fun y => if y = s.size then
          GateType.odd.eval 0 0 (rest.map σ) else σ y,
        fun y hy => by simp only [BC.circuit_size] at hy; simp [hy.ne], fun y hy hy' => ?_⟩)
      fun σ' hσ' => ?_)
    · simp only [BC.circuit_size, hsize] at hy hy'
      rw [Circuit.gateOk_iff, BC.circuit_gate]
      rcases hy' with rfl | hy'
      · have he := consistent_eval hσ hg hl (by rw [ht]; decide)
        rw [ht, hcs, List.map_cons, GateType.eval_odd_cons _ _ 0 0] at he
        simp only [hgate, if_true, Gate.Holds, List.map_cons, List.map_nil, hN, if_false, ht,
          hc₁.ne, (Nat.ne_of_lt hg), GateType.eval_odd_two, he]
        exact fun _ => ⟨fun _ => trivial, fun hd => he ▸ consistent_det hσ hg hl hd⟩
      · obtain rfl : y = s.size := by omega
        have hmap : rest.map (fun y => if y = s.size then GateType.odd.eval 0 0 (rest.map σ)
            else σ y) = rest.map σ := List.map_congr_left fun y hy => by simp [(hrest y hy).ne]
        simp only [hgate, hN, if_false, if_true, Gate.Holds, List.map_reverse, hmap]
        exact fun _ => ⟨fun _ => (GateType.eval_reverse (by decide) _ _ _).symm,
          fun h => absurd h Bool.false_ne_true⟩
    · have hnew := consistent_eval hσ' hg' (by simp [hgate, ht, GateType.Live]) (by simp [hgate, ht])
      have hodd := consistent_eval hσ' hN' (by simp [hgate, hN, GateType.Live]) (by simp [hgate, hN])
      have hdet := fun hd => consistent_det hσ' hg' (by simp [hgate, ht, GateType.Live])
        (by simpa [hgate] using hd)
      simp only [hgate, if_true, hN, if_false, ht, List.map_cons, List.map_nil, GateType.eval_odd_two,
        List.map_reverse, GateType.eval_reverse (show GateType.odd ≠ .ite by decide)] at hnew hodd hdet
      rw [Circuit.gateOk_iff, BC.circuit_gate, Gate.Holds, ht, hcs]
      exact fun _ => ⟨fun _ => by rw [hnew, hodd, List.map_cons, GateType.eval_odd_cons _ _ 0 0],
        hdet⟩

theorem normalizeEquiv_spec (hg : g < s.size) {res : Bool × BC} (h : s.normalizeEquiv g = some res) :
    ((s.gate g).children.length = 1 ∧ s.normalizeToConstant g true = some res) ∨
    res = (true, s) ∨
    ∃ s', res = (true, s') ∧ s'.size = s.size + 2 + (s.gate g).children.length ∧
      ∀ x, s'.gate x = if x = g then { s.gate g with type := .or, children := [s.size + 1, s.size] }
        else if x = s.size then { type := .and, children := (s.gate g).children.reverse }
        else if x = s.size + 1 then { type := .and, children :=
          ((List.range (s.gate g).children.length).map (s.size + 2 + ·)).reverse }
        else if s.size + 2 ≤ x ∧ x < s.size + 2 + (s.gate g).children.length then
          { type := .not, children := [(s.gate g).children.getD (x - (s.size + 2)) 0] }
        else s.gate x := by
  unfold normalizeEquiv at h
  simp only [installGate_eq] at h
  split_ifs at h with h1 h2
  · exact .inl ⟨h1, h⟩
  · cases h; exact .inr (.inl rfl)
  · cases h
    refine .inr (.inr ⟨_, rfl, ?_⟩)
    simp only [size_addInPstack, size_append]
    obtain ⟨hsize, hgate⟩ := foldl_addNotChild (a := s.size + 1) (s.gate g).children
      ((((s.append { type := .and, children := (s.gate g).children.reverse }).addInPstack
        s.size).append { type := .and, children := [] }).addInPstack (s.size + 1)) (by simp)
    simp only [size_addInPstack, size_append, gate_addInPstack, gate_append] at hsize hgate
    refine ⟨by simp only [size_tick, size_setLinks, size_setChildren, size_setType, hsize], fun x => ?_⟩
    rw [gate_tick, gate_setLinks]
    have hgN : g ≠ s.size := Nat.ne_of_lt hg
    have hgN' : g ≠ s.size + 1 := by omega
    by_cases hxg : x = g
    · subst hxg
      simp [setType, setChildren, gate_modify, hgate, hsize, hgN, hgN', hg, gate_append,
        show x < s.size + 1 + 1 + (s.gate x).children.length by omega,
        show ¬s.size + 1 + 1 ≤ x by omega]
    · simp only [setType, setChildren, gate_modify_of_ne _ (Ne.symm hxg), hgate, if_neg hxg]
      by_cases hxN : x = s.size
      · subst hxN; simp [gate_append, show ¬s.size + 1 + 1 ≤ s.size by omega]
      · by_cases hxN' : x = s.size + 1
        · subst hxN'; simp [gate_append]
        · simp only [if_neg hxN, if_neg hxN', gate_addInPstack, gate_append,
            show s.size + 1 + 1 = s.size + 2 by omega]

theorem normalizeEquiv_ok (hcl : s.circuit.Closed) (hg : g < s.size) (ht : (s.gate g).type = .equiv)
    {res : Bool × BC} (h : s.normalizeEquiv g = some res) : NormalizeOk s.circuit res := by
  have hchs : ∀ x ∈ (s.gate g).children, x < s.size := hcl g hg
  rcases normalizeEquiv_spec hg h with ⟨h1, h⟩ | rfl | ⟨s', rfl, hsize, hgate⟩
  · refine normalizeToConstant_ok hcl hg (by rw [ht]; decide) (by rw [ht]; decide) (fun σ => ?_) h
    obtain ⟨c, hc⟩ := List.length_eq_one.1 h1
    rw [ht, hc]; cases hσ : σ c <;> simp [GateType.eval, hσ]
  · exact normalizeOk_true (.refl _)
  · have hN : s.size ≠ g := (Nat.ne_of_lt hg).symm
    have hget : ∀ k < (s.gate g).children.length, (s.gate g).children.getD k 0 < s.size :=
      fun k hk => hchs _ (by rw [List.getD_eq_getElem _ _ hk]; exact List.getElem_mem _)
    have hnew : ∀ y, s.size ≤ y → y < s'.size → (s'.gate y).type.Live ∧
        (s'.gate y).type ≠ .var ∧ (s'.gate y).determined = false := by
      intro y hy hy'
      rw [hgate, if_neg (by omega)]
      by_cases h₁ : y = s.size
      · simp [h₁, GateType.Live]
      by_cases h₂ : y = s.size + 1
      · simp [h₂, GateType.Live]
      rw [if_neg h₁, if_neg h₂, if_pos (by omega)]
      simp [GateType.Live]
    refine normalizeOk_true (Circuit.SameEvaluations.expand g hg hcl
      (by simp only [BC.circuit_size, hsize]; omega)
      (fun x hx hxg => ?_) (by simp [hgate]) (fun y => if y = s.size + 1 then 2 else
        if s.size ≤ y then 1 else 0) (fun y hy hy' ch hch => ?_) (fun y hy hy' => ?_) fun σ hσ => ?_)
    · simp only [BC.circuit_size, BC.circuit_gate] at hx ⊢
      simp [hgate, hxg, hx.ne, show x ≠ s.size + 1 by omega, show ¬s.size + 2 ≤ x by omega]
    · simp only [BC.circuit_size, BC.circuit_gate, hsize] at hy hy' hch
      rw [hgate, if_neg (by omega)] at hch
      split_ifs at hch with h₁ h₂ h₃
      · have := hchs ch (List.mem_reverse.1 hch)
        dsimp only; split_ifs <;> omega
      · obtain ⟨k, -, rfl⟩ := List.mem_map.1 (List.mem_reverse.1 hch)
        dsimp only; split_ifs <;> omega
      · obtain rfl := List.mem_singleton.1 hch
        have := hget (y - (s.size + 2)) (by omega)
        dsimp only; split_ifs <;> omega
      · omega
    · exact (hnew y hy hy').2.2
    · have heq : ∀ y, s.size ≤ y → y < s'.size → y ≠ g →
          σ y = (s'.gate y).type.eval 0 0 ((s'.gate y).children.map σ) := fun y hy hy' hyg => by
        have := (hσ y hy hy').eval (hnew y hy hy').1 (hnew y hy hy').2.1
        simp only [BC.circuit_gate] at this
        rw [this, hgate, if_neg hyg]; split_ifs <;> first | rfl | omega
      have h₁ := heq s.size (le_refl _) (by omega) hN
      have h₂ := heq (s.size + 1) (by omega) (by omega) (by omega)
      have h₃ : ∀ k < (s.gate g).children.length,
          σ (s.size + 2 + k) = !σ ((s.gate g).children.getD k 0) := fun k hk => by
        have := heq (s.size + 2 + k) (by omega) (by omega) (by omega)
        rw [hgate, if_neg (by omega), if_neg (by omega), if_neg (by omega), if_pos (by omega),
          Nat.add_sub_cancel_left] at this
        simpa only [List.map_cons, List.map_nil, GateType.eval_not_one] using this
      simp only [BC.circuit_gate] at h₁ h₂ ⊢
      rw [hgate, if_neg hN, if_pos rfl] at h₁
      rw [hgate, if_neg (by omega), if_neg (by omega), if_pos rfl] at h₂
      refine Gate.holds_iff_of_eval (by simp [hgate, GateType.Live]) (by rw [ht]; decide)
        (by simp [hgate]) (by rw [ht]; decide) (by simp [hgate]) (by simp [hgate]) ?_
      simp only [hgate, eq_self_iff_true, if_true, ht, List.map_cons, List.map_nil,
        GateType.eval_or_two]
      refine Bool.eq_iff_iff.2 (Iff.trans ?_ GateType.eval_equiv_eq_true.symm)
      simp only [Bool.or_eq_true, h₁, h₂, GateType.eval_and_eq_true, List.mem_map, List.mem_reverse,
        List.mem_range, forall_exists_index, and_imp, forall_apply_eq_imp_iff₂]
      have hnots : (∀ k < (s.gate g).children.length, σ (s.size + 2 + k) = Bool.true) ↔
          ∀ c ∈ (s.gate g).children, σ c = Bool.false := by
        refine ⟨fun h c hc => ?_, fun h k hk => ?_⟩
        · obtain ⟨k, hk, rfl⟩ := List.getElem_of_mem hc
          have := h k hk
          rwa [h₃ k hk, List.getD_eq_getElem _ _ hk, Bool.not_eq_true'] at this
        · rw [h₃ k hk, List.getD_eq_getElem _ _ hk, h _ (List.getElem_mem _)]; rfl
      rw [hnots, or_comm]

end Cases

end BC

end BcSat
