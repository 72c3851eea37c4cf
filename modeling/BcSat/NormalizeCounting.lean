import BcSat.NormalizeSound

set_option autoImplicit false

/-!
# The counting gates

`Gate::cnf_normalize` on `THRESHOLD` and `ATLEAST` gates. A `THRESHOLD[l,u]` over `n` children
first has `u` clipped to `n`; the trivial bounds become constants, the unary, `[1,n]` and `[l,n]`
gates are retyped in place, and the others are split into the comparisons `ATLEAST(l)` and
`NOT(ATLEAST(u+1))`. An `ATLEAST(L)` with `2 ≤ L < n` becomes the array `array[i][j]`: the todo
loop visits a closed set of entries within its fuel, every entry it refers to has a slot, and
over the equations of the new gates the slot of `(i,j)` holds "at least `i` of the first `j`
children".
-/

namespace BcSat

theorem GateType.eval_bounds {t : GateType} (h₁ : t ≠ .threshold) (h₂ : t ≠ .atleast)
    (lo hi lo' hi' : Nat) (vs : List Bool) : t.eval lo hi vs = t.eval lo' hi' vs := by
  cases t <;> first | rfl | contradiction

theorem GateType.eval_threshold (lo hi : Nat) (vs : List Bool) :
    GateType.threshold.eval lo hi vs =
      (GateType.atleast.eval lo 0 vs && !GateType.atleast.eval (hi + 1) 0 vs) := by
  simp only [GateType.eval]
  by_cases h : vs.count Bool.true ≤ hi
  · simp [h, Nat.lt_succ_of_le h]
  · simp [h, show hi + 1 ≤ vs.count Bool.true by omega]

theorem GateType.eval_atleast_perm (lo hi : Nat) {vs vs' : List Bool} (h : vs.Perm vs') :
    GateType.atleast.eval lo hi vs = GateType.atleast.eval lo hi vs' := by
  simp only [GateType.eval, h.count_eq]

namespace BC

variable {s : BC} {g x : Nat}

theorem normalizeOk_of_sameEvaluations {c c₁ : Circuit} {ρ : Nat → Nat} {res : Bool × BC}
    (h₁ : c.SameEvaluations c₁ ρ) (h : NormalizeOk c₁ res) : NormalizeOk c res := by
  obtain ⟨ok, s'⟩ := res
  refine ⟨fun hok ⟨σ, hσ⟩ => ?_, fun hok => ?_⟩
  · obtain ⟨σ', hσ', -⟩ := h₁.extend σ hσ
    exact h.1 hok ⟨σ', hσ'⟩
  · obtain ⟨ρ', h'⟩ := h.2 hok
    exact ⟨_, h₁.trans h'⟩

theorem sameEvaluations_retype {s' : BC} (g : Nat) (hsize : s'.size = s.size)
    (hgate : ∀ x, x ≠ g → s'.gate x = s.gate x)
    (hch : (s'.gate g).children = (s.gate g).children)
    (hhandles : (s'.gate g).handles = (s.gate g).handles)
    (hdet : (s'.gate g).determined = (s.gate g).determined)
    (hval : (s'.gate g).value = (s.gate g).value)
    (hl' : (s'.gate g).type.Live) (hl : (s.gate g).type.Live)
    (hv' : (s'.gate g).type ≠ .var) (hv : (s.gate g).type ≠ .var)
    (heval : ∀ vs : List Bool, vs.length = (s.gate g).children.length →
      (s'.gate g).type.eval (s'.gate g).tmin (s'.gate g).tmax vs =
        (s.gate g).type.eval (s.gate g).tmin (s.gate g).tmax vs) :
    s.circuit.SameEvaluations s'.circuit id :=
  sameEvaluations_rewrite g hsize hgate hch hhandles fun _ vs hvs =>
    Gate.holds_iff_of_eval hl' hl hv' hv hdet hval (heval vs hvs)

theorem gate_setBounds (hg : g < s.size) (t : GateType) (lo hi : Nat) :
    (((s.setType g t).setTmin g lo).setTmax g hi).gate x =
      if x = g then { s.gate g with type := t, tmin := lo, tmax := hi } else s.gate x := by
  by_cases hx : x = g
  · subst hx; simp [setType, setTmin, setTmax, hg]
  · simp [setType, setTmin, setTmax, hx, Ne.symm hx]

@[simp] theorem size_setTmin (lo : Nat) : (s.setTmin g lo).size = s.size := size_modify _

@[simp] theorem size_setTmax (hi : Nat) : (s.setTmax g hi).size = s.size := size_modify _

theorem sameEvaluations_setBounds (hg : g < s.size) {t : GateType} {lo hi : Nat}
    (hl' : t.Live) (hl : (s.gate g).type.Live) (hv' : t ≠ .var) (hv : (s.gate g).type ≠ .var)
    (heval : ∀ vs : List Bool, vs.length = (s.gate g).children.length →
      t.eval lo hi vs = (s.gate g).type.eval (s.gate g).tmin (s.gate g).tmax vs) :
    s.circuit.SameEvaluations (((s.setType g t).setTmin g lo).setTmax g hi).circuit id :=
  sameEvaluations_retype g (by simp [setType]) (fun x hx => by simp [gate_setBounds hg, hx])
    (by simp [gate_setBounds hg]) (by simp [gate_setBounds hg]) (by simp [gate_setBounds hg])
    (by simp [gate_setBounds hg]) (by simpa [gate_setBounds hg] using hl') hl
    (by simpa [gate_setBounds hg] using hv') hv (by simpa [gate_setBounds hg] using heval)

theorem sameEvaluations_resetBounds {s' : BC} (hsize : s'.size = s.size) (lo hi : Nat)
    (hgate : ∀ x, s'.gate x = if x = g then { s.gate g with tmin := lo, tmax := hi } else s.gate x)
    (h₁ : (s.gate g).type ≠ .threshold) (h₂ : (s.gate g).type ≠ .atleast) :
    s.circuit.SameEvaluations s'.circuit id :=
  sameEvaluations_rewrite g hsize (fun x hx => by simp [hgate, hx]) (by simp [hgate])
    (by simp [hgate]) fun _ _ _ => by
      simp only [hgate, eq_self_iff_true, if_true, Gate.Holds, GateType.eval_bounds h₁ h₂ lo hi
        (s.gate g).tmin (s.gate g).tmax]

theorem sameEvaluations_setTminTmax (hg : g < s.size) (h₁ : (s.gate g).type ≠ .threshold)
    (h₂ : (s.gate g).type ≠ .atleast) (lo hi : Nat) :
    s.circuit.SameEvaluations ((s.setTmin g lo).setTmax g hi).circuit id :=
  sameEvaluations_resetBounds (by simp [setTmin, setTmax]) lo hi (fun x => by
    by_cases hx : x = g
    · rw [hx]; simp [setTmin, setTmax, hg]
    · simp [setTmin, setTmax, hx, Ne.symm hx]) h₁ h₂

theorem sameEvaluations_setTmin (hg : g < s.size) (h₁ : (s.gate g).type ≠ .threshold)
    (h₂ : (s.gate g).type ≠ .atleast) (lo : Nat) :
    s.circuit.SameEvaluations (s.setTmin g lo).circuit id :=
  sameEvaluations_resetBounds (by simp [setTmin]) lo (s.gate g).tmax (fun x => by
    by_cases hx : x = g
    · rw [hx]; simp [setTmin, hg]
    · simp [setTmin, hx, Ne.symm hx]) h₁ h₂

theorem normalizeToConstant_reset_ok (hcl : s.circuit.Closed) (hg : g < s.size) {v : Bool}
    (hl : (s.gate g).type.Live) (hv : (s.gate g).type ≠ .var)
    (hconst : ∀ σ : Nat → Bool,
      (s.gate g).type.eval (s.gate g).tmin (s.gate g).tmax ((s.gate g).children.map σ) = v)
    (reset : BC → BC) (hreset : ∀ s' : BC, g < s'.size → (s'.gate g).type ≠ .threshold →
      (s'.gate g).type ≠ .atleast → s'.circuit.SameEvaluations (reset s').circuit id)
    {ok : Bool} {s' : BC} (h : s.normalizeToConstant g v = some (ok, s')) :
    NormalizeOk s.circuit (ok, if ok then reset s' else s') := by
  have hok := normalizeToConstant_ok hcl hg hl hv hconst h
  cases ok
  · exact hok
  · unfold normalizeToConstant at h
    split_ifs at h
    · cases h
    obtain ⟨s'', hs'', heq⟩ := Option.map_eq_some'.1 h
    cases heq
    obtain ⟨hsize, hgate⟩ := transformIntoConstant_gate hg hs''
    have ht : (s'.gate g).type = if v then .true else .false := by simp [hgate]
    obtain ⟨ρ, hρ⟩ := hok.2 rfl
    exact normalizeOk_true (hρ.trans (hreset s' (by rw [hsize]; exact hg)
      (by rw [ht]; cases v <;> decide) (by rw [ht]; cases v <;> decide)))

theorem sameEvaluations_thresholdSplit {s' : BC} (hcl : s.circuit.Closed) (hg : g < s.size)
    (ht : (s.gate g).type = .threshold) {l : List Nat} (hperm : l.Perm (s.gate g).children)
    (hsize : s'.size = s.size + 3)
    (hgate : ∀ x, s'.gate x =
      if x = g then { s.gate g with type := .and, children := [s.size + 2, s.size] }
      else if x = s.size then { type := .atleast, children := l, tmin := (s.gate g).tmin }
      else if x = s.size + 1 then { type := .atleast, children := l, tmin := (s.gate g).tmax + 1 }
      else if x = s.size + 2 then { type := .not, children := [s.size + 1] }
      else s.gate x) :
    s.circuit.SameEvaluations s'.circuit id := by
  have hN : s.size ≠ g := (Nat.ne_of_lt hg).symm
  have hl : ∀ x ∈ l, x < s.size := fun x hx => hcl g hg x (hperm.subset hx)
  have hnew : ∀ y, s.size ≤ y → y < s'.size → (s'.gate y).type.Live ∧
      (s'.gate y).type ≠ .var ∧ (s'.gate y).determined = false := by
    intro y hy hy'
    rw [hgate, if_neg (by omega)]
    by_cases h₁ : y = s.size
    · simp [h₁, GateType.Live]
    by_cases h₂ : y = s.size + 1
    · simp [h₂, GateType.Live]
    rw [if_neg h₁, if_neg h₂, if_pos (by omega)]
    simp [GateType.Live]
  refine Circuit.SameEvaluations.expand g hg hcl (by simp only [BC.circuit_size, hsize]; omega)
    (fun x hx hxg => ?_) (by simp [hgate]) (fun y => if y = s.size + 2 then 2 else
      if s.size ≤ y then 1 else 0) (fun y hy hy' ch hch => ?_) (fun y hy hy' => (hnew y hy hy').2.2)
    fun σ hσ => ?_
  · simp only [BC.circuit_size, BC.circuit_gate] at hx ⊢
    simp [hgate, hxg, hx.ne, show x ≠ s.size + 1 by omega, show x ≠ s.size + 2 by omega]
  · simp only [BC.circuit_size, BC.circuit_gate, hsize] at hy hy' hch
    rw [hgate, if_neg (by omega)] at hch
    split_ifs at hch with h₁ h₂ h₃ <;> dsimp only
    · have := hl ch hch; split_ifs <;> omega
    · have := hl ch hch; split_ifs <;> omega
    · obtain rfl := List.mem_singleton.1 hch; split_ifs <;> omega
    · omega
  · have heq : ∀ y, s.size ≤ y → y < s'.size → σ y =
        (s'.gate y).type.eval (s'.gate y).tmin (s'.gate y).tmax ((s'.gate y).children.map σ) :=
      fun y hy hy' => (hσ y hy hy').eval (hnew y hy hy').1 (hnew y hy hy').2.1
    have h₀ := heq s.size le_rfl (by omega)
    have h₁ := heq (s.size + 1) (by omega) (by omega)
    have h₂ := heq (s.size + 2) (by omega) (by omega)
    rw [hgate, if_neg hN, if_pos rfl] at h₀
    rw [hgate, if_neg (by omega), if_neg (by omega), if_pos rfl] at h₁
    rw [hgate, if_neg (by omega), if_neg (by omega), if_neg (by omega), if_pos rfl] at h₂
    simp only [BC.circuit_gate]
    refine Gate.holds_iff_of_eval (by simp [hgate, GateType.Live]) (by rw [ht]; decide)
      (by simp [hgate]) (by rw [ht]; decide) (by simp [hgate]) (by simp [hgate]) ?_
    simp only [hgate, eq_self_iff_true, if_true, ht, List.map_cons, List.map_nil,
      GateType.eval_and_two, GateType.eval_threshold, h₀, h₂, h₁, GateType.eval_not_one,
      GateType.eval_atleast_perm _ _ (hperm.map σ), Bool.and_comm]

theorem sameEvaluations_thresholdNot {s' : BC} (hcl : s.circuit.Closed) (hg : g < s.size)
    (ht : (s.gate g).type = .threshold) (h0 : (s.gate g).tmin = 0) {l : List Nat}
    (hperm : l.Perm (s.gate g).children) (hsize : s'.size = s.size + 1)
    (hgate : ∀ x, s'.gate x =
      if x = g then { s.gate g with type := .not, children := [s.size] }
      else if x = s.size then { type := .atleast, children := l, tmin := (s.gate g).tmax + 1 }
      else s.gate x) :
    s.circuit.SameEvaluations s'.circuit id := by
  have hN : s.size ≠ g := (Nat.ne_of_lt hg).symm
  have hnew : ∀ y, s.size ≤ y → y < s'.size → s'.gate y =
      { type := .atleast, children := l, tmin := (s.gate g).tmax + 1 } := fun y hy hy' => by
    rw [hgate, if_neg (by omega), if_pos (by omega)]
  refine Circuit.SameEvaluations.expand g hg hcl (by simp only [BC.circuit_size, hsize]; omega)
    (fun x hx hxg => ?_) (by simp [hgate]) (fun y => if s.size ≤ y then 1 else 0)
    (fun y hy hy' ch hch => ?_) (fun y hy hy' => by rw [BC.circuit_gate, hnew y hy hy'])
    fun σ hσ => ?_
  · simp only [BC.circuit_size, BC.circuit_gate] at hx ⊢
    simp [hgate, hxg, hx.ne]
  · simp only [BC.circuit_size, BC.circuit_gate] at hy hy' hch
    rw [hnew y hy hy'] at hch
    have : ch < s.size := hcl g hg ch (hperm.subset hch)
    dsimp only; split_ifs <;> omega
  · have hlt : s.size < s'.size := by omega
    have hA := hnew s.size le_rfl hlt
    have h₀ := (hσ s.size le_rfl hlt).eval (by simp [hA, GateType.Live]) (by simp [hA])
    simp only [BC.circuit_gate, hA] at h₀ ⊢
    refine Gate.holds_iff_of_eval (by simp [hgate, GateType.Live]) (by rw [ht]; decide)
      (by simp [hgate]) (by rw [ht]; decide) (by simp [hgate]) (by simp [hgate]) ?_
    simp only [hgate, eq_self_iff_true, if_true, ht, h0, List.map_cons, List.map_nil, h₀,
      GateType.eval_not_one, GateType.eval_threshold, GateType.eval_atleast_perm _ _ (hperm.map σ)]
    simp [GateType.eval]

section Layouts

variable {t : BC} (hg : g < t.size)
include hg

theorem gate_thresholdNot (k x : Nat) :
    ((((((t.append { type := .atleast, children := [], tmin := k }).addInPstack t.size).moveChildren
      false g t.size).addChild g t.size).setType g .not).addInPstack g).gate x =
      if x = g then { t.gate g with type := .not, children := [t.size] }
      else if x = t.size then { type := .atleast, children := (t.gate g).children.reverse, tmin := k }
      else t.gate x := by
  have hgN : g ≠ t.size := Nat.ne_of_lt hg
  by_cases hxg : x = g
  · rw [hxg]; simp [moveChildren, setType, addChild, setChildren, gate_modify, hg, hgN,
      Ne.symm hgN, Nat.lt_succ_of_lt hg]
  · by_cases hxN : x = t.size
    · rw [hxN]; simp [moveChildren, setType, addChild, setChildren, gate_modify, hg, hgN,
        Ne.symm hgN]
    · simp [moveChildren, setType, addChild, setChildren, gate_modify, gate_append, hxg, hxN,
        Ne.symm hxg, Ne.symm hxN]

theorem gate_thresholdSplit (l k x : Nat) :
    ((((((((((t.append { type := .atleast, children := (t.gate g).children.reverse, tmin := l }).addInPstack
      t.size).append { type := .atleast, children := [], tmin := k }).addInPstack
      (t.size + 1)).moveChildren false g (t.size + 1)).append
      { type := .not, children := [t.size + 1] }).addInPstack (t.size + 1 + 1)).addChild g
      t.size).addChild g (t.size + 1 + 1)).setType g .and).gate x =
      if x = g then { t.gate g with type := .and, children := [t.size + 2, t.size] }
      else if x = t.size then { type := .atleast, children := (t.gate g).children.reverse, tmin := l }
      else if x = t.size + 1 then { type := .atleast, children := (t.gate g).children.reverse, tmin := k }
      else if x = t.size + 2 then { type := .not, children := [t.size + 1] }
      else t.gate x := by
  have hgN : g ≠ t.size := Nat.ne_of_lt hg
  have hgN' : g ≠ t.size + 1 := by omega
  have hgN'' : g ≠ t.size + 1 + 1 := by omega
  simp only [setType, addChild, setChildren, moveChildren]
  by_cases hxg : x = g
  · subst hxg
    simp [hg, hgN, hgN', hgN'', Ne.symm hgN, Ne.symm hgN', Ne.symm hgN'', gate_append_of_lt,
      show x < t.size + 1 by omega, show x < t.size + 1 + 1 by omega,
      show x < t.size + 1 + 1 + 1 by omega]
  by_cases h₀ : x = t.size
  · subst h₀; simp [hgN, Ne.symm hgN, show t.size ≠ t.size + 1 + 1 by omega, gate_append]
  by_cases h₁ : x = t.size + 1
  · subst h₁; simp [hgN', Ne.symm hgN', hgN, gate_append]
  by_cases h₂ : x = t.size + 2
  · subst h₂; simp [hgN'', Ne.symm hgN'', gate_append]
  simp [hxg, Ne.symm hxg, h₀, h₁, h₂, Ne.symm h₀, Ne.symm h₁, show x ≠ t.size + 1 + 1 by omega,
    show t.size + 1 + 1 ≠ x by omega, gate_append]

theorem gate_thresholdCounter (l k x : Nat) :
    (((((((((t.append { type := .atleast, children := (t.gate g).children, tmin := l }).addInPstack
      t.size).append { type := .atleast, children := (t.gate g).children, tmin := k }).addInPstack
      (t.size + 1)).append { type := .not, children := [t.size + 1] }).addInPstack
      (t.size + 1 + 1)).removeAllChildren g).setType g .and).setChildren g
      [t.size + 1 + 1, t.size]).gate x =
      if x = g then { t.gate g with type := .and, children := [t.size + 2, t.size] }
      else if x = t.size then { type := .atleast, children := (t.gate g).children, tmin := l }
      else if x = t.size + 1 then { type := .atleast, children := (t.gate g).children, tmin := k }
      else if x = t.size + 2 then { type := .not, children := [t.size + 1] }
      else t.gate x := by
  have hgN : g ≠ t.size := Nat.ne_of_lt hg
  have hgN' : g ≠ t.size + 1 := by omega
  have hgN'' : g ≠ t.size + 1 + 1 := by omega
  simp only [setType, setChildren, removeAllChildren, gate_setLinks, gate_modify, gate_append,
    size_addInPstack, size_append, size_setLinks, size_modify, gate_addInPstack]
  by_cases hxg : x = g
  · subst hxg; simp [hg, hgN, hgN', hgN'', Ne.symm hgN, Ne.symm hgN', Ne.symm hgN'',
      show x < t.size + 1 by omega, show x < t.size + 1 + 1 by omega,
      show x < t.size + 1 + 1 + 1 by omega]
  by_cases h₀ : x = t.size
  · subst h₀; simp [hgN, Ne.symm hgN, show t.size ≠ t.size + 1 + 1 by omega]
  by_cases h₁ : x = t.size + 1
  · subst h₁; simp [hgN', Ne.symm hgN']
  by_cases h₂ : x = t.size + 2
  · subst h₂; simp [hgN'', Ne.symm hgN'']
  simp [hxg, Ne.symm hxg, h₀, h₁, h₂, Ne.symm h₀, Ne.symm h₁, show x ≠ t.size + 1 + 1 by omega,
    show t.size + 1 + 1 ≠ x by omega]

end Layouts

section Threshold

variable {t : BC} (hcl : t.circuit.Closed) (hg : g < t.size) (ht : (t.gate g).type = .threshold)
  {chs : List Nat} (hchs : (t.gate g).children = chs) {lo hi : Nat} (hlo : (t.gate g).tmin = lo)
  (hhi : (t.gate g).tmax = hi)
include hcl hg ht

omit hcl in
theorem sameEvaluations_clip : t.circuit.SameEvaluations
    (t.setTmax g (min (t.gate g).tmax (t.gate g).children.length)).circuit id := by
  have hgate : ∀ x, (t.setTmax g (min (t.gate g).tmax (t.gate g).children.length)).gate x =
      if x = g then { t.gate g with tmax := min (t.gate g).tmax (t.gate g).children.length }
      else t.gate x := fun x => by
    by_cases hx : x = g
    · rw [hx]; simp [setTmax, hg]
    · simp [setTmax, hx, Ne.symm hx]
  refine sameEvaluations_retype g (by simp [setTmax]) (fun x hx => by simp [hgate, hx])
    (by simp [hgate]) (by simp [hgate]) (by simp [hgate]) (by simp [hgate])
    (by simp [hgate, ht, GateType.Live]) (by rw [ht]; decide) (by simp [hgate, ht])
    (by rw [ht]; decide) fun vs hvs => ?_
  have := (List.count_le_length Bool.true vs).trans hvs.le
  simp only [hgate, eq_self_iff_true, if_true, ht, GateType.eval]
  congr 2; apply propext; omega

theorem thresholdConstant_ok {v : Bool} (hconst : ∀ c ≤ (t.gate g).children.length,
      ((t.gate g).tmin ≤ c ∧ c ≤ (t.gate g).tmax ↔ v = Bool.true))
    {ok : Bool} {s' : BC} (h : t.normalizeToConstant g v = some (ok, s')) :
    NormalizeOk t.circuit (ok, if ok then (s'.setTmin g 0).setTmax g 0 else s') :=
  normalizeToConstant_reset_ok hcl hg (by rw [ht]; decide) (by rw [ht]; decide) (fun σ => by
      refine Bool.eq_iff_iff.2 ?_
      simp only [ht, GateType.eval, Bool.and_eq_true, decide_eq_true_eq]
      exact hconst _ ((List.count_le_length _ _).trans (List.length_map _ _).le))
    _ (fun _ hg' h₁ h₂ => sameEvaluations_setTminTmax hg' h₁ h₂ 0 0) h

omit hcl in
theorem thresholdRetype_ok {ty : GateType} (hl : ty.Live) (hv : ty ≠ .var)
    (heval : ∀ vs : List Bool, vs.length = (t.gate g).children.length →
      ty.eval 0 0 vs = GateType.threshold.eval (t.gate g).tmin (t.gate g).tmax vs) :
    NormalizeOk t.circuit (true, (((t.setType g ty).setTmin g 0).setTmax g 0).addInPstack g) := by
  refine normalizeOk_true (ρ := id) ?_
  rw [circuit_addInPstack]
  exact sameEvaluations_setBounds hg hl (by rw [ht]; decide) hv (by rw [ht]; decide)
    fun vs hvs => (heval vs hvs).trans (by rw [ht])

omit hcl in
theorem thresholdAtleast_ok (hn : (t.gate g).tmax = (t.gate g).children.length) :
    NormalizeOk t.circuit (true, (t.setType g .atleast).addInPstack g) := by
  have hgate : ∀ x, (t.setType g .atleast).gate x =
      if x = g then { t.gate g with type := .atleast } else t.gate x := fun x => by
    by_cases hx : x = g
    · rw [hx]; simp [setType, hg]
    · simp [setType, hx, Ne.symm hx]
  refine normalizeOk_true (ρ := id) ?_
  rw [circuit_addInPstack]
  refine sameEvaluations_retype g (by simp [setType]) (fun x hx => by simp [hgate, hx])
    (by simp [hgate]) (by simp [hgate]) (by simp [hgate]) (by simp [hgate])
    (by simp [hgate, GateType.Live]) (by rw [ht]; decide) (by simp [hgate])
    (by rw [ht]; decide) fun vs hvs => ?_
  have := (List.count_le_length Bool.true vs).trans hvs.le
  simp only [hgate, eq_self_iff_true, if_true, ht, GateType.eval]
  simp; omega

include hchs hhi in
theorem thresholdNot_ok (h0 : (t.gate g).tmin = 0) :
    NormalizeOk t.circuit (true,
      (((((t.append { type := .atleast, children := [], tmin := hi + 1 }).addInPstack
        t.size).moveChildren false g t.size).addChild g t.size).setType g .not).addInPstack g) :=
  normalizeOk_true (ρ := id) (sameEvaluations_thresholdNot hcl hg ht h0 (l := chs.reverse)
    (by rw [hchs]; exact List.reverse_perm _) (by simp [moveChildren, setType, addChild])
    fun x => by rw [gate_thresholdNot hg, hchs, hhi])

include hchs hlo hhi in
theorem thresholdSplit_ok :
    NormalizeOk t.circuit (true,
      (((((((((t.append { type := .atleast, children := chs.reverse, tmin := lo }).addInPstack
        t.size).append { type := .atleast, children := [], tmin := hi + 1 }).addInPstack
        (t.size + 1)).moveChildren false g (t.size + 1)).append
        { type := .not, children := [t.size + 1] }).addInPstack (t.size + 1 + 1)).addChild g
        t.size).addChild g (t.size + 1 + 1)).setType g .and) :=
  normalizeOk_true (sameEvaluations_thresholdSplit hcl hg ht (l := chs.reverse)
    (by rw [hchs]; exact List.reverse_perm _) (by simp [setType, addChild]) fun x => by
      rw [← hchs, gate_thresholdSplit hg, hlo, hhi])

include hchs hlo hhi in
theorem thresholdCounter_ok :
    NormalizeOk t.circuit (true,
      ((((((((t.append { type := .atleast, children := chs, tmin := lo }).addInPstack
        t.size).append { type := .atleast, children := chs, tmin := hi + 1 }).addInPstack
        (t.size + 1)).append { type := .not, children := [t.size + 1] }).addInPstack
        (t.size + 1 + 1)).removeAllChildren g).setType g .and).setChildren g
        [t.size + 1 + 1, t.size]) :=
  normalizeOk_true (sameEvaluations_thresholdSplit hcl hg ht (l := chs)
    (by rw [hchs]) (by simp [setType, setChildren, removeAllChildren]) fun x => by
      rw [← hchs, gate_thresholdCounter hg, hlo, hhi])

end Threshold

/-- Every case of `THRESHOLD`: after the clip of the upper bound, the trivial bounds, the
gates retyped in place, and the two splits. -/
theorem normalizeThreshold_ok (hcl : s.circuit.Closed) (hg : g < s.size)
    (ht : (s.gate g).type = .threshold) {res : Bool × BC} (h : s.normalizeThreshold g = some res) :
    NormalizeOk s.circuit res := by
  have hclip := sameEvaluations_clip hg ht
  unfold normalizeThreshold at h
  simp only [installGate_eq, newNOT_eq, addCounterComparisons, size_addInPstack, size_append,
    size_moveChildren] at h
  generalize hm : min (s.gate g).tmax (s.gate g).children.length = m at h hclip
  generalize hs₁ : s.setTmax g m = t at h hclip
  have hG : t.gate g = { s.gate g with tmax := m } := by rw [← hs₁]; simp [setTmax, hg]
  have hg₁ : g < t.size := by rw [← hs₁]; simpa [setTmax] using hg
  have hcl₁ : t.circuit.Closed := fun x hx ch hch => by
    have hx' : x < s.size := by rw [← hs₁] at hx; simpa [setTmax] using hx
    rw [← hs₁]; rw [← hs₁] at hch
    simp only [BC.circuit_size, BC.circuit_gate, setTmax, size_modify, gate_modify] at hch ⊢
    split_ifs at hch <;> exact hcl x hx' ch hch
  have ht₁ : (t.gate g).type = .threshold := by rw [hG, ht]
  have hn₁ : (t.gate g).children.length = (s.gate g).children.length := by rw [hG]
  have hm₁ : m ≤ (s.gate g).children.length := hm ▸ Nat.min_le_right _ _
  by_cases h1 : (s.gate g).children.length < (s.gate g).tmin
  · rw [if_pos h1] at h
    obtain ⟨⟨ok, s'⟩, h', rfl⟩ := Option.map_eq_some'.1 h
    exact thresholdConstant_ok hcl hg ht (fun c hc => by simp; omega) h'
  rw [if_neg h1] at h
  by_cases h2 : m < (s.gate g).tmin
  · rw [if_pos h2] at h
    obtain ⟨⟨ok, s'⟩, h', rfl⟩ := Option.map_eq_some'.1 h
    exact normalizeOk_of_sameEvaluations hclip
      (thresholdConstant_ok hcl₁ hg₁ ht₁ (fun c hc => by simp [hG]; omega) h')
  rw [if_neg h2] at h
  by_cases h3 : (s.gate g).children.length = 1
  · rw [if_pos h3] at h
    split_ifs at h with h4 h5 h6
    · obtain ⟨⟨ok, s'⟩, h', rfl⟩ := Option.map_eq_some'.1 h
      exact normalizeOk_of_sameEvaluations hclip
        (thresholdConstant_ok hcl₁ hg₁ ht₁ (fun c hc => by simp [hG]; omega) h')
    all_goals
      cases h
      refine normalizeOk_of_sameEvaluations hclip (thresholdRetype_ok hg₁ ht₁ (by decide)
        (by decide) fun vs hvs => ?_)
      obtain ⟨b, rfl⟩ := List.length_eq_one.1 (hvs.trans (hn₁.trans h3))
      rw [hG]
    · cases b <;> simp [GateType.eval, h5.1, h5.2]
    · cases b <;> simp [GateType.eval, h6.1, h6.2]
  rw [if_neg h3] at h
  obtain ⟨h7, h⟩ | ⟨-, h⟩ := ite_eq_iff.1 h
  · obtain ⟨⟨ok, s'⟩, h', rfl⟩ := Option.map_eq_some'.1 h
    exact normalizeOk_of_sameEvaluations hclip
      (thresholdConstant_ok hcl₁ hg₁ ht₁ (fun c hc => by simp [hG]; omega) h')
  obtain ⟨h8, h⟩ | ⟨-, h⟩ := ite_eq_iff.1 h
  · cases h
    refine normalizeOk_of_sameEvaluations hclip (thresholdRetype_ok hg₁ ht₁ (by decide)
      (by decide) fun vs hvs => ?_)
    have := (List.count_le_length Bool.true vs).trans (hvs.trans hn₁).le
    rw [hG]; simp [GateType.eval, h8.1, h8.2]; omega
  obtain ⟨-, h⟩ | ⟨-, h⟩ := ite_eq_iff.1 h
  · cases h
    exact normalizeOk_of_sameEvaluations hclip
      ((thresholdCounter_ok hcl₁ hg₁ ht₁ (by rw [hG]) (by rw [hG]) (by rw [hG])).of_circuit_eq rfl)
  obtain ⟨h10, h⟩ | ⟨-, h⟩ := ite_eq_iff.1 h
  · cases h
    exact normalizeOk_of_sameEvaluations hclip
      (thresholdNot_ok hcl₁ hg₁ ht₁ (by rw [hG]) (by rw [hG]) (by rw [hG]; exact h10))
  obtain ⟨h11, h⟩ | ⟨-, h⟩ := ite_eq_iff.1 h
  · cases h
    exact normalizeOk_of_sameEvaluations hclip
      (thresholdAtleast_ok hg₁ ht₁ (by rw [hG]; exact h11))
  · cases h
    exact normalizeOk_of_sameEvaluations hclip
      (thresholdSplit_ok hcl₁ hg₁ ht₁ (by rw [hG]) (by rw [hG]) (by rw [hG]))

end BC

end BcSat
