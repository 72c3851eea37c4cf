import BcSat.SimplifyRestoresOrAnd

set_option autoImplicit false

/-!
# The `ODD` and `EVEN` case of `Gate::simplify` adds no solution

Read backwards, the scans of the case drop children whose values the other gates fix (a
determined child, the child under a `NOT`, a child read twice), so the old gate reads what the
new one reads. The two-child rules read the value `g` is determined to: an input child made a
`REF` or a `NOT` of the other, or parents moved from one child to the other, need the relation
between the children that `g` forces, and `g`, kept as it was or made that constant, still does.
The `AND` that replaces `ODD(x, OR(x,...))` reads what the `ODD` read, the `OR` being kept.
-/

namespace BcSat

theorem GateType.eval_of_equate {t : GateType} {v : Bool}
    (ht : t = .even ∧ v = Bool.true ∨ t = .odd ∧ (!v) = Bool.true) (lo hi : Nat) (a : Bool) :
    t.eval lo hi [a, a] = v := by
  rcases ht with ⟨rfl, rfl⟩ | ⟨rfl, hv⟩
  · cases a <;> rfl
  · obtain rfl : v = Bool.false := by simpa using hv
    cases a <;> rfl

theorem GateType.eval_of_antiEquate {t : GateType} {v : Bool}
    (ht : t = .even ∧ (!v) = Bool.true ∨ t = .odd ∧ v = Bool.true) (lo hi : Nat) (a : Bool) :
    t.eval lo hi [!a, a] = v := by
  rcases ht with ⟨rfl, hv⟩ | ⟨rfl, rfl⟩
  · obtain rfl : v = Bool.false := by simpa using hv
    cases a <;> rfl
  · cases a <;> rfl

namespace Circuit.Consistent

open BC

variable {s t : BC} {g : Nat} {σ : Nat → Bool}

/-- A change at a parity gate `g` restores the old gate when the new one reads alike. -/
theorem of_gateAt_parity (hσ : t.circuit.Consistent σ) (h : GateAt g s t)
    (ht : (t.gate g).type = .odd ∨ (t.gate g).type = .even)
    (heq : s.circuit.ConsistentBut σ g → ∀ lo hi, (t.gate g).type.eval lo hi ((t.gate g).children.map σ) =
      (s.gate g).type.eval lo hi ((s.gate g).children.map σ)) : s.circuit.Consistent σ :=
  hσ.of_gateAt h (fun _ => (GateType.parity_live ht).1) fun hb hl _ => by
    rw [← heq hb, ← (h.fields g).1, ← (h.fields g).2.1]
    exact consistent_eval hσ (h.size_eq ▸ lt_size_of_live (c := s.circuit) hl)
      (GateType.parity_live ht).1 (GateType.parity_live ht).2

theorem of_append {gt : Gate} (hσ : (s.append gt).circuit.Consistent σ) : s.circuit.Consistent σ :=
  fun x hx => by
    have := hσ x (by simp only [circuit_size, size_append] at hx ⊢; omega)
    rwa [gateOk_iff, circuit_gate, gate_append_of_lt _ hx] at this

theorem of_redirectParents {keep : Option Nat} {a b : Nat}
    (hσ : (s.redirectParents keep a b).circuit.Consistent σ) (hab : σ a = σ b) : s.circuit.Consistent σ :=
  fun x hx => gateOk_of_redirectParents hab (hσ x (by simpa using hx))

/-- An input `x` retyped into a unary gate over `y`: the input held, and the new gate reads it. -/
theorem of_retypeLeaf {x y : Nat} {t : GateType} (hσ : ((s.setType x t).addChild x y).circuit.Consistent σ)
    (hx : x < s.size) (hc : (s.gate x).children = []) (hvar : (s.gate x).type = .var) (ht : t.Live) :
    s.circuit.Consistent σ ∧ (t ≠ .var → σ x = t.eval (s.gate x).tmin (s.gate x).tmax [σ y]) := by
  have hgate := gate_retypeLeaf hx hc t y
  have hxo := hσ x (by simpa using hx)
  rw [gateOk_iff, circuit_gate, hgate, if_pos rfl] at hxo
  refine ⟨fun z hz => ?_, fun hv => by simpa using (hxo ht).1 hv⟩
  by_cases hzx : z = x
  · subst hzx
    exact fun _ => ⟨fun h => absurd hvar h, (hxo ht).2⟩
  · have := hσ z (by simpa using hz)
    rwa [gateOk_iff, circuit_gate, hgate, if_neg hzx] at this

end Circuit.Consistent

namespace BC

open Circuit

variable {s t : BC} {g : Nat} {σ : Nat → Bool}

theorem handleMap_parityDetScan : ∀ (rest kept : List Nat) (s : BC),
    (parityDetScan g kept rest s).2.handleMap = s.handleMap
  | [], _, _ => rfl
  | ch :: rest, kept, s => by
    unfold parityDetScan
    split_ifs
    · rw [handleMap_parityDetScan rest]; simp
    · rw [handleMap_parityDetScan rest]; simp
    · exact handleMap_parityDetScan rest _ s

theorem handleMap_absorbNots : ∀ (rest kept : List Nat) (s : BC) (det : Bool) {r : Bool × BC},
    absorbNots g kept rest s det = some r → r.2.handleMap = s.handleMap
  | [], _, _, _, _, h => by cases h; rfl
  | ch :: rest, kept, s, det, r, h => by
    unfold absorbNots at h
    split_ifs at h
    · obtain ⟨gc, -, h⟩ := Option.bind_eq_some.1 h
      rw [handleMap_absorbNots rest _ _ _ h]; simp
    · exact handleMap_absorbNots rest _ s det h

theorem handleMap_parityScan : ∀ (rest kept : List Nat) (s : BC) {s' : BC},
    parityScan g kept rest s = some s' → s'.handleMap = s.handleMap
  | [], _, _, _, h => by cases h; rfl
  | ch :: rest, kept, s, s', h => by
    unfold parityScan at h
    split_ifs at h
    · exact handleMap_parityScan rest _ s h
    · rw [handleMap_parityScan rest _ _ h]; simp
    · rw [handleMap_parityScan rest _ _ h]; simp

/-- A change at a parity gate that keeps the names and what the gate reads adds no solution. -/
theorem restores_of_gateAt_parity {b : Bool} (h : GateAt g s t) (hh : t.handleMap = s.handleMap)
    (ht : (t.gate g).type = .odd ∨ (t.gate g).type = .even)
    (heq : ∀ σ, s.circuit.ConsistentBut σ g → ∀ lo hi,
      (t.gate g).type.eval lo hi ((t.gate g).children.map σ) =
        (s.gate g).type.eval lo hi ((s.gate g).children.map σ)) : Restores s (b, t) :=
  .of_consistent hh fun σ hσ => hσ.of_gateAt_parity h ht (heq σ)

theorem removeParityDuplicateChildren_restores (hg : g < s.size)
    (ht : (s.gate g).type = .odd ∨ (s.gate g).type = .even) {r : Bool × BC}
    (h : s.removeParityDuplicateChildren g = some r) : Restores s r := by
  obtain ⟨s₁, h₁, e, -, hev, hr⟩ := removeParityDuplicateChildren_cases hg ht h
  have hch₂ : ((s₁.setTemps (s₁.gate g).children 0).gate g).children = (s₁.gate g).children := by simp
  have k : Restores s (true, s₁.setTemps (s₁.gate g).children 0) :=
    .of_consistent (by rw [handleMap_setTemps, handleMap_parityScan _ [] _ h₁, handleMap_setTemps])
      fun σ hσ => hσ.of_childrenAt e fun _ _ _ => by rw [hch₂, hev]
  rcases hr with ⟨hnil, h⟩ | ⟨-, rfl | rfl⟩
  · -- no child left: the constant is the parity of nothing
    refine k.trans (becomeConstant_restores (e.size_eq ▸ hg) h fun σ _ _ _ => ?_)
    rw [e.type_eq g, hch₂, hnil]
    rcases ht with e | e <;> rw [e] <;> rfl
  · exact k.of_circuit_eq (by simp)
  · exact k

section Pair

variable {c₁ c₂ : Nat} (hg : g < s.size) (ht : (s.gate g).type = .odd ∨ (s.gate g).type = .even)
  (hch : (s.gate g).children = [c₁, c₂])
include hg ht hch

/-- A determined `g`, left as it was in a consistent store, relates its two children. -/
theorem pair_value_of_keep (hσ : t.circuit.Consistent σ) (hd : (s.gate g).determined)
    (hgt : t.gate g = s.gate g) (hsize : s.size ≤ t.size) :
    (s.gate g).value = (s.gate g).type.eval (s.gate g).tmin (s.gate g).tmax [σ c₁, σ c₂] := by
  have hl := GateType.parity_live ht
  have hg' : g < t.size := by omega
  have hv := consistent_det hσ hg' (by rw [hgt]; exact hl.1) (by rw [hgt]; exact hd)
  have he := consistent_eval hσ hg' (by rw [hgt]; exact hl.1) (by rw [hgt]; exact hl.2)
  rw [hgt] at hv he
  rw [← hv, he, hch]
  rfl

omit hch in
/-- An input child `x` made a unary gate of type `t` over `y`, once `g` is the constant it was
determined to: the old `g` reads that constant wherever `x` reads so. -/
theorem unifyChild_restores (hb : s.circuit.LeavesBare) {x y : Nat} {t : GateType}
    (htl : t.Live ∧ t ≠ .var) (hx : (s.gate x).type = .var)
    (hxy : ∀ σ, σ x = t.eval (s.gate x).tmin (s.gate x).tmax [σ y] →
      (s.gate g).value = (s.gate g).type.eval (s.gate g).tmin (s.gate g).tmax ((s.gate g).children.map σ))
    {s₁ : BC} (h₁ : s.transformIntoConstant g (s.gate g).value = some s₁) :
    Restores s (true, ((s₁.addParentsInPstack g).setType x t).addChild x y) := by
  have hxs : x < s.size := lt_size_of_live (c := s.circuit) (show (s.gate x).type.Live by rw [hx]; decide)
  have hxg : x ≠ g := fun e => by subst e; rw [hx] at ht; rcases ht with e | e <;> cases e
  obtain ⟨hsize₁, hgate₁⟩ := transformIntoConstant_gate hg h₁
  have hxc : (s.gate x).children = [] := hb x hxs (.inl hx)
  refine .of_consistent (by simp [handleMap_transformIntoConstant h₁]) fun σ hσ => ?_
  obtain ⟨hσ₁, he⟩ := hσ.of_retypeLeaf (by simp [hsize₁, hxs]) (by simp [hgate₁, hxg, hxc])
    (by simp [hgate₁, hxg, hx]) htl.1
  exact Consistent.of_transformIntoConstant (by simpa using hσ₁) hg h₁ fun _ _ _ =>
    hxy σ (by simpa [hgate₁, hxg] using he htl.2)

theorem equateRule_restores (hb : s.circuit.LeavesBare) (hd : (s.gate g).determined)
    (hv : (s.gate g).type = .even ∧ (s.gate g).value = true ∨
      (s.gate g).type = .odd ∧ (!(s.gate g).value) = true) :
    (∀ r, s.equateRule g c₁ c₂ = .inl (some r) → Restores s r) ∧
      ∀ s', s.equateRule g c₁ c₂ = .inr s' → Restores s (true, s') := by
  have heval : ∀ σ : Nat → Bool, σ c₁ = σ c₂ → (s.gate g).value =
      (s.gate g).type.eval (s.gate g).tmin (s.gate g).tmax ((s.gate g).children.map σ) := fun σ he => by
    rw [hch, List.map_cons, List.map_cons, List.map_nil, he, GateType.eval_of_equate hv]
  -- parents moved between the children: `g` stays, and forces them equal
  have hsame : ∀ {a b : Nat}, (a = c₁ ∧ b = c₂ ∨ a = c₂ ∧ b = c₁) →
      Restores s (true, (s.redirectParents (some g) a b).addParentsInPstack b) := fun {a b} hab =>
    .of_consistent (by simp) fun σ hσ => by
      have hσ' : (s.redirectParents (some g) a b).circuit.Consistent σ := by simpa using hσ
      have he := GateType.eq_of_equate (pair_value_of_keep hg ht hch hσ' hd
        (by rw [gate_redirectParents, if_pos rfl]) (by simp)) hv
      exact hσ'.of_redirectParents (by rcases hab with ⟨rfl, rfl⟩ | ⟨rfl, rfl⟩ <;> simp [he])
  unfold equateRule
  dsimp only
  split_ifs with hne hv₁ hv₂ hp hdep
  · refine ⟨fun r h => ?_, nofun⟩
    obtain ⟨s₁, h₁, rfl⟩ := Option.map_eq_some'.1 (Sum.inl.inj h)
    exact .of_consistent (by simp [handleMap_transformIntoConstant h₁]) fun σ hσ =>
      Consistent.of_transformIntoConstant (by simpa using hσ) hg h₁ fun _ _ _ => heval σ (by rw [hne])
  · refine ⟨fun r h => ?_, nofun⟩
    obtain ⟨s₁, h₁, rfl⟩ := Option.map_eq_some'.1 (Sum.inl.inj h)
    exact (unifyChild_restores hg ht hb (t := .ref) (y := c₂) ⟨by decide, by decide⟩ hv₁.2.1
      (fun σ he => heval σ (by simpa using he)) h₁).of_circuit_eq (by simp)
  · refine ⟨fun r h => ?_, nofun⟩
    obtain ⟨s₁, h₁, rfl⟩ := Option.map_eq_some'.1 (Sum.inl.inj h)
    exact (unifyChild_restores hg ht hb (t := .ref) (y := c₁) ⟨by decide, by decide⟩ hv₂.2.1
      (fun σ he => heval σ (by simpa using he.symm)) h₁).of_circuit_eq (by simp)
  · exact ⟨nofun, fun s' h => by cases h; exact hsame (.inr ⟨rfl, rfl⟩)⟩
  · exact ⟨nofun, fun s' h => by cases h; exact hsame (.inl ⟨rfl, rfl⟩)⟩
  · exact ⟨nofun, fun s' h => by cases h; exact .refl s⟩

theorem antiEquateRule_restores (hb : s.circuit.LeavesBare) (hd : (s.gate g).determined)
    (hv : (s.gate g).type = .even ∧ (!(s.gate g).value) = true ∨
      (s.gate g).type = .odd ∧ (s.gate g).value = true) :
    (∀ r, s.antiEquateRule g c₁ c₂ = .inl (some r) → Restores s r) ∧
      ∀ s', s.antiEquateRule g c₁ c₂ = .inr s' → Restores s (true, s') := by
  have heval : ∀ σ : Nat → Bool, σ c₁ = !σ c₂ → (s.gate g).value =
      (s.gate g).type.eval (s.gate g).tmin (s.gate g).tmax ((s.gate g).children.map σ) := fun σ he => by
    rw [hch, List.map_cons, List.map_cons, List.map_nil, he, GateType.eval_of_antiEquate hv]
  -- the parents of `y` read a new `NOT(x)`: `g` stays, and forces `y` to it
  have hend : ∀ {x y : Nat}, (x = c₁ ∧ y = c₂ ∨ x = c₂ ∧ y = c₁) → ∀ s',
      (((s.append { type := .not, children := [x] }).redirectParents (some g) y s.size).addParentsInPstack
        s.size).addInPstack s.size = s' → Restores s (true, s') := fun {x y} hxy s' h => by
    subst h
    refine .of_consistent (by simp) fun σ hσ => ?_
    have hσ' : ((s.append { type := .not, children := [x] }).redirectParents (some g) y s.size).circuit.Consistent
        σ := by simpa using hσ
    have he := GateType.eq_not_of_antiEquate (pair_value_of_keep hg ht hch hσ' hd
      (by rw [gate_redirectParents, if_pos rfl, gate_append_of_lt _ hg]) (by simp)) hv
    have hxy' : x ≠ y := by
      rintro rfl
      rcases hxy with ⟨rfl, h⟩ | ⟨rfl, h⟩ <;> rw [h] at he <;> cases e : σ x <;> simp [e] at he
    have hgs : ((s.append { type := .not, children := [x] }).redirectParents (some g) y s.size).gate s.size =
        { type := .not, children := [x] } := by
      rw [gate_redirectParents, if_neg (by simp [Nat.ne_of_lt hg]), gate_append_self]
      simp [hxy']
    have hn := consistent_eval hσ' (x := s.size) (by simp)
      (by rw [hgs]; exact (by decide : GateType.not.Live)) (by rw [hgs]; exact (by decide : GateType.not ≠ .var))
    rw [hgs] at hn
    simp only [List.map_cons, List.map_nil, GateType.eval_not_one] at hn
    exact (hσ'.of_redirectParents (by rw [hn]; rcases hxy with ⟨rfl, rfl⟩ | ⟨rfl, rfl⟩ <;> simp [he])).of_append
  unfold antiEquateRule
  dsimp only
  simp only [installGate_eq]
  split_ifs with hne hv₁ hv₂ hp hx
  · exact ⟨fun r h => by cases Option.some.inj (Sum.inl.inj h); exact .of_false _, nofun⟩
  · refine ⟨fun r h => ?_, nofun⟩
    obtain ⟨s₁, h₁, rfl⟩ := Option.map_eq_some'.1 (Sum.inl.inj h)
    exact (unifyChild_restores hg ht hb (t := .not) (y := c₂) ⟨by decide, by decide⟩ hv₁.2.1
      (fun σ he => heval σ (by simpa using he)) h₁).of_circuit_eq (by simp)
  · refine ⟨fun r h => ?_, nofun⟩
    obtain ⟨s₁, h₁, rfl⟩ := Option.map_eq_some'.1 (Sum.inl.inj h)
    exact (unifyChild_restores hg ht hb (t := .not) (y := c₁) ⟨by decide, by decide⟩ hv₂.2.1
      (fun σ he => heval σ (by simp at he; simp [he])) h₁).of_circuit_eq (by simp)
  · exact ⟨nofun, fun s' h => hend (.inl ⟨rfl, rfl⟩) s' (Sum.inr.inj h)⟩
  · exact ⟨nofun, fun s' h => hend (.inr ⟨rfl, rfl⟩) s' (Sum.inr.inj h)⟩
  · exact ⟨nofun, fun s' h => by cases h; exact .refl s⟩

end Pair

theorem oddOfOr_restores (hs : s.circuit.Shaped) (hg : g < s.size) {c o : Nat}
    (ht : (s.gate g).type = .odd) (hch : (s.gate g).children = [c, o] ∨ (s.gate g).children = [o, c])
    (hto : (s.gate o).type = .or) (hco : c ∈ (s.gate o).children) :
    Restores s (true, s.oddOfOr g c o) := by
  have hl : (s.gate g).type.Live := by rw [ht]; decide
  have hol : (s.gate o).type.Live := (hs g hg hl).1 o (by rcases hch with e | e <;> simp [e])
  have ho : o < s.size := lt_size_of_live (c := s.circuit) hol
  have hog : o ≠ g := by rintro rfl; rw [ht] at hto; cases hto
  have hgate := gate_oddOfOr hg ho (c := c)
  refine .of_consistent (funext fun x => ?_) fun σ hσ => ?_
  · simp only [handleMap, hgate]
    split_ifs with h₁ h₂ h₃
    · subst h₁; rfl
    · subst h₂; rw [handles_of_size_le le_rfl]
    · subst h₃; rw [handles_of_size_le (by omega)]
    · rfl
  set L := (s.gate o).children.filter (· ≠ c)
  -- the other old gates are as they were, the `OR` among them
  have hb : s.circuit.ConsistentBut σ g := fun x hx hxg => by
    have := hσ x (by simp only [circuit_size, size_oddOfOr] at hx ⊢; omega)
    rwa [gateOk_iff, circuit_gate, hgate, if_neg hxg, if_neg (Nat.ne_of_lt (show x < s.size from hx)),
      if_neg (by simp only [circuit_size] at hx; omega)] at this
  have hvo : σ o = (σ c || GateType.or.eval 0 0 (L.map σ)) := by
    rw [hb.eval ho hog hol (by rw [circuit_gate, hto]; decide), circuit_gate, hto, GateType.eval_or_split hco]
  have hn₁ := consistent_eval hσ (x := s.size) (by simp)
    (by rw [hgate, if_neg (Nat.ne_of_gt hg), if_pos rfl]; exact (by decide : GateType.or.Live))
    (by rw [hgate, if_neg (Nat.ne_of_gt hg), if_pos rfl]; exact (by decide : GateType.or ≠ .var))
  rw [hgate, if_neg (Nat.ne_of_gt hg), if_pos rfl, List.map_reverse,
    GateType.eval_reverse (show GateType.or ≠ .ite by decide)] at hn₁
  have hn₂ := consistent_eval hσ (x := s.size + 1) (by simp)
    (by rw [hgate, if_neg (by omega), if_neg (by omega), if_pos rfl]; exact (by decide : GateType.not.Live))
    (by rw [hgate, if_neg (by omega), if_neg (by omega), if_pos rfl]; exact (by decide : GateType.not ≠ .var))
  rw [hgate, if_neg (by omega), if_neg (by omega), if_pos rfl] at hn₂
  have hgo := hσ g (by simp; omega)
  rw [gateOk_iff, circuit_gate, hgate, if_pos rfl] at hgo
  -- `AND(NOT(x), OR(y,z))` is what `ODD(x, OR(x,y,z))` reads
  refine hb.consistent fun _ _ => ⟨fun _ => ?_, (hgo (by decide : GateType.and.Live)).2⟩
  rw [(hgo (by decide : GateType.and.Live)).1 (by decide : GateType.and ≠ .var), circuit_gate, ht]
  have hand : GateType.and.eval (s.gate g).tmin (s.gate g).tmax ([s.size, s.size + 1].map σ) =
      (GateType.or.eval 0 0 (L.map σ) && !σ c) := by
    simp only [List.map_cons, List.map_nil, hn₁, hn₂, GateType.eval_not_one, GateType.eval_and_two]
  rw [hand]
  rcases hch with e | e <;> rw [e] <;> simp only [List.map_cons, List.map_nil, hvo] <;>
    generalize GateType.or.eval 0 0 (L.map σ) = v <;> cases σ c <;> cases v <;> rfl

theorem oddOrRule_restores (hs : s.circuit.Shaped) (hg : g < s.size) {c₁ c₂ : Nat}
    (ht : (s.gate g).type = .odd) (hch : (s.gate g).children = [c₁, c₂]) {r : Bool × BC}
    (h : s.oddOrRule g c₁ c₂ = some r) : Restores s r := by
  unfold oddOrRule at h
  split_ifs at h with h₁ h₂ h₃ h₄ h₅ <;> cases h
  · exact oddOfOr_restores hs hg ht (.inl hch) h₂.1 h₃
  · exact .refl s
  · exact oddOfOr_restores hs hg ht (.inr hch) h₄.1 h₅
  · exact .refl s
  · exact .refl s

theorem parityPairRules_restores (hs : s.circuit.Shaped) (hb : s.circuit.LeavesBare) (hg : g < s.size)
    (ht : (s.gate g).type = .odd ∨ (s.gate g).type = .even) {c₁ c₂ : Nat} {rest : List Nat}
    (hch : (s.gate g).children = c₁ :: c₂ :: rest) {r : Bool × BC}
    (h : s.parityPairRules g c₁ c₂ rest = some r) : Restores s r := by
  have hend : ∀ s', Restores s (true, s') → s'.circuit.Shaped → s.size ≤ s'.size →
      (s'.gate g).type = (s.gate g).type → (s'.gate g).children = (s.gate g).children →
      (if (s'.gate g).type = .odd ∧ rest = [] then s'.oddOrRule g c₁ c₂ else some (true, s')) =
        some r → Restores s r := fun s' hk hs' hsz hty hch' h => by
    split_ifs at h with ho
    · have hch₂ : (s'.gate g).children = [c₁, c₂] := by rw [hch', hch, ho.2]
      exact hk.trans (oddOrRule_restores hs' (lt_of_lt_of_le hg hsz) ho.1 hch₂ h)
    · cases h; exact hk
  have hpair : rest = [] → (s.gate g).children = [c₁, c₂] := fun e => by rw [hch, e]
  unfold parityPairRules at h
  dsimp only at h
  split at h
  next r₁ heq =>
    split_ifs at heq with b₁
    obtain ⟨⟨hr, hd⟩, hv⟩ := of_decide_eq_true b₁
    exact (equateRule_restores hg ht (hpair hr) hb hd hv).1 r (heq.trans (congrArg Sum.inl h))
  next s₁ heq =>
    split at h
    next r₂ heq₂ =>
      split_ifs at heq heq₂ with b₁ b₂ b₃
      · exact (not_equate_and_antiEquate (of_decide_eq_true b₁).2 (of_decide_eq_true b₂).2).elim
      · cases heq
        obtain ⟨⟨hr, hd⟩, hv⟩ := of_decide_eq_true b₃
        exact (antiEquateRule_restores hg ht (hpair hr) hb hd hv).1 r (heq₂.trans (congrArg Sum.inl h))
    next s₂ heq₂ =>
      split_ifs at heq heq₂ with b₁ b₂ b₃
      · exact (not_equate_and_antiEquate (of_decide_eq_true b₁).2 (of_decide_eq_true b₂).2).elim
      · cases heq₂
        obtain ⟨⟨hr, hd⟩, hv⟩ := of_decide_eq_true b₁
        obtain ⟨hk, hs', hty, hch'⟩ := (equateRule_keeps hs hg ht (hpair hr) hb hd hv).2 _ heq
        exact hend _ ((equateRule_restores hg ht (hpair hr) hb hd hv).2 _ heq) hs' hk.1 hty hch' h
      · cases heq
        obtain ⟨⟨hr, hd⟩, hv⟩ := of_decide_eq_true b₃
        obtain ⟨hk, hs', hty, hch'⟩ := (antiEquateRule_keeps hs hg ht (hpair hr) hb hd hv).2 _ heq₂
        exact hend _ ((antiEquateRule_restores hg ht (hpair hr) hb hd hv).2 _ heq₂) hs' hk.1 hty hch' h
      · cases heq; cases heq₂; exact hend _ (.refl s) hs le_rfl rfl rfl h

theorem simplifyParity_restores (ha : s.circuit.Acyclic) (hs : s.circuit.Shaped)
    (hb : s.circuit.LeavesBare) (hg : g < s.size) (ht : (s.gate g).type = .odd ∨ (s.gate g).type = .even)
    {r : Bool × BC} (h : s.simplifyParity g = some r) : Restores s r := by
  have hl : (s.gate g).type.Live := (GateType.parity_live ht).1
  have hlive : ∀ x ∈ (s.gate g).children, (s.gate x).type.Live := (hs g hg hl).1
  have notLeaf : ∀ {t : GateType}, t = .odd ∨ t = .even → ¬(t = .var ∨ t = .true ∨ t = .false) := by
    rintro t (rfl | rfl) <;> decide
  obtain ⟨e₁, ht₁, hlen₁, hsub₁, hev₁⟩ := parityDetScan_spec (s.gate g).children [] s hg ht rfl
  -- the dropped children are determined, and the other gates give their values
  have k₁ : Restores s (true, (parityDetScan g [] (s.gate g).children s).2) :=
    restores_of_gateAt_parity e₁ (handleMap_parityDetScan _ [] s) ht₁ fun σ hb => hev₁ σ fun x hx hd =>
      hb.det (lt_size_of_live (c := s.circuit) (hlive x hx)) (ha.ne_of_mem hx) (hlive x hx) hd
  unfold simplifyParity at h
  split at h
  next s₁ heq =>
    -- no undetermined child: `g` is the parity of its flipped type alone
    rw [heq] at e₁ ht₁ hlen₁ k₁
    refine k₁.trans (becomeConstant_restores (e₁.size_eq ▸ hg) h fun σ _ _ _ => ?_)
    rw [List.length_eq_zero.1 hlen₁, GateType.eval_parity ht₁]
    rcases ht₁ with e | e <;> simp [e]
  next s₁ heq =>
    -- one undetermined child `y`: `ODD(y)` is `REF(y)` and `EVEN(y)` is `NOT(y)`
    rw [heq] at e₁ ht₁ hlen₁ k₁
    obtain ⟨y, hy⟩ := List.length_eq_one.1 hlen₁
    have hg₁ : g < s₁.size := e₁.size_eq ▸ hg
    have hgate : ∀ (t : GateType) (x : Nat), (s₁.setType g t).gate x =
        if x = g then { s₁.gate g with type := t, children := [y] } else s₁.gate x := fun t x => by
      by_cases hx : x = g
      · subst hx; simp [hg₁, hy]
      · simp [hx, Ne.symm hx]
    cases h
    refine k₁.trans ?_
    split_ifs with ho
    · exact @restores_of_rewrite _ _ _ _ .ref [y] hg₁ ⟨by decide, by decide⟩ (by simp)
        (fun x => by simpa using hgate .ref x) fun σ _ _ _ => by
          rw [ho, hy, List.map_singleton]; cases σ y <;> rfl
    · exact @restores_of_rewrite _ _ _ _ .not [y] hg₁ ⟨by decide, by decide⟩ (by simp)
        (fun x => by simpa using hgate .not x) fun σ _ _ _ => by
          rw [ht₁.resolve_left ho, hy, List.map_singleton]; cases σ y <;> rfl
  next s₁ _ _ heq =>
    rw [heq] at e₁ ht₁ hlen₁ hsub₁ k₁
    have hg₁ : g < s₁.size := e₁.size_eq ▸ hg
    obtain ⟨⟨det, s₂⟩, h₂, h⟩ := Option.bind_eq_some.1 h
    have hs₁ : s₁.circuit.Shaped := e₁.shaped_parity hs hg ht ht₁ (fun y hy => by simpa using hsub₁ y hy)
      (fun hnil => by simp_all)
    obtain ⟨e₂, ht₂, hs₂, hev₂⟩ := absorbNots_spec _ [] s₁ false hg₁ ht₁ rfl hs₁ h₂
    have hg₂ : g < s₂.size := e₂.size_eq ▸ hg₁
    have k₂ : Restores s (true, s₂) :=
      k₁.trans (restores_of_gateAt_parity e₂ (handleMap_absorbNots _ [] s₁ false h₂) ht₂ hev₂)
    have hb₂ : s₂.circuit.LeavesBare := (e₁.trans e₂).toOnlyAt.leavesBare hb (notLeaf ht₂)
    dsimp only at h
    split_ifs at h with hdet
    · cases h; exact k₂.of_circuit_eq (by simp)
    · obtain ⟨⟨ok, s₃⟩, h₃, h⟩ := Option.bind_eq_some.1 h
      have k₃ := removeParityDuplicateChildren_restores hg₂ ht₂ h₃
      obtain ⟨-, hrest⟩ := removeParityDuplicateChildren_spec hs₂ hg₂ ht₂ h₃
      dsimp only at h
      split_ifs at h with hok hin hpar
      · cases h; exact .of_false _
      all_goals
        simp only [Bool.not_eq_true', Bool.not_eq_false, Bool.not_eq_eq_eq_not, Bool.not_true] at hok
        subst hok
      · cases h; exact k₂.trans k₃
      · cases h; exact k₂.trans k₃
      · have hpar' : (s₃.gate g).type = .odd ∨ (s₃.gate g).type = .even :=
          or_iff_not_imp_left.2 (by simpa using hpar)
        obtain ⟨e₃, hs₃⟩ := hrest rfl hpar'
        have hb₃ : s₃.circuit.LeavesBare :=
          (GateAt.of_childrenAt e₃).toOnlyAt.leavesBare hb₂ (notLeaf hpar')
        split at h
        next c₁ c₂ rest hch =>
          exact (k₂.trans k₃).trans (parityPairRules_restores hs₃ hb₃ (e₃.size_eq ▸ hg₂) hpar' hch h)
        next => cases h

end BC

end BcSat
