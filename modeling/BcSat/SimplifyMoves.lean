import BcSat.SimplifyAcyclic

set_option autoImplicit false

/-!
# The moves of `Gate::simplify` guarded by `depends_on`

The `EVEN`/`ODD` rules that equate or complement two children and the `EQUIV = T` rules that
unify inputs and redirect edges to the least child add edges between gates already in the store.
Each is guarded: by `depends_on`, by the gate being an input (which has no children), or by the
gate having `g` as its only parent. The scans that run first change only `g`, so what the guards
read about the other gates is what the store had when the call started. Input unification
needs the children of `g` without repetitions, which the duplicate scan ensures when every child
is undetermined.
-/

namespace BcSat

namespace BC

open Relation Circuit

variable {s s' s'' : BC} {g : Nat}

/-- Only `g` may change its type or its children. -/
structure OnlyAt (g : Nat) (s s' : BC) : Prop where
  frame : ∀ x ≠ g, (s'.gate x).type = (s.gate x).type ∧ (s'.gate x).children = (s.gate x).children

namespace OnlyAt

theorem refl (g : Nat) (s : BC) : OnlyAt g s s := ⟨fun _ _ => ⟨rfl, rfl⟩⟩

theorem trans (h₁ : OnlyAt g s s') (h₂ : OnlyAt g s' s'') : OnlyAt g s s'' :=
  ⟨fun x hx => ⟨(h₂.frame x hx).1.trans (h₁.frame x hx).1, (h₂.frame x hx).2.trans (h₁.frame x hx).2⟩⟩

theorem of_gate (h : ∀ x ≠ g, s'.gate x = s.gate x) : OnlyAt g s s' :=
  ⟨fun x hx => by rw [h x hx]; exact ⟨rfl, rfl⟩⟩

theorem of_frame (h : ∀ x, (s'.gate x).type = (s.gate x).type ∧
    (s'.gate x).children = (s.gate x).children) : OnlyAt g s s' := ⟨fun x _ => h x⟩

theorem modify (f : Gate → Gate) : OnlyAt g s (s.modify g f) :=
  of_gate fun _ hx => gate_modify_of_ne _ (Ne.symm hx)

theorem setTemp (y : Nat) (t : Int) : OnlyAt g s (s.setTemp y t) :=
  of_frame fun x => by rw [BC.setTemp, gate_modify]; split_ifs <;> exact ⟨rfl, rfl⟩

theorem setTemps (xs : List Nat) (t : Int) : OnlyAt g s (s.setTemps xs t) := by
  induction xs generalizing s with
  | nil => exact refl g s
  | cons y xs ih => exact (setTemp y t).trans ih

theorem pushIfOrphan (y : Nat) : OnlyAt g s (s.pushIfOrphan y) := of_gate fun _ _ => by simp

theorem setLinks (h : OnlyAt g s s') (p : Nat) (l : List Nat) : OnlyAt g s (s'.setLinks p l) :=
  ⟨h.frame⟩

theorem tick (h : OnlyAt g s s') (n : Nat) : OnlyAt g s (s'.tick n) := ⟨h.frame⟩

theorem addInPstack (y : Nat) : OnlyAt g s (s.addInPstack y) := of_gate fun _ _ => by simp

theorem popChildren (chs : List Nat) : ∀ s : BC, OnlyAt g s (BC.popChildren g chs s) := by
  induction chs with
  | nil => exact refl g
  | cons ch rest ih => exact fun s => (((modify _).setLinks g _).trans (pushIfOrphan ch)).trans (ih _)

theorem transformIntoConstant {v : Bool} (h : s.transformIntoConstant g v = some s') :
    OnlyAt g s s' := by
  unfold BC.transformIntoConstant at h
  split at h
  · cases h
  · cases h; exact (modify _).trans ((popChildren _ _).trans (of_gate fun _ _ => rfl))

theorem becomeConstant {v : Bool} {r : Bool × BC} (h : s.becomeConstant g v = some r) :
    OnlyAt g s r.2 := by
  unfold BC.becomeConstant at h
  split_ifs at h
  · cases h; exact refl g s
  · obtain ⟨s₁, h₁, rfl⟩ := Option.map_eq_some'.1 h
    exact (transformIntoConstant h₁).trans (of_gate fun _ _ => by simp)

theorem childless (h : OnlyAt g s s') (hb : s.circuit.LeavesBare) {x : Nat} (hx : x ≠ g)
    (hv : (s'.gate x).type = .var) : (s'.gate x).children = [] := by
  rw [(h.frame x hx).2]
  by_cases hxs : x < s.size
  · exact hb x hxs (.inl ((h.frame x hx).1 ▸ hv))
  · rw [← circuit_gate, s.circuit.gate_of_size_le (by simpa using hxs)]; rfl

end OnlyAt

theorem clearTemps_onlyAt : ∀ (xs : List Nat) (s : BC) {s' : BC}, clearTemps xs s = some s' →
    OnlyAt g s s'
  | [], s, _, h => by cases h; exact .refl g s
  | x :: xs, s, s', h => by
    simp only [clearTemps] at h
    split_ifs at h
    · obtain ⟨gc, -, h⟩ := Option.bind_eq_some.1 h
      exact ((OnlyAt.setTemp x 0).trans (OnlyAt.setTemp gc 0)).trans (clearTemps_onlyAt xs _ h)
    · exact (OnlyAt.setTemp x 0).trans (clearTemps_onlyAt xs _ h)

theorem gNotGScan_onlyAt (g : Nat) : ∀ (rest kept : List Nat) (s : BC) {r : Bool × BC},
    gNotGScan g kept rest s = some r → OnlyAt g s r.2
  | [], _, s, _, h => by cases h; exact .refl g s
  | ch :: rest, kept, s, r, h => by
    rcases gNotGScan_cons h with ⟨-, h⟩ | ⟨-, -, rfl⟩ | ⟨-, -, h⟩ | ⟨-, -, -, ⟨rfl, -⟩ | ⟨gc, -, -, -, h⟩ | h⟩
    · exact gNotGScan_onlyAt g rest _ s h
    · exact .refl g s
    · exact ((OnlyAt.modify _).setLinks g _).trans (gNotGScan_onlyAt g rest _ _ h)
    · exact OnlyAt.setTemp ch 1
    · exact (OnlyAt.setTemp ch 1).trans ((OnlyAt.setTemp gc 2).trans (gNotGScan_onlyAt g rest _ _ h))
    · exact (OnlyAt.setTemp ch 1).trans (gNotGScan_onlyAt g rest _ _ h)

theorem removeGNotGAndDuplicateChildren_onlyAt {r : Bool × BC}
    (h : s.removeGNotGAndDuplicateChildren g = some r) : OnlyAt g s r.2 := by
  unfold removeGNotGAndDuplicateChildren at h
  dsimp only at h
  split_ifs at h
  · cases h; exact .refl g s
  · obtain ⟨s₁, h₁, h⟩ := Option.bind_eq_some.1 h
    obtain ⟨⟨found, s₂⟩, h₂, h⟩ := Option.bind_eq_some.1 h
    obtain ⟨s₃, h₃, h⟩ := Option.bind_eq_some.1 h
    have o := (clearTemps_onlyAt _ _ h₁).trans
      ((gNotGScan_onlyAt g _ [] s₁ h₂).trans (clearTemps_onlyAt _ _ h₃))
    split_ifs at h
    · exact o.trans (OnlyAt.becomeConstant h)
    · cases h; exact o.trans (OnlyAt.addInPstack g)
    · cases h; exact o

theorem parityScan_onlyAt (g : Nat) : ∀ (rest kept : List Nat) (s : BC) {s' : BC},
    parityScan g kept rest s = some s' → OnlyAt g s s'
  | [], _, s, _, h => by cases h; exact .refl g s
  | ch :: rest, kept, s, s', h => by
    unfold parityScan at h
    dsimp only at h
    split_ifs at h
    · exact parityScan_onlyAt g rest _ s h
    · exact (OnlyAt.setTemp ch 0).trans (((OnlyAt.modify _).setLinks g _).trans
        ((OnlyAt.pushIfOrphan ch).trans (parityScan_onlyAt g rest _ _ h)))
    · exact (OnlyAt.setTemp ch 1).trans (parityScan_onlyAt g rest _ _ h)

theorem removeParityDuplicateChildren_onlyAt {r : Bool × BC}
    (h : s.removeParityDuplicateChildren g = some r) : OnlyAt g s r.2 := by
  unfold removeParityDuplicateChildren at h
  dsimp only at h
  split_ifs at h
  · cases h; exact .refl g s
  · obtain ⟨s₁, h₁, h⟩ := Option.bind_eq_some.1 h
    have o := ((OnlyAt.setTemps _ 0).trans (parityScan_onlyAt g _ [] _ h₁)).trans
      (OnlyAt.setTemps (s₁.gate g).children 0)
    split_ifs at h
    · exact o.trans (OnlyAt.becomeConstant h)
    · cases h; exact o.trans (OnlyAt.addInPstack g)
    · cases h; exact o

theorem parityDetScan_implied (g : Nat) : ∀ (rest kept : List Nat) (s : BC),
    ScanOk g kept rest s → Implied s (parityDetScan g kept rest s).2
  | [], _, s, _ => .refl s
  | ch :: rest, kept, s, hok => by
    unfold parityDetScan
    split_ifs
    · have i₁ := Implied.modify s g (f := fun gt => { gt with type := gt.type.flipParity }) fun _ => rfl
      have d := fun l => (hok.frame (children_modify_of
        (f := fun gt => { gt with type := gt.type.flipParity }) _ g _ fun _ => rfl)).delete l fun _ h => h
      exact ((i₁.trans (d _).1).trans (Implied.pushIfOrphan _ _)).trans
        (parityDetScan_implied g rest kept _ ((d _).2.frame (congrArg Gate.children gate_pushIfOrphan)))
    · have d := fun l => hok.delete l fun _ h => h
      exact ((d _).1.trans (Implied.pushIfOrphan _ _)).trans
        (parityDetScan_implied g rest kept _ ((d _).2.frame (congrArg Gate.children gate_pushIfOrphan)))
    · exact parityDetScan_implied g rest _ s hok.keep

theorem parityDetScan_onlyAt (g : Nat) : ∀ (rest kept : List Nat) (s : BC),
    OnlyAt g s (parityDetScan g kept rest s).2
  | [], _, s => .refl g s
  | ch :: rest, kept, s => by
    unfold parityDetScan
    split_ifs
    · exact (((OnlyAt.modify _).trans (OnlyAt.modify _)).setLinks g _).trans
        ((OnlyAt.pushIfOrphan ch).trans (parityDetScan_onlyAt g rest kept _))
    · exact ((OnlyAt.modify _).setLinks g _).trans
        ((OnlyAt.pushIfOrphan ch).trans (parityDetScan_onlyAt g rest kept _))
    · exact parityDetScan_onlyAt g rest _ s

theorem absorbNots_implied (s₀ : BC) (g : Nat) : ∀ (rest kept : List Nat) (s : BC) (det : Bool)
    {r : Bool × BC}, Implied s₀ s → (∀ y ∈ kept ++ rest, TransGen s₀.circuit.Edge g y) →
      absorbNots g kept rest s det = some r → Implied s₀ r.2
  | [], _, _, _, _, hi, _, h => by cases h; exact hi
  | ch :: rest, kept, s, det, r, hi, hreach, h => by
    unfold absorbNots at h
    split_ifs at h
    · obtain ⟨gc, hgc, h⟩ := Option.bind_eq_some.1 h
      have hgc' : TransGen s₀.circuit.Edge g gc :=
        (hreach ch (by simp)).trans (hi.edge ch gc (List.mem_of_mem_head? hgc))
      have hreach' : ∀ y ∈ kept ++ gc :: rest, TransGen s₀.circuit.Edge g y := fun y hy => by
        simp only [List.mem_append, List.mem_cons] at hy
        rcases hy with hy | rfl | hy
        · exact hreach y (by simp [hy])
        · exact hgc'
        · exact hreach y (by simp [hy])
      exact absorbNots_implied s₀ g rest _ _ _
        (((((hi.setChildren_of fun y hy => .inr (hreach' y hy)).setLinks g _).tick 1).trans
        (Implied.pushIfOrphan _ _)).trans (Implied.modify _ g
          (f := fun gt => { gt with type := gt.type.flipParity }) fun _ => rfl))
        (fun y hy => hreach' y (by simpa using hy)) h
    · exact absorbNots_implied s₀ g rest _ s det hi (by simpa using hreach) h

theorem absorbNots_onlyAt (g : Nat) : ∀ (rest kept : List Nat) (s : BC) (det : Bool)
    {r : Bool × BC}, absorbNots g kept rest s det = some r → OnlyAt g s r.2
  | [], _, s, _, _, h => by cases h; exact .refl g s
  | ch :: rest, kept, s, det, r, h => by
    unfold absorbNots at h
    split_ifs at h
    · obtain ⟨gc, -, h⟩ := Option.bind_eq_some.1 h
      exact (((((OnlyAt.modify _).setLinks g _).tick 1).trans (OnlyAt.pushIfOrphan ch)).trans
        (OnlyAt.modify _)).trans (absorbNots_onlyAt g rest _ _ _ h)
    · exact absorbNots_onlyAt g rest _ s det h

theorem children_redirectParents_keep (a b : Nat) :
    ((s.redirectParents (some g) a b).gate g).children = (s.gate g).children := by
  rw [gate_redirectParents, if_pos rfl]

theorem acyclic_unifyChild (ha : s.circuit.Acyclic) {x y : Nat} {t : GateType} {s₁ : BC}
    (hy : y < s.size) (hyx : ¬ReflTransGen s.circuit.Edge y x)
    (h : s.transformIntoConstant g (s.gate g).value = some s₁) :
    (((s₁.addParentsInPstack g).setType x t).addChild x y).circuit.Acyclic := by
  have i := ((Implied.transformIntoConstant _ _ h).trans (Implied.addParentsInPstack _ g)).trans
    (Implied.setType _ x t)
  exact acyclic_addChild (i.acyclic ha) (by rw [i.size_eq]; exact hy) fun hr => hyx (i.reflTransGen hr)

theorem equateRule_acyclic (ha : s.circuit.Acyclic) {c₁ c₂ : Nat}
    (hc₁ : c₁ ∈ (s.gate g).children) (hc₂ : c₂ ∈ (s.gate g).children) :
    (∀ r, s.equateRule g c₁ c₂ = .inl (some r) → r.2.circuit.Acyclic) ∧
      ∀ s', s.equateRule g c₁ c₂ = .inr s' →
        s'.circuit.Acyclic ∧ (s'.gate g).children = (s.gate g).children := by
  have hcl := (acyclic_iff.1 ha).1
  have hg := s.circuit.lt_size_of_edge hc₁
  have hs₁ : c₁ < s.size := hcl g hg c₁ hc₁
  have hs₂ : c₂ < s.size := hcl g hg c₂ hc₂
  unfold equateRule
  dsimp only
  split_ifs with hne hv₁ hv₂ hp hd
  · refine ⟨fun r h => ?_, fun _ h => h.elim⟩
    obtain ⟨s₁, h₁, rfl⟩ := Option.map_eq_some'.1 (Sum.inl.inj h)
    exact ((Implied.transformIntoConstant _ _ h₁).trans (Implied.addParentsInPstack _ _)).acyclic ha
  · refine ⟨fun r h => ?_, fun _ h => h.elim⟩
    obtain ⟨s₁, h₁, rfl⟩ := Option.map_eq_some'.1 (Sum.inl.inj h)
    exact (Implied.addInPstack _ _).acyclic (acyclic_unifyChild ha hs₂
      (not_reflTransGen_of_dependsOn (Ne.symm hne) (by simpa using hv₁.2.2)) h₁)
  · refine ⟨fun r h => ?_, fun _ h => h.elim⟩
    obtain ⟨s₁, h₁, rfl⟩ := Option.map_eq_some'.1 (Sum.inl.inj h)
    exact (Implied.addInPstack _ _).acyclic (acyclic_unifyChild ha hs₁
      (not_reflTransGen_of_dependsOn hne (by simpa using hv₂.2.2)) h₁)
  · refine ⟨fun _ h => h.elim, fun s' h => ?_⟩
    cases h
    refine ⟨(Implied.addParentsInPstack _ _).acyclic (acyclic_redirectParents ha _ hs₁
      (not_reflTransGen_of_dependsOn hne (by simpa using hd))), ?_⟩
    rw [gate_addParentsInPstack, children_redirectParents_keep]
  · refine ⟨fun _ h => h.elim, fun s' h => ?_⟩
    cases h
    -- `c₁` reaches `c₂`, so `c₂` does not reach `c₁`
    have hr : TransGen s.circuit.Edge c₁ c₂ := (dependsOn_iff c₁ c₂).1 (by simpa using hd)
    refine ⟨(Implied.addParentsInPstack _ _).acyclic (acyclic_redirectParents ha _ hs₂
      fun hr' => (acyclic_iff.1 ha).2 ⟨c₁, hr.trans_left hr'⟩), ?_⟩
    rw [gate_addParentsInPstack, children_redirectParents_keep]
  · exact ⟨fun _ h => h.elim, fun s' h => by cases h; exact ⟨ha, rfl⟩⟩

theorem not_reflTransGen_of_childless {x y : Nat} (hne : y ≠ x) (hc : (s.gate y).children = []) :
    ¬ReflTransGen s.circuit.Edge y x := fun hr => by
  rcases hr.cases_head with rfl | ⟨w, hyw, -⟩
  · exact hne rfl
  · rw [edge_iff, hc] at hyw; cases hyw

theorem acyclic_redirectToNot (ha : s.circuit.Acyclic) {x y : Nat} (hx : x < s.size)
    (hy : y < s.size) (hxy : ¬ReflTransGen s.circuit.Edge x y) :
    ((((s.append { type := .not, children := [x] }).redirectParents (some g) y s.size).addParentsInPstack
      s.size).addInPstack s.size).circuit.Acyclic := by
  have hcl := (acyclic_iff.1 ha).1
  refine (Implied.addInPstack _ _).acyclic ((Implied.addParentsInPstack _ _).acyclic
    (acyclic_redirectParents (acyclic_append (t := { type := .not, children := [x] }) ha
      fun z hz => (List.mem_singleton.1 hz) ▸ hx) _
      (by simp) fun hr => ?_))
  rcases hr.cases_head with h | ⟨w, hw, hwy⟩
  · omega
  · rw [edge_iff, gate_append_self, List.mem_singleton] at hw
    subst hw
    exact hxy (reflTransGen_append_of_lt hcl hx hwy).1

theorem antiEquateRule_acyclic (ha : s.circuit.Acyclic) {c₁ c₂ : Nat}
    (hc₁ : c₁ ∈ (s.gate g).children) (hc₂ : c₂ ∈ (s.gate g).children)
    (hb₁ : (s.gate c₁).type = .var → (s.gate c₁).children = []) :
    (∀ r, s.antiEquateRule g c₁ c₂ = .inl (some r) → r.2.circuit.Acyclic) ∧
      ∀ s', s.antiEquateRule g c₁ c₂ = .inr s' →
        s'.circuit.Acyclic ∧ (s'.gate g).children = (s.gate g).children := by
  have hcl := (acyclic_iff.1 ha).1
  have hg := s.circuit.lt_size_of_edge hc₁
  have hs₁ : c₁ < s.size := hcl g hg c₁ hc₁
  have hs₂ : c₂ < s.size := hcl g hg c₂ hc₂
  unfold antiEquateRule
  dsimp only
  split_ifs with hne hv₁ hv₂ hp hd
  · refine ⟨fun r h => ?_, fun _ h => h.elim⟩
    cases Option.some.inj (Sum.inl.inj h); exact ha
  · refine ⟨fun r h => ?_, fun _ h => h.elim⟩
    obtain ⟨s₁, h₁, rfl⟩ := Option.map_eq_some'.1 (Sum.inl.inj h)
    exact ((Implied.addParentsInPstack _ _).trans (Implied.addInPstack _ _)).acyclic
      (acyclic_unifyChild ha hs₂ (not_reflTransGen_of_dependsOn (Ne.symm hne) (by simpa using hv₁.2.2)) h₁)
  · refine ⟨fun r h => ?_, fun _ h => h.elim⟩
    obtain ⟨s₁, h₁, rfl⟩ := Option.map_eq_some'.1 (Sum.inl.inj h)
    exact ((Implied.addParentsInPstack _ _).trans (Implied.addInPstack _ _)).acyclic
      (acyclic_unifyChild ha hs₁ (not_reflTransGen_of_dependsOn hne (by simpa using hv₂.2.2)) h₁)
  · refine ⟨fun _ h => h.elim, fun s' h => ?_⟩
    obtain rfl := Sum.inr.inj h
    refine ⟨acyclic_redirectToNot ha hs₁ hs₂ ?_, ?_⟩
    · rcases hd with hd | hd
      · exact not_reflTransGen_of_childless hne (hb₁ hd)
      · exact not_reflTransGen_of_dependsOn hne (by simpa using hd)
    · rw [gate_addInPstack, gate_addParentsInPstack, gate_redirectParents, if_pos rfl]
      exact congrArg Gate.children (gate_append_of_lt _ hg)
  · refine ⟨fun _ h => h.elim, fun s' h => ?_⟩
    obtain rfl := Sum.inr.inj h
    have hr : TransGen s.circuit.Edge c₁ c₂ :=
      (dependsOn_iff c₁ c₂).1 (by simpa using (not_or.1 hd).2)
    refine ⟨acyclic_redirectToNot ha hs₂ hs₁ fun hr' => (acyclic_iff.1 ha).2 ⟨c₁, hr.trans_left hr'⟩, ?_⟩
    rw [gate_addInPstack, gate_addParentsInPstack, gate_redirectParents, if_pos rfl]
    exact congrArg Gate.children (gate_append_of_lt _ hg)
  · exact ⟨fun _ h => h.elim, fun s' h => by cases h; exact ⟨ha, rfl⟩⟩

theorem oddOfOr_acyclic (ha : s.circuit.Acyclic) {c o : Nat} (hc : c ∈ (s.gate g).children)
    (ho : o ∈ (s.gate g).children) : (s.oddOfOr g c o).circuit.Acyclic := by
  unfold oddOfOr
  simp only [installGate_eq]
  have hcl := (acyclic_iff.1 ha).1
  have hg : g < s.size := s.circuit.lt_size_of_edge hc
  have hos : o < s.size := hcl g hg o ho
  have hcs : c < s.size := hcl g hg c hc
  have E := (((Embeds.refl (standFor s.size g) (levelBelow s.size) ha
    fun _ hy => standFor_of_lt hy).append { type := .or, children := [] }
    fun _ hy => absurd hy (List.not_mem_nil _)).foldl_addChild (g := s.size)
    (l := (((s.append { type := .or, children := [] }).gate o).children.filter (· ≠ c)))
    fun y hy => ?_).implied ((Implied.removeAllChildren _ g).trans (Implied.pushIfOrphan _ o))
  · refine ((((E.append { type := .not, children := [c] } fun y hy => ?_).implied
      (Implied.setType _ g .and)).addChild (g := g) (by simp) ?_).addChild (g := g) (by simp; omega) ?_).implied
      (((Implied.addInPstack _ _).trans (Implied.addInPstack _ _)).trans (Implied.addInPstack _ _))
      |>.acyclic ha
    · obtain rfl := List.mem_singleton.1 hy
      refine ⟨by simp; omega, .inl ?_⟩
      rw [standFor_of_le (by simp), standFor_of_lt hcs]
      exact .single hc
    · exact .inr ⟨by simp [hg], by simp [hg]⟩
    · exact .inr ⟨by simp [hg], by simp [hg]⟩
  · rw [gate_append_of_lt _ hos] at hy
    have hy' := (List.mem_filter.1 hy).1
    have hys : y < s.size := hcl o hos y hy'
    refine ⟨by simp; omega, .inl ?_⟩
    rw [standFor_of_le le_rfl, standFor_of_lt hys]
    exact .head ho (.single hy')

theorem oddOrRule_acyclic (ha : s.circuit.Acyclic) {c₁ c₂ : Nat} (hc₁ : c₁ ∈ (s.gate g).children)
    (hc₂ : c₂ ∈ (s.gate g).children) {r : Bool × BC} (h : s.oddOrRule g c₁ c₂ = some r) :
    r.2.circuit.Acyclic := by
  unfold oddOrRule at h
  split_ifs at h <;> cases h <;> dsimp only
  · exact oddOfOr_acyclic ha hc₁ hc₂
  · exact ha
  · exact oddOfOr_acyclic ha hc₂ hc₁
  · exact ha
  · exact ha

theorem not_equate_and_antiEquate {t : GateType} {v : Bool}
    (h₁ : t = .even ∧ v = true ∨ t = .odd ∧ (!v) = true)
    (h₂ : t = .even ∧ (!v) = true ∨ t = .odd ∧ v = true) : False := by
  rcases h₁ with ⟨rfl, rfl⟩ | ⟨rfl, h⟩ <;> rcases h₂ with ⟨h', h''⟩ | ⟨h', h''⟩ <;> simp_all

theorem parityPairRules_acyclic (ha : s.circuit.Acyclic) {c₁ c₂ : Nat} {rest : List Nat}
    (hc₁ : c₁ ∈ (s.gate g).children) (hc₂ : c₂ ∈ (s.gate g).children)
    (hb₁ : (s.gate c₁).type = .var → (s.gate c₁).children = []) {r : Bool × BC}
    (h : s.parityPairRules g c₁ c₂ rest = some r) : r.2.circuit.Acyclic := by
  have hend : ∀ s' : BC, s'.circuit.Acyclic → (s'.gate g).children = (s.gate g).children →
      (if (s'.gate g).type = .odd ∧ rest = [] then s'.oddOrRule g c₁ c₂ else some (true, s')) =
        some r → r.2.circuit.Acyclic := fun s' ha' hch h => by
    split_ifs at h
    · exact oddOrRule_acyclic ha' (hch ▸ hc₁) (hch ▸ hc₂) h
    · cases h; exact ha'
  obtain ⟨eq₁, eq₂⟩ := equateRule_acyclic ha hc₁ hc₂
  obtain ⟨an₁, an₂⟩ := antiEquateRule_acyclic ha hc₁ hc₂ hb₁
  unfold parityPairRules at h
  dsimp only at h
  split at h
  next r₁ heq =>
    split_ifs at heq
    exact eq₁ r (heq.trans (congrArg Sum.inl h))
  next s₁ heq =>
    split at h
    next r₂ heq₂ =>
      split_ifs at heq heq₂ with b₁ b₂
      · exact (not_equate_and_antiEquate (of_decide_eq_true b₁).2 (of_decide_eq_true b₂).2).elim
      · cases heq; exact an₁ r (heq₂.trans (congrArg Sum.inl h))
    next s₂ heq₂ =>
      split_ifs at heq heq₂ with b₁ b₂
      · exact (not_equate_and_antiEquate (of_decide_eq_true b₁).2 (of_decide_eq_true b₂).2).elim
      · cases heq₂; exact hend _ (eq₂ _ heq).1 (eq₂ _ heq).2 h
      · cases heq; exact hend _ (an₂ _ heq₂).1 (an₂ _ heq₂).2 h
      · cases heq; cases heq₂; exact hend _ ha rfl h

theorem simplifyParity_acyclic (ha : s.circuit.Acyclic) (hb : s.circuit.LeavesBare)
    {r : Bool × BC} (h : s.simplifyParity g = some r) : r.2.circuit.Acyclic := by
  unfold simplifyParity at h
  have i₁ := parityDetScan_implied g (s.gate g).children [] s (.init s g)
  have o₁ := parityDetScan_onlyAt g (s.gate g).children [] s
  split at h
  next s₁ heq =>
    rw [heq] at i₁
    exact (i₁.trans (becomeConstant_implied h)).acyclic ha
  next s₁ heq =>
    rw [heq] at i₁
    cases h
    dsimp only
    split_ifs
    · exact ((i₁.trans (Implied.setType _ _ _)).trans (Implied.addInPstack _ _)).acyclic ha
    · exact (((i₁.trans (Implied.setType _ _ _)).trans (Implied.addParentsInPstack _ _)).trans
        (Implied.addInPstack _ _)).acyclic ha
  next s₁ _ _ heq =>
    rw [heq] at i₁ o₁
    obtain ⟨⟨det, s₂⟩, h₂, h⟩ := Option.bind_eq_some.1 h
    have ha₂ := (i₁.trans (absorbNots_implied s₁ g _ [] s₁ false (.refl _)
      (fun y hy => .single (by simpa using hy)) h₂)).acyclic ha
    have o₂ := o₁.trans (absorbNots_onlyAt g _ [] s₁ false h₂)
    dsimp only at h
    split_ifs at h
    · cases h; exact (Implied.addInPstack _ _).acyclic ha₂
    · obtain ⟨⟨ok, s₃⟩, h₃, h⟩ := Option.bind_eq_some.1 h
      have ha₃ := (removeParityDuplicateChildren_implied h₃).acyclic ha₂
      have o₃ := o₂.trans (removeParityDuplicateChildren_onlyAt h₃)
      dsimp only at h
      split_ifs at h
      · cases h; exact ha₃
      · cases h; exact ha₃
      · cases h; exact ha₃
      · split at h
        next c₁ c₂ rest hch =>
          have hc₁ : c₁ ∈ (s₃.gate g).children := by simp [hch]
          have hc₂ : c₂ ∈ (s₃.gate g).children := by simp [hch]
          have hne : c₁ ≠ g := fun e => (acyclic_iff.1 ha₃).2 ⟨g, .single (e ▸ hc₁)⟩
          exact parityPairRules_acyclic ha₃ hc₁ hc₂ (o₃.childless hb hne) h
        next => cases h

@[simp] theorem determined_setTemp (x y : Nat) (t : Int) :
    ((s.setTemp x t).gate y).determined = (s.gate y).determined := by
  rw [BC.setTemp, gate_modify]; split_ifs <;> rfl

@[simp] theorem determined_setChildren (x y : Nat) (chs : List Nat) :
    ((s.setChildren x chs).gate y).determined = (s.gate y).determined := by
  rw [setChildren, gate_modify]; split_ifs <;> rfl

theorem clearTemps_frame : ∀ (xs : List Nat) (s : BC) {s' : BC}, clearTemps xs s = some s' →
    s'.size = s.size ∧ ∀ y, (s'.gate y).children = (s.gate y).children ∧
      (s'.gate y).determined = (s.gate y).determined
  | [], s, _, h => by cases h; exact ⟨rfl, fun _ => ⟨rfl, rfl⟩⟩
  | x :: xs, s, s', h => by
    simp only [clearTemps] at h
    split_ifs at h
    · obtain ⟨gc, -, h⟩ := Option.bind_eq_some.1 h
      obtain ⟨hs, hf⟩ := clearTemps_frame xs _ h
      exact ⟨by simpa using hs, fun y => by simpa using hf y⟩
    · obtain ⟨hs, hf⟩ := clearTemps_frame xs _ h
      exact ⟨by simpa using hs, fun y => by simpa using hf y⟩

theorem gNotGScan_nodup (g : Nat) : ∀ (rest kept : List Nat) (s : BC) {s' : BC},
    (s.gate g).children = kept ++ rest → kept.Nodup →
    (∀ y ∈ rest, y < s.size ∧ (s.gate y).determined = false) →
    (∀ x, (s.gate x).temp = 1 ↔ x ∈ kept) →
    gNotGScan g kept rest s = some (false, s') → (s'.gate g).children.Nodup
  | [], kept, s, s', hch, hnd, _, _, h => by
    cases h; rw [hch, List.append_nil]; exact hnd
  | ch :: rest, kept, s, s', hch, hnd, hund, hm, h => by
    have hrest : ∀ y ∈ rest, y < s.size ∧ (s.gate y).determined = false :=
      fun y hy => hund y (.tail _ hy)
    obtain ⟨hchs, hchd⟩ := hund ch (.head _)
    rcases gNotGScan_cons h with ⟨h₁, -⟩ | ⟨-, -, h⟩ | ⟨-, -, h⟩ | ⟨-, -, h₃, h⟩
    · exact absurd h₁ (by simp [hchd])
    · cases h
    · -- `ch` was seen: the duplicate goes
      have hg : g < s.size := s.circuit.lt_size_of_edge (show ch ∈ (s.gate g).children by simp [hch])
      refine gNotGScan_nodup g rest _ _ ?_ hnd (fun y hy => by simpa using hrest y hy)
        (fun x => by simpa using hm x) h
      rw [gate_setLinks, children_setChildren, if_pos ⟨rfl, hg⟩]
    -- `ch` is new: it is marked and kept
    have hnd' : (kept ++ [ch]).Nodup := List.nodup_append.2 ⟨hnd, List.nodup_singleton _,
      fun x hx hy => by rw [List.mem_singleton] at hy; subst hy; exact h₃ ((hm _).2 hx)⟩
    have hm₁ : ∀ x, ((s.setTemp ch 1).gate x).temp = 1 ↔ x ∈ kept ++ [ch] := fun x => by
      rw [BC.setTemp, gate_modify, List.mem_append, List.mem_singleton, ← hm x]
      split_ifs with hx
      · obtain ⟨rfl, -⟩ := hx; simp
      · by_cases e : x = ch
        · subst e; exact absurd ⟨rfl, hchs⟩ hx
        · simp [e]
    have hch' : ((s.setTemp ch 1).gate g).children = (kept ++ [ch]) ++ rest := by simp [hch]
    rcases h with ⟨h, -⟩ | ⟨gc, -, -, h₅, h⟩ | h
    · cases h
    · refine gNotGScan_nodup g rest _ _ (by simpa using hch') hnd'
        (fun y hy => by simpa using hrest y hy) (fun x => ?_) h
      rw [← hm₁ x, temp_setTemp_eq]
      split_ifs with hx
      · obtain ⟨rfl, -⟩ := hx
        exact iff_of_false (by decide) h₅
      · rfl
    · exact gNotGScan_nodup g rest _ _ hch' hnd' (fun y hy => by simpa using hrest y hy) hm₁ h

theorem becomeConstant_type {v : Bool} {s' : BC} (hg : g < s.size)
    (h : s.becomeConstant g v = some (true, s')) :
    (s'.gate g).type = .true ∨ (s'.gate g).type = .false := by
  unfold becomeConstant at h
  split_ifs at h
  · cases h
  · obtain ⟨s₁, h₁, he⟩ := Option.map_eq_some'.1 h
    cases he
    rw [gate_addParentsInPstack, (transformIntoConstant_gate hg h₁).2 g, if_pos rfl]
    cases v <;> simp

theorem removeGNotGAndDuplicateChildren_nodup (hcl : s.circuit.Closed) (hm : NoMarks s)
    (hund : ∀ y ∈ (s.gate g).children, (s.gate y).determined = false) {s' : BC}
    (h : s.removeGNotGAndDuplicateChildren g = some (true, s')) (ht : (s'.gate g).type = .equiv) :
    (s'.gate g).children.Nodup := by
  unfold removeGNotGAndDuplicateChildren at h
  dsimp only at h
  split_ifs at h with ht₀
  · cases h; simp [ht] at ht₀
  · have hg : g < s.size := lt_size_of_type_ne_deleted fun e => by simp [e] at ht₀
    obtain ⟨s₁, h₁, h⟩ := Option.bind_eq_some.1 h
    obtain ⟨⟨found, s₂⟩, h₂, h⟩ := Option.bind_eq_some.1 h
    obtain ⟨s₃, h₃, h⟩ := Option.bind_eq_some.1 h
    obtain ⟨hs₁, hf₁⟩ := clearTemps_frame _ _ h₁
    obtain ⟨hs₃, hf₃⟩ := clearTemps_frame _ _ h₃
    have hs₂ := (gNotGScan_implied g _ [] s₁ (.init s₁ g) h₂).size_eq
    split_ifs at h with hfound
    · -- a pair `x, NOT(x)`: `g` became a constant
      rcases becomeConstant_type (by omega) h with e | e <;> rw [e] at ht <;> cases ht
    all_goals
      rw [show found = false by simpa using hfound] at h₂
      have hnd := gNotGScan_nodup g (s₁.gate g).children [] s₁ rfl List.nodup_nil
        (fun y hy => by
          rw [(hf₁ g).1] at hy
          exact ⟨hs₁ ▸ hcl g hg y hy, (hf₁ y).2.trans (hund y hy)⟩)
        (fun x => iff_of_false (fun hx => hm x (clearTemps_temp _ _ h₁ x hx).2)
          (List.not_mem_nil _)) h₂
      cases h
      simpa [(hf₃ g).1] using hnd

theorem le_foldr_add {f : Nat → Nat} : ∀ {l : List Nat} {a : Nat}, a ∈ l →
    f a ≤ l.foldr (fun p n => f p + n) 0
  | x :: xs, a, h => by
    rw [List.foldr_cons]
    rcases List.mem_cons.1 h with rfl | h
    · omega
    · have := le_foldr_add (f := f) h; omega

theorem add_le_foldr_add {f : Nat → Nat} : ∀ {l : List Nat} {a b : Nat}, a ∈ l → b ∈ l → a ≠ b →
    f a + f b ≤ l.foldr (fun p n => f p + n) 0
  | x :: xs, a, b, ha, hb, hne => by
    rw [List.foldr_cons]
    rcases List.mem_cons.1 ha with rfl | ha' <;> rcases List.mem_cons.1 hb with rfl | hb'
    · exact absurd rfl hne
    · have := le_foldr_add (f := f) hb'; omega
    · have := le_foldr_add (f := f) ha'; omega
    · have := add_le_foldr_add (f := f) ha' hb' hne; omega

theorem eq_of_nofParentEdges_eq_one {ch p : Nat} (h : s.nofParentEdges ch = 1)
    (hg : ch ∈ (s.gate g).children) (hp : ch ∈ (s.gate p).children) : p = g := by
  by_contra hne
  have := add_le_foldr_add (f := fun q => (s.gate q).children.count ch)
    (List.mem_range.2 (show p < s.size from s.circuit.lt_size_of_edge hp))
    (List.mem_range.2 (show g < s.size from s.circuit.lt_size_of_edge hg)) hne
  have h₁ := List.count_pos_iff.2 hp
  have h₂ := List.count_pos_iff.2 hg
  unfold nofParentEdges at h
  simp only at this
  omega

theorem not_reflTransGen_of_single_parent (ha : s.circuit.Acyclic) {ch o : Nat}
    (h : s.nofParentEdges ch = 1) (hch : ch ∈ (s.gate g).children) (ho : o ∈ (s.gate g).children)
    (hne : o ≠ ch) : ¬ReflTransGen s.circuit.Edge o ch := fun hr => by
  obtain ⟨p, hop, hpc⟩ := TransGen.tail'_iff.1
    ((reflTransGen_iff_eq_or_transGen.1 hr).resolve_left (Ne.symm hne))
  obtain rfl := eq_of_nofParentEdges_eq_one h hch hpc
  exact (acyclic_iff.1 ha).2 ⟨_, TransGen.head' ho hop⟩

theorem unifyInputs_acyclic (g : Nat) : ∀ (rest kept : List Nat) (s : BC) (prev first : Option Nat)
    (unified : Bool), s.circuit.Acyclic → (s.gate g).children = kept ++ rest →
    (kept ++ rest).Nodup → (∀ y ∈ rest, (s.gate y).type = .var → (s.gate y).children = []) →
    (∀ p ∈ prev, p ∈ kept) → (∀ f ∈ first, f ∈ kept ∧ (s.gate f).children = []) →
    (∀ r, unifyInputs g prev first unified rest s = .inl (some r) → r.2.circuit.Acyclic) ∧
      ∀ o, unifyInputs g prev first unified rest s = .inr o → o.2.2.circuit.Acyclic
  | [], _, s, _, first, unified, ha, _, _, _, _, _ =>
    ⟨fun _ h => Sum.noConfusion h, fun _ h => by cases h; exact ha⟩
  | ch :: rest, kept, s, prev, first, unified, ha, hch, hnd, hbare, hprev, hfirst => by
    have hcl := (acyclic_iff.1 ha).1
    have hmem : ∀ y ∈ kept ++ ch :: rest, y ∈ (s.gate g).children := fun y hy => hch ▸ hy
    have hg : g < s.size := s.circuit.lt_size_of_edge (hmem ch (by simp))
    have hchg : ch ≠ g := fun e => (acyclic_iff.1 ha).2 ⟨g, .single (e ▸ hmem ch (by simp))⟩
    have hnd' : (kept ++ [ch] ++ rest).Nodup := by simpa using hnd
    have hch' : (s.gate g).children = (kept ++ [ch]) ++ rest := by simp [hch]
    -- the visited gates differ from those still to visit
    have hne : ∀ y ∈ kept, y ≠ ch := fun y hy e =>
      (List.nodup_append.1 hnd).2.2 hy (e ▸ List.mem_cons_self _ _)
    have hrest : ∀ y ∈ rest, y ≠ ch := fun y hy e => by
      subst e; exact (List.nodup_cons.1 (List.nodup_append.1 hnd).2.1).1 hy
    unfold unifyInputs
    split_ifs with hv hp
    · exact unifyInputs_acyclic g rest _ s _ _ _ ha hch' hnd' (fun y hy => hbare y (.tail _ hy))
        (fun p hp => by cases hp; simp)
        fun f hf => ⟨List.mem_append_left _ (hfirst f hf).1, (hfirst f hf).2⟩
    · -- an input with a single parent
      refine ⟨fun r h => ?_, fun _ h => nomatch h⟩
      obtain ⟨o, hother, h⟩ := Option.bind_eq_some.1 (Sum.inl.inj h)
      split_ifs at h with hoc
      cases h
      have ho : o ∈ (s.gate g).children := by
        split at hother
        · cases hother; exact hmem _ (by simp)
        · exact hmem _ (List.mem_append_left _ (hprev o hother))
      have i := Implied.setType s ch .ref
      exact ((Implied.addInPstack _ _).trans (Implied.addInPstack _ _)).acyclic
        (acyclic_addChild (i.acyclic ha) (by simpa using hcl g hg o ho)
          fun hr => not_reflTransGen_of_single_parent ha hp (hmem ch (by simp)) ho hoc
            (i.reflTransGen hr))
    · -- a shared input
      split
      · exact unifyInputs_acyclic g rest _ s _ _ _ ha hch' hnd' (fun y hy => hbare y (.tail _ hy))
          (fun p hp => by cases hp; simp)
          (fun f hf => by cases hf; exact ⟨by simp, hbare ch (.head _) (by simpa using hv)⟩)
      next f =>
        obtain ⟨hfk, hfc⟩ := hfirst f rfl
        have hfs : f < s.size := hcl g hg f (hmem f (List.mem_append_left _ hfk))
        have ha' : (((s.setType ch .ref).addChild ch f).addInPstack ch).circuit.Acyclic :=
          (Implied.addInPstack _ _).acyclic (acyclic_addChild ((Implied.setType s ch .ref).acyclic ha)
            (by simpa using hfs) (not_reflTransGen_of_childless (hne f hfk) (by simpa using hfc)))
        have hsame : ∀ y ≠ ch, (((s.setType ch .ref).addChild ch f).addInPstack ch).gate y = s.gate y :=
          fun y hy => by simp [addChild, setType, setChildren, Ne.symm hy]
        exact unifyInputs_acyclic g rest _ _ _ _ _ ha' (by rw [hsame g (Ne.symm hchg)]; exact hch')
          hnd' (fun y hy => by rw [hsame y (hrest y hy)]; exact hbare y (.tail _ hy))
          (fun p hp => by cases hp; simp)
          (fun f' hf' => by
            cases hf'
            exact ⟨List.mem_append_left _ hfk, by rw [hsame f (hne f hfk)]; exact hfc⟩)

theorem leastChild_spec (hc : ¬s.circuit.HasCycle) : ∀ (chs : List Nat) (cand : Nat) (seen : List Nat),
    (∀ x ∈ seen, ¬TransGen s.circuit.Edge cand x) →
    s.leastChild cand chs ∈ cand :: chs ∧
      ∀ x ∈ seen ++ cand :: chs, ¬TransGen s.circuit.Edge (s.leastChild cand chs) x
  | [], cand, seen, h => ⟨.head _, fun x hx => by
      rcases List.mem_append.1 hx with hx | hx
      · exact h x hx
      · rw [List.mem_singleton.1 hx]; exact fun hr => hc ⟨_, hr⟩⟩
  | ch :: chs, cand, seen, h => by
    unfold leastChild
    split_ifs with hd
    · -- `cand` reaches `ch`: `ch` becomes the candidate
      have hr := (dependsOn_iff cand ch).1 hd
      obtain ⟨hmem, hall⟩ := leastChild_spec hc chs ch (seen ++ [cand]) fun x hx hcx => by
        rcases List.mem_append.1 hx with hx | hx
        · exact h x hx (hr.trans hcx)
        · rw [List.mem_singleton.1 hx] at hcx; exact hc ⟨_, hr.trans hcx⟩
      refine ⟨.tail _ hmem, fun x hx => hall x ?_⟩
      simp only [List.mem_append, List.mem_cons, List.mem_singleton] at hx ⊢
      tauto
    · obtain ⟨hmem, hall⟩ := leastChild_spec hc chs cand (seen ++ [ch]) fun x hx => by
        rcases List.mem_append.1 hx with hx | hx
        · exact h x hx
        · rw [List.mem_singleton.1 hx]; exact fun hr => hd ((dependsOn_iff cand ch).2 hr)
      refine ⟨?_, fun x hx => hall x ?_⟩
      · rcases List.mem_cons.1 hmem with e | e
        · rw [e]; exact .head _
        · exact .tail _ (.tail _ e)
      · simp only [List.mem_append, List.mem_cons, List.mem_singleton] at hx ⊢
        tauto

theorem firstDetermined_eq_none : ∀ {chs : List Nat}, s.firstDetermined chs = none →
    ∀ y ∈ chs, (s.gate y).determined = false
  | [], _ => fun _ h => absurd h (List.not_mem_nil _)
  | ch :: chs, h => by
    unfold firstDetermined at h
    split_ifs at h with hd
    intro y hy
    rcases List.mem_cons.1 hy with rfl | hy
    · simpa using hd
    · exact firstDetermined_eq_none h y hy

theorem moveToLeast_acyclic (ha : s.circuit.Acyclic) {c : Nat} {cs : List Nat}
    (hcs : (s.gate g).children = c :: cs) {moved : Bool} :
    (if moved then (((c :: cs).filter (· ≠ s.leastChild c cs)).foldl
        (fun t x => t.redirectParents (some g) x (s.leastChild c cs)) s).addParentsInPstack
        (s.leastChild c cs)
      else ((c :: cs).filter (· ≠ s.leastChild c cs)).foldl
        (fun t x => t.redirectParents (some g) x (s.leastChild c cs)) s).circuit.Acyclic := by
  obtain ⟨hleast, hall⟩ := leastChild_spec (acyclic_iff.1 ha).2 cs c [] fun _ h => nomatch h
  have hg : g < s.size := s.circuit.lt_size_of_edge (show c ∈ (s.gate g).children by simp [hcs])
  have hf := acyclic_foldl_redirectParents (some g) ((c :: cs).filter (· ≠ s.leastChild c cs)) s ha
    ((acyclic_iff.1 ha).1 g hg _ (hcs ▸ hleast)) fun x hx hr => by
      obtain ⟨hx, hne⟩ := List.mem_filter.1 hx
      rcases reflTransGen_iff_eq_or_transGen.1 hr with e | hr
      · exact absurd e (of_decide_eq_true hne)
      · exact hall x hx hr
  split_ifs
  · exact (Implied.addParentsInPstack _ _).acyclic hf
  · exact hf

theorem simplifyEquiv_acyclic (ha : s.circuit.Acyclic) (hb : s.circuit.LeavesBare)
    (hm : NoMarks s) {r : Bool × BC} (h : s.simplifyEquiv g = some r) : r.2.circuit.Acyclic := by
  unfold simplifyEquiv at h
  split at h
  · cases h
  · exact (becomeConstant_implied h).acyclic ha
  next hnil _ =>
    obtain ⟨c₀, hc₀⟩ := List.exists_mem_of_ne_nil _ hnil
    have hg : g < s.size := s.circuit.lt_size_of_edge hc₀
    split at h
    next ch _ =>
      split_ifs at h
      · -- `EQUIV(T,x,y,z) --> AND(T,x,y,z)`
        cases h
        exact (((Implied.setType _ _ _).trans (Implied.addParentsInPstack _ _)).trans
          (Implied.addInPstack _ _)).acyclic ha
      · -- `EQUIV(F,x,y,z) --> NOT(OR(F,x,y,z))`: the new `OR` stands for `g`, one level below it
        simp only [installGate_eq] at h
        cases h; dsimp only
        have hcl := (acyclic_iff.1 ha).1
        have E := ((((Embeds.refl (standFor s.size g) (levelBelow s.size) ha
          fun _ hy => standFor_of_lt hy).append { type := .or, children := [] }
          fun _ hy => absurd hy (List.not_mem_nil _)).setChildren (g := s.size)
          (l := (s.gate g).children.reverse) fun y hy => ?_).setChildren (g := g) (l := [])
          fun _ hy => absurd hy (List.not_mem_nil _)).setLinks s.size
            ((s.append { type := .or, children := [] }).linkTimes g).reverse |>.setLinks g []
            |>.implied (Implied.setType _ g .not)
        · exact (((E.addChild (g := g) (y := s.size) (by simp) (.inr ⟨by simp [hg], by simp [hg]⟩)).implied
            (Implied.addParentsInPstack _ _)).implied
            ((Implied.addInPstack _ _).trans (Implied.addInPstack _ _))).acyclic ha
        · rw [List.mem_reverse] at hy
          have hy' : y < s.size := hcl g hg y hy
          refine .inr ⟨by simp; omega, .inl ?_⟩
          rw [standFor_of_le le_rfl, standFor_of_lt hy']
          exact .single hy
    next hfd =>
      obtain ⟨⟨ok, s₁⟩, h₁, h⟩ := Option.bind_eq_some.1 h
      have ha₁ : s₁.circuit.Acyclic := (removeGNotGAndDuplicateChildren_implied h₁).acyclic ha
      dsimp only at h
      obtain ⟨-, h⟩ | ⟨hok, h⟩ := ite_eq_iff.1 h
      · cases h; exact ha₁
      obtain ⟨-, h⟩ | ⟨-, h⟩ := ite_eq_iff.1 h
      · cases h; exact ha₁
      obtain ⟨-, h⟩ | ⟨ht, h⟩ := ite_eq_iff.1 h
      · cases h; exact ha₁
      obtain ⟨-, h⟩ | ⟨-, h⟩ := ite_eq_iff.1 h
      · by_cases hmay : s₁.mayTransformInputGates = true
        · -- `EQUIV(...) = T`: input unification, then the moves to the least child
          rw [if_pos hmay] at h
          rw [show ok = true by simpa using hok] at h₁
          have hnd := removeGNotGAndDuplicateChildren_nodup (acyclic_iff.1 ha).1 hm
            (firstDetermined_eq_none hfd) h₁ (not_not.1 ht)
          have hbare : ∀ y ∈ (s₁.gate g).children, (s₁.gate y).type = .var →
              (s₁.gate y).children = [] := fun y hy =>
            (removeGNotGAndDuplicateChildren_onlyAt h₁).childless hb
              fun e => (acyclic_iff.1 ha₁).2 ⟨g, .single (e ▸ hy)⟩
          have hu := unifyInputs_acyclic g _ [] s₁ none none false ha₁ rfl hnd hbare
            (fun _ h => nomatch h) fun _ h => nomatch h
          split at h
          next r' heq =>
            subst h
            split at heq
            next _ hr => cases heq; exact hu.1 _ hr
            next _ f s₂ hr => cases heq; exact (Implied.addParentsInPstack _ _).acyclic (hu.2 _ hr)
            next => cases heq
          next s₂ heq =>
            split at heq
            next => cases heq
            next => cases heq
            next _ _ _ _ hr =>
              cases heq
              split at h
              next => cases h
              next c cs hcs => cases h; exact moveToLeast_acyclic (hu.2 _ hr) hcs
        · rw [if_neg hmay] at h
          dsimp only at h
          split at h
          next => cases h
          next c cs hcs => cases h; exact moveToLeast_acyclic ha₁ hcs
      obtain ⟨-, h⟩ | ⟨-, h⟩ := ite_eq_iff.1 h
      · cases h
        exact (((Implied.setType _ g .even).trans (Implied.addParentsInPstack _ _)).trans
          (Implied.addInPstack _ _)).acyclic ha₁
      · cases h; exact ha₁

/-- One call of `Gate::simplify` keeps the store acyclic, when the leaf gates have no children and
no gate carries the mark `temp = 1`. -/
theorem simplify_acyclic (ha : s.circuit.Acyclic) (hb : s.circuit.LeavesBare) (hm : NoMarks s)
    {preserve : Bool} {r : Bool × BC} (h : s.simplify g preserve = some r) :
    r.2.circuit.Acyclic := by
  unfold simplify at h
  dsimp only at h
  split_ifs at h with hdel
  · cases h; exact ha
  · cases h
    exact (((((Implied.addChildrenInPstack s g).trans (Implied.removeAllChildren _ _)).trans
      (Implied.setType _ _ _)).trans (Implied.changed _ _))).acyclic ha
  split at h
  next => exact (simplifyConstant_implied h).acyclic ha
  next => exact (simplifyConstant_implied h).acyclic ha
  next => exact (simplifyVar_implied h).acyclic ha
  next => exact (simplifyRef_implied h).acyclic ha
  next => exact (simplifyNot_implied h).acyclic ha
  next => exact simplifyIte_acyclic ha h
  next => exact simplifyOrAnd_acyclic _ _ ha hm h
  next => exact simplifyOrAnd_acyclic _ _ ha hm h
  next => exact simplifyParity_acyclic ha hb h
  next => exact simplifyParity_acyclic ha hb h
  next => exact simplifyEquiv_acyclic ha hb hm h
  next ht => exact simplifyThreshold_acyclic ha (lt_size_of_type_ne_deleted (by simp [ht])) h
  next => exact simplifyAtleast_acyclic ha h
  next => cases h
  next => cases h

end BC

end BcSat
