import BcSat.SimplifyRestores

set_option autoImplicit false

/-!
# The `OR` and `AND` case of `Gate::simplify` adds no solution

Read backwards, each step of the case asks for facts about the children of `g` that the other
gates give: a dropped child is determined to the dual value, a child read twice is read once, a
shared subset `p` has the value of its children, a collapsed child that of its own children,
and a pair `x, NOT(x)` holds both values. So the old gate reads what the new one reads.
-/

namespace BcSat

namespace Circuit.Consistent

open BC

variable {s t : BC} {g : Nat} {σ : Nat → Bool}

/-- A change at the children of `g` restores the old gate when it reads the new children alike. -/
theorem of_childrenAt (hσ : t.circuit.Consistent σ) (h : ChildrenAt g s t)
    (heval : s.circuit.ConsistentBut σ g → (s.gate g).type.Live → (s.gate g).type ≠ .var →
      (s.gate g).type.eval (s.gate g).tmin (s.gate g).tmax ((t.gate g).children.map σ) =
        (s.gate g).type.eval (s.gate g).tmin (s.gate g).tmax ((s.gate g).children.map σ)) :
    s.circuit.Consistent σ :=
  hσ.of_gateAt (.of_childrenAt h) (fun hl => by rwa [h.type_eq]) fun hb hl hv => by
    obtain ⟨h₁, h₂, h₃, -, -⟩ := h.logic g
    rw [consistent_eval hσ (h.size_eq ▸ lt_size_of_live (c := s.circuit) hl) (by rwa [h₁])
      (by rwa [h₁]), h₁, h₂, h₃]
    exact heval hb hl hv

theorem of_sameSetAt (hσ : t.circuit.Consistent σ) (h : SameSetAt g s t)
    (ht : (s.gate g).type = .or ∨ (s.gate g).type = .and ∨ (s.gate g).type = .equiv) :
    s.circuit.Consistent σ :=
  hσ.of_childrenAt h.toChildrenAt fun _ _ _ => GateType.eval_congr_mem ht _ _ (map_mem_iff h.mem_iff)

end Circuit.Consistent

namespace BC

open Circuit

variable {s t : BC} {g : Nat} {σ : Nat → Bool}

theorem handleMap_gNotGScan : ∀ (rest kept : List Nat) (s : BC) {r : Bool × BC},
    gNotGScan g kept rest s = some r → r.2.handleMap = s.handleMap
  | [], _, _, _, h => by cases h; rfl
  | ch :: rest, kept, s, r, h => by
    rcases gNotGScan_cons h with ⟨-, h⟩ | ⟨-, -, rfl⟩ | ⟨-, -, h⟩ |
      ⟨-, -, -, ⟨rfl, -⟩ | ⟨gc, -, -, -, h⟩ | h⟩
    · exact handleMap_gNotGScan rest _ s h
    · rfl
    · rw [handleMap_gNotGScan rest kept _ h]; simp
    · simp
    · rw [handleMap_gNotGScan rest _ _ h]; simp
    · rw [handleMap_gNotGScan rest _ _ h]; simp

theorem handleMap_removeGNotGAndDuplicateChildren {r : Bool × BC}
    (h : s.removeGNotGAndDuplicateChildren g = some r) : r.2.handleMap = s.handleMap := by
  unfold removeGNotGAndDuplicateChildren at h
  dsimp only at h
  split_ifs at h
  · cases h; rfl
  · obtain ⟨s₁, h₁, h⟩ := Option.bind_eq_some.1 h
    obtain ⟨⟨found, s₂⟩, h₂, h⟩ := Option.bind_eq_some.1 h
    obtain ⟨s₃, h₃, h⟩ := Option.bind_eq_some.1 h
    have e : s₃.handleMap = s.handleMap := (handleMap_clearTemps _ _ h₃).trans
      ((handleMap_gNotGScan _ [] _ h₂).trans (handleMap_clearTemps _ _ h₁))
    split_ifs at h
    · exact (handleMap_becomeConstant h).trans e
    · cases h; simpa using e
    · cases h; exact e

theorem removeGNotGAndDuplicateChildren_restores (hm : NoMarks s) (hs : s.circuit.Shaped)
    (ht : (s.gate g).type = .or ∨ (s.gate g).type = .and ∨ (s.gate g).type = .equiv)
    {r : Bool × BC} (h : s.removeGNotGAndDuplicateChildren g = some r) : Restores s r := by
  have hh := handleMap_removeGNotGAndDuplicateChildren h
  rcases removeGNotGAndDuplicateChildren_spec hm ht h with ⟨-, e⟩ | ⟨hp, s₃, e, h₃⟩
  · exact .of_consistent hh fun σ hσ => hσ.of_sameSetAt e ht
  · -- a pair `x, NOT(x)`: the constant is what the old gate reads
    have hgt : (s.gate g).type ≠ .not := by rcases ht with e | e | e <;> rw [e] <;> decide
    have ht₃ : (s₃.gate g).type = .or ∨ (s₃.gate g).type = .and ∨ (s₃.gate g).type = .equiv := by
      rwa [e.type_eq]
    have hl : (s.gate g).type.Live := by rcases ht with h' | h' | h' <;> rw [h'] <;> decide
    have hg : g < s₃.size := e.size_eq ▸ lt_size_of_live (c := s.circuit) hl
    refine Restores.trans (.of_consistent ((handleMap_becomeConstant h₃).symm.trans hh) fun σ hσ =>
      hσ.of_sameSetAt e ht) (becomeConstant_restores hg h₃ fun σ hb _ _ => ?_)
    rw [eval_of_complementPair (e.shaped hs ht) hb ht₃ ((e.complementPair_iff hgt).2 hp), e.type_eq]

section OrAnd

variable {a : Bool} {ty : GateType} (hty : ty = if a then .or else .and)

theorem handleMap_forceChildren : ∀ (rest : List Nat) (s : BC),
    (forceChildren a g rest s).2.handleMap = s.handleMap
  | [], _ => rfl
  | ch :: rest, s => by
    unfold forceChildren
    split_ifs
    · rfl
    · rw [handleMap_forceChildren rest]; simp
    · rw [handleMap_forceChildren rest]; simp

theorem handleMap_absorbScan : ∀ (rest kept : List Nat) (s : BC),
    (absorbScan a g kept rest s).2.2.handleMap = s.handleMap
  | [], _, _ => rfl
  | ch :: rest, kept, s => by
    unfold absorbScan
    split_ifs
    · rfl
    · rw [handleMap_absorbScan rest]; simp
    · exact handleMap_absorbScan rest _ s

theorem handleMap_shareSubset : (s.shareSubset ty g).handleMap = s.handleMap := by
  unfold shareSubset
  dsimp only
  split <;> simp

theorem handleMap_collapseScan : ∀ (rest kept : List Nat) (s : BC) (done : Bool),
    (collapseScan ty g kept rest s done).2.handleMap = s.handleMap
  | [], _, _, _ => rfl
  | ch :: rest, kept, s, done => by
    unfold collapseScan
    split_ifs
    · rw [handleMap_collapseScan rest]; simp
    · exact handleMap_collapseScan rest _ s done

/-- Read backwards, forcing the children of `g` to `!a` finds them there: each is determined to
`!a` in the store the scan leaves, and the other gates are as they were. -/
theorem forceChildren_restores : ∀ (rest : List Nat) (s : BC), g < s.size → (s.gate g).children = rest →
    (∀ x ∈ rest, x ≠ g ∧ (s.gate x).type.Live) → (forceChildren a g rest s).1 = true →
    (forceChildren a g rest s).2.circuit.ConsistentBut σ g →
    s.circuit.ConsistentBut σ g ∧ ∀ x ∈ rest, σ x = !a
  | [], _, _, _, _, _, hb => ⟨hb, nofun⟩
  | ch :: rest, s, hg, hch, hx, hok, hb => by
    obtain ⟨hcg, hcl⟩ := hx ch (.head _)
    have hc : ch < s.size := lt_size_of_live (c := s.circuit) hcl
    have hx' : ∀ t : BC, (∀ y, (t.gate y).type = (s.gate y).type) →
        ∀ x ∈ rest, x ≠ g ∧ (t.gate x).type.Live := fun t ht x hm => by rw [ht]; exact hx x (.tail _ hm)
    unfold forceChildren at hok hb
    split_ifs at hok hb with hd hv
    · obtain ⟨hb₁, hr⟩ := forceChildren_restores rest _ (by simpa using hg) (by simp [hg])
        (hx' _ fun _ => by simp) hok hb
      have hb₂ := hb₁.of_gateAt ((GateAt.setChildren rest).setLinks g _)
      refine ⟨hb₂, fun x hm => ?_⟩
      rcases List.mem_cons.1 hm with rfl | hm
      · rw [hb₂.det hc hcg hcl hd, circuit_gate]; exact Bool.eq_not.2 (by simpa using hv)
      · exact hr x hm
    · obtain ⟨hb₁, hr⟩ := forceChildren_restores rest _ (by simpa using hg) (by simp [hg])
        (hx' _ fun _ => by simp) hok hb
      have hb₂ := hb₁.of_gateAt ((GateAt.setChildren rest).setLinks g _)
      refine ⟨(hb₂.of_gateAt (.addInPstack ch)).of_determine fun h => absurd h hd, fun x hm => ?_⟩
      rcases List.mem_cons.1 hm with rfl | hm
      · have := hb₂.det (x := x) (by simpa using hc) hcg (by simpa [BC.determine, hc] using hcl)
          (by simp [BC.determine, hc])
        simpa [BC.determine, hc] using this
      · exact hr x hm

/-- Read backwards, the absorbing scan drops children at `!a` only, and stops at a child at `a`. -/
theorem absorbScan_mem_iff : ∀ (rest kept : List Nat) (s : BC), g < s.size →
    (s.gate g).children = kept ++ rest → (∀ x ∈ rest, x ≠ g ∧ (s.gate x).type.Live) →
    s.circuit.ConsistentBut σ g →
    (a ∈ ((absorbScan a g kept rest s).2.2.gate g).children.map σ ↔ a ∈ (kept ++ rest).map σ) ∧
      ((absorbScan a g kept rest s).1 = true → a ∈ (kept ++ rest).map σ)
  | [], kept, s, _, hch, _, _ => ⟨by simp [absorbScan, hch], nofun⟩
  | ch :: rest, kept, s, hg, hch, hx, hb => by
    obtain ⟨hcg, hcl⟩ := hx ch (.head _)
    have hc : ch < s.size := lt_size_of_live (c := s.circuit) hcl
    unfold absorbScan
    split_ifs with hd hva
    · have hcv : σ ch = a := by rw [hb.det hc hcg hcl hd, circuit_gate, hva]
      exact ⟨by dsimp only; rw [hch], fun _ => List.mem_map.2 ⟨ch, by simp, hcv⟩⟩
    · have hcv : a ≠ σ ch := by rw [hb.det hc hcg hcl hd, circuit_gate]; exact Ne.symm hva
      have hmem : a ∈ (kept ++ rest).map σ ↔ a ∈ (kept ++ ch :: rest).map σ := by
        simp only [List.map_append, List.map_cons, List.mem_append, List.mem_cons, hcv, false_or]
      obtain ⟨h₁, h₂⟩ := absorbScan_mem_iff rest kept _ (by simpa using hg) (by simp [hg])
        (fun x hm => by simpa using hx x (.tail _ hm))
        (hb.gateAt (((GateAt.setChildren (kept ++ rest)).setLinks g
          ((s.linkTimes g).eraseIdx kept.length)).trans (.pushIfOrphan ch)))
      exact ⟨h₁.trans hmem, fun h => hmem.1 (h₂ h)⟩
    · have := absorbScan_mem_iff rest (kept ++ [ch]) s hg (by simp [hch]) (fun x hm => hx x (.tail _ hm)) hb
      rwa [List.append_assoc, List.singleton_append] at this

include hty

theorem orAnd_value_but (hb : s.circuit.ConsistentBut σ g) {x : Nat} (hx : x < s.size) (hxg : x ≠ g)
    (ht : (s.gate x).type = ty) : σ x = if a ∈ (s.gate x).children.map σ then a else !a := by
  rw [hb.eval hx hxg (by rw [circuit_gate, ht]; exact (orAnd_live hty).1)
    (by rw [circuit_gate, ht]; exact (orAnd_live hty).2), circuit_gate, ht, GateType.eval_orAnd hty]

/-- Read backwards, collapsing a child into `g` reads the child's value off its children. -/
theorem collapseScan_mem_iff : ∀ (rest kept : List Nat) (s : BC) (done : Bool),
    s.circuit.ConsistentBut σ g → g < s.size → (s.gate g).children = kept ++ rest → (∀ x ∈ rest, x ≠ g) →
    (a ∈ ((collapseScan ty g kept rest s done).2.gate g).children.map σ ↔ a ∈ (kept ++ rest).map σ)
  | [], _, _, _, _, _, hch, _ => by dsimp only [collapseScan]; rw [hch]
  | ch :: rest, kept, s, done, hb, hg, hch, hx => by
    unfold collapseScan
    split_ifs with hc
    · have hcs : ch < s.size := lt_size_of_live (c := s.circuit) (hc.1 ▸ (orAnd_live hty).1)
      exact (collapseScan_mem_iff rest _ _ true
        (hb.gateAt (.of_childrenAt ((((ChildrenAt.setChildren _).setLinks g _).tick _).trans
          (.addInPstack ch)))) (by simpa using hg) (by simp [children_setChildren, hg])
        fun x hm => hx x (.tail _ hm)).trans
        (mem_map_collapse (orAnd_value_but hty hb hcs (hx ch (.head _)) hc.1)).symm
    · have := collapseScan_mem_iff rest (kept ++ [ch]) s done hb hg (by simp [hch])
        fun x hm => hx x (.tail _ hm)
      rwa [List.append_assoc, List.singleton_append] at this

/-- A change at the children of an `OR` or `AND` that keeps whether one of them is at `a` adds
no solution. -/
theorem restores_of_mem_iff {b : Bool} (ht : (s.gate g).type = ty) (h : ChildrenAt g s t)
    (hh : t.handleMap = s.handleMap)
    (hmem : ∀ σ, s.circuit.ConsistentBut σ g →
      (a ∈ (t.gate g).children.map σ ↔ a ∈ (s.gate g).children.map σ)) : Restores s (b, t) :=
  .of_consistent hh fun σ hσ => hσ.of_childrenAt h fun hb _ _ => by
    rw [ht]; exact orAnd_eval_congr hty (hmem σ hb) _ _

theorem shareSubset_restores (hs : s.circuit.Shaped) (hm : NoMarks s) (ht : (s.gate g).type = ty) :
    Restores s (true, s.shareSubset ty g) := by
  refine restores_of_mem_iff hty ht shareSubset_childrenAt handleMap_shareSubset fun σ hb => ?_
  rcases shareSubset_spec hs hm (ht ▸ (orAnd_live hty).1) with hch | ⟨p, hpg, hps, hpty, hsub, hmem⟩
  · rw [hch]
  · exact mem_map_shared (orAnd_value_but hty hb hps hpg hpty) hsub hmem

theorem simplifyOrAnd_restores (ha : s.circuit.Acyclic) (hs : s.circuit.Shaped) (hm : NoMarks s)
    (ht : (s.gate g).type = ty) {r : Bool × BC} (h : s.simplifyOrAnd a ty g = some r) : Restores s r := by
  have hl : (s.gate g).type.Live := ht ▸ (orAnd_live hty).1
  have hg : g < s.size := lt_size_of_live (c := s.circuit) hl
  have hlive : ∀ x ∈ (s.gate g).children, (s.gate x).type.Live := (hs g hg hl).1
  have hx : ∀ x ∈ (s.gate g).children, x ≠ g ∧ (s.gate x).type.Live := fun x hm =>
    ⟨ha.ne_of_mem hm, hlive x hm⟩
  have hoa : ∀ t : BC, (t.gate g).type = ty →
      (t.gate g).type = .or ∨ (t.gate g).type = .and ∨ (t.gate g).type = .equiv := fun t h => by
    rw [h, hty]; cases a <;> simp
  unfold simplifyOrAnd at h
  dsimp only at h
  split at h
  · -- `g` is forced to `!a`: the old gate reads `!a` off children the other gates hold at `!a`
    rename_i hd
    simp only [Bool.and_eq_true, beq_iff_eq] at hd
    have hsize := (forceChildren_implied a g _ s (ScanOk.init s g)).size_eq
    have hh := handleMap_forceChildren (a := a) (g := g) (s.gate g).children s
    split at h
    next s₁ heq => cases h; exact .of_false _
    next s₁ heq =>
      rw [heq] at hsize hh
      obtain ⟨s₂, h₂, rfl⟩ := Option.map_eq_some'.1 h
      refine .of_consistent (by simpa [handleMap_transformIntoConstant h₂] using hh) fun σ hσ => ?_
      obtain ⟨hb₁, hv⟩ := Consistent.but_of_transformIntoConstant (by simpa using hσ) (hsize ▸ hg) h₂
      obtain ⟨hb, hr⟩ := forceChildren_restores (a := a) _ s hg rfl hx (by rw [heq]) (by rw [heq]; exact hb₁)
      have hnone : a ∉ (s.gate g).children.map σ := fun hin => by
        obtain ⟨x, hxm, hxa⟩ := List.mem_map.1 hin
        rw [hr x hxm] at hxa; cases a <;> simp at hxa
      exact hb.consistent fun _ _ => ⟨fun _ => by rw [hv, circuit_gate, ht, orAnd_eval_dual hty hnone],
        fun _ => hv.trans hd.2.symm⟩
  · rename_i hnd
    have habs := fun σ (hb : s.circuit.ConsistentBut σ g) => absorbScan_mem_iff (a := a) _ [] s hg rfl hx hb
    obtain ⟨e₁, hsub₁, hlen₁⟩ := absorbScan_childrenAt (a := a) (s.gate g).children [] s hg rfl
    have hh₁ := handleMap_absorbScan (a := a) (g := g) (s.gate g).children [] s
    have hm₁ := hm.of_temp (absorbScan_temp a g (s.gate g).children [] s)
    have ia₁ := absorbScan_implied a g _ [] s (ScanOk.init s g)
    split at h
    next _ s₁ heq =>
      -- a child at `a`: the old gate reads `a`, and a determined `g` was not at `!a`
      rw [heq] at habs e₁ hh₁
      dsimp only at habs e₁ hh₁
      obtain ⟨s₂, h₂, rfl⟩ := Option.map_eq_some'.1 h
      refine .of_consistent (by simp [handleMap_transformIntoConstant h₂, hh₁]) fun σ hσ => ?_
      obtain ⟨hb₁, hv⟩ := Consistent.but_of_transformIntoConstant (by simpa using hσ) (e₁.size_eq ▸ hg) h₂
      have hb := hb₁.of_gateAt (.of_childrenAt e₁)
      have hin : a ∈ (s.gate g).children.map σ := (habs σ hb).2 rfl
      refine hb.consistent fun _ _ => ⟨fun _ => by rw [hv, circuit_gate, ht, GateType.eval_orAnd hty, if_pos hin],
        fun hd => ?_⟩
      simp only [circuit_gate] at hd
      simp only [hd, Bool.true_and, beq_iff_eq] at hnd
      rw [hv]
      cases a <;> cases e : (s.gate g).value <;> simp_all
    next s₁ heq =>
      -- no child left: `g` reads `!a`
      rw [heq] at habs e₁ hh₁ hlen₁
      dsimp only at habs e₁ hh₁ hlen₁
      have hnil : (s₁.gate g).children = [] := List.length_eq_zero.1 (hlen₁ rfl)
      refine (restores_of_mem_iff hty ht e₁ hh₁ fun σ hb => (habs σ hb).1).trans
        (becomeConstant_restores (e₁.size_eq ▸ hg) h fun σ _ _ _ => ?_)
      rw [e₁.type_eq, ht, hnil, List.map_nil, GateType.eval_orAnd hty, if_neg (List.not_mem_nil _)]
    next s₁ heq =>
      -- one child left: `g` becomes a `REF` to it
      rw [heq] at habs e₁ hh₁ hlen₁
      dsimp only at habs e₁ hh₁ hlen₁
      cases h
      obtain ⟨c, hc⟩ := List.length_eq_one.1 (hlen₁ rfl)
      have hg₁ : g < s₁.size := e₁.size_eq ▸ hg
      refine (restores_of_mem_iff hty ht e₁ hh₁ fun σ hb => (habs σ hb).1).trans
        (@restores_of_rewrite _ _ _ _ .ref [c] hg₁ ⟨by decide, by decide⟩ (by simp) (fun x => ?_) fun σ _ _ _ => ?_)
      · by_cases hxg : x = g
        · subst hxg; simp [hg₁, hc]
        · simp [hxg, Ne.symm hxg]
      · rw [e₁.type_eq, ht, hc, GateType.eval_orAnd hty]
        cases a <;> cases h : σ c <;> simp [h]
    next _ s₁ _ _ heq =>
      -- duplicates and complements, then subset sharing and collapsing
      rw [heq] at habs e₁ hh₁ hsub₁ hm₁ ia₁
      dsimp only at habs e₁ hh₁ hsub₁ hm₁ ia₁
      have ht₁ : (s₁.gate g).type = ty := by rw [e₁.type_eq, ht]
      have hs₁ : s₁.circuit.Shaped := e₁.shaped hs (hoa s ht) fun y hy => hlive y (by simpa using hsub₁ y hy)
      have k₁ : Restores s (true, s₁) := restores_of_mem_iff hty ht e₁ hh₁ fun σ hb => (habs σ hb).1
      obtain ⟨⟨ok, s₂⟩, h₂, h⟩ := Option.bind_eq_some.1 h
      have k₂ := removeGNotGAndDuplicateChildren_restores hm₁ hs₁ (hoa s₁ ht₁) h₂
      dsimp only at h
      by_cases hok : ok = true
      swap
      · rw [Bool.not_eq_true] at hok
        subst hok
        rw [if_pos (show (!false) = true from rfl)] at h
        cases h
        exact .of_false _
      subst hok
      rw [if_neg (show ¬(!true) = true from nofun)] at h
      refine k₁.trans (k₂.trans ?_)
      by_cases ht₂ : (s₂.gate g).type = ty
      swap
      · rw [if_pos ht₂] at h
        cases h
        exact .refl _
      rw [if_neg (not_not.2 ht₂)] at h
      obtain ⟨-, e₂⟩ | ⟨-, s₃, e₃, hbc⟩ := removeGNotGAndDuplicateChildren_spec hm₁ (hoa s₁ ht₁) h₂
      swap
      · rcases becomeConstant_type (by rw [e₃.size_eq, e₁.size_eq]; exact hg) hbc with e | e <;>
          rw [e, hty] at ht₂ <;> cases a <;> cases ht₂
      have hs₂ : s₂.circuit.Shaped := e₂.shaped hs₁ (hoa s₁ ht₁)
      have hm₂ : NoMarks s₂ := removeGNotGAndDuplicateChildren_noMarks hm₁ h₂
      have ha₂ : s₂.circuit.Acyclic :=
        (ia₁.trans (removeGNotGAndDuplicateChildren_implied h₂)).acyclic ha
      generalize hs₃ : (if 3 ≤ (s₂.gate g).children.length then s₂.shareSubset ty g else s₂) = s₃ at h
      obtain ⟨k₃, e₃, ha₃⟩ : Restores s₂ (true, s₃) ∧ ChildrenAt g s₂ s₃ ∧ s₃.circuit.Acyclic := by
        rw [← hs₃]
        split_ifs
        · exact ⟨shareSubset_restores hty hs₂ hm₂ ht₂, shareSubset_childrenAt,
            shareSubset_acyclic ty ha₂ hm₂ g⟩
        · exact ⟨.refl s₂, .refl g s₂, ha₂⟩
      have hg₃ : g < s₃.size := by rw [e₃.size_eq, e₂.size_eq, e₁.size_eq]; exact hg
      have k₄ := restores_of_mem_iff (b := true) hty (by rw [e₃.type_eq, ht₂])
        (collapseScan_childrenAt _ [] s₃ false) (handleMap_collapseScan _ [] s₃ false) fun σ hb =>
          collapseScan_mem_iff hty _ [] s₃ false hb hg₃ rfl fun x hm => ha₃.ne_of_mem hm
      refine k₃.trans ?_
      split at h <;> cases h <;> rename_i heq <;> rw [heq] at k₄ <;> dsimp only at k₄
      · exact k₄.of_circuit_eq (by simp)
      · exact k₄

end OrAnd

end BC

end BcSat
