import BcSat.SimplifyTidy

set_option autoImplicit false

/-!
# What the parity case of `Gate::simplify` keeps

The `ODD` and `EVEN` case drops determined children, absorbs `NOT` children, removes repeated
children in pairs, and then tries the rules for two children: equal or complementary children are
unified (an input becomes a `REF` or a `NOT` of the other) or joined by moving edges, and an `ODD`
over an `OR` above its other child becomes an `AND`. Every gate these steps write is live over live
gates with the arity of its type, and every mark the duplicate scan sets is cleared, so a call that
returns true leaves the invariant `Tidy`. A gate left with no child becomes a constant at once,
which is why the lemmas below take a store that agrees with a tidy one outside `g`.
-/

namespace BcSat

namespace BC

open Circuit

variable {s s' : BC} {g : Nat}

theorem live_transformIntoConstant (hg : g < s.size) {v : Bool} (h : s.transformIntoConstant g v = some s')
    {x : Nat} (hx : (s.gate x).type.Live) : (s'.gate x).type.Live := by
  rw [(transformIntoConstant_gate hg h).2]
  by_cases hxg : x = g
  · rw [if_pos hxg]; show (if v then GateType.true else .false).Live; cases v <;> decide
  · rw [if_neg hxg]; exact hx

@[simp] theorem temp_flipParity (x : Nat) :
    ((s.modify g fun gt => { gt with type := gt.type.flipParity }).gate x).temp = (s.gate x).temp :=
  temp_modify_of s g x fun _ => rfl

theorem parityDetScan_temp (g : Nat) : ∀ (rest kept : List Nat) (s : BC) (x : Nat),
    ((parityDetScan g kept rest s).2.gate x).temp = (s.gate x).temp
  | [], _, _, _ => rfl
  | ch :: rest, kept, s, x => by
    unfold parityDetScan
    split_ifs <;> rw [parityDetScan_temp] <;> simp

theorem absorbNots_temp (g : Nat) : ∀ (rest kept : List Nat) (s : BC) (det : Bool) {r : Bool × BC},
    absorbNots g kept rest s det = some r → ∀ x, (r.2.gate x).temp = (s.gate x).temp
  | [], _, _, _, _, h, _ => by cases h; rfl
  | ch :: rest, kept, s, det, r, h, x => by
    unfold absorbNots at h
    split_ifs at h
    · obtain ⟨gc, -, h⟩ := Option.bind_eq_some.1 h
      rw [absorbNots_temp g rest _ _ _ h]; simp
    · exact absorbNots_temp g rest _ s det h x

theorem parityScan_marks (g : Nat) : ∀ (rest kept : List Nat) (s : BC) {s' : BC},
    (s.gate g).children = kept ++ rest → (∀ x, (s.gate x).temp = 1 → x ∈ kept) →
    parityScan g kept rest s = some s' → ∀ x, (s'.gate x).temp = 1 → x ∈ (s'.gate g).children
  | [], kept, s, s', hch, hm, h => by
    cases h; intro x hx; rw [hch]; simpa using hm x hx
  | ch :: rest, kept, s, s', hch, hm, h => by
    have hg : g < s.size := s.circuit.lt_size_of_edge (show ch ∈ (s.gate g).children by simp [hch])
    unfold parityScan at h
    split_ifs at h
    · exact parityScan_marks g rest _ s (by simp [hch]) (fun x hx => List.mem_append_left _ (hm x hx)) h
    · refine parityScan_marks g rest _ _ (by simp [children_setChildren, hg]) (fun x hx => ?_) h
      simp only [gate_pushIfOrphan, gate_setLinks, temp_setChildren] at hx
      rcases temp_setTemp_eq_one hx with ⟨-, h0⟩ | ⟨hxc, hx⟩
      · exact absurd h0 (by decide)
      · exact (List.mem_erase_of_ne hxc).2 (hm x hx)
    · refine parityScan_marks g rest _ _ (by simpa using hch.trans (List.append_cons kept ch rest))
        (fun x hx => ?_) h
      rcases temp_setTemp_eq_one hx with ⟨rfl, -⟩ | ⟨-, hx⟩
      · simp
      · exact List.mem_append_left _ (hm x hx)

theorem lt_size_of_temp_eq_one {x : Nat} (h : (s.gate x).temp = 1) : x < s.size := by
  by_contra hx
  rw [← circuit_gate, s.circuit.gate_of_size_le (by simpa using hx)] at h
  exact absurd h (by decide)

theorem removeParityDuplicateChildren_tidy (ht : Tidy s)
    (hpar : (s.gate g).type = .odd ∨ (s.gate g).type = .even) {r : Bool × BC}
    (h : s.removeParityDuplicateChildren g = some r) : r.1 = true → Tidy r.2 := by
  have hl : (s.gate g).type.Live := by rcases hpar with e | e <;> rw [e] <;> decide
  have hg : g < s.size := lt_size_of_live (c := s.circuit) hl
  unfold removeParityDuplicateChildren at h
  dsimp only at h
  rw [if_neg (by rcases hpar with e | e <;> simp [e])] at h
  obtain ⟨s₁, h₁, h⟩ := Option.bind_eq_some.1 h
  have e₀ : ChildrenAt g s (s.setTemps (s.gate g).children 0) := .setTemps _ _
  obtain ⟨e₁, hsub, -⟩ := parityScan_spec _ [] _ (e₀.size_eq ▸ hg) (by rwa [e₀.type_eq]) (by simp) h₁
  have hm₁ := parityScan_marks g _ [] _ (by simp) (fun x hx => by
    rw [temp_setTemps] at hx
    split_ifs at hx
    exacts [absurd hx (by decide), absurd hx (ht.noMarks x)]) h₁
  set s₂ := s₁.setTemps (s₁.gate g).children 0
  have e : ChildrenAt g s s₂ := (e₀.trans e₁).trans (.setTemps _ _)
  have hm₂ : NoMarks s₂ := fun x hx => by
    simp only [s₂, temp_setTemps] at hx
    split_ifs at hx with hin
    · exact absurd hx (by decide)
    · exact hin ⟨hm₁ x hx, lt_size_of_temp_eq_one hx⟩
  have htidy : (s₂.gate g).children ≠ [] → Tidy s₂ := fun hne =>
    ht.rewrite (GateAt.of_childrenAt e).toOnlyAt (.of_inner (by rw [e.type_eq]; tauto)
      (fun y hy => ht.live_children hl y (by simpa [s₂] using hsub y (by simpa [s₂] using hy)))
      fun _ => List.length_pos.2 hne) hm₂
  split_ifs at h with hnil
  · exact ht.becomeConstant_of (GateAt.of_childrenAt e).toOnlyAt hm₂ (e.size_eq ▸ hg) h
  · cases h; exact fun _ => (htidy hnil).addInPstack g
  · cases h; exact fun _ => htidy hnil

section Pair

variable {c₁ c₂ : Nat} (ht : Tidy s) (hg : g < s.size)
  (hpar : (s.gate g).type = .odd ∨ (s.gate g).type = .even) (hch : (s.gate g).children = [c₁, c₂])
include ht hg hpar hch

theorem pair_live_of_tidy : (s.gate c₁).type.Live ∧ (s.gate c₂).type.Live :=
  pair_live ht.shaped hg hpar hch

omit hch in
theorem retypeInput_tidy {x y : Nat} (hx : (s.gate x).type = .var) (hy : (s.gate y).type.Live) {v : Bool}
    {s₁ : BC} (h₁ : s.transformIntoConstant g v = some s₁) {t : GateType} (hty : t = .ref ∨ t = .not) :
    Tidy (((s₁.addParentsInPstack g).setType x t).addChild x y) := by
  have hxg : x ≠ g := fun e => by subst e; rw [hx] at hpar; rcases hpar with e | e <;> cases e
  have hxs : x < s.size := lt_size_of_live (c := s.circuit) (by rw [circuit_gate, hx]; decide)
  have hxc : (s.gate x).children = [] := ht.leavesBare x hxs (.inl hx)
  obtain ⟨hsize₁, hgate₁⟩ := transformIntoConstant_gate hg h₁
  exact ((ht.transformIntoConstant hg h₁).addParentsInPstack g).retypeLeaf (by simpa [hsize₁] using hxs)
    (by simp [hgate₁, hxg, hxc]) hty
    (by simpa using live_transformIntoConstant hg h₁ hy)

theorem equateRule_tidy :
    (∀ r, s.equateRule g c₁ c₂ = .inl (some r) → Tidy r.2) ∧
      ∀ s', s.equateRule g c₁ c₂ = .inr s' → Tidy s' ∧ s'.gate g = s.gate g := by
  obtain ⟨hl₁, hl₂⟩ := pair_live_of_tidy ht hg hpar hch
  have hsame : ∀ {a b : Nat}, (s.gate b).type.Live →
      Tidy ((s.redirectParents (some g) a b).addParentsInPstack b) ∧
        ((s.redirectParents (some g) a b).addParentsInPstack b).gate g = s.gate g := fun hbl =>
    ⟨(ht.redirectParents (some g) hbl).addParentsInPstack _, by simp [gate_redirectParents]⟩
  unfold equateRule
  dsimp only
  split_ifs with hne hv₁ hv₂
  · refine ⟨fun r h => ?_, nofun⟩
    obtain ⟨s₁, h₁, rfl⟩ := Option.map_eq_some'.1 (Sum.inl.inj h)
    exact (ht.transformIntoConstant hg h₁).addParentsInPstack g
  · refine ⟨fun r h => ?_, nofun⟩
    obtain ⟨s₁, h₁, rfl⟩ := Option.map_eq_some'.1 (Sum.inl.inj h)
    exact (retypeInput_tidy ht hg hpar hv₁.2.1 hl₂ h₁ (.inl rfl)).addInPstack c₁
  · refine ⟨fun r h => ?_, nofun⟩
    obtain ⟨s₁, h₁, rfl⟩ := Option.map_eq_some'.1 (Sum.inl.inj h)
    exact (retypeInput_tidy ht hg hpar hv₂.2.1 hl₁ h₁ (.inl rfl)).addInPstack c₂
  · exact ⟨nofun, fun s' h => by cases h; exact hsame hl₁⟩
  · exact ⟨nofun, fun s' h => by cases h; exact hsame hl₂⟩
  · exact ⟨nofun, fun s' h => by cases h; exact ⟨ht, rfl⟩⟩

theorem antiEquateRule_tidy :
    (∀ r, s.antiEquateRule g c₁ c₂ = .inl (some r) → r.1 = true → Tidy r.2) ∧
      ∀ s', s.antiEquateRule g c₁ c₂ = .inr s' → Tidy s' ∧ s'.gate g = s.gate g := by
  obtain ⟨hl₁, hl₂⟩ := pair_live_of_tidy ht hg hpar hch
  have hend : ∀ {x y : Nat}, (s.gate x).type.Live → ∀ s', (((s.append { type := .not, children := [x] }).redirectParents
      (some g) y s.size).addParentsInPstack s.size).addInPstack s.size = s' →
      Tidy s' ∧ s'.gate g = s.gate g := fun hxl s' h => by
    subst h
    refine ⟨(((ht.append (.of_unary (.inr rfl) hxl) rfl).redirectParents (some g)
      (by rw [gate_append_self]; exact (by decide : GateType.not.Live))).addParentsInPstack _).addInPstack _, ?_⟩
    simp [gate_redirectParents, hg]
  unfold antiEquateRule
  dsimp only
  simp only [installGate_eq]
  split_ifs with hne hv₁ hv₂ hp hx
  · refine ⟨fun r h => ?_, nofun⟩
    cases Option.some.inj (Sum.inl.inj h)
    nofun
  · refine ⟨fun r h _ => ?_, nofun⟩
    obtain ⟨s₁, h₁, rfl⟩ := Option.map_eq_some'.1 (Sum.inl.inj h)
    exact ((retypeInput_tidy ht hg hpar hv₁.2.1 hl₂ h₁ (.inr rfl)).addParentsInPstack c₁).addInPstack c₁
  · refine ⟨fun r h _ => ?_, nofun⟩
    obtain ⟨s₁, h₁, rfl⟩ := Option.map_eq_some'.1 (Sum.inl.inj h)
    exact ((retypeInput_tidy ht hg hpar hv₂.2.1 hl₁ h₁ (.inr rfl)).addParentsInPstack c₂).addInPstack c₂
  · exact ⟨nofun, fun s' h => hend hl₁ s' (Sum.inr.inj h)⟩
  · exact ⟨nofun, fun s' h => hend hl₂ s' (Sum.inr.inj h)⟩
  · exact ⟨nofun, fun s' h => by cases h; exact ⟨ht, rfl⟩⟩

end Pair

theorem oddOfOr_tidy (ht : Tidy s) (hg : g < s.size) {c o : Nat} (hc : (s.gate c).type.Live)
    (ho : (s.gate o).type.Live) : Tidy (s.oddOfOr g c o) := by
  have hoz : o < s.size := lt_size_of_live (c := s.circuit) ho
  have hcz : c < s.size := lt_size_of_live (c := s.circuit) hc
  have h₁ : Tidy (s.append { type := .or, children := ((s.gate o).children.filter (· ≠ c)).reverse }) :=
    ht.append (.of_inner (.inl rfl) (fun y hy => ht.live_children ho y
      (List.mem_of_mem_filter (List.mem_reverse.1 hy))) (by simp)) rfl
  have h₂ : Tidy ((s.append { type := .or, children := ((s.gate o).children.filter (· ≠ c)).reverse }).append
      { type := .not, children := [c] }) :=
    h₁.append (.of_unary (.inr rfl) (by rwa [gate_append_of_lt _ hcz])) rfl
  refine h₂.rewrite (g := g) (.of_gate fun x hx => ?_) ?_ fun x => ?_
  · rw [gate_oddOfOr hg hoz, if_neg hx, gate_append, gate_append, size_append]
    by_cases h₀ : x = s.size
    · rw [if_pos h₀, if_neg (by omega), if_pos h₀]
    · rw [if_neg h₀, if_neg h₀]
  · rw [gate_oddOfOr hg hoz, if_pos rfl]
    refine .of_inner (.inr (.inl rfl)) (fun y hy => ?_) (by simp)
    rcases List.mem_pair.1 hy with rfl | rfl
    · rw [gate_append_of_lt _ (by simp), gate_append_self]; exact (by decide : GateType.or.Live)
    · rw [gate_append, if_pos (by simp)]; exact (by decide : GateType.not.Live)
  · rw [gate_oddOfOr hg hoz]
    split_ifs
    exacts [ht.noMarks g, (by decide : (0 : Int) ≠ 1), (by decide : (0 : Int) ≠ 1), ht.noMarks x]

theorem oddOrRule_tidy (ht : Tidy s) (hg : g < s.size) {c₁ c₂ : Nat}
    (hpar : (s.gate g).type = .odd ∨ (s.gate g).type = .even) (hch : (s.gate g).children = [c₁, c₂])
    {r : Bool × BC} (h : s.oddOrRule g c₁ c₂ = some r) : Tidy r.2 := by
  obtain ⟨hl₁, hl₂⟩ := pair_live_of_tidy ht hg hpar hch
  unfold oddOrRule at h
  split_ifs at h <;> cases h <;> dsimp only
  · exact oddOfOr_tidy ht hg hl₁ hl₂
  · exact ht
  · exact oddOfOr_tidy ht hg hl₂ hl₁
  · exact ht
  · exact ht

theorem parityPairRules_tidy (ht : Tidy s) (hg : g < s.size)
    (hpar : (s.gate g).type = .odd ∨ (s.gate g).type = .even) {c₁ c₂ : Nat} {rest : List Nat}
    (hch : (s.gate g).children = c₁ :: c₂ :: rest) {r : Bool × BC}
    (h : s.parityPairRules g c₁ c₂ rest = some r) : r.1 = true → Tidy r.2 := by
  have hend : ∀ s', Tidy s' → s'.gate g = s.gate g →
      (if (s'.gate g).type = .odd ∧ rest = [] then s'.oddOrRule g c₁ c₂ else some (true, s')) =
        some r → r.1 = true → Tidy r.2 := fun s' ht' hg' h _ => by
    split_ifs at h with ho
    · exact oddOrRule_tidy ht' (lt_size_of_live (c := s'.circuit) (by
        rw [circuit_gate, hg']; rcases hpar with e | e <;> rw [e] <;> decide))
        (by rw [hg']; exact hpar) (by rw [hg', hch, ho.2]) h
    · cases h; exact ht'
  have hpair : rest = [] → (s.gate g).children = [c₁, c₂] := fun e => by rw [hch, e]
  unfold parityPairRules at h
  dsimp only at h
  split at h
  next r₁ heq =>
    split_ifs at heq with b₁
    obtain ⟨⟨hr, -⟩, -⟩ := of_decide_eq_true b₁
    exact fun _ => (equateRule_tidy ht hg hpar (hpair hr)).1 r (heq.trans (congrArg Sum.inl h))
  next s₁ heq =>
    split at h
    next r₂ heq₂ =>
      split_ifs at heq heq₂ with b₁ b₂ b₃
      · exact (not_equate_and_antiEquate (of_decide_eq_true b₁).2 (of_decide_eq_true b₂).2).elim
      · cases heq
        obtain ⟨⟨hr, -⟩, -⟩ := of_decide_eq_true b₃
        exact (antiEquateRule_tidy ht hg hpar (hpair hr)).1 r (heq₂.trans (congrArg Sum.inl h))
    next s₂ heq₂ =>
      split_ifs at heq heq₂ with b₁ b₂ b₃
      · exact (not_equate_and_antiEquate (of_decide_eq_true b₁).2 (of_decide_eq_true b₂).2).elim
      · cases heq₂
        obtain ⟨⟨hr, -⟩, -⟩ := of_decide_eq_true b₁
        obtain ⟨ht', hg'⟩ := (equateRule_tidy ht hg hpar (hpair hr)).2 _ heq
        exact hend _ ht' hg' h
      · cases heq
        obtain ⟨⟨hr, -⟩, -⟩ := of_decide_eq_true b₃
        obtain ⟨ht', hg'⟩ := (antiEquateRule_tidy ht hg hpar (hpair hr)).2 _ heq₂
        exact hend _ ht' hg' h
      · cases heq; cases heq₂; exact hend _ ht rfl h

theorem simplifyParity_tidy (ht : Tidy s) (hpar : (s.gate g).type = .odd ∨ (s.gate g).type = .even)
    {r : Bool × BC} (h : s.simplifyParity g = some r) : r.1 = true → Tidy r.2 := by
  have hl : (s.gate g).type.Live := by rcases hpar with e | e <;> rw [e] <;> decide
  have hg : g < s.size := lt_size_of_live (c := s.circuit) hl
  obtain ⟨e₁, ht₁, hlen₁, hsub₁, -⟩ := parityDetScan_spec (s.gate g).children [] s hg hpar rfl
  have hm₁ : NoMarks (parityDetScan g [] (s.gate g).children s).2 :=
    ht.noMarks.of_temp (parityDetScan_temp g _ [] s)
  have htidy₁ : ((parityDetScan g [] (s.gate g).children s).2.gate g).children ≠ [] →
      Tidy (parityDetScan g [] (s.gate g).children s).2 := fun hne =>
    ht.rewrite e₁.toOnlyAt (.of_inner (by rcases ht₁ with e | e <;> simp [e])
      (fun y hy => ht.live_children hl y (by simpa using hsub₁ y hy)) fun _ => List.length_pos.2 hne) hm₁
  unfold simplifyParity at h
  split at h
  next s₁ heq =>
    -- no undetermined child: a constant
    rw [heq] at e₁ hm₁
    exact ht.becomeConstant_of e₁.toOnlyAt hm₁ (e₁.size_eq ▸ hg) h
  next s₁ heq =>
    -- one undetermined child: a `REF` or a `NOT` over it
    rw [heq] at ht₁ hlen₁ htidy₁
    obtain ⟨y, hy⟩ := List.length_eq_one.1 hlen₁
    have ht₁' := htidy₁ (by simp [hy])
    have hl₁ : (s₁.gate g).type.Live := by rcases ht₁ with e | e <;> rw [e] <;> decide
    cases h
    intro _
    dsimp only
    split_ifs
    · exact (ht₁'.setType_unary hl₁ (.inl rfl) hy).addInPstack g
    · exact ((ht₁'.setType_unary hl₁ (.inr rfl) hy).addParentsInPstack g).addInPstack g
  next s₁ h0 _ heq =>
    rw [heq] at e₁ ht₁ hlen₁ htidy₁
    have ht₁' := htidy₁ fun hnil => h0 (by simpa [hnil] using hlen₁.symm)
    obtain ⟨⟨det, s₂⟩, h₂, h⟩ := Option.bind_eq_some.1 h
    obtain ⟨e₂, ht₂, hs₂, -⟩ := absorbNots_spec _ [] s₁ false (e₁.size_eq ▸ hg) ht₁ rfl ht₁'.shaped h₂
    have ht₂' : Tidy s₂ := ht₁'.of_shaped e₂.toOnlyAt hs₂
      (Gate.plain_of_type (by rcases ht₂ with e | e <;> simp [e]))
      (ht₁'.noMarks.of_temp (absorbNots_temp g _ [] s₁ false h₂))
    dsimp only at h
    split_ifs at h with hdet
    · cases h; exact fun _ => ht₂'.addInPstack g
    · obtain ⟨⟨ok, s₃⟩, h₃, h⟩ := Option.bind_eq_some.1 h
      have ht₃ := removeParityDuplicateChildren_tidy ht₂' ht₂ h₃
      dsimp only at h
      split_ifs at h with hok hin hpar₃
      · cases h; nofun
      all_goals
        simp only [Bool.not_eq_true', Bool.not_eq_false, Bool.not_eq_eq_eq_not, Bool.not_true] at hok
        subst hok
      · cases h; exact fun _ => ht₃ rfl
      · cases h; exact fun _ => ht₃ rfl
      · have hpar' : (s₃.gate g).type = .odd ∨ (s₃.gate g).type = .even :=
          or_iff_not_imp_left.2 (by simpa using hpar₃)
        have hg₃ : g < s₃.size := lt_size_of_live (c := s₃.circuit) (by
          rw [circuit_gate]; rcases hpar' with e | e <;> rw [e] <;> decide)
        split at h
        next c₁ c₂ rest hch => exact parityPairRules_tidy (ht₃ rfl) hg₃ hpar' hch h
        next => cases h

end BC

end BcSat
