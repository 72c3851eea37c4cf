import BcSat.Coi

set_option autoImplicit false

/-!
# Polarity information

`Gate::mir_propagate_polarity` and the polarity computation it serves. Starting from every
determined gate with its value, a polarity is pushed down: a determined gate of the other
value, or a justified one, stops it; otherwise the gate's `mir_pos` or `mir_neg` flag is set
and the children get the polarities the gate type asks for. The polarity translation then
emits for each gate only the halves whose flag is set.

The result proved here is the closure property the translation rests on: every flag set has
its children reached in the polarities its type asks for, and every determined gate that is
not justified carries the flag of its value.
-/

namespace BcSat

namespace Circuit

/-- The flag of polarity `p`: `mir_pos` for true, `mir_neg` for false. -/
def mirFlag (c : Circuit) (g : Nat) (p : Bool) : Bool :=
  if p then (c.gate g).mirPos else (c.gate g).mirNeg

/-- Sets the flag of polarity `p` of gate `g`. -/
def setMir (c : Circuit) (g : Nat) (p : Bool) : Circuit :=
  c.modify g fun gt => if p then { gt with mirPos := true } else { gt with mirNeg := true }

/-- The calls `Gate::mir_propagate_polarity` makes on the children of `g` for polarity `p`,
in order; `none` is an `internal_error` or a read through a missing child. -/
def mirCalls (c : Circuit) (g : Nat) (p : Bool) : Option (List (Nat × Bool)) :=
  let gt := c.gate g
  let all (q : Bool) := gt.children.map fun ch => (ch, q)
  let both := gt.children.flatMap fun ch => [(ch, p), (ch, !p)]
  let i := c.childInfo gt.children
  match gt.type with
  | .false | .true | .var => some []
  | .not => gt.children.head?.map fun ch => [(ch, !p)]
  | .or | .and | .atleast => some (all p)
  | .equiv => some both
  | .odd => some (if i.nofUndet = 1 then all (p ^^ (i.nofTrue % 2 == 1)) else both)
  | .even => some (if i.nofUndet = 1 then all (p ^^ (i.nofTrue % 2 == 0)) else both)
  | .ite => match gt.children with
    | ci :: ct :: ce :: _ => some [(ci, p), (ci, !p), (ct, p), (ce, p)]
    | _ => none
  | .threshold =>
    let n := i.nofTrue + i.nofFalse + i.nofUndet
    some (if p then
        if gt.tmin ≤ i.nofTrue then all Bool.false
        else if n - i.nofFalse ≤ gt.tmax then all Bool.true else both
      else
        if gt.tmin ≤ i.nofTrue then all Bool.true
        else if n - i.nofFalse ≤ gt.tmax then all Bool.false else both)
  | .ref | .undef | .deleted => none

end Circuit

/-- The calls of one gate, in order. -/
def mirPropagateList (f : Circuit → Nat → Bool → Option Circuit) :
    Circuit → List (Nat × Bool) → Option Circuit
  | c, [] => some c
  | c, (ch, q) :: calls => (f c ch q).bind fun c => mirPropagateList f c calls

/-- `Gate::mir_propagate_polarity`: stops at a determined gate of the other value and at a
justified one, and at a gate whose flag is already set; otherwise sets the flag and makes the
calls of the gate's type. `none` is an `internal_error`, or the fuel, a bound on the depth,
running out. -/
def mirPropagate : Nat → Circuit → Nat → Bool → Option Circuit
  | 0, _, _, _ => none
  | fuel + 1, c, g, p =>
    let stop : Option Bool :=
      if (c.gate g).determined then
        if (c.gate g).value != p then some Bool.true else c.isJustified g
      else some Bool.false
    match stop with
    | none => none
    | some Bool.true => some c
    | some Bool.false =>
      if c.mirFlag g p then some c
      else (c.mirCalls g p).bind fun calls => mirPropagateList (mirPropagate fuel) (c.setMir g p) calls

/-- The loop over the gates that starts `mir_propagate_polarity` at every determined gate. -/
def mirFromDetermined : Circuit → List Nat → Option Circuit
  | c, [] => some c
  | c, g :: gs =>
    if (c.gate g).determined then
      (mirPropagate c.size c g (c.gate g).value).bind fun c => mirFromDetermined c gs
    else mirFromDetermined c gs

/-- Modelled from the spec: `BC::mir_compute_polarity_information` (bc.cc is not among the
sources) clears every flag and starts `mir_propagate_polarity` from every determined gate with
its value as the polarity. -/
def Circuit.mirComputePolarityInformation (c : Circuit) : Option Circuit :=
  mirFromDetermined ⟨c.gates.map fun gt => { gt with mirPos := false, mirNeg := false }⟩
    c.liveGates

/-- `c'` differs from `c` in the polarity flags at most. -/
structure FlagsOnly (c c' : Circuit) : Prop where
  logic : SameLogic c c'
  temp_eq : ∀ g, (c'.gate g).temp = (c.gate g).temp

namespace FlagsOnly

variable {c c' c'' : Circuit}

theorem refl (c : Circuit) : FlagsOnly c c := ⟨SameLogic.refl c, fun _ => rfl⟩

theorem trans (h₁ : FlagsOnly c c') (h₂ : FlagsOnly c' c'') : FlagsOnly c c'' :=
  ⟨h₁.logic.trans h₂.logic, fun g => (h₂.temp_eq g).trans (h₁.temp_eq g)⟩

theorem setMir (c : Circuit) (g : Nat) (p : Bool) : FlagsOnly c (c.setMir g p) := by
  have hg : ∀ h, (c.setMir g p).gate h = if g = h ∧ h < c.size then
      (if p then { c.gate h with mirPos := true } else { c.gate h with mirNeg := true })
      else c.gate h := fun h => Circuit.gate_modify _ _ _ _
  refine ⟨⟨Circuit.size_modify _ _ _, ?_, ?_, ?_, ?_, ?_, ?_⟩, ?_⟩ <;> intro h <;> rw [hg h] <;>
    split <;> (try cases p) <;> rfl

end FlagsOnly

theorem mirFlag_setMir (c : Circuit) {g : Nat} (hg : g < c.size) (p : Bool) (h : Nat) (q : Bool) :
    (c.setMir g p).mirFlag h q = (decide (h = g ∧ q = p) || c.mirFlag h q) := by
  simp only [Circuit.mirFlag, Circuit.setMir, Circuit.gate_modify]
  by_cases hh : h = g
  · subst hh; cases p <;> cases q <;> simp [hg]
  · simp [Ne.symm hh, hh]

section Calls

variable {c c' : Circuit}

theorem mirCalls_eq (h : SameLogic c c') (g : Nat) (p : Bool) :
    c'.mirCalls g p = c.mirCalls g p := by
  simp only [Circuit.mirCalls, h.childInfo_eq, h.children_eq, h.type_eq, h.tmin_eq, h.tmax_eq]

theorem mirCalls_children {g : Nat} {p : Bool} {calls : List (Nat × Bool)}
    (h : c.mirCalls g p = some calls) : ∀ x ∈ calls, x.1 ∈ (c.gate g).children := by
  have hall : ∀ q : Bool, ∀ x ∈ (c.gate g).children.map fun ch => (ch, q),
      x.1 ∈ (c.gate g).children := by
    intro q x hx; obtain ⟨ch, hch, rfl⟩ := List.mem_map.mp hx; exact hch
  have hboth : ∀ x ∈ (c.gate g).children.flatMap fun ch => [(ch, p), (ch, !p)],
      x.1 ∈ (c.gate g).children := by
    intro x hx
    obtain ⟨ch, hch, hx⟩ := List.mem_flatMap.mp hx
    simp only [List.mem_cons, List.mem_singleton, List.not_mem_nil, or_false] at hx
    rcases hx with rfl | rfl <;> exact hch
  intro x hx
  simp only [Circuit.mirCalls] at h
  cases hty : (c.gate g).type <;> simp only [hty, Option.some.injEq, reduceCtorEq] at h
  case false | true | var => subst h; simp at hx
  case or | and | atleast => subst h; exact hall p x hx
  case equiv => subst h; exact hboth x hx
  case odd | even => subst h; split at hx; exacts [hall _ x hx, hboth x hx]
  case not =>
    obtain ⟨ch, hch, rfl⟩ := Option.map_eq_some'.mp h
    simp only [List.mem_singleton] at hx
    subst hx
    exact List.mem_of_mem_head? hch
  case ite =>
    split at h
    · rename_i ci ct ce rest hchs
      cases h
      simp only [List.mem_cons, List.not_mem_nil, or_false] at hx
      rw [hchs]
      rcases hx with rfl | rfl | rfl | rfl <;> simp
    · exact absurd h (by simp)
  case threshold =>
    subst h
    split at hx
    · split at hx
      · exact hall _ x hx
      · split at hx; exacts [hall _ x hx, hboth x hx]
    · split at hx
      · exact hall _ x hx
      · split at hx; exacts [hall _ x hx, hboth x hx]

theorem mirCalls_isSome {notless : Bool} {g : Nat} (hok : c.cnfGateOk notless g = true)
    (p : Bool) : (c.mirCalls g p).isSome := by
  simp only [Circuit.cnfGateOk] at hok
  simp only [Circuit.mirCalls]
  generalize (c.gate g).children = chs at hok ⊢
  cases hty : (c.gate g).type <;> simp only [hty] at hok ⊢
  case not => match chs, hok with | [_], _ => rfl
  case ite => match chs, hok with | [_, _, _], _ => rfl
  case threshold | ref | undef | deleted | atleast => exact absurd hok Bool.false_ne_true
  all_goals rfl

theorem childInfo_pair {c₁ c₂ ch : Nat} (hu : (c.childInfo [c₁, c₂]).nofUndet = 1)
    (hch : ch ∈ [c₁, c₂]) (hd : (c.gate ch).determined = false) :
    ∃ d, ([c₁, c₂] = [ch, d] ∨ [c₁, c₂] = [d, ch]) ∧ (c.gate d).determined = true ∧
      ((c.childInfo [c₁, c₂]).nofTrue % 2 == 1) = (c.gate d).value ∧
      ((c.childInfo [c₁, c₂]).nofTrue % 2 == 0) = !(c.gate d).value := by
  simp only [List.mem_cons, List.mem_singleton, List.not_mem_nil, or_false] at hch
  rcases hch with rfl | rfl
  · refine ⟨c₂, Or.inl rfl, ?_⟩
    cases hd₂ : (c.gate c₂).determined
    · simp [Circuit.childInfo, hd, hd₂] at hu
    · cases hv : (c.gate c₂).value <;> simp [Circuit.childInfo, hd, hd₂, hv]
  · refine ⟨c₁, Or.inr rfl, ?_⟩
    cases hd₁ : (c.gate c₁).determined
    · simp [Circuit.childInfo, hd, hd₁] at hu
    · cases hv : (c.gate c₁).value <;> simp [Circuit.childInfo, hd, hd₁, hv]

theorem mirCalls_sound {notless : Bool} {g : Nat} (hok : c.cnfGateOk notless g = true)
    (p : Bool) {calls : List (Nat × Bool)} (hcalls : c.mirCalls g p = some calls)
    (lv σ : Nat → Bool)
    (hev : (c.gate g).type.eval (c.gate g).tmin (c.gate g).tmax ((c.gate g).children.map lv) = p)
    (hD : ∀ x ∈ calls, lv x.1 = x.2 → σ x.1 = x.2)
    (hdet : ∀ ch ∈ (c.gate g).children, (c.gate ch).determined →
      σ ch = lv ch ∧ lv ch = (c.gate ch).value) :
    (c.gate g).type.eval (c.gate g).tmin (c.gate g).tmax ((c.gate g).children.map σ) = p := by
  -- where every child is called in both polarities, `σ` and `lv` agree on the children
  have hboth : calls = (c.gate g).children.flatMap (fun ch => [(ch, p), (ch, !p)]) →
      (c.gate g).children.map σ = (c.gate g).children.map lv := fun hc =>
    List.map_congr_left fun ch hch => by
      have h₁ := hD (ch, p) (by rw [hc]; exact List.mem_flatMap.mpr ⟨ch, hch, by simp⟩)
      have h₂ := hD (ch, !p) (by rw [hc]; exact List.mem_flatMap.mpr ⟨ch, hch, by simp⟩)
      by_cases hl : lv ch = p
      · rw [hl]; exact h₁ hl
      · rw [Bool.eq_not_of_ne hl]; exact h₂ (Bool.eq_not_of_ne hl)
  have hall : calls = (c.gate g).children.map (fun ch => (ch, p)) →
      ∀ ch ∈ (c.gate g).children, lv ch = p → σ ch = p := fun hc ch hch =>
    hD (ch, p) (by rw [hc]; exact List.mem_map_of_mem _ hch)
  have hok₀ := hok
  simp only [Circuit.cnfGateOk] at hok
  simp only [Circuit.mirCalls] at hcalls
  cases hty : (c.gate g).type <;> simp only [hty, Option.some.injEq] at hok hcalls hev ⊢
  case false | true | var => exact hev
  case or =>
    have h := hall hcalls.symm
    simp only [GateType.eval, ← any_eq_count_pos] at hev ⊢
    cases p
    · simp only [List.any_eq_false] at hev ⊢
      intro ch hch hσ
      have := h ch hch (by simpa using hev ch hch)
      simp_all
    · obtain ⟨ch, hch, hl⟩ := List.any_eq_true.mp hev
      exact List.any_eq_true.mpr ⟨ch, hch, h ch hch hl⟩
  case and =>
    have h := hall hcalls.symm
    simp only [GateType.eval, ← all_eq_count_false] at hev ⊢
    cases p
    · obtain ⟨ch, hch, hl⟩ := List.all_eq_false.mp hev
      exact List.all_eq_false.mpr ⟨ch, hch, by simpa using h ch hch (by simpa using hl)⟩
    · simp only [List.all_eq_true] at hev ⊢
      exact fun ch hch => h ch hch (hev ch hch)
  case not =>
    obtain ⟨ch, hch⟩ := List.length_eq_one.mp (cnfGateOk_not_length hok₀ hty)
    rw [hch] at hcalls hev ⊢
    simp only [List.head?_cons, Option.map_some', Option.some.injEq] at hcalls
    subst hcalls
    simp only [List.map_cons, List.map_nil, GateType.eval_not_one] at hev ⊢
    have := hD (ch, !p) (List.mem_singleton_self _) (by rw [← hev]; simp)
    rw [this, Bool.not_not]
  case equiv => rw [hboth hcalls.symm]; exact hev
  case ite =>
    obtain ⟨i, t, e, hch⟩ := List.length_eq_three.mp (by simpa using hok)
    rw [hch] at hcalls hev ⊢
    simp only [Option.some.injEq] at hcalls
    subst hcalls
    simp only [List.map_cons, List.map_nil, GateType.eval_ite_three] at hev ⊢
    have hi : σ i = lv i := by
      cases hl : lv i
      · exact hD (i, _) (by cases p <;> simp) (by cases p <;> simp [hl])
      · exact hD (i, _) (by cases p <;> simp) (by cases p <;> simp [hl])
    rw [hi]
    cases hl : lv i <;> simp only [hl, if_true, if_false, Bool.false_eq_true] at hev ⊢
    · exact hD (e, p) (by simp) hev
    · exact hD (t, p) (by simp) hev
  case odd | even =>
    obtain ⟨c₁, c₂, hch⟩ := List.length_eq_two.mp (by simpa using hok)
    suffices hσ : (c.gate g).children.map σ = (c.gate g).children.map lv by rw [hσ]; exact hev
    split at hcalls
    · -- one undetermined child: it is called with the value it has under `lv`
      rename_i hu
      subst hcalls
      refine List.map_congr_left fun ch hch' => ?_
      cases hd : (c.gate ch).determined
      · have hcall := hD _ (List.mem_map_of_mem _ hch')
        dsimp only at hcall
        refine (fun q (hq : lv ch = q) (h : lv ch = q → σ ch = q) => (h hq).trans hq.symm) _ ?_ hcall
        rw [hch] at hu hev hch' hdet ⊢
        obtain ⟨d, hpair, hdd, hodd, heven⟩ := childInfo_pair hu hch' hd
        have hld := (hdet d (by rcases hpair with h | h <;> rw [h] <;> simp) hdd).2
        rw [← hev]
        simp only [hodd, heven, ← hld]
        rcases hpair with h | h <;> rw [h] <;>
          simp only [List.map_cons, List.map_nil, GateType.eval_odd_two,
            GateType.eval_even_two] <;> cases lv ch <;> cases lv d <;> rfl
      · exact (hdet ch hch' hd).1
    · exact hboth hcalls.symm
  all_goals exact absurd hok Bool.false_ne_true

end Calls

/-- Polarity `p` has reached gate `g`: it stopped at a determined gate of the other value or at
a justified one, or the flag of `p` is set. -/
def Reached (c : Circuit) (g : Nat) (p : Bool) : Prop :=
  ((c.gate g).determined ∧ ((c.gate g).value ≠ p ∨ c.isJustified g = some Bool.true)) ∨
    c.mirFlag g p

/-- What a stretch of propagation does: it sets flags only, and every flag it sets has the
calls of its gate reached. -/
structure MirStep (c c' : Circuit) : Prop where
  flags : FlagsOnly c c'
  mono : ∀ g p, c.mirFlag g p → c'.mirFlag g p
  closed : ∀ g < c.size, ∀ p, c'.mirFlag g p → ¬c.mirFlag g p →
    ∀ calls, c.mirCalls g p = some calls → ∀ x ∈ calls, Reached c' x.1 x.2

namespace MirStep

variable {c c' c'' : Circuit}

theorem refl (c : Circuit) : MirStep c c :=
  ⟨FlagsOnly.refl c, fun _ _ h => h, fun _ _ _ h h' => absurd h h'⟩

theorem reached (h : MirStep c c') {g : Nat} {p : Bool} (hr : Reached c g p) : Reached c' g p := by
  unfold Reached at hr ⊢
  rw [h.flags.logic.determined_eq, h.flags.logic.value_eq, h.flags.logic.isJustified_eq]
  exact hr.imp id (h.mono g p)

theorem trans (h₁ : MirStep c c') (h₂ : MirStep c' c'') : MirStep c c'' where
  flags := h₁.flags.trans h₂.flags
  mono g p hf := h₂.mono g p (h₁.mono g p hf)
  closed g hg p hf hn calls hc x hx := by
    by_cases h' : c'.mirFlag g p
    · exact h₂.reached (h₁.closed g hg p h' hn calls hc x hx)
    · exact h₂.closed g (h₁.flags.logic.size_eq ▸ hg) p hf h' calls
        (by rw [mirCalls_eq h₁.flags.logic]; exact hc) x hx

end MirStep

section Propagation

variable {c₀ : Circuit} (r : Ranking c₀)
  (hcalls : ∀ g < c₀.size, (c₀.gate g).type ≠ .deleted → ∀ p, (c₀.mirCalls g p).isSome)
  (hjust : ∀ g < c₀.size, (c₀.gate g).type ≠ .deleted → (c₀.isJustified g).isSome)
  (hL : ∀ g < c₀.size, (c₀.gate g).type ≠ .deleted →
    ∀ ch ∈ (c₀.gate g).children, (c₀.gate ch).type ≠ .deleted)
include r hcalls hjust hL

omit hcalls hjust hL in
theorem mirPropagateList_ok (fuel : Nat)
    (ih : ∀ ch < c₀.size, r.rank ch < fuel → (c₀.gate ch).type ≠ .deleted → ∀ p c, FlagsOnly c₀ c →
      ∃ c', mirPropagate fuel c ch p = some c' ∧ MirStep c c' ∧ Reached c' ch p) :
    ∀ (calls : List (Nat × Bool)) (c : Circuit),
      (∀ x ∈ calls, x.1 < c₀.size ∧ r.rank x.1 < fuel ∧ (c₀.gate x.1).type ≠ .deleted) →
      FlagsOnly c₀ c → ∃ c', mirPropagateList (mirPropagate fuel) c calls = some c' ∧
        MirStep c c' ∧ ∀ x ∈ calls, Reached c' x.1 x.2
  | [], c, _, _ => ⟨c, rfl, MirStep.refl c, by simp⟩
  | (ch, q) :: calls, c, hcs, hf => by
    obtain ⟨hs, hr, hl⟩ := hcs (ch, q) (List.mem_cons_self _ _)
    obtain ⟨c₁, h₁, m₁, d₁⟩ := ih ch hs hr hl q c hf
    obtain ⟨c₂, h₂, m₂, d₂⟩ := mirPropagateList_ok fuel ih calls c₁
      (fun x hx => hcs x (List.mem_cons_of_mem _ hx)) (hf.trans m₁.flags)
    refine ⟨c₂, by simp [mirPropagateList, h₁, h₂], m₁.trans m₂, ?_⟩
    simp only [List.mem_cons, forall_eq_or_imp]
    exact ⟨m₂.reached d₁, d₂⟩

theorem mirPropagate_ok : ∀ (fuel : Nat) {g : Nat} (p : Bool) (c : Circuit), g < c₀.size →
    r.rank g < fuel → (c₀.gate g).type ≠ .deleted → FlagsOnly c₀ c →
    ∃ c', mirPropagate fuel c g p = some c' ∧ MirStep c c' ∧ Reached c' g p
  | 0, _, _, _, _, hf, _, _ => absurd hf (Nat.not_lt_zero _)
  | fuel + 1, g, p, c, hg, hf, hlive, hfl => by
    have hl := hfl.logic
    have hgc : g < c.size := hl.size_eq ▸ hg
    have hdet := hl.determined_eq g
    obtain ⟨j, hj⟩ := Option.isSome_iff_exists.mp (hjust g hg hlive)
    -- the three ways the call stops at once
    by_cases hstop : ((c.gate g).determined ∧ ((c.gate g).value ≠ p ∨ j = Bool.true)) ∨
        c.mirFlag g p
    · refine ⟨c, ?_, MirStep.refl c, ?_⟩
      · rcases hstop with ⟨hd, hv | rfl⟩ | hfl'
        · simp [mirPropagate, hd, hv]
        · by_cases hv : (c.gate g).value = p
          · simp [mirPropagate, hd, hv, hl.isJustified_eq, hj]
          · simp [mirPropagate, hd, hv]
        · by_cases hd : (c.gate g).determined
          · by_cases hv : (c.gate g).value = p
            · cases j <;> simp [mirPropagate, hd, hv, hl.isJustified_eq, hj, hfl']
            · simp [mirPropagate, hd, hv]
          · simp [mirPropagate, hd, hfl']
      · rcases hstop with ⟨hd, hv⟩ | hfl'
        · exact Or.inl ⟨hd, hv.imp id fun h => by rw [hl.isJustified_eq, hj, h]⟩
        · exact Or.inr hfl'
    push_neg at hstop
    obtain ⟨hgo, hnf⟩ := hstop
    obtain ⟨calls, hcs⟩ := Option.isSome_iff_exists.mp (hcalls g hg hlive p)
    have hcs' : c.mirCalls g p = some calls := by rw [mirCalls_eq hl]; exact hcs
    have hsub := mirCalls_children hcs
    have hf₁ := FlagsOnly.setMir c g p
    obtain ⟨c₂, h₂, m₂, d₂⟩ := mirPropagateList_ok r fuel
      (fun ch hs hr hl q c hfl => mirPropagate_ok fuel q c hs hr hl hfl) calls (c.setMir g p)
      (fun x hx => by
        obtain ⟨hs, hr⟩ := r.child_lt g hg x.1 (hsub x hx)
        exact ⟨hs, by omega, hL g hg hlive x.1 (hsub x hx)⟩) (hfl.trans hf₁)
    have hself : (c.setMir g p).mirFlag g p := by simp [mirFlag_setMir c hgc]
    refine ⟨c₂, ?_, ⟨hf₁.trans m₂.flags, fun h q hq => m₂.mono h q (by
      simp [mirFlag_setMir c hgc, hq]), ?_⟩, Or.inr (m₂.mono g p hself)⟩
    · have hrun : (if (c.gate g).determined then
          (if (c.gate g).value != p then some Bool.true else c.isJustified g) else some Bool.false) =
          some Bool.false := by
        by_cases hd : (c.gate g).determined
        · obtain ⟨hv, hj'⟩ := hgo hd
          cases j
          · simp [hd, hv, hl.isJustified_eq, hj]
          · exact absurd rfl hj'
        · simp [hd]
      simp only [mirPropagate, hrun, hnf, hcs', Option.some_bind, h₂, Bool.false_eq_true, if_false]
    · intro h hh q hq hn cs hcs₂ x hx
      by_cases hhq : h = g ∧ q = p
      · obtain ⟨rfl, rfl⟩ := hhq
        rw [hcs'] at hcs₂
        cases hcs₂
        exact d₂ x hx
      · have hn' : ¬(c.setMir g p).mirFlag h q := by
          simpa [mirFlag_setMir c hgc, hhq] using hn
        exact m₂.closed h (by simpa [Circuit.setMir] using hh) q hq hn' cs
          (by rw [mirCalls_eq hf₁.logic]; exact hcs₂) x hx

theorem mirFromDetermined_ok : ∀ (gs : List Nat) (c : Circuit),
    (∀ g ∈ gs, g < c₀.size ∧ (c₀.gate g).type ≠ .deleted) →
    FlagsOnly c₀ c → ∃ c', mirFromDetermined c gs = some c' ∧ MirStep c c' ∧
      ∀ g ∈ gs, (c₀.gate g).determined → Reached c' g (c₀.gate g).value
  | [], c, _, _ => ⟨c, rfl, MirStep.refl c, by simp⟩
  | g :: gs, c, hgs, hfl => by
    obtain ⟨hg, hlive⟩ := hgs g (List.mem_cons_self g gs)
    have hrest := fun x hx => hgs x (List.mem_cons_of_mem g hx)
    have hl := hfl.logic
    by_cases hd : (c.gate g).determined
    · obtain ⟨c₁, h₁, m₁, d₁⟩ := mirPropagate_ok r hcalls hjust hL c.size (c.gate g).value c hg
        (hl.size_eq ▸ r.rank_lt g hg) hlive hfl
      obtain ⟨c₂, h₂, m₂, d₂⟩ := mirFromDetermined_ok gs c₁ hrest (hfl.trans m₁.flags)
      refine ⟨c₂, by simp [mirFromDetermined, hd, h₁, h₂], m₁.trans m₂, ?_⟩
      simp only [List.mem_cons, forall_eq_or_imp]
      exact ⟨fun _ => by rw [← hl.value_eq]; exact m₂.reached d₁, d₂⟩
    · obtain ⟨c₂, h₂, m₂, d₂⟩ := mirFromDetermined_ok gs c hrest hfl
      refine ⟨c₂, by simp [mirFromDetermined, hd, h₂], m₂, ?_⟩
      simp only [List.mem_cons, forall_eq_or_imp]
      exact ⟨fun h => absurd (hl.determined_eq g ▸ h) hd, d₂⟩

end Propagation

/-- The polarity computation ends on a ranked circuit of the emitter's shape; it changes
only the flags, every flag it sets has its calls reached, and every determined live gate is
reached in the polarity of its value. -/
theorem mirComputePolarityInformation_ok {c : Circuit} (r : Ranking c) {notless : Bool}
    (hshape : c.CnfShaped notless) :
    ∃ c₃, c.mirComputePolarityInformation = some c₃ ∧ FlagsOnly c c₃ ∧
      (∀ g < c.size, ∀ p, c₃.mirFlag g p → ∀ calls, c.mirCalls g p = some calls →
        ∀ x ∈ calls, Reached c₃ x.1 x.2) ∧
      (∀ g < c.size, (c.gate g).type ≠ .deleted → (c.gate g).determined →
        Reached c₃ g (c.gate g).value) := by
  set c₀ : Circuit := ⟨c.gates.map fun gt => { gt with mirPos := false, mirNeg := false }⟩
  have hsize : c₀.size = c.size := List.length_map _ _
  have hgate : ∀ g < c.size, c₀.gate g = { c.gate g with mirPos := false, mirNeg := false } := by
    intro g hg
    simp only [c₀, Circuit.gate, List.getD_eq_getElem?_getD, List.getElem?_map,
      List.getElem?_eq_getElem (show g < c.gates.length from hg), Option.map_some', Option.getD_some]
  have hfield : ∀ g, c₀.gate g =
      { c.gate g with mirPos := (c₀.gate g).mirPos, mirNeg := (c₀.gate g).mirNeg } := by
    intro g
    by_cases hg : g < c.size
    · rw [hgate g hg]
    · rw [Circuit.gate_of_size_le _ (by omega), Circuit.gate_of_size_le _ (by omega)]
  have hflags : FlagsOnly c c₀ :=
    ⟨⟨hsize, fun g => by rw [hfield g], fun g => by rw [hfield g], fun g => by rw [hfield g],
      fun g => by rw [hfield g], fun g => by rw [hfield g], fun g => by rw [hfield g]⟩,
      fun g => by rw [hfield g]⟩
  have hnone : ∀ g p, ¬c₀.mirFlag g p := fun g p => by
    by_cases hg : g < c.size
    · cases p <;> simp [Circuit.mirFlag, hgate g hg]
    · cases p <;> simp [Circuit.mirFlag, Circuit.gate_of_size_le _ (show c₀.size ≤ g by omega),
        Gate.none]
  have hshape₀ := (hflags.logic.cnfShaped_iff notless).mpr hshape
  obtain ⟨c₃, h₃, m₃, d₃⟩ := mirFromDetermined_ok (hflags.logic.ranking r)
    (fun g hg hl p => mirCalls_isSome (hshape₀.gateOk hg hl) p)
    (fun g hg hl => isJustified_isSome (hshape₀.gateOk hg hl)) (fun g hg hl => (hshape₀ g hg hl).2)
    c.liveGates c₀ (fun g hg => by
      rw [← hflags.logic.liveGates_eq] at hg; exact Circuit.mem_liveGates.mp hg) (FlagsOnly.refl c₀)
  refine ⟨c₃, h₃, hflags.trans m₃.flags, fun g hg p hf calls hcs x hx => ?_, fun g hg hl hd => ?_⟩
  · exact m₃.closed g (hsize ▸ hg) p hf (hnone g p) calls
      (by rw [mirCalls_eq hflags.logic]; exact hcs) x hx
  · rw [← hflags.logic.value_eq]
    exact d₃ g (Circuit.mem_liveGates.mpr ⟨hg, hl⟩) (by rw [hflags.logic.determined_eq]; exact hd)

end BcSat
