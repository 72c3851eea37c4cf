import BcSat.Justify

set_option autoImplicit false

/-!
# Evaluation and the satisfiable exit

`Gate::evaluate`, `Gate::check_consistency` and the `sat_exit` path of `bc2cnf`'s `main`,
taken when the cone of influence is empty: undetermined inputs are set to false, every
other undetermined gate is evaluated depth first, and the consistency check runs over the
whole circuit before the assignment is printed.
-/

namespace BcSat

/-- The child loop of `Gate::evaluate`: the children in order, stopping at the first one
whose evaluation fails. -/
def evaluateChildren (eval : Circuit → Nat → Circuit × Bool) : Circuit → List Nat → Circuit × Bool
  | c, [] => (c, true)
  | c, ch :: chs => match eval c ch with
    | (c', true) => evaluateChildren eval c' chs
    | (c', false) => (c', false)

/-- `Gate::evaluate`. A determined gate is left as it is; otherwise its children are
evaluated first and the gate is determined to its function of their values. A `VAR`
cannot be evaluated, and `UNDEF`/`DELETED` reach `internal_error`; both give `false`
here, which `sat_exit` turns into an internal error. The fuel bounds the recursion depth. -/
def evaluate : Nat → Circuit → Nat → Circuit × Bool
  | 0, c, _ => (c, false)
  | fuel + 1, c, g =>
    if (c.gate g).determined then (c, true) else
    match evaluateChildren (evaluate fuel) c (c.gate g).children with
    | (c', false) => (c', false)
    | (c', true) =>
      let gt := c'.gate g
      if gt.type = .var ∨ ¬gt.type.Live ∨ c'.size ≤ g then (c', false)
      else (c'.setValue g (gt.type.eval gt.tmin gt.tmax (gt.children.map fun ch => (c'.gate ch).value)),
        true)

/-- `Gate::check_consistency`; `none` is an internal error or a failed assertion. -/
def Circuit.checkConsistency (c : Circuit) (g : Nat) : Option Bool :=
  let gt := c.gate g
  if !gt.determined then some true else
  let i := c.childInfo gt.children
  let n := i.nofTrue + i.nofFalse + i.nofUndet
  match gt.type with
  | .false => some (gt.value == false)
  | .true => some (gt.value == true)
  | .var => some true
  | .not => some (if i.nofTrue == 1 then gt.value == false
      else if i.nofFalse == 1 then gt.value == true else true)
  | .ref => some (if i.nofTrue == 1 then gt.value == true
      else if i.nofFalse == 1 then gt.value == false else true)
  | .equiv => some (if gt.value then !(0 < i.nofTrue && 0 < i.nofFalse)
      else !(i.nofTrue == n || i.nofFalse == n))
  | .or => some (if gt.value then i.nofFalse != n else i.nofTrue == 0)
  | .and => some (if gt.value then i.nofFalse == 0 else i.nofTrue != n)
  | .odd => some (if i.nofUndet == 0 then gt.value == (i.nofTrue % 2 == 1) else true)
  | .even => some (if i.nofUndet == 0 then gt.value == (i.nofTrue % 2 == 0) else true)
  | .ite => match gt.children with
    | ci :: ct :: ce :: _ => some (let v := gt.value
        !((c.detIs ci true && c.detIs ct !v) || (c.detIs ci false && c.detIs ce !v) ||
          (c.detIs ct !v && c.detIs ce !v)))
    | _ => none
  | .threshold =>
    if gt.tmin ≤ gt.tmax ∧ gt.tmax ≤ n then
      some (if gt.value then !(gt.tmax < i.nofTrue || n - i.nofFalse < gt.tmin)
        else !(gt.tmin ≤ i.nofTrue && n - i.nofFalse ≤ gt.tmax))
    else none
  | .atleast | .undef | .deleted => none

/-- Modelled from the spec: `BC::check_consistency` (bc.cc is not among the sources) runs
`Gate::check_consistency` on every live gate of the store. -/
def Circuit.allConsistent (c : Circuit) : Option Bool :=
  c.liveGates.foldr (fun g acc => match c.checkConsistency g, acc with
    | some b, some a => some (b && a)
    | _, _ => none) (some true)

/-- The first loop of `sat_exit`: every undetermined `VAR` is set to false, after the
assertion that it lies outside the cone (`temp == -1`). -/
def assignInputs : Circuit → List Nat → Option Circuit
  | c, [] => some c
  | c, g :: gs =>
    if (c.gate g).type = .var ∧ (c.gate g).determined = false then
      if (c.gate g).temp = -1 then assignInputs (c.setValue g false) gs else none
    else assignInputs c gs

/-- The second loop of `sat_exit`: every gate still undetermined is evaluated. -/
def evaluateAll (fuel : Nat) : Circuit → List Nat → Option Circuit
  | c, [] => some c
  | c, g :: gs =>
    if (c.gate g).determined then evaluateAll fuel c gs else
    match evaluate fuel c g with
    | (c', true) => evaluateAll fuel c' gs
    | (_, false) => none

/-- The `sat_exit` path up to printing: `none` is an internal error or a failed assertion;
otherwise the circuit whose gate values are printed as the assignment. -/
def satExit (c : Circuit) : Option Circuit := do
  let c ← assignInputs c c.liveGates
  let c ← evaluateAll c.size c c.liveGates
  match c.allConsistent with
  | some true => some c
  | _ => none

/-- `c'` keeps the shape of `c` and every value `c` determined. -/
structure Grows (c c' : Circuit) : Prop where
  size_eq : c'.size = c.size
  type_eq : ∀ g, (c'.gate g).type = (c.gate g).type
  children_eq : ∀ g, (c'.gate g).children = (c.gate g).children
  tmin_eq : ∀ g, (c'.gate g).tmin = (c.gate g).tmin
  tmax_eq : ∀ g, (c'.gate g).tmax = (c.gate g).tmax
  keep : ∀ g, (c.gate g).determined → (c'.gate g).determined ∧ (c'.gate g).value = (c.gate g).value

theorem Grows.refl (c : Circuit) : Grows c c :=
  ⟨rfl, fun _ => rfl, fun _ => rfl, fun _ => rfl, fun _ => rfl, fun _ h => ⟨h, rfl⟩⟩

theorem Grows.trans {c c' c'' : Circuit} (h₁ : Grows c c') (h₂ : Grows c' c'') : Grows c c'' where
  size_eq := h₂.size_eq.trans h₁.size_eq
  type_eq g := (h₂.type_eq g).trans (h₁.type_eq g)
  children_eq g := (h₂.children_eq g).trans (h₁.children_eq g)
  tmin_eq g := (h₂.tmin_eq g).trans (h₁.tmin_eq g)
  tmax_eq g := (h₂.tmax_eq g).trans (h₁.tmax_eq g)
  keep g h := by
    obtain ⟨d₁, v₁⟩ := h₁.keep g h
    obtain ⟨d₂, v₂⟩ := h₂.keep g d₁
    exact ⟨d₂, v₂.trans v₁⟩

theorem gate_setValue (c : Circuit) (g h : Nat) (v : Bool) :
    (c.setValue g v).gate h =
      if g = h ∧ h < c.size then { c.gate h with determined := true, value := v } else c.gate h :=
  Circuit.gate_modify c g h _

theorem grows_setValue {c : Circuit} {g : Nat} (v : Bool) (hg : (c.gate g).determined = false) :
    Grows c (c.setValue g v) where
  size_eq := Circuit.size_setValue c g v
  type_eq h := by rw [gate_setValue]; split <;> rfl
  children_eq h := by rw [gate_setValue]; split <;> rfl
  tmin_eq h := by rw [gate_setValue]; split <;> rfl
  tmax_eq h := by rw [gate_setValue]; split <;> rfl
  keep h hd := by
    rw [gate_setValue]
    split
    · rename_i hh; obtain ⟨rfl, -⟩ := hh; simp [hg] at hd
    · exact ⟨hd, rfl⟩

/-- Every gate `c` determined beyond `c₀` has determined children and the value of its
function on theirs. -/
structure Evaluated (c₀ c : Circuit) extends Grows c₀ c : Prop where
  fresh : ∀ g < c₀.size, (c.gate g).determined → (c₀.gate g).determined = false →
    (∀ ch ∈ (c₀.gate g).children, (c.gate ch).determined) ∧
    (c.gate g).value = (c₀.gate g).type.eval (c₀.gate g).tmin (c₀.gate g).tmax
      ((c₀.gate g).children.map fun ch => (c.gate ch).value)

theorem Evaluated.refl (c : Circuit) : Evaluated c c :=
  ⟨Grows.refl c, fun _ _ hd hn => by simp [hd] at hn⟩

theorem Evaluated.grow {c₀ c c' : Circuit} (he : Evaluated c₀ c) (hg : Grows c c')
    (hnew : ∀ g < c₀.size, (c'.gate g).determined → (c.gate g).determined = false →
      (c₀.gate g).determined = false →
      (∀ ch ∈ (c₀.gate g).children, (c'.gate ch).determined) ∧
      (c'.gate g).value = (c₀.gate g).type.eval (c₀.gate g).tmin (c₀.gate g).tmax
        ((c₀.gate g).children.map fun ch => (c'.gate ch).value)) :
    Evaluated c₀ c' where
  toGrows := he.toGrows.trans hg
  fresh g hg₀ hd h₀ := by
    cases hc : (c.gate g).determined
    · exact hnew g hg₀ hd hc h₀
    · obtain ⟨hch, hv⟩ := he.fresh g hg₀ hc h₀
      refine ⟨fun ch hm => (hg.keep ch (hch ch hm)).1, ?_⟩
      rw [(hg.keep g hc).2, hv]
      congr 1
      exact List.map_congr_left fun ch hm => (hg.keep ch (hch ch hm)).2.symm

theorem childInfo_of_determined {c : Circuit} : ∀ {chs : List Nat},
    (∀ ch ∈ chs, (c.gate ch).determined) →
    c.childInfo chs = ⟨(chs.map fun ch => (c.gate ch).value).count true,
      (chs.map fun ch => (c.gate ch).value).count false, 0⟩
  | [], _ => rfl
  | ch :: chs, h => by
    have ih := childInfo_of_determined fun x hx => h x (List.mem_cons_of_mem ch hx)
    have hd := h ch (List.mem_cons_self ch chs)
    simp only [Circuit.childInfo, ih, hd, List.map_cons, List.count_cons, if_true]
    cases (c.gate ch).value <;> simp

theorem detIs_of_determined {c : Circuit} {ch : Nat} (hd : (c.gate ch).determined) (v : Bool) :
    c.detIs ch v = ((c.gate ch).value == v) := by
  simp [Circuit.detIs, hd]

theorem checkConsistency_of_eval {c : Circuit} {g : Nat} (hok : c.cnfGateOk false g = true)
    (hd : (c.gate g).determined) (hch : ∀ ch ∈ (c.gate g).children, (c.gate ch).determined)
    (hv : (c.gate g).type ≠ .var → (c.gate g).value = (c.gate g).type.eval (c.gate g).tmin
      (c.gate g).tmax ((c.gate g).children.map fun ch => (c.gate ch).value)) :
    c.checkConsistency g = some true := by
  have hs := count_true_add_count_false ((c.gate g).children.map fun ch => (c.gate ch).value)
  rw [List.length_map] at hs
  simp only [Circuit.checkConsistency, hd, Bool.not_true, Bool.false_eq_true, if_false,
    childInfo_of_determined hch]
  simp only [Circuit.cnfGateOk] at hok
  cases hty : (c.gate g).type <;> simp only [hty, Bool.false_eq_true] at hok hv <;> dsimp only
  case ite =>
    generalize (c.gate g).children = chs at hch hok hv ⊢
    match chs, hok with
    | [ci, ct, ce], _ =>
      simp only [List.mem_cons, List.not_mem_nil, or_false, forall_eq_or_imp, forall_eq] at hch
      dsimp only
      simp only [detIs_of_determined hch.1, detIs_of_determined hch.2.1,
        detIs_of_determined hch.2.2]
      have := hv (by simp)
      simp only [GateType.eval, List.map_cons, List.map_nil] at this
      rw [this]
      cases (c.gate ci).value <;> cases (c.gate ct).value <;> cases (c.gate ce).value <;> rfl
  case not =>
    generalize (c.gate g).children = chs at hch hok hv hs ⊢
    match chs, hok with
    | [ch], _ =>
      have := hv (by simp)
      cases hval : (c.gate ch).value <;> simp_all [GateType.eval]
  all_goals
    have := (hv (by simp)).symm
    simp only [GateType.eval] at this
    generalize (c.gate g).children.length = n at hs hok
    generalize List.count true _ = ct at hs this ⊢
    generalize List.count false _ = cf at hs this ⊢
    generalize (c.gate g).value = v at this ⊢
    cases v <;> simp at hok this ⊢ <;> omega

section Ranked

variable {c₀ : Circuit} (r : Ranking c₀)
  (hvar : ∀ g < c₀.size, (c₀.gate g).type = .var → (c₀.gate g).determined = true)
  (hlive : ∀ g < c₀.size, (c₀.gate g).type ≠ .deleted →
    (c₀.gate g).type.Live ∧ ∀ ch ∈ (c₀.gate g).children, (c₀.gate ch).type ≠ .deleted)
include r hvar hlive

/-- What one call of `evaluate` on gate `g` achieves: `g` is determined, and only gates of
rank at most `g`'s change. -/
def EvaluateOk (fuel g : Nat) (c : Circuit) : Prop :=
  ∃ c', evaluate fuel c g = (c', true) ∧ Grows c c' ∧ Evaluated c₀ c' ∧ (c'.gate g).determined ∧
    ∀ h < c₀.size, r.rank g < r.rank h → c'.gate h = c.gate h

omit hvar hlive in
theorem evaluateChildren_ok (fuel : Nat)
    (ih : ∀ ch < c₀.size, r.rank ch < fuel → (c₀.gate ch).type ≠ .deleted → ∀ c, Evaluated c₀ c →
      EvaluateOk r fuel ch c) :
    ∀ (chs : List Nat) (B : Nat) {c : Circuit},
      (∀ ch ∈ chs, ch < c₀.size ∧ r.rank ch < fuel ∧ r.rank ch < B ∧ (c₀.gate ch).type ≠ .deleted) →
      Evaluated c₀ c →
      ∃ c', evaluateChildren (evaluate fuel) c chs = (c', true) ∧ Grows c c' ∧
        Evaluated c₀ c' ∧ (∀ ch ∈ chs, (c'.gate ch).determined) ∧
        ∀ h < c₀.size, B ≤ r.rank h → c'.gate h = c.gate h
  | [], _, c, _, he => ⟨c, rfl, Grows.refl c, he, by simp, fun _ _ _ => rfl⟩
  | ch :: chs, B, c, hchs, he => by
    obtain ⟨hs, hf, hb, hl⟩ := hchs ch (List.mem_cons_self ch chs)
    obtain ⟨c₁, h₁, g₁, e₁, d₁, f₁⟩ := ih ch hs hf hl c he
    obtain ⟨c₂, h₂, g₂, e₂, d₂, f₂⟩ :=
      evaluateChildren_ok fuel ih chs B (fun x hx => hchs x (List.mem_cons_of_mem ch hx)) e₁
    refine ⟨c₂, by simp [evaluateChildren, h₁, h₂], g₁.trans g₂, e₂, ?_, ?_⟩
    · simp only [List.mem_cons, forall_eq_or_imp]
      exact ⟨(g₂.keep ch d₁).1, d₂⟩
    · intro h hh hB
      rw [f₂ h hh hB, f₁ h hh (by omega)]

theorem evaluate_ok : ∀ (fuel : Nat) {g : Nat} {c : Circuit}, g < c₀.size → r.rank g < fuel →
    (c₀.gate g).type ≠ .deleted → Evaluated c₀ c → EvaluateOk r fuel g c
  | 0, _, _, _, hf, _, _ => absurd hf (Nat.not_lt_zero _)
  | fuel + 1, g, c, hg, hf, hl, he => by
    by_cases hd : (c.gate g).determined
    · exact ⟨c, by simp [evaluate, hd], Grows.refl c, he, hd, fun _ _ _ => rfl⟩
    have hchs : ∀ ch ∈ (c.gate g).children, ch < c₀.size ∧ r.rank ch < fuel ∧
        r.rank ch < r.rank g ∧ (c₀.gate ch).type ≠ .deleted := by
      intro ch hm
      rw [he.children_eq] at hm
      obtain ⟨hs, hr⟩ := r.child_lt g hg ch hm
      exact ⟨hs, by omega, hr, (hlive g hg hl).2 ch hm⟩
    obtain ⟨c', hc', g', e', d', f'⟩ := evaluateChildren_ok r fuel
      (fun ch hs hr hl c he => evaluate_ok fuel hs hr hl he) _ _ hchs he
    have hsame : c'.gate g = c.gate g := f' g hg (Nat.le_refl _)
    have hty : (c'.gate g).type = (c₀.gate g).type := (e'.type_eq g).trans rfl
    have hnv : (c₀.gate g).type ≠ .var := fun hv =>
      hd ((he.keep g (hvar g hg hv)).1)
    have hsize : g < c'.size := by rw [e'.size_eq]; exact hg
    have hgd : (c'.gate g).determined = false := by simpa [hsame] using hd
    set v := (c'.gate g).type.eval (c'.gate g).tmin (c'.gate g).tmax
      ((c'.gate g).children.map fun ch => (c'.gate ch).value) with hv
    have hstep : evaluate (fuel + 1) c g = (c'.setValue g v, true) := by
      simp only [evaluate, hd, Bool.false_eq_true, if_false, hc']
      rw [if_neg]
      simp only [not_or, not_le]
      exact ⟨hty ▸ hnv, not_not.mpr (hty ▸ (hlive g hg hl).1), hsize⟩
    have hgrow := grows_setValue v hgd
    refine ⟨_, hstep, g'.trans hgrow, e'.grow hgrow ?_, ?_, ?_⟩
    · intro h _ hdh hh _
      have hgh : g = h := by
        by_contra hne
        rw [gate_setValue, if_neg (fun hc => hne hc.1)] at hdh
        simp [hdh] at hh
      subst hgh
      have hne : ∀ ch ∈ (c₀.gate g).children, ch ≠ g := fun ch hm heq => by
        have := (r.child_lt g hg ch hm).2
        rw [heq] at this
        exact Nat.lt_irrefl _ this
      have hchd : ∀ ch ∈ (c₀.gate g).children, (c'.gate ch).determined := fun ch hm =>
        d' ch (by rw [he.children_eq]; exact hm)
      refine ⟨fun ch hm => ?_, ?_⟩
      · rw [gate_setValue, if_neg (fun hc => hne ch hm hc.1.symm)]
        exact hchd ch hm
      · rw [gate_setValue, if_pos ⟨rfl, hsize⟩]
        simp only [hv, e'.type_eq, e'.tmin_eq, e'.tmax_eq, e'.children_eq]
        congr 1
        refine List.map_congr_left fun ch hm => ?_
        rw [gate_setValue, if_neg (fun hc => hne ch hm hc.1.symm)]
    · simp [gate_setValue, hsize]
    · intro h hh hlt
      have hne : g ≠ h := fun heq => by rw [heq] at hlt; exact Nat.lt_irrefl _ hlt
      rw [gate_setValue, if_neg (fun hc => hne hc.1), f' h hh (Nat.le_of_lt hlt)]

theorem evaluateAll_ok : ∀ (gs : List Nat) {c : Circuit},
    (∀ g ∈ gs, g < c₀.size ∧ (c₀.gate g).type ≠ .deleted) →
    Evaluated c₀ c → ∃ c', evaluateAll c₀.size c gs = some c' ∧ Grows c c' ∧ Evaluated c₀ c' ∧
      ∀ g ∈ gs, (c'.gate g).determined
  | [], c, _, he => ⟨c, rfl, Grows.refl c, he, by simp⟩
  | g :: gs, c, hgs, he => by
    obtain ⟨hg, hl⟩ := hgs g (List.mem_cons_self g gs)
    have hrest := fun x hx => hgs x (List.mem_cons_of_mem g hx)
    by_cases hd : (c.gate g).determined
    · obtain ⟨c', h', g', e', d'⟩ := evaluateAll_ok gs hrest he
      refine ⟨c', by simp [evaluateAll, hd, h'], g', e', ?_⟩
      simp only [List.mem_cons, forall_eq_or_imp]
      exact ⟨(g'.keep g hd).1, d'⟩
    · obtain ⟨c₁, h₁, g₁, e₁, d₁, -⟩ := evaluate_ok r hvar hlive c₀.size hg (r.rank_lt g hg) hl he
      obtain ⟨c', h', g', e', d'⟩ := evaluateAll_ok gs hrest e₁
      refine ⟨c', by simp [evaluateAll, hd, h₁, h'], g₁.trans g', e', ?_⟩
      simp only [List.mem_cons, forall_eq_or_imp]
      exact ⟨(g'.keep g d₁).1, d'⟩

end Ranked

/-- A ranking survives any growth: the children stay the same. -/
def Ranking.ofGrows {c c' : Circuit} (r : Ranking c) (h : Grows c c') : Ranking c' where
  rank := r.rank
  rank_lt g hg := by rw [h.size_eq] at hg ⊢; exact r.rank_lt g hg
  child_lt g hg ch hch := by
    rw [h.size_eq] at hg ⊢
    rw [h.children_eq] at hch
    exact r.child_lt g hg ch hch

theorem cnfGateOk_of_grows {c c' : Circuit} (h : Grows c c') (g : Nat) :
    c'.cnfGateOk false g = c.cnfGateOk false g := by
  simp [Circuit.cnfGateOk, h.type_eq, h.children_eq]

theorem grows_resetTempFields (c : Circuit) (t : Int) : Grows c (c.resetTempFields t) where
  size_eq := Circuit.size_resetTempFields c t
  type_eq g := by
    by_cases hg : g < c.size
    · rw [Circuit.gate_resetTempFields c t hg]
    · rw [Circuit.gate_of_size_le _ (by simpa using Nat.le_of_not_lt hg),
        Circuit.gate_of_size_le _ (Nat.le_of_not_lt hg)]
  children_eq g := by
    by_cases hg : g < c.size
    · rw [Circuit.gate_resetTempFields c t hg]
    · rw [Circuit.gate_of_size_le _ (by simpa using Nat.le_of_not_lt hg),
        Circuit.gate_of_size_le _ (Nat.le_of_not_lt hg)]
  tmin_eq g := by
    by_cases hg : g < c.size
    · rw [Circuit.gate_resetTempFields c t hg]
    · rw [Circuit.gate_of_size_le _ (by simpa using Nat.le_of_not_lt hg),
        Circuit.gate_of_size_le _ (Nat.le_of_not_lt hg)]
  tmax_eq g := by
    by_cases hg : g < c.size
    · rw [Circuit.gate_resetTempFields c t hg]
    · rw [Circuit.gate_of_size_le _ (by simpa using Nat.le_of_not_lt hg),
        Circuit.gate_of_size_le _ (Nat.le_of_not_lt hg)]
  keep g hd := by
    by_cases hg : g < c.size
    · rw [Circuit.gate_resetTempFields c t hg]; exact ⟨hd, rfl⟩
    · rw [Circuit.gate_of_size_le _ (Nat.le_of_not_lt hg)] at hd
      simp [Gate.none] at hd

theorem assignInputs_ok : ∀ (gs : List Nat) {c : Circuit}, (∀ g ∈ gs, (c.gate g).temp = -1) →
    ∃ c', assignInputs c gs = some c' ∧ Grows c c' ∧
      (∀ g ∈ gs, (c'.gate g).type = .var → (c'.gate g).determined) ∧
      (∀ g, (c'.gate g).determined → (c.gate g).determined = false → (c.gate g).type = .var)
  | [], c, _ => ⟨c, rfl, Grows.refl c, by simp, fun _ h h' => by simp [h] at h'⟩
  | g :: gs, c, ht => by
    by_cases hin : (c.gate g).type = .var ∧ (c.gate g).determined = false
    · have hgrow := grows_setValue false hin.2
      have ht' : ∀ x ∈ gs, ((c.setValue g false).gate x).temp = -1 := fun x hx => by
        rw [gate_setValue]; split <;> exact ht x (List.mem_cons_of_mem g hx)
      obtain ⟨c', h', g', v', n'⟩ := assignInputs_ok gs ht'
      refine ⟨c', ?_, hgrow.trans g', ?_, ?_⟩
      · simp [assignInputs, hin, ht g (List.mem_cons_self g gs), h']
      · simp only [List.mem_cons, forall_eq_or_imp]
        refine ⟨fun _ => (g'.keep g ?_).1, v'⟩
        by_cases hs : g < c.size
        · simp [gate_setValue, hs]
        · have := Circuit.gate_of_size_le c (Nat.le_of_not_lt hs)
          simp [this, Gate.none] at hin
      · intro x hx hn
        by_cases hxg : g = x
        · subst hxg; exact hin.1
        · have := n' x hx
          rw [gate_setValue, if_neg (fun h => hxg h.1)] at this
          exact this hn
    · obtain ⟨c', h', g', v', n'⟩ := assignInputs_ok gs (fun x hx => ht x (List.mem_cons_of_mem g hx))
      refine ⟨c', by simp [assignInputs, hin, h'], g', ?_, n'⟩
      simp only [List.mem_cons, forall_eq_or_imp]
      refine ⟨fun hv => ?_, v'⟩
      rw [g'.type_eq] at hv
      have hd : (c.gate g).determined := by simpa [hv] using hin
      exact (g'.keep g hd).1

theorem allConsistent_eq {c : Circuit} (h : ∀ g ∈ c.liveGates, c.checkConsistency g = some true) :
    c.allConsistent = some true := by
  have key : ∀ l : List Nat, (∀ g ∈ l, g ∈ c.liveGates) →
      l.foldr (fun g acc => match c.checkConsistency g, acc with
        | some b, some a => some (b && a)
        | _, _ => none) (some true) = some true := by
    intro l hl
    induction l with
    | nil => rfl
    | cons g l ih =>
      simp only [List.foldr_cons, ih (fun x hx => hl x (List.mem_cons_of_mem g hx)),
        h g (hl g (List.mem_cons_self g l)), Bool.and_self]
  exact key _ fun _ => id

/-- The `sat_exit` path on a circuit of the emitter's shape whose determined constants carry
their own values and none of whose determined live gates is a cone root: no internal error,
every live gate ends determined and passes `Gate::check_consistency`, determined values are
kept, and the printed values are a consistent evaluation. -/
theorem satExit_model (c : Circuit) (hacyc : c.Acyclic) (hshape : c.CnfShaped false)
    (hconst : c.ConstantsAgree)
    (hroots : ∀ g < c.size, (c.gate g).type ≠ .deleted → (c.gate g).determined →
      c.isJustified g = some true) :
    ∃ c', satExit (c.resetTempFields (-1)) = some c' ∧
      (∀ g < c.size, (c.gate g).type ≠ .deleted →
        (c'.gate g).determined ∧ c'.checkConsistency g = some true) ∧
      (∀ g < c.size, (c.gate g).determined → (c'.gate g).value = (c.gate g).value) ∧
      c.Consistent fun g => (c'.gate g).value := by
  obtain ⟨r⟩ := hacyc
  have g₁ := grows_resetTempFields c (-1)
  obtain ⟨c₀, h₀, g₀, v₀, n₀⟩ := assignInputs_ok (c.resetTempFields (-1)).liveGates
    fun g hg => by
      rw [Circuit.gate_resetTempFields c _ (by simpa using (Circuit.mem_liveGates.mp hg).1)]
  have gc₀ := g₁.trans g₀
  have hs₀ : c₀.size = c.size := gc₀.size_eq
  have hlive₀ : ∀ {g}, (c₀.gate g).type ≠ .deleted ↔ (c.gate g).type ≠ .deleted := by
    intro g; rw [gc₀.type_eq]
  have hvar : ∀ g < c₀.size, (c₀.gate g).type = .var → (c₀.gate g).determined = true :=
    fun g hg hv => v₀ g (Circuit.mem_liveGates.mpr ⟨by rw [← g₀.size_eq]; exact hg,
      by rw [← g₀.type_eq, hv]; simp⟩) hv
  have hlive : ∀ g < c₀.size, (c₀.gate g).type ≠ .deleted → (c₀.gate g).type.Live ∧
      ∀ ch ∈ (c₀.gate g).children, (c₀.gate ch).type ≠ .deleted := fun g hg hl => by
    rw [hlive₀] at hl
    rw [gc₀.type_eq, gc₀.children_eq]
    exact ⟨cnfGateOk_live (hshape.gateOk (hs₀ ▸ hg) hl),
      fun ch hch => hlive₀.mpr (hshape.child_live (hs₀ ▸ hg) hl hch)⟩
  obtain ⟨c', h', -, e', d'⟩ := evaluateAll_ok (r.ofGrows gc₀) hvar hlive c₀.liveGates
    (fun g hg => Circuit.mem_liveGates.mp hg) (Evaluated.refl c₀)
  have gc := gc₀.trans e'.toGrows
  have hdet : ∀ g < c.size, (c.gate g).type ≠ .deleted → (c'.gate g).determined := fun g hg hl =>
    d' g (Circuit.mem_liveGates.mpr ⟨hs₀ ▸ hg, hlive₀.mpr hl⟩)
  -- every live non-input gate ends with the value of its function on its children
  have hfun : ∀ g < c.size, (c.gate g).type ≠ .deleted → (c.gate g).type ≠ .var →
      (c'.gate g).value = (c.gate g).type.eval (c.gate g).tmin (c.gate g).tmax
        ((c.gate g).children.map fun ch => (c'.gate ch).value) := by
    intro g hg hl hv
    cases hd₀ : (c₀.gate g).determined
    · obtain ⟨-, hval⟩ := e'.fresh g (hs₀ ▸ hg) (hdet g hg hl) hd₀
      rw [hval, gc₀.type_eq, gc₀.tmin_eq, gc₀.tmax_eq, gc₀.children_eq]
    · have hd₁ : ((c.resetTempFields (-1)).gate g).determined = (c.gate g).determined := by
        rw [Circuit.gate_resetTempFields c _ hg]
      have hd : (c.gate g).determined := by
        by_contra hn
        exact hv (by simpa [g₁.type_eq] using n₀ g hd₀ (by simpa [hd₁] using hn))
      rw [(gc.keep g hd).2]
      exact (isJustified_sound (hroots g hg hl hd) (fun ch _ hch => (gc.keep ch hch).2) hv
        (cnfGateOk_not_length (hshape.gateOk hg hl)) (hconst g hg hd).1 (hconst g hg hd).2).symm
  have hcons : ∀ g < c.size, (c.gate g).type ≠ .deleted → c'.checkConsistency g = some true :=
    fun g hg hl => checkConsistency_of_eval (by rw [cnfGateOk_of_grows gc]; exact hshape.gateOk hg hl)
      (hdet g hg hl)
      (fun ch hm => hdet ch (r.child_lt g hg ch (gc.children_eq g ▸ hm)).1
        (hshape.child_live hg hl (gc.children_eq g ▸ hm)))
      (by simpa only [gc.type_eq, gc.tmin_eq, gc.tmax_eq, gc.children_eq] using hfun g hg hl)
  have hall : c'.allConsistent = some true := allConsistent_eq fun g hg => by
    obtain ⟨hg, hl⟩ := Circuit.mem_liveGates.mp hg
    exact hcons g (gc.size_eq ▸ hg) (by rwa [← gc.type_eq])
  refine ⟨c', by simp only [satExit, h₀, Option.bind_eq_bind, Option.some_bind, h', hall],
    fun g hg hl => ⟨hdet g hg hl, hcons g hg hl⟩, fun g _ hd => (gc.keep g hd).2,
    fun g hg hl => ⟨hfun g hg hl.1, fun hd => (gc.keep g hd).2⟩⟩

theorem satExit_model_single_input :
    let c : Circuit := ⟨[{ type := .var, children := [] }, { type := .or, children := [0, 2] },
      { type := .true, children := [], determined := true, value := true },
      { type := .deleted, children := [], determined := true }]⟩
    ∃ c', satExit (c.resetTempFields (-1)) = some c' ∧
      (∀ g < c.size, (c.gate g).type ≠ .deleted →
        (c'.gate g).determined ∧ c'.checkConsistency g = some true) ∧
      (∀ g < c.size, (c.gate g).determined → (c'.gate g).value = (c.gate g).value) ∧
      c.Consistent fun g => (c'.gate g).value :=
  satExit_model _ ⟨.ofCheck (fun g => if g = 1 then 1 else 0) (by decide)⟩ (by decide) (by decide)
    (by decide)

end BcSat
