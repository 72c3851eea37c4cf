import BcSat.Circuit

set_option autoImplicit false

/-!
# Justified gates

`Gate::count_child_info` and `Gate::is_justified`. A determined gate is justified when the
determined values of its children already force its value; the cone of influence starts
only from determined gates that are not. The soundness lemma says the forcing is real:
every completion of the undetermined children gives the gate its determined value.
-/

namespace BcSat

structure ChildInfo where
  nofTrue : Nat
  nofFalse : Nat
  nofUndet : Nat
  deriving DecidableEq, Repr

/-- `Gate::count_child_info` over a list of child edges. -/
def Circuit.childInfo (c : Circuit) : List Nat → ChildInfo
  | [] => ⟨0, 0, 0⟩
  | ch :: chs =>
    let i := c.childInfo chs
    if (c.gate ch).determined then
      if (c.gate ch).value then { i with nofTrue := i.nofTrue + 1 }
      else { i with nofFalse := i.nofFalse + 1 }
    else { i with nofUndet := i.nofUndet + 1 }

/-- The child is determined to `v`. -/
def Circuit.detIs (c : Circuit) (ch : Nat) (v : Bool) : Bool :=
  (c.gate ch).determined && (c.gate ch).value == v

/-- `Gate::is_justified`; `none` is the `internal_error` of its default case (and the null
child read of an `ITE` with fewer than three children). -/
def Circuit.isJustified (c : Circuit) (g : Nat) : Option Bool :=
  let gt := c.gate g
  if !gt.determined then some false else
  let i := c.childInfo gt.children
  let n := i.nofTrue + i.nofFalse + i.nofUndet
  match gt.type with
  | .false | .true | .var => some true
  | .not => some ((gt.value && 0 < i.nofFalse) || (!gt.value && 0 < i.nofTrue))
  | .equiv => some (if gt.value then n == 1 || i.nofTrue == n || i.nofFalse == n
      else 0 < i.nofTrue && 0 < i.nofFalse)
  | .or => some (if gt.value then 0 < i.nofTrue else i.nofFalse == n)
  | .and => some (if gt.value then i.nofTrue == n else 0 < i.nofFalse)
  | .odd => some (i.nofTrue + i.nofFalse == n &&
      if gt.value then i.nofTrue % 2 == 1 else i.nofTrue % 2 == 0)
  | .even => some (i.nofTrue + i.nofFalse == n &&
      if gt.value then i.nofTrue % 2 == 0 else i.nofTrue % 2 == 1)
  | .ite => match gt.children with
    | ci :: ct :: ce :: _ => some (let v := gt.value
        (c.detIs ci true && c.detIs ct v) || (c.detIs ci false && c.detIs ce v) ||
        (c.detIs ct v && c.detIs ce v))
    | _ => none
  | .threshold => some (if gt.value then gt.tmin ≤ i.nofTrue && n - i.nofFalse ≤ gt.tmax
      else gt.tmax < i.nofTrue || n - i.nofFalse < gt.tmin)
  | .atleast => some (if gt.value then gt.tmin ≤ i.nofTrue else n - i.nofFalse < gt.tmin)
  | .ref | .undef | .deleted => none

theorem isJustified_isSome {c : Circuit} {notless : Bool} {g : Nat}
    (hok : c.cnfGateOk notless g = true) : (c.isJustified g).isSome := by
  simp only [Circuit.cnfGateOk] at hok
  unfold Circuit.isJustified
  by_cases hd : (c.gate g).determined
  · simp only [hd, Bool.not_true, Bool.false_eq_true, if_false]
    cases hty : (c.gate g).type <;> simp only [hty] at hok ⊢ <;>
      first | rfl | exact absurd hok Bool.false_ne_true | skip
    obtain ⟨_, _, _, hch⟩ := List.length_eq_three.mp (by simpa using hok)
    simp [hch]
  · simp [hd]

/-- `c'` has the gates of `c` as far as their logic goes: type, children, determined value and
bounds. The scratch fields (`temp`, the polarity flags) may differ. -/
structure SameLogic (c c' : Circuit) : Prop where
  size_eq : c'.size = c.size
  type_eq : ∀ g, (c'.gate g).type = (c.gate g).type
  children_eq : ∀ g, (c'.gate g).children = (c.gate g).children
  determined_eq : ∀ g, (c'.gate g).determined = (c.gate g).determined
  value_eq : ∀ g, (c'.gate g).value = (c.gate g).value
  tmin_eq : ∀ g, (c'.gate g).tmin = (c.gate g).tmin
  tmax_eq : ∀ g, (c'.gate g).tmax = (c.gate g).tmax

namespace SameLogic

variable {c c' c'' : Circuit}

theorem refl (c : Circuit) : SameLogic c c :=
  ⟨rfl, fun _ => rfl, fun _ => rfl, fun _ => rfl, fun _ => rfl, fun _ => rfl, fun _ => rfl⟩

theorem trans (h₁ : SameLogic c c') (h₂ : SameLogic c' c'') : SameLogic c c'' :=
  ⟨h₂.size_eq.trans h₁.size_eq, fun g => (h₂.type_eq g).trans (h₁.type_eq g),
    fun g => (h₂.children_eq g).trans (h₁.children_eq g),
    fun g => (h₂.determined_eq g).trans (h₁.determined_eq g),
    fun g => (h₂.value_eq g).trans (h₁.value_eq g), fun g => (h₂.tmin_eq g).trans (h₁.tmin_eq g),
    fun g => (h₂.tmax_eq g).trans (h₁.tmax_eq g)⟩

theorem childInfo_eq (h : SameLogic c c') (chs : List Nat) : c'.childInfo chs = c.childInfo chs := by
  induction chs with
  | nil => rfl
  | cons ch chs ih => simp only [Circuit.childInfo, ih, h.determined_eq, h.value_eq]

theorem detIs_eq (h : SameLogic c c') (ch : Nat) (v : Bool) : c'.detIs ch v = c.detIs ch v := by
  simp only [Circuit.detIs, h.determined_eq, h.value_eq]

theorem isJustified_eq (h : SameLogic c c') (g : Nat) : c'.isJustified g = c.isJustified g := by
  simp only [Circuit.isJustified, h.childInfo_eq, h.detIs_eq, h.determined_eq, h.children_eq,
    h.type_eq, h.value_eq, h.tmin_eq, h.tmax_eq]

theorem cnfGateOk_eq (h : SameLogic c c') (notless : Bool) (g : Nat) :
    c'.cnfGateOk notless g = c.cnfGateOk notless g := by
  simp only [Circuit.cnfGateOk, h.determined_eq, h.children_eq, h.type_eq]

theorem cnfShaped_iff (h : SameLogic c c') (notless : Bool) :
    c'.CnfShaped notless ↔ c.CnfShaped notless := by
  simp only [Circuit.CnfShaped, h.cnfGateOk_eq, h.size_eq, h.type_eq, h.children_eq]

theorem liveGates_eq (h : SameLogic c c') : c'.liveGates = c.liveGates := by
  simp only [Circuit.liveGates, h.size_eq, h.type_eq]

/-- A ranking survives a change of the scratch fields. -/
def ranking (h : SameLogic c c') (r : Ranking c) : Ranking c' where
  rank := r.rank
  rank_lt g hg := by rw [h.size_eq] at hg ⊢; exact r.rank_lt g hg
  child_lt g hg ch hch := by
    rw [h.size_eq] at hg ⊢
    rw [h.children_eq] at hch
    exact r.child_lt g hg ch hch

end SameLogic

/-- `τ` completes the children `chs`: it agrees with every determined one. -/
def Circuit.Agrees (c : Circuit) (τ : Nat → Bool) (chs : List Nat) : Prop :=
  ∀ ch ∈ chs, (c.gate ch).determined → τ ch = (c.gate ch).value

section Counting

variable {c : Circuit} {τ : Nat → Bool}

theorem childInfo_sum (chs : List Nat) :
    (c.childInfo chs).nofTrue + (c.childInfo chs).nofFalse + (c.childInfo chs).nofUndet =
      chs.length := by
  induction chs with
  | nil => rfl
  | cons ch chs ih =>
    simp only [Circuit.childInfo, List.length_cons]
    split_ifs <;> simp only <;> omega

theorem nofTrue_le_count : ∀ {chs : List Nat}, c.Agrees τ chs →
    (c.childInfo chs).nofTrue ≤ (chs.map τ).count true
  | [], _ => Nat.le_refl _
  | ch :: chs, h => by
    have ih := nofTrue_le_count (fun x hx => h x (List.mem_cons_of_mem ch hx))
    have hch := h ch (List.mem_cons_self ch chs)
    simp only [Circuit.childInfo, List.map_cons, List.count_cons]
    split_ifs with hd hv <;> simp_all
    all_goals omega

theorem nofFalse_le_count : ∀ {chs : List Nat}, c.Agrees τ chs →
    (c.childInfo chs).nofFalse ≤ (chs.map τ).count false
  | [], _ => Nat.le_refl _
  | ch :: chs, h => by
    have ih := nofFalse_le_count (fun x hx => h x (List.mem_cons_of_mem ch hx))
    have hch := h ch (List.mem_cons_self ch chs)
    simp only [Circuit.childInfo, List.map_cons, List.count_cons]
    split_ifs with hd hv <;> simp_all
    all_goals omega

theorem count_true_bounds {chs : List Nat} (h : c.Agrees τ chs) :
    (c.childInfo chs).nofTrue ≤ (chs.map τ).count true ∧
    (chs.map τ).count true + (c.childInfo chs).nofFalse ≤ chs.length ∧
    (chs.map τ).count true + (chs.map τ).count false = chs.length := by
  have h1 := nofTrue_le_count h
  have h2 := nofFalse_le_count h
  have h3 := count_true_add_count_false (chs.map τ)
  rw [List.length_map] at h3
  exact ⟨h1, by omega, h3⟩

theorem detIs_eq {ch : Nat} {v : Bool} (hch : c.detIs ch v = true)
    (h : (c.gate ch).determined → τ ch = (c.gate ch).value) : τ ch = v := by
  simp only [Circuit.detIs, Bool.and_eq_true, beq_iff_eq] at hch
  exact (h hch.1).trans hch.2

end Counting

theorem ite_justified_sound {c : Circuit} {τ : Nat → Bool} {ci ct ce : Nat} {rest : List Nat}
    {v : Bool} (hτ : c.Agrees τ (ci :: ct :: ce :: rest))
    (hj : ((c.detIs ci true && c.detIs ct v) || (c.detIs ci false && c.detIs ce v) ||
      (c.detIs ct v && c.detIs ce v)) = true) :
    (if τ ci then τ ct else τ ce) = v := by
  have hi := fun w (h : c.detIs ci w = true) => detIs_eq h (hτ ci (by simp))
  have htt := fun w (h : c.detIs ct w = true) => detIs_eq h (hτ ct (by simp))
  have hee := fun w (h : c.detIs ce w = true) => detIs_eq h (hτ ce (by simp))
  simp only [Bool.or_eq_true, Bool.and_eq_true] at hj
  rcases hj with (⟨h1, h2⟩ | ⟨h1, h2⟩) | ⟨h1, h2⟩
  · simp [hi _ h1, htt _ h2]
  · simp [hi _ h1, hee _ h2]
  · rw [htt _ h1, hee _ h2]; split <;> rfl

/-- A justified gate's value follows from its determined children: every completion of the
undetermined ones gives it its determined value. `NOT` is unary and a constant is
determined to its own value, as the rewriting leaves them. -/
theorem isJustified_sound {c : Circuit} {g : Nat} {τ : Nat → Bool}
    (hj : c.isJustified g = some true) (hτ : c.Agrees τ (c.gate g).children)
    (hv : (c.gate g).type ≠ .var)
    (hnot : (c.gate g).type = .not → (c.gate g).children.length = 1)
    (htrue : (c.gate g).type = .true → (c.gate g).value = true)
    (hfalse : (c.gate g).type = .false → (c.gate g).value = false) :
    (c.gate g).type.eval (c.gate g).tmin (c.gate g).tmax ((c.gate g).children.map τ) =
      (c.gate g).value := by
  obtain ⟨ht, hf, hs⟩ := count_true_bounds hτ
  have hsum := @childInfo_sum c (c.gate g).children
  have hd : (c.gate g).determined = true := by
    by_contra h
    simp [Circuit.isJustified, h] at hj
  simp only [Circuit.isJustified, hd, Bool.not_true, Bool.false_eq_true, if_false] at hj
  revert hj hv hnot htrue hfalse
  cases hty : (c.gate g).type
  case ite =>
    intro _ _ _ _ hj
    simp only [GateType.eval]
    generalize (c.gate g).children = chs at hj hτ ⊢
    match chs, hj, hτ with
    | ci :: ct :: ce :: rest, hj, hτ => exact ite_justified_sound hτ (Option.some.inj hj)
    | [], hj, _ | [_], hj, _ | [_, _], hj, _ => exact absurd hj (by simp)
  case not =>
    intro _ hl _ _ hj
    have hl := hl rfl
    cases hval : (c.gate g).value <;> simp [hval, GateType.eval] at hj ⊢ <;> omega
  case true => exact fun _ _ h _ _ => (h rfl).symm
  case false => exact fun _ _ _ h _ => (h rfl).symm
  case var => exact fun h => absurd rfl h
  case ref | undef | deleted => exact fun _ _ _ _ hj => absurd hj (by simp)
  all_goals cases hval : (c.gate g).value <;>
    simp only [GateType.eval, Option.some.injEq, reduceCtorEq, Bool.or_eq_true,
      Bool.and_eq_true, beq_iff_eq, decide_eq_true_eq, Bool.not_eq_true', decide_eq_false_iff_not,
      Bool.not_eq_eq_eq_not, Bool.not_true, Bool.not_false, ite_true, ite_false,
      Bool.false_eq_true, if_false, if_true, Bool.true_and, Bool.false_and, Bool.or_false,
      true_and, false_and, or_false, false_or, Bool.eq_false_iff, ne_eq, not_and] <;> intros <;> omega

/-- A gate that `is_justified` accepts (it is then determined) has its determined value under
every completion of its undetermined children, for every type with a Boolean function (a `VAR`
has none), a `NOT` having its one child and a constant its own value. -/
theorem isJustified_determined_value {c : Circuit} {g : Nat}
    (hty : (c.gate g).type ∈ [.false, .true, .not, .or, .and, .equiv, .odd, .even, .ite,
      .threshold, .atleast])
    (hnot : (c.gate g).type = .not → (c.gate g).children.length = 1)
    (hconst : ((c.gate g).type = .true → (c.gate g).value = true) ∧
      ((c.gate g).type = .false → (c.gate g).value = false))
    (τ : Nat → Bool) (hτ : c.Agrees τ (c.gate g).children) (hj : c.isJustified g = some true) :
    (c.gate g).type.eval (c.gate g).tmin (c.gate g).tmax ((c.gate g).children.map τ) =
      (c.gate g).value := by
  have hv : (c.gate g).type ≠ .var := fun h => by simp [h] at hty
  exact isJustified_sound hj hτ hv hnot hconst.1 hconst.2

/-- `OR(x, y) = T` with `x = T` is justified, and true whatever `y` is. -/
theorem isJustified_determined_value_or :
    let c : Circuit := ⟨[{ type := .var, children := [], determined := true, value := true },
      { type := .var, children := [] },
      { type := .or, children := [0, 1], determined := true, value := true }]⟩
    c.isJustified 2 = some true ∧ ∀ y : Bool,
      (c.gate 2).type.eval (c.gate 2).tmin (c.gate 2).tmax
        ((c.gate 2).children.map fun g => g = 0 || y) = (c.gate 2).value :=
  ⟨rfl, fun y => isJustified_determined_value (by decide) (by decide) (by decide) _
    (by unfold Circuit.Agrees; cases y <;> decide) rfl⟩

end BcSat
