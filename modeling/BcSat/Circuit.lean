import Mathlib.Data.List.Basic

set_option autoImplicit false

/-!
# Gates, circuits and their meaning

The gate record of `gate.hh` as the translator reads it after rewriting: a type, the
ordered children, the handles, the `determined`/`value` pair, the cardinality bounds, the
scratch field `temp` and the polarity flags `mir_pos`/`mir_neg`. A circuit is the gate
store indexed by `Gate::index`; a child is named by its index.

A consistent evaluation gives every live gate the value `Gate::evaluate` computes from its
children (a `VAR` is free) and every determined gate its determined value.
-/

namespace BcSat

/-- `Gate::Type`, in the order of `Gate::typeNames`. -/
inductive GateType where
  | equiv | or | and | even | odd | ite | not | true | false | var
  | threshold | atleast | ref | undef | deleted
  deriving DecidableEq, Repr

/-- A handle on a gate: a `NameHandle` carrying a name, or a handle of another kind. -/
inductive Handle where
  | name (s : String)
  | other
  deriving DecidableEq, Repr

structure Gate where
  type : GateType
  children : List Nat
  handles : List Handle := []
  determined : Bool := false
  value : Bool := false
  tmin : Nat := 0
  tmax : Nat := 0
  temp : Int := 0
  mirPos : Bool := false
  mirNeg : Bool := false
  deriving DecidableEq, Repr

/-- What an index outside the store reads as. -/
def Gate.none : Gate := { type := .deleted, children := [] }

/-- Gates that rewriting has not removed. -/
def GateType.Live (t : GateType) : Prop := t ≠ .deleted ∧ t ≠ .undef

instance (t : GateType) : Decidable t.Live := inferInstanceAs (Decidable (_ ∧ _))

structure Circuit where
  gates : List Gate
  deriving DecidableEq, Repr

namespace Circuit

def size (c : Circuit) : Nat := c.gates.length

def gate (c : Circuit) (g : Nat) : Gate := c.gates.getD g Gate.none

def modify (c : Circuit) (g : Nat) (f : Gate → Gate) : Circuit := ⟨c.gates.modify f g⟩

@[simp] theorem size_modify (c : Circuit) (g : Nat) (f : Gate → Gate) :
    (c.modify g f).size = c.size := List.length_modify f g c.gates

theorem gate_modify (c : Circuit) (g h : Nat) (f : Gate → Gate) :
    (c.modify g f).gate h = if g = h ∧ h < c.size then f (c.gate h) else c.gate h := by
  simp only [gate, modify, size, List.getD_eq_getElem?_getD, List.getElem?_modify]
  by_cases hh : h < c.gates.length
  · simp [List.getElem?_eq_getElem hh, hh]
  · simp [List.getElem?_eq_none (Nat.le_of_not_lt hh), hh]

@[simp] theorem gate_modify_self (c : Circuit) (g : Nat) (f : Gate → Gate) (h : g < c.size) :
    (c.modify g f).gate g = f (c.gate g) := by
  simp [gate_modify, h]

@[simp] theorem gate_modify_of_ne (c : Circuit) {g h : Nat} (f : Gate → Gate) (hne : g ≠ h) :
    (c.modify g f).gate h = c.gate h := by
  simp [gate_modify, hne]

/-- Determines gate `g` to `v` (the step `Gate::evaluate` and `sat_exit` take). -/
def setValue (c : Circuit) (g : Nat) (v : Bool) : Circuit :=
  c.modify g fun gt => { gt with determined := true, value := v }

/-- Modelled from the spec: `BC::reset_temp_fields` (bc.cc is not among the sources) sets
every gate's `temp` to `t`. -/
def resetTempFields (c : Circuit) (t : Int) : Circuit := ⟨c.gates.map fun gt => { gt with temp := t }⟩

/-- Sets gate `g`'s scratch field `temp`. -/
def setTemp (c : Circuit) (g : Nat) (t : Int) : Circuit :=
  c.modify g fun gt => { gt with temp := t }

@[simp] theorem size_setTemp (c : Circuit) (g : Nat) (t : Int) :
    (c.setTemp g t).size = c.size := size_modify _ _ _

@[simp] theorem temp_setTemp_self (c : Circuit) {g : Nat} (t : Int) (h : g < c.size) :
    ((c.setTemp g t).gate g).temp = t := by
  simp [setTemp, h]

theorem gate_setTemp_of_ne (c : Circuit) {g h : Nat} (t : Int) (hne : h ≠ g) :
    (c.setTemp g t).gate h = c.gate h :=
  gate_modify_of_ne _ _ (Ne.symm hne)

@[simp] theorem size_setValue (c : Circuit) (g : Nat) (v : Bool) :
    (c.setValue g v).size = c.size := size_modify _ _ _

@[simp] theorem size_resetTempFields (c : Circuit) (t : Int) :
    (c.resetTempFields t).size = c.size := List.length_map _ _

theorem gate_resetTempFields (c : Circuit) (t : Int) {g : Nat} (h : g < c.size) :
    (c.resetTempFields t).gate g = { c.gate g with temp := t } := by
  simp only [gate, resetTempFields, List.getD_eq_getElem?_getD, List.getElem?_map,
    List.getElem?_eq_getElem (show g < c.gates.length from h), Option.map_some', Option.getD_some]

theorem gate_of_size_le (c : Circuit) {g : Nat} (h : c.size ≤ g) : c.gate g = Gate.none := by
  simp [gate, List.getD_eq_getElem?_getD, List.getElem?_eq_none (show c.gates.length ≤ g from h)]

end Circuit

/-- The value `Gate::evaluate` gives a gate of type `t` with bounds `tmin`, `tmax` whose
children have the values `vs` (`nof_true_children` is `vs.count true`). A `VAR` has no
function; `UNDEF` and `DELETED` stop `evaluate` with an internal error. -/
def GateType.eval (t : GateType) (tmin tmax : Nat) (vs : List Bool) : Bool :=
  match t with
  | .false => Bool.false
  | .true => Bool.true
  | .ref => vs.count Bool.true == 1
  | .not => vs.count Bool.true == 0
  | .equiv => !(0 < vs.count Bool.true && 0 < vs.count Bool.false)
  | .or => 0 < vs.count Bool.true
  | .and => vs.count Bool.false == 0
  | .odd => vs.count Bool.true % 2 == 1
  | .even => vs.count Bool.true % 2 == 0
  | .ite => match vs with
    | i :: t :: e :: _ => if i then t else e
    | _ => Bool.false
  | .threshold => tmin ≤ vs.count Bool.true && vs.count Bool.true ≤ tmax
  | .atleast => tmin ≤ vs.count Bool.true
  | .var | .undef | .deleted => Bool.false

@[simp] theorem GateType.eval_not_one (lo hi : Nat) (v : Bool) : GateType.not.eval lo hi [v] = !v := by
  cases v <;> rfl

@[simp] theorem GateType.eval_ref_one (lo hi : Nat) (v : Bool) : GateType.ref.eval lo hi [v] = v := by
  cases v <;> rfl

@[simp] theorem GateType.eval_equiv_two (lo hi : Nat) (v₁ v₂ : Bool) :
    GateType.equiv.eval lo hi [v₁, v₂] = (v₁ == v₂) := by
  cases v₁ <;> cases v₂ <;> rfl

@[simp] theorem GateType.eval_even_two (lo hi : Nat) (v₁ v₂ : Bool) :
    GateType.even.eval lo hi [v₁, v₂] = (v₁ == v₂) := by
  cases v₁ <;> cases v₂ <;> rfl

@[simp] theorem GateType.eval_odd_two (lo hi : Nat) (v₁ v₂ : Bool) :
    GateType.odd.eval lo hi [v₁, v₂] = (v₁ != v₂) := by
  cases v₁ <;> cases v₂ <;> rfl

@[simp] theorem GateType.eval_ite_three (lo hi : Nat) (i t e : Bool) :
    GateType.ite.eval lo hi [i, t, e] = if i then t else e := rfl

theorem any_eq_count_pos {α : Type} (f : α → Bool) (xs : List α) :
    xs.any f = decide (0 < (xs.map f).count true) := by
  induction xs with
  | nil => rfl
  | cons x xs ih => cases h : f x <;> simp [List.count_cons, ih, h]

theorem all_eq_count_false {α : Type} (f : α → Bool) (xs : List α) :
    xs.all f = ((xs.map f).count false == 0) := by
  induction xs with
  | nil => rfl
  | cons x xs ih => cases h : f x <;> simp [List.count_cons, ih, h]

theorem count_true_add_count_false (vs : List Bool) :
    vs.count true + vs.count false = vs.length := by
  induction vs with
  | nil => rfl
  | cons v vs ih => cases v <;> simp [List.count_cons] <;> omega

/-- `σ` respects gate `g`: a live non-`VAR` gate has its function's value, and a determined
live gate has its determined value. -/
def Circuit.GateOk (c : Circuit) (σ : Nat → Bool) (g : Nat) : Prop :=
  let gt := c.gate g
  gt.type.Live →
    (gt.type ≠ .var → σ g = gt.type.eval gt.tmin gt.tmax (gt.children.map σ)) ∧
    (gt.determined → σ g = gt.value)

/-- A consistent evaluation of the whole circuit. -/
def Circuit.Consistent (c : Circuit) (σ : Nat → Bool) : Prop := ∀ g < c.size, c.GateOk σ g

instance (c : Circuit) (σ : Nat → Bool) (g : Nat) : Decidable (c.GateOk σ g) :=
  inferInstanceAs (Decidable (_ → _ ∧ _))

instance (c : Circuit) (σ : Nat → Bool) : Decidable (c.Consistent σ) :=
  inferInstanceAs (Decidable (∀ g < c.size, _))

def Circuit.Satisfiable (c : Circuit) : Prop := ∃ σ, c.Consistent σ

/-- A determined constant gate carries its own value, as `cnf_normalize` leaves it. -/
def Circuit.ConstantsAgree (c : Circuit) : Prop :=
  ∀ g < c.size, (c.gate g).determined →
    ((c.gate g).type = .true → (c.gate g).value = true) ∧
    ((c.gate g).type = .false → (c.gate g).value = false)

instance (c : Circuit) : Decidable c.ConstantsAgree :=
  inferInstanceAs (Decidable (∀ g < c.size, _))

/-- The type preconditions on the number of children: `REF` and `NOT` have one, `ITE` three,
and the other gates over children at least one. -/
def GateType.arityOk (t : GateType) (n : Nat) : Bool :=
  match t with
  | .ref | .not => n == 1
  | .ite => n == 3
  | .or | .and | .equiv | .odd | .even | .threshold | .atleast => 0 < n
  | .var | .true | .false | .undef | .deleted => Bool.true

/-- Every gate meets the type preconditions on its number of children. -/
def Circuit.AritiesOk (c : Circuit) : Prop :=
  ∀ g < c.size, (c.gate g).type.arityOk (c.gate g).children.length = true

instance (c : Circuit) : Decidable c.AritiesOk :=
  inferInstanceAs (Decidable (∀ g < c.size, _))

/-- The gate shape the clause emitter accepts: constants, inputs, unary `NOT`, `OR`/`AND`
with a child, binary `EQUIV`/`EVEN`/`ODD` and ternary `ITE`; in NOT-less mode a `NOT` is
undetermined and its child is not a `NOT`. -/
def Circuit.cnfGateOk (c : Circuit) (notless : Bool) (g : Nat) : Bool :=
  let gt := c.gate g
  match gt.type with
  | .false | .true | .var => Bool.true
  | .not => match gt.children with
    | [ch] => !notless || (!gt.determined && (c.gate ch).type != .not)
    | _ => Bool.false
  | .or | .and => 0 < gt.children.length
  | .equiv | .even | .odd => gt.children.length == 2
  | .ite => gt.children.length == 3
  | .threshold | .atleast | .ref | .undef | .deleted => Bool.false

/-- Modelled from the spec: the passes after rewriting walk the store and skip the deleted
gates (bc.cc is not among the sources). -/
def Circuit.liveGates (c : Circuit) : List Nat :=
  (List.range c.size).filter fun g => (c.gate g).type != .deleted

theorem Circuit.mem_liveGates {c : Circuit} {g : Nat} :
    g ∈ c.liveGates ↔ g < c.size ∧ (c.gate g).type ≠ .deleted := by
  simp [Circuit.liveGates]

theorem Circuit.nodup_liveGates (c : Circuit) : c.liveGates.Nodup :=
  (List.nodup_range _).filter _

/-- Every live gate has the emitter's shape and reads no deleted gate: a gate is deleted only
once its parents have been moved to another gate. -/
def Circuit.CnfShaped (c : Circuit) (notless : Bool) : Prop :=
  ∀ g < c.size, (c.gate g).type ≠ .deleted →
    c.cnfGateOk notless g = true ∧ ∀ ch ∈ (c.gate g).children, (c.gate ch).type ≠ .deleted

instance (c : Circuit) (notless : Bool) : Decidable (c.CnfShaped notless) :=
  inferInstanceAs (Decidable (∀ g < c.size, _ → _ ∧ ∀ ch ∈ (c.gate g).children, _))

theorem cnfGateOk_live {c : Circuit} {notless : Bool} {g : Nat}
    (h : c.cnfGateOk notless g = true) : (c.gate g).type.Live := by
  simp only [Circuit.cnfGateOk] at h
  constructor <;> intro ht <;> simp [ht] at h

namespace Circuit.CnfShaped

variable {c : Circuit} {notless : Bool} {g : Nat} (h : c.CnfShaped notless)
include h

theorem gateOk (hg : g < c.size) (hl : (c.gate g).type ≠ .deleted) :
    c.cnfGateOk notless g = true :=
  (h g hg hl).1

theorem child_live (hg : g < c.size) (hl : (c.gate g).type ≠ .deleted) {ch : Nat}
    (hch : ch ∈ (c.gate g).children) : (c.gate ch).type ≠ .deleted :=
  (h g hg hl).2 ch hch

end Circuit.CnfShaped

theorem cnfGateOk_notless_not {c : Circuit} {g : Nat} (h : c.cnfGateOk Bool.true g = true)
    (ht : (c.gate g).type = .not) :
    (c.gate g).determined = false ∧ ∃ ch, (c.gate g).children = [ch] ∧ (c.gate ch).type ≠ .not := by
  simp only [Circuit.cnfGateOk, ht] at h
  split at h
  · rename_i ch hch
    simp only [Bool.not_true, Bool.false_or, Bool.and_eq_true, Bool.not_eq_true', bne_iff_ne,
      ne_eq] at h
    exact ⟨h.1, ch, hch, h.2⟩
  · exact absurd h Bool.false_ne_true

theorem cnfGateOk_not_length {c : Circuit} {notless : Bool} {g : Nat}
    (h : c.cnfGateOk notless g = true) (ht : (c.gate g).type = .not) :
    (c.gate g).children.length = 1 := by
  simp only [Circuit.cnfGateOk, ht] at h
  split at h
  · simp [*]
  · exact absurd h Bool.false_ne_true

/-- A witness that the child relation is acyclic: a rank below the store size that falls
along every child edge, every child being inside the store. -/
structure Ranking (c : Circuit) where
  rank : Nat → Nat
  rank_lt : ∀ g < c.size, rank g < c.size
  child_lt : ∀ g < c.size, ∀ ch ∈ (c.gate g).children, ch < c.size ∧ rank ch < rank g

def Circuit.Acyclic (c : Circuit) : Prop := Nonempty (Ranking c)

/-- Every child of a gate of the store is in the store. -/
def Circuit.Closed (c : Circuit) : Prop := ∀ x < c.size, ∀ ch ∈ (c.gate x).children, ch < c.size

instance (c : Circuit) : Decidable c.Closed :=
  inferInstanceAs (Decidable (∀ x < c.size, ∀ ch ∈ (c.gate x).children, ch < c.size))

theorem Ranking.closed {c : Circuit} (r : Ranking c) : c.Closed :=
  fun x hx ch hch => (r.child_lt x hx ch hch).1

/-- Checks that `rk` is a ranking of `c`. -/
def Circuit.isRanking (c : Circuit) (rk : Nat → Nat) : Bool :=
  (List.range c.size).all fun g =>
    rk g < c.size && (c.gate g).children.all fun ch => ch < c.size && rk ch < rk g

/-- A ranking from a successful check. -/
def Ranking.ofCheck {c : Circuit} (rk : Nat → Nat) (h : c.isRanking rk = true) : Ranking c where
  rank := rk
  rank_lt g hg := by
    simp only [Circuit.isRanking, List.all_eq_true, List.mem_range, Bool.and_eq_true,
      decide_eq_true_eq] at h
    exact (h g hg).1
  child_lt g hg ch hch := by
    simp only [Circuit.isRanking, List.all_eq_true, List.mem_range, Bool.and_eq_true,
      decide_eq_true_eq] at h
    exact (h g hg).2 ch hch

/-- Evaluation from fixed values up: a gate with a fixed value takes it, an unfixed `VAR`
reads false and every other gate applies its function to its children. The fuel bounds the
depth. -/
def Circuit.evalFrom (c : Circuit) (fix : Nat → Option Bool) : Nat → Nat → Bool
  | 0, _ => false
  | fuel + 1, g => match fix g with
    | some b => b
    | none => if (c.gate g).type = .var then false
      else (c.gate g).type.eval (c.gate g).tmin (c.gate g).tmax
        ((c.gate g).children.map (c.evalFrom fix fuel))

/-- The evaluation from fixed values with enough fuel. -/
def Circuit.evalFixed (c : Circuit) (fix : Nat → Option Bool) (g : Nat) : Bool :=
  c.evalFrom fix c.size g

section Ranked

variable {c : Circuit} (r : Ranking c) (fix : Nat → Option Bool)
include r

theorem evalFrom_fuel_eq : ∀ {g : Nat} (f₁ f₂ : Nat), g < c.size → r.rank g < f₁ →
    r.rank g < f₂ → c.evalFrom fix f₁ g = c.evalFrom fix f₂ g
  | _, 0, _, _, h, _ => absurd h (Nat.not_lt_zero _)
  | _, _ + 1, 0, _, _, h => absurd h (Nat.not_lt_zero _)
  | g, f₁ + 1, f₂ + 1, hg, h₁, h₂ => by
    have hmap : (c.gate g).children.map (c.evalFrom fix f₁) =
        (c.gate g).children.map (c.evalFrom fix f₂) := List.map_congr_left fun ch hch => by
      obtain ⟨hs, hr⟩ := r.child_lt g hg ch hch
      exact evalFrom_fuel_eq f₁ f₂ hs (by omega) (by omega)
    simp only [Circuit.evalFrom, hmap]

theorem evalFixed_eq {g : Nat} (hg : g < c.size) (hfix : fix g = none)
    (hv : (c.gate g).type ≠ .var) :
    c.evalFixed fix g = (c.gate g).type.eval (c.gate g).tmin (c.gate g).tmax
      ((c.gate g).children.map (c.evalFixed fix)) := by
  have hrank := r.rank_lt g hg
  obtain ⟨n, hn⟩ : ∃ n, c.size = n + 1 := ⟨c.size - 1, by omega⟩
  have hstep : c.evalFixed fix g = c.evalFrom fix (n + 1) g := by
    simp only [Circuit.evalFixed, hn]
  rw [hstep, Circuit.evalFrom, hfix]
  simp only [if_neg hv]
  congr 1
  refine List.map_congr_left fun ch hch => ?_
  obtain ⟨hs, hr⟩ := r.child_lt g hg ch hch
  exact evalFrom_fuel_eq r fix n c.size hs (by omega) (by omega)

omit r in
theorem evalFixed_fixed {g : Nat} (hg : g < c.size) {b : Bool} (hfix : fix g = some b) :
    c.evalFixed fix g = b := by
  obtain ⟨n, hn⟩ : ∃ n, c.size = n + 1 := ⟨c.size - 1, by omega⟩
  simp only [Circuit.evalFixed, hn, Circuit.evalFrom, hfix]

end Ranked

end BcSat
