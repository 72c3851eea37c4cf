import BcSat.Circuit

set_option autoImplicit false

/-!
# The clauses of a gate

The DIMACS reading of a clause set, and the clauses `Gate::cnf_get_clauses` and
`Gate::cnf_get_clauses_polarity` emit for one numbered gate. Both are made of a positive half
(`g → f(children)`) and a negative half (`¬g → ¬f(children)`): the standard translation emits
both, the polarity translation the halves that `mir_pos` and `mir_neg` ask for. A gate's
variable is its `temp`; in NOT-less mode a `NOT` child stands for the negated variable of its
own child. `Gate::cnf_count_clauses` and `Gate::cnf_count_clauses_polarity` count the clauses
of the two generators, whose sum `main` prints in the DIMACS header.
-/

namespace BcSat

/-- A clause of DIMACS literals: `v` is variable `v` and `-v` its negation. -/
abbrev Clause := List Int

/-- The value of a literal under an assignment of the variables; `0` is no literal. -/
def litValue (a : Nat → Bool) (l : Int) : Bool :=
  if 0 < l then a l.natAbs else if l < 0 then !a l.natAbs else false

def clauseValue (a : Nat → Bool) (cl : Clause) : Bool := cl.any (litValue a)

def cnfValue (a : Nat → Bool) (F : List Clause) : Bool := F.all (clauseValue a)

def CnfSatisfiable (F : List Clause) : Prop := ∃ a, cnfValue a F = true

section Semantics

variable (a : Nat → Bool)

theorem litValue_neg {l : Int} (h : l ≠ 0) : litValue a (-l) = !litValue a l := by
  unfold litValue
  rcases Int.lt_trichotomy l 0 with hl | hl | hl
  · have : 0 < -l := Int.neg_pos_of_neg hl
    simp [hl, this, Int.natAbs_neg, Int.not_lt.mpr (Int.le_of_lt hl)]
  · exact absurd hl h
  · have : -l < 0 := Int.neg_neg_of_pos hl
    simp [hl, this, Int.natAbs_neg, Int.not_lt.mpr (Int.le_of_lt this)]

theorem litValue_of_pos {l : Int} (h : 0 < l) : litValue a l = a l.natAbs := by
  simp [litValue, h]

@[simp] theorem clauseValue_cons (l : Int) (cl : Clause) :
    clauseValue a (l :: cl) = (litValue a l || clauseValue a cl) := List.any_cons

@[simp] theorem clauseValue_nil : clauseValue a [] = false := rfl

@[simp] theorem cnfValue_cons (cl : Clause) (F : List Clause) :
    cnfValue a (cl :: F) = (clauseValue a cl && cnfValue a F) := List.all_cons

@[simp] theorem cnfValue_nil : cnfValue a [] = true := rfl

@[simp] theorem cnfValue_append (F G : List Clause) :
    cnfValue a (F ++ G) = (cnfValue a F && cnfValue a G) := List.all_append

end Semantics

/-- The defining clauses of a gate of type `t` with literal `x` over the child literals `ls`:
the positive half and the negative half, each in the order `cnf_get_clauses` pushes it. -/
def halvesOf (t : GateType) (x : Int) (ls : List Int) : List Clause × List Clause :=
  match t, ls with
  | .ref, [l] => ([[-x, l]], [[x, -l]])
  | .not, [l] => ([[-x, -l]], [[x, l]])
  | .or, ls => ([-x :: ls], ls.map fun l => [x, -l])
  | .and, ls => (ls.map fun l => [-x, l], [x :: ls.map fun l => -l])
  | .equiv, [l₁, l₂] | .even, [l₁, l₂] =>
    ([[-x, -l₁, l₂], [-x, l₁, -l₂]], [[x, -l₁, -l₂], [x, l₁, l₂]])
  | .odd, [l₁, l₂] => ([[-x, -l₁, -l₂], [-x, l₁, l₂]], [[x, -l₁, l₂], [x, l₁, -l₂]])
  | .ite, [i, th, e] => ([[-x, -i, th], [-x, i, e]], [[x, -i, -th], [x, i, -e]])
  | _, _ => ([], [])

/-- The arities the clause emitter has clauses for. -/
def GateType.clauseArity (t : GateType) (n : Nat) : Bool :=
  match t with
  | .ref | .not => n == 1
  | .or | .and => Bool.true
  | .equiv | .even | .odd => n == 2
  | .ite => n == 3
  | _ => Bool.false

section Halves

variable (a : Nat → Bool) {x : Int}

theorem cnfValue_or_neg : ∀ {ls : List Int}, (∀ l ∈ ls, l ≠ 0) →
    cnfValue a (ls.map fun l => [x, -l]) = (litValue a x || !ls.any (litValue a))
  | [], _ => by simp
  | l :: ls, h => by
    have ih := @cnfValue_or_neg ls fun l' hl' => h l' (List.mem_cons_of_mem l hl')
    simp only [List.map_cons, cnfValue_cons, clauseValue_cons, clauseValue_nil, ih,
      litValue_neg a (h l (List.mem_cons_self l ls)), List.any_cons]
    cases litValue a x <;> simp

theorem cnfValue_and_pos : ∀ {ls : List Int},
    cnfValue a (ls.map fun l => [-x, l]) = (litValue a (-x) || ls.all (litValue a))
  | [] => by simp
  | l :: ls => by
    simp only [List.map_cons, cnfValue_cons, clauseValue_cons, clauseValue_nil,
      @cnfValue_and_pos ls, List.all_cons]
    cases litValue a (-x) <;> simp

theorem clauseValue_neg_lits : ∀ {ls : List Int}, (∀ l ∈ ls, l ≠ 0) →
    clauseValue a (ls.map fun l => -l) = !ls.all (litValue a)
  | [], _ => rfl
  | l :: ls, h => by
    simp only [List.map_cons, clauseValue_cons, List.all_cons,
      litValue_neg a (h l (List.mem_cons_self l ls)),
      clauseValue_neg_lits fun l' hl' => h l' (List.mem_cons_of_mem l hl'), Bool.not_and]

theorem halvesOf_value {ls : List Int} (t : GateType) (ht : t.clauseArity ls.length)
    (hx : x ≠ 0) (hls : ∀ l ∈ ls, l ≠ 0) :
    cnfValue a (halvesOf t x ls).1 = (!litValue a x || t.eval 0 0 (ls.map (litValue a))) ∧
    cnfValue a (halvesOf t x ls).2 = (litValue a x || !t.eval 0 0 (ls.map (litValue a))) := by
  have hx' := litValue_neg a hx
  cases t
  case or =>
    refine ⟨?_, ?_⟩
    · simp only [halvesOf, cnfValue_cons, cnfValue_nil, clauseValue_cons, hx', Bool.and_true]
      rw [clauseValue, GateType.eval, ← any_eq_count_pos]
    · rw [halvesOf, cnfValue_or_neg a hls, GateType.eval, ← any_eq_count_pos]
  case and =>
    refine ⟨?_, ?_⟩
    · rw [halvesOf, cnfValue_and_pos, hx', GateType.eval, ← all_eq_count_false]
    · simp only [halvesOf, cnfValue_cons, cnfValue_nil, clauseValue_cons, Bool.and_true,
        clauseValue_neg_lits a hls, GateType.eval, ← all_eq_count_false]
  case ref | not =>
    obtain ⟨l, rfl⟩ := List.length_eq_one.mp (by simpa [GateType.clauseArity] using ht)
    have hl := litValue_neg a (hls l (List.mem_singleton_self l))
    simp only [halvesOf, cnfValue_cons, cnfValue_nil, clauseValue_cons, clauseValue_nil, hx', hl,
      GateType.eval_not_one, GateType.eval_ref_one, List.map_cons, List.map_nil]
    cases litValue a x <;> cases litValue a l <;> decide
  case equiv | even | odd =>
    obtain ⟨l₁, l₂, rfl⟩ := List.length_eq_two.mp (by simpa [GateType.clauseArity] using ht)
    have h₁ := litValue_neg a (hls l₁ (by simp))
    have h₂ := litValue_neg a (hls l₂ (by simp))
    simp only [halvesOf, cnfValue_cons, cnfValue_nil, clauseValue_cons, clauseValue_nil, hx', h₁,
      h₂, GateType.eval_equiv_two, GateType.eval_even_two, GateType.eval_odd_two, List.map_cons,
      List.map_nil]
    cases litValue a x <;> cases litValue a l₁ <;> cases litValue a l₂ <;> decide
  case ite =>
    obtain ⟨i, th, e, rfl⟩ := List.length_eq_three.mp (by simpa [GateType.clauseArity] using ht)
    have hi := litValue_neg a (hls i (by simp))
    have hth := litValue_neg a (hls th (by simp))
    have he := litValue_neg a (hls e (by simp))
    simp only [halvesOf, cnfValue_cons, cnfValue_nil, clauseValue_cons, clauseValue_nil, hx', hi,
      hth, he, GateType.eval_ite_three, List.map_cons, List.map_nil]
    cases litValue a x <;> cases litValue a i <;> cases litValue a th <;> cases litValue a e <;>
      decide
  all_goals exact absurd ht (by simp [GateType.clauseArity])

theorem halvesOf_natAbs (t : GateType) (x : Int) (ls : List Int) :
    ∀ cl ∈ (halvesOf t x ls).1 ++ (halvesOf t x ls).2, ∀ l ∈ cl,
      l.natAbs = x.natAbs ∨ ∃ l' ∈ ls, l.natAbs = l'.natAbs := by
  intro cl hcl l hl
  unfold halvesOf at hcl
  split at hcl <;> simp only [List.mem_append, List.mem_cons, List.mem_singleton, List.mem_map,
    List.not_mem_nil, or_false] at hcl
  case h_3 =>
    -- `OR`: the long clause and the binary ones
    rcases hcl with rfl | ⟨a, ha, rfl⟩
    · rcases List.mem_cons.mp hl with rfl | hl'
      · exact Or.inl (Int.natAbs_neg x)
      · exact Or.inr ⟨l, hl', rfl⟩
    · rcases List.mem_pair.mp hl with rfl | rfl
      · exact Or.inl rfl
      · exact Or.inr ⟨a, ha, Int.natAbs_neg a⟩
  case h_4 =>
    -- `AND`: the binary clauses and the long one
    rcases hcl with ⟨a, ha, rfl⟩ | rfl
    · rcases List.mem_pair.mp hl with rfl | rfl
      · exact Or.inl (Int.natAbs_neg x)
      · exact Or.inr ⟨l, ha, rfl⟩
    · rcases List.mem_cons.mp hl with rfl | hl'
      · exact Or.inl rfl
      · obtain ⟨a, ha, rfl⟩ := List.mem_map.mp hl'
        exact Or.inr ⟨a, ha, Int.natAbs_neg a⟩
  -- the fixed arities: each clause is listed
  all_goals
    repeat' rcases hcl with hcl | hcl
    all_goals simp only [List.mem_cons, List.mem_singleton, List.not_mem_nil, or_false] at hl
    all_goals rcases hl with rfl | rfl | rfl <;>
      simp only [Int.natAbs_neg, List.exists_mem_cons_iff, true_or, or_true]

end Halves

namespace Circuit

/-- The literal a parent's clauses use for child `ch`: its variable, or in NOT-less mode the
negated variable of the child of a `NOT` (`-ch->children->child->temp`); `none` is a read
through a missing child. -/
def childLit (c : Circuit) (notless : Bool) (ch : Nat) : Option Int :=
  if notless ∧ (c.gate ch).type = .not then
    (c.gate ch).children.head?.map fun gc => -(c.gate gc).temp
  else some (c.gate ch).temp

/-- The child loop of `cnf_get_clauses`. -/
def childLits (c : Circuit) (notless : Bool) : List Nat → Option (List Int)
  | [] => some []
  | ch :: chs => do
    let l ← c.childLit notless ch
    let ls ← c.childLits notless chs
    some (l :: ls)

/-- The clauses of `Gate::cnf_get_clauses` and `Gate::cnf_get_clauses_polarity` before the
choice of halves; `none` is an `internal_error` or a read through a missing child. -/
def clauseHalves (c : Circuit) (notless : Bool) (g : Nat) : Option (List Clause × List Clause) :=
  let gt := c.gate g
  match gt.type with
  | .false | .true | .var => some ([], [])
  | .ref => if notless then none else
    gt.children.head?.map fun ch => halvesOf .ref gt.temp [(c.gate ch).temp]
  | .not => gt.children.head?.bind fun ch =>
    if notless then
      if gt.determined ∨ (c.gate ch).type = .not then none else some ([], [])
    else some (halvesOf .not gt.temp [(c.gate ch).temp])
  | .or => (c.childLits notless gt.children).map (halvesOf .or gt.temp)
  | .and => (c.childLits notless gt.children).map (halvesOf .and gt.temp)
  | .equiv => match gt.children with
    | [c₁, c₂] => (c.childLits notless [c₁, c₂]).map (halvesOf .equiv gt.temp)
    | _ => none
  | .even => match gt.children with
    | [c₁, c₂] => (c.childLits notless [c₁, c₂]).map (halvesOf .even gt.temp)
    | _ => none
  | .odd => match gt.children with
    | [c₁, c₂] => (c.childLits notless [c₁, c₂]).map (halvesOf .odd gt.temp)
    | _ => none
  | .ite => match gt.children with
    | i :: th :: e :: _ => (c.childLits notless [i, th, e]).map (halvesOf .ite gt.temp)
    | _ => none
  | .threshold | .atleast | .undef | .deleted => none

/-- `Gate::cnf_get_clauses`: both halves, an `AND` pushing its negative half first. -/
def cnfGetClauses (c : Circuit) (notless : Bool) (g : Nat) : Option (List Clause) :=
  (c.clauseHalves notless g).map fun h =>
    if (c.gate g).type = .and then h.2 ++ h.1 else h.1 ++ h.2

/-- `Gate::cnf_get_clauses_polarity`: the positive half when `mir_pos` is set, the negative
half when `mir_neg` is. -/
def cnfGetClausesPolarity (c : Circuit) (notless : Bool) (g : Nat) : Option (List Clause) :=
  (c.clauseHalves notless g).map fun h =>
    (if (c.gate g).mirPos then h.1 else []) ++ (if (c.gate g).mirNeg then h.2 else [])

/-- The literal of `ch` as a child, `0` where the read fails. -/
def litOf (c : Circuit) (notless : Bool) (ch : Nat) : Int := (c.childLit notless ch).getD 0

end Circuit

section Reading

variable {c : Circuit} {notless : Bool}

theorem childLits_eq : ∀ {chs : List Nat}, (∀ ch ∈ chs, (c.childLit notless ch).isSome) →
    c.childLits notless chs = some (chs.map (c.litOf notless))
  | [], _ => rfl
  | ch :: chs, h => by
    obtain ⟨l, hl⟩ := Option.isSome_iff_exists.mp (h ch (List.mem_cons_self ch chs))
    simp only [Circuit.childLits, hl, childLits_eq fun x hx => h x (List.mem_cons_of_mem ch hx),
      List.map_cons, Circuit.litOf, Option.getD_some]
    rfl

theorem cnfGateOk_arity {g : Nat} (hok : c.cnfGateOk notless g = true)
    (hc : (c.gate g).type ≠ .false ∧ (c.gate g).type ≠ .true ∧ (c.gate g).type ≠ .var) :
    (c.gate g).type.clauseArity (c.gate g).children.length := by
  by_cases hn : (c.gate g).type = .not
  · simp [hn, GateType.clauseArity, cnfGateOk_not_length hok hn]
  simp only [Circuit.cnfGateOk] at hok
  revert hok hc hn
  cases (c.gate g).type <;> simp [GateType.clauseArity]

theorem litOf_eq_temp (ch : Nat) : c.litOf false ch = (c.gate ch).temp := by
  simp [Circuit.litOf, Circuit.childLit]

theorem clauseHalves_eq {g : Nat} (hok : c.cnfGateOk notless g = true)
    (hnot : ¬(notless = true ∧ (c.gate g).type = .not))
    (hlit : ∀ ch ∈ (c.gate g).children, (c.childLit notless ch).isSome) :
    c.clauseHalves notless g = some (halvesOf (c.gate g).type (c.gate g).temp
      ((c.gate g).children.map (c.litOf notless))) := by
  have hlits := childLits_eq hlit
  simp only [Circuit.cnfGateOk] at hok
  unfold Circuit.clauseHalves
  dsimp only
  generalize (c.gate g).children = chs at hok hlits ⊢
  cases hty : (c.gate g).type <;> simp only [hty] at hok hnot ⊢
  case false | true | var => rfl
  case or | and => rw [hlits]; rfl
  case not =>
    match chs, hok with
    | [ch], _ =>
      obtain rfl : notless = false := by simpa using hnot
      simp [litOf_eq_temp]
  case equiv | even | odd =>
    match chs, hok, hlits with
    | [c₁, c₂], _, hlits => dsimp only; rw [hlits]; rfl
  case ite =>
    match chs, hok, hlits with
    | [i, th, e], _, hlits => dsimp only; rw [hlits]; rfl
  all_goals exact absurd hok Bool.false_ne_true

theorem eval_bounds_irrel {t : GateType} {n : Nat} (ht : t.clauseArity n) (lo hi : Nat)
    (vs : List Bool) : t.eval lo hi vs = t.eval 0 0 vs := by
  cases t <;> first | rfl | exact absurd ht (by simp [GateType.clauseArity])

end Reading

namespace Circuit

/-- The assertion of the constant cases of both counters. -/
def constantOk (c : Circuit) (g : Nat) : Bool :=
  match (c.gate g).type with
  | .false => (c.gate g).determined && !(c.gate g).value
  | .true => (c.gate g).determined && (c.gate g).value
  | _ => Bool.true

/-- `Gate::cnf_count_clauses`; `none` is an `internal_error` or a failed assertion. -/
def cnfCountClauses (c : Circuit) (notless : Bool) (g : Nat) : Option Nat :=
  let gt := c.gate g
  match gt.type with
  | .false | .true => if c.constantOk g then some 0 else none
  | .var => some 0
  | .ref => if notless then none else some 2
  | .not => some (if notless then 0 else 2)
  | .or | .and => some (gt.children.length + 1)
  | .equiv | .even | .odd => if gt.children.length = 2 then some 4 else none
  | .ite => some 4
  | .threshold | .atleast | .undef | .deleted => none

/-- `Gate::cnf_count_clauses_polarity`: one count per half whose flag is set. -/
def cnfCountClausesPolarity (c : Circuit) (notless : Bool) (g : Nat) : Option Nat :=
  let gt := c.gate g
  let halves (p n : Nat) := (if gt.mirPos then p else 0) + (if gt.mirNeg then n else 0)
  match gt.type with
  | .false | .true => if c.constantOk g then some 0 else none
  | .var => some 0
  | .ref | .not => if notless then none else some (halves 1 1)
  | .or => if 1 ≤ gt.children.length then some (halves 1 gt.children.length) else none
  | .and => if 1 ≤ gt.children.length then some (halves gt.children.length 1) else none
  | .equiv | .even | .odd => if gt.children.length = 2 then some (halves 2 2) else none
  | .ite => some (halves 2 2)
  | .threshold | .atleast | .undef | .deleted => none

end Circuit

section Counts

variable {c : Circuit} {notless : Bool} {g : Nat}

/-- In NOT-less mode a `NOT` gets no variable and no clauses, which
`cnf_get_clauses_polarity` emits and `cnf_count_clauses` counts, but
`cnf_count_clauses_polarity` raises an internal error on it, whatever its polarity flags. -/
theorem cnfCountClausesPolarity_notless_not :
    let c : Circuit := ⟨[{ type := .var, children := [], temp := 1 },
      { type := .not, children := [0], mirPos := true, mirNeg := true }]⟩
    c.CnfShaped true ∧ c.cnfGetClausesPolarity true 1 = some [] ∧
      c.cnfCountClauses true 1 = some 0 ∧ c.cnfCountClausesPolarity true 1 = none :=
  ⟨by decide, rfl, rfl, rfl⟩

end Counts

end BcSat
