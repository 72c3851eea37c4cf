import BcSat.Store

set_option autoImplicit false

/-!
# CNF normalization

`Gate::cnf_normalize` of `gate.cc`, case by case, and the loop of `BC::cnf_normalize` that calls
it on every gate popped from the propagation stack. A case rewrites the gate into a form with a
constant-size clause encoding: `REF`s and double negations are removed, unary `OR`/`AND`/`ODD`/
`EVEN` become `REF`/`NOT`, n-ary `EQUIV`/`EVEN`/`ODD` are split, and the cardinality gates are
decomposed, `ATLEAST` by the polynomial construction over the array `array[i][j]`.

The cases that rewrite a gate in place push it again; none of them pushes the parents.
-/

namespace BcSat

namespace BC

variable (s : BC)

def setTmin (g tmin : Nat) : BC := s.modify g fun gt => { gt with tmin := tmin }

def setTmax (g tmax : Nat) : BC := s.modify g fun gt => { gt with tmax := tmax }

/-- `while(children) { h->add_child(children->child); delete children; }` (`relink`: each edge is
new, linked at the front of its child's parents list) and the same loop with `change_parent` (the
edges keep their places in the parents lists): the edges of `g` go one by one to the front of the
children of `h`, so they end up in reverse order. -/
def moveChildren (relink : Bool) (g h : Nat) : BC :=
  let n := (s.gate g).children.length
  let moved := if relink then (List.range n).reverse.map (s.clock + · + 1) else (s.linkTimes g).reverse
  ((((s.setChildren h ((s.gate g).children.reverse ++ (s.gate h).children)).setChildren g []).setLinks h
    (moved ++ s.linkTimes h)).setLinks g []).tick (if relink then n else 0)

/-- The parents and handles of `g` go to `x`, and `g` is deleted (the `REF` case and
`NOT(NOT(x))`). -/
def replaceBy (g x : Nat) : BC :=
  let s := (s.redirectParents none g x).moveHandles g x
  (s.removeAllChildren g).setType g .deleted

/-- `FALSE` (`v = false`) and `TRUE` (`v = true`): the gate is determined to its value. -/
def normalizeConstant (g : Nat) (v : Bool) : Option (Bool × BC) :=
  if (s.gate g).determined && (s.gate g).value != v then some (false, s)
  else some (true, s.determine g v)

/-- The trivial cases: `return false` if the gate is determined to the other value, else
`transform_into_constant(bc, v)`. -/
def normalizeToConstant (g : Nat) (v : Bool) : Option (Bool × BC) :=
  if (s.gate g).determined && (s.gate g).value != v then some (false, s)
  else (s.transformIntoConstant g v).map fun s => (true, s)

/-- `REF(x)`: a determined value goes down to `x`, then `g` is replaced by `x`. -/
def normalizeRef (g : Nat) : Option (Bool × BC) :=
  (s.headChild g).map fun ch =>
    let gt := s.gate g
    if gt.determined && (s.gate ch).determined && gt.value != (s.gate ch).value then (false, s)
    else
      let s := if gt.determined then (s.determine ch gt.value).addInPstack ch else s
      (true, s.replaceBy g ch)

/-- `NOT(x)`: a determined value goes down to `x` negated and `g` becomes a constant;
`NOT(NOT(y))` is replaced by `y`. -/
def normalizeNot (g : Nat) : Option (Bool × BC) :=
  (s.headChild g).bind fun ch =>
    let gt := s.gate g
    if gt.determined then
      if (s.gate ch).determined && (s.gate ch).value == gt.value then some (false, s)
      else (((s.determine ch !gt.value).addInPstack ch).transformIntoConstant g gt.value).map
        fun s => (true, s)
    else if (s.gate ch).type = .not then (s.headChild ch).map fun gc => (true, s.replaceBy g gc)
    else some (true, s)

/-- `OR` and `AND`: a unary gate becomes a `REF` and is pushed. -/
def normalizeOrAnd (g : Nat) : Option (Bool × BC) :=
  some (true, if (s.gate g).children.length = 1 then (s.setType g .ref).addInPstack g else s)

/-- One turn of the second loop of the `EQUIV` expansion: a new gate `NOT(ch)` is installed,
pushed and added to the children of `a`. -/
def addNotChild (a : Nat) (t : BC) (ch : Nat) : BC :=
  let (t, n) := t.newNOT ch
  (t.addInPstack n).addChild a n

/-- `EQUIV`: `EQUIV(x) = T`, a binary gate is kept, and
`EQUIV(c₁,...,cₙ) = OR(AND(c₁,...,cₙ), AND(NOT(c₁),...,NOT(cₙ)))` for `n ≥ 3`. -/
def normalizeEquiv (g : Nat) : Option (Bool × BC) :=
  let chs := (s.gate g).children
  if chs.length = 1 then s.normalizeToConstant g true
  else if chs.length = 2 then some (true, s)
  else
    let (s, a₁) := s.installGate { type := .and, children := chs.reverse }
    let (s, a₂) := (s.addInPstack a₁).installGate { type := .and, children := [] }
    let s := chs.foldl (addNotChild a₂) (s.addInPstack a₂)
    some (true, (((s.setType g .or).setChildren g [a₂, a₁]).setLinks g [s.clock + 2, s.clock + 1]).tick 2)

/-- `EVEN`: `EVEN(x) = NOT(x)`, a binary gate is kept, and `EVEN(c₁,...,cₙ) = NOT(ODD(...))`. -/
def normalizeEven (g : Nat) : Option (Bool × BC) :=
  let n := (s.gate g).children.length
  if n = 1 then some (true, (s.setType g .not).addInPstack g)
  else if n = 2 then some (true, s)
  else
    let (s, h) := s.installGate { type := .odd, children := [] }
    let s := (s.addInPstack h).moveChildren true g h
    some (true, ((s.setType g .not).addChild g h).addInPstack g)

/-- `ODD`: `ODD(x) = REF(x)`, a binary gate is kept, and
`ODD(c₁,c₂,...,cₙ) = ODD(c₁, ODD(cₙ,...,c₂))`; the rewritten gate is not pushed. -/
def normalizeOdd (g : Nat) : Option (Bool × BC) :=
  let n := (s.gate g).children.length
  if n = 1 then some (true, (s.setType g .ref).addInPstack g)
  else if n = 2 then some (true, s)
  else
    let (s, h) := s.installGate { type := .odd, children := [] }
    let s := s.addInPstack h
    match (s.gate g).children with
    | [] => none
    | c₁ :: rest =>
      let s := ((s.setChildren g rest).setLinks g (s.linkTimes g).tail).moveChildren true g h
      some (true, (s.addChild g h).addChild g c₁)

/-- Modelled from the spec: the adder construction of `BC::add_true_gate_counter`,
`BC::add_unsigned_constant`, `BC::add_unsigned_ge` and `BC::add_unsigned_le` (bc.cc is not among
the sources), for which the spec admits any equivalent counter construction. The two comparisons
are new gates `ATLEAST(tmin)` and `NOT(ATLEAST(tmax + 1))` over the children, pushed so that the
loop normalizes them; the result is the store and the two comparison gates. -/
def addCounterComparisons (chs : List Nat) (tmin tmax : Nat) : BC × Nat × Nat :=
  let (s, ge) := s.installGate { type := .atleast, children := chs, tmin := tmin }
  let (s, up) := (s.addInPstack ge).installGate { type := .atleast, children := chs, tmin := tmax + 1 }
  let (s, le) := (s.addInPstack up).newNOT up
  (s.addInPstack le, ge, le)

/-- `THRESHOLD[tmin, tmax]` over `n` children: the trivial bounds become constants (with the
bounds reset to `0`), `tmax` is clipped to `n`, the unary and `[0,n]`/`[1,n]` cases are rewritten
in place, and otherwise the heuristic picks the adder construction or the decomposition
`[0,k] = NOT(ATLEAST(k+1))`, `[l,n] = ATLEAST(l)`, `[l,u] = AND(ATLEAST(l), NOT(ATLEAST(u+1)))`.
`none` is the failed `assert(should_not_happen)` of the unary case. -/
def normalizeThreshold (g : Nat) : Option (Bool × BC) :=
  let gt := s.gate g
  let n := gt.children.length
  let tmin := gt.tmin
  let toConstant (s : BC) (v : Bool) : Option (Bool × BC) :=
    (s.normalizeToConstant g v).map fun (ok, s) => (ok, if ok then (s.setTmin g 0).setTmax g 0 else s)
  let rewrite (s : BC) (t : GateType) : Option (Bool × BC) :=
    some (true, (((s.setType g t).setTmin g 0).setTmax g 0).addInPstack g)
  if n < tmin then toConstant s false
  else
    let tmax := min gt.tmax n
    let s := s.setTmax g tmax
    if tmax < tmin then toConstant s false
    else if n = 1 then
      if tmin = 0 ∧ tmax = 1 then toConstant s true
      else if tmin = 0 ∧ tmax = 0 then rewrite s .not
      else if tmin = 1 ∧ tmax = 1 then rewrite s .ref
      else none
    else if tmin = 0 ∧ tmax = n then toConstant s true
    else if tmin = 1 ∧ tmax = n then rewrite s .or
    else if ¬(tmax ≤ 2 ∨ n ≤ tmin + 2 ∨ (tmin ≤ 2 ∧ n ≤ tmax + 2)) then
      let (s, ge, le) := s.addCounterComparisons gt.children tmin tmax
      some (true, ((((s.removeAllChildren g).setType g .and).setChildren g [le, ge]).setLinks g
        [s.clock + 2, s.clock + 1]).tick 2)
    else if tmin = 0 then
      let (s, a) := s.installGate { type := .atleast, children := [], tmin := tmax + 1 }
      let s := (s.addInPstack a).moveChildren false g a
      some (true, ((s.addChild g a).setType g .not).addInPstack g)
    else if tmax = n then some (true, (s.setType g .atleast).addInPstack g)
    else
      let (s, a₁) := s.installGate { type := .atleast, children := gt.children.reverse, tmin := tmin }
      let (s, a₂) := (s.addInPstack a₁).installGate { type := .atleast, children := [], tmin := tmax + 1 }
      let (s, a₃) := ((s.addInPstack a₂).moveChildren false g a₂).newNOT a₂
      some (true, (((s.addInPstack a₃).addChild g a₁).addChild g a₃).setType g .and)

end BC

/-- The polynomial `ATLEAST` rewriting builds `array[i][j]`, for `1 ≤ i ≤ j`, "at least `i` of the
first `j` children": `(≥ i)(x₁,...,xⱼ) = (xⱼ ∧ (≥ i-1)(x₁,...,xⱼ₋₁)) ∨ (≥ i)(x₁,...,xⱼ₋₁)`. The gate
itself becomes `array[L][n]`; the other entries are created on demand by a todo list, and these
are the entries the todo list gets when `(i, j)` is visited, front first. -/
def atleastNext (i j : Nat) : List (Nat × Nat) :=
  if i = j then (if i = 1 then [] else [(i - 1, j - 1)])
  else if i = 1 then [(i, j - 1)]
  else [(i, j - 1), (i - 1, j - 1)]

/-- The todo loop: the entries in the order they are first popped. It reads only the todo list
and the marks (`temp`), so the order depends on `(L, n)` alone. `none` is the fuel running out. -/
def atleastOrder : Nat → List (Nat × Nat) → List (Nat × Nat) → Option (List (Nat × Nat))
  | _, [], seen => some seen.reverse
  | 0, _ :: _, _ => none
  | fuel + 1, e :: todo, seen =>
    if e ∈ seen then atleastOrder fuel todo seen
    else atleastOrder fuel (atleastNext e.1 e.2 ++ todo) (e :: seen)

/-- Whether visiting `(i, j)` also creates the gate `AND(xⱼ, array[i-1][j-1])`. -/
def atleastGeneral (i j : Nat) : Bool := i ≠ j && i ≠ 1

/-- The index of each visited entry: the top entry is the gate `g`; any other entry is installed
when it is visited, and the `AND` of its case right after it. -/
def atleastSlots (top : Nat × Nat) (g : Nat) : Nat → List (Nat × Nat) → List ((Nat × Nat) × Nat)
  | _, [] => []
  | next, e :: es =>
    let extra := if atleastGeneral e.1 e.2 then 1 else 0
    if e = top then (e, g) :: atleastSlots top g (next + extra) es
    else (e, next) :: atleastSlots top g (next + 1 + extra) es

/-- The type and children of `array[i][j]`, where `x` is the child `xⱼ` and `a` the index of
the `AND` created with it: `REF(x₁)` at `(1,1)`, `AND(array[i-1][i-1], xᵢ)` at `(i,i)`,
`OR(array[1][j-1], xⱼ)` at `(1,j)`, and `OR(array[i][j-1], a)` otherwise. `none` is a child left
pointing at an entry the loop never visits. -/
def atleastEntry (slot : Nat × Nat → Option Nat) (i j x a : Nat) : Option (GateType × List Nat) :=
  if i = j then
    if i = 1 then some (.ref, [x]) else (slot (i - 1, j - 1)).map fun p => (.and, [p, x])
  else if i = 1 then (slot (i, j - 1)).map fun p => (.or, [p, x])
  else (slot (i, j - 1)).map fun p => (.or, [p, a])

namespace BC

variable (s : BC)

/-- The visits of the todo loop, in order: an entry other than the top is installed with
`temp = 1` and pushed, the top entry is the gate `g` itself, and the general case then installs
and pushes `AND(xⱼ, array[i-1][j-1])`. -/
def atleastBuild (chs : List Nat) (top : Nat × Nat) (g : Nat) (slot : Nat × Nat → Option Nat) :
    List (Nat × Nat) → BC → Option BC
  | [], s => some s
  | (i, j) :: es, s =>
    (chs[j - 1]?).bind fun x =>
      let a := if (i, j) = top then s.size else s.size + 1
      let e := if (i, j) = top then g else s.size
      let c := s.clock
      (atleastEntry slot i j x a).bind fun (t, kids) =>
        let s := if (i, j) = top then
            ((s.modify g fun gt => { gt with type := t, children := kids, temp := 1 }).setLinks g
              ((List.range kids.length).map fun k => c + kids.length - k)).tick kids.length
          else let (s, h) := s.installGate { type := t, children := kids, temp := 1 }; s.addInPstack h
        -- the `AND` is linked before the edges of the entry
        let s := if atleastGeneral i j then
            (slot (i - 1, j - 1)).map fun p =>
              let (s, a) := s.installGate { type := .and, children := [x, p] }
              ((s.addInPstack a).setLinks e [c + 4, c + 3]).setLinks a [c + 2, c + 1]
          else some s
        s.bind (atleastBuild chs top g slot es)

/-- The polynomial rewriting of `ATLEAST(L)` over `n` children. The fuel of the todo loop is one
more than the number of pushes, at most two per entry. -/
def atleastRewrite (g : Nat) : Option (Bool × BC) :=
  let gt := s.gate g
  let top := (gt.tmin, gt.children.length)
  (atleastOrder (2 * (gt.tmin + 1) * (gt.children.length + 1) + 1) [top] []).bind fun order =>
    let slots := atleastSlots top g s.size order
    let slot := fun e => (slots.find? fun p => p.1 = e).map Prod.snd
    ((s.removeAllChildren g).atleastBuild gt.children top g slot order).map fun s => (true, s)

/-- `ATLEAST(L)` over `n` children: `L = 0` is true, `L > n` false, `L = 1` an `OR`, `L = n` an
`AND`, and otherwise the polynomial rewriting. -/
def normalizeAtleast (g : Nat) : Option (Bool × BC) :=
  let gt := s.gate g
  let n := gt.children.length
  let toConstant (v : Bool) : Option (Bool × BC) :=
    (s.normalizeToConstant g v).map fun (ok, s) => (ok, if ok then s.setTmin g 0 else s)
  if gt.tmin = 0 then toConstant true
  else if n < gt.tmin then toConstant false
  else if gt.tmin = 1 then some (true, ((s.setType g .or).setTmin g 0).addInPstack g)
  else if gt.tmin = n then some (true, ((s.setType g .and).setTmin g 0).addInPstack g)
  else s.atleastRewrite g

/-- `Gate::cnf_normalize(bc)`; `none` is the `internal_error` on an `UNDEF` gate, a failed
`assert`, or a child read from a gate without children. -/
def cnfNormalize (g : Nat) : Option (Bool × BC) :=
  match (s.gate g).type with
  | .deleted | .var | .ite => some (true, s)
  | .false => s.normalizeConstant g false
  | .true => s.normalizeConstant g true
  | .ref => s.normalizeRef g
  | .not => s.normalizeNot g
  | .or | .and => s.normalizeOrAnd g
  | .equiv => s.normalizeEquiv g
  | .threshold => s.normalizeThreshold g
  | .atleast => s.normalizeAtleast g
  | .even => s.normalizeEven g
  | .odd => s.normalizeOdd g
  | .undef => none

/-- Modelled from the spec: `BC::cnf_normalize` (bc.cc is not among the sources) pushes every
gate in store order and runs the propagation loop with `Gate::cnf_normalize`. -/
def cnfNormalizePass (fuel : Nat) : Option (Bool × BC) :=
  s.pushAll.runStack (fun s g => s.cnfNormalize g) fuel

end BC

end BcSat
