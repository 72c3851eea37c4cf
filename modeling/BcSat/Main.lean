import BcSat.Emit
import BcSat.Normalize
import BcSat.Share
import BcSat.Simplify

set_option autoImplicit false

/-!
# The translator

`main` of `bc2cnf.cc` from the parsed circuit on: the queues of forced gates are drained, the
store is simplified (or only shared under `-nosimplify`), normalized for the clause encoding,
simplified or shared again, and handed to the back end (cone of influence, numbering, polarity
and emission).
-/

namespace BcSat

/-- The options of `bc2cnf` that reach the translation, with the source's defaults. -/
structure Options where
  /-- `-all` sets `opt_preserve_all_solutions`. -/
  preserveAllSolutions : Bool := false
  /-- `-nosimplify` clears `opt_perform_simplifications`. -/
  performSimplifications : Bool := true
  /-- `-nocoi` clears `opt_perform_coi`. -/
  performCoi : Bool := true
  /-- `-nots` clears `opt_cnf_notless`. -/
  cnfNotless : Bool := true
  /-- `-polarity_cnf` sets `opt_cnf_polarity`. -/
  cnfPolarity : Bool := false
  deriving DecidableEq, Repr

/-- The parsed input: the circuit and the queues `assigned_to_true` and `assigned_to_false`. -/
structure Problem where
  circuit : Circuit
  assignedToTrue : List Nat := []
  assignedToFalse : List Nat := []
  deriving DecidableEq, Repr

/-- A consistent evaluation of the circuit that makes the gates of `assigned_to_true` true and
those of `assigned_to_false` false. -/
def Problem.Satisfiable (p : Problem) : Prop :=
  ∃ σ, p.circuit.Consistent σ ∧ (∀ g ∈ p.assignedToTrue, σ g = true) ∧
    ∀ g ∈ p.assignedToFalse, σ g = false

namespace BC

variable (s : BC)

/-- Modelled from the spec: `BC::force_true` (`v = true`) and `BC::force_false` (bc.cc is not
among the sources) report unsatisfiability (`false`) for a gate determined to the other value,
and otherwise determine the gate to `v` and push it. -/
def force (g : Nat) (v : Bool) : Bool × BC :=
  if (s.gate g).determined && (s.gate g).value != v then (false, s)
  else (true, (s.determine g v).addInPstack g)

/-- The loop of `main` that drains a queue through `force`. -/
def forceAll (v : Bool) : List Nat → BC → Bool × BC
  | [], s => (true, s)
  | g :: gs, s => if (s.force g v).1 then forceAll v gs (s.force g v).2 else (false, s)

/-- Modelled from the spec: `BC::remove_underscore_names` (bc.cc is not among the sources) drops
every name handle whose name begins with an underscore. -/
def removeUnderscoreNames : BC :=
  { s with circuit := ⟨s.circuit.gates.map fun gt =>
      { gt with handles := gt.handles.filter fun
        | .name n => !n.startsWith "_"
        | .other => true }⟩ }

end BC

/-- The next stage of `main` runs on the store if the last one succeeded; a stage that returns
false is `goto unsat_exit`. -/
def andThen (r : Option (Bool × BC)) (k : BC → Option (Bool × BC)) : Option (Bool × BC) :=
  r.bind fun (ok, s) => if ok then k s else some (false, s)

/-- `main` up to the cone of influence: the queues are drained, underscore names dropped, then
`simplify(false)` or `share()`, `cnf_normalize()`, and `simplify(true)` or `share()`, with
`may_transform_input_gates` off under `-all`. `false` is `goto unsat_exit`; `none` is a failed
assertion, an `internal_error` or the fuel of a propagation loop running out. -/
def frontEnd (fuel : Nat) (opts : Options) (p : Problem) : Option (Bool × BC) :=
  let pass (preserve : Bool) (s : BC) : Option (Bool × BC) :=
    if opts.performSimplifications then s.simplifyPass preserve fuel else s.share
  let forced := BC.forceAll true p.assignedToTrue { circuit := p.circuit }
  andThen (some forced) fun s =>
  andThen (some (BC.forceAll false p.assignedToFalse s)) fun s =>
  andThen (pass false { s.removeUnderscoreNames with
    mayTransformInputGates := !opts.preserveAllSolutions }) fun s =>
  andThen (s.cnfNormalizePass fuel) (pass true)

/-- How a run of `bc2cnf` ends. -/
inductive Outcome where
  /-- `unsat_exit`: the dummy unsatisfiable CNF. -/
  | unsat
  /-- The back end's output: `sat_exit` or the DIMACS. -/
  | output (o : Output)

/-- `main` of `bc2cnf.cc` after parsing; `none` is a failed assertion, an `internal_error` or the
fuel running out. -/
def main (fuel : Nat) (opts : Options) (p : Problem) : Option Outcome :=
  (frontEnd fuel opts p).bind fun (ok, s) =>
    if ok then (backEnd opts.performCoi opts.cnfNotless opts.cnfPolarity s.circuit).map .output
    else some .unsat

/-- The parent-`AND` rule of `THRESHOLD` counts repeated children, and the forced gates are popped
last: with `b = AND(x,x)` and `t = [0,1](x,y,z)` both forced true, `t` is simplified first, its
rule finds `b` over two of its children, and `main` goes to `unsat_exit` although `x = T`,
`y = z = F` is a consistent evaluation. -/
theorem main_unsat_exit_satisfiable :
    let p : Problem := { assignedToTrue := [3, 4], circuit := ⟨[{ type := .var, children := [] },
      { type := .var, children := [] }, { type := .var, children := [] },
      { type := .and, children := [0, 0] },
      { type := .threshold, children := [0, 1, 2], tmin := 0, tmax := 1 }]⟩ }
    p.circuit.Acyclic ∧ p.Satisfiable ∧ main 20 ({} : Options) p = some .unsat :=
  ⟨⟨.ofCheck (fun g => if 3 ≤ g then 1 else 0) (by decide)⟩,
    ⟨fun g => g = 0 ∨ 3 ≤ g, by decide, by decide, by decide⟩, rfl⟩

/-- `cnf_normalize` does not push the parents of a gate it rewrites: under `-nosimplify -nocoi`,
`NOT(EVEN(a,b,c))` is popped first and left alone, then `EVEN(a,b,c)` becomes `NOT(ODD(...))`.
The `NOT` of a `NOT` survives the second `share()` and fails the assertion of the NOT-less
numbering, on a satisfiable circuit. -/
theorem main_notless_double_negation :
    let p : Problem := { circuit := ⟨[{ type := .var, children := [] },
      { type := .var, children := [] }, { type := .var, children := [] },
      { type := .even, children := [0, 1, 2] }, { type := .not, children := [3] }]⟩ }
    let opts : Options := { performSimplifications := false, performCoi := false }
    p.circuit.Acyclic ∧ p.Satisfiable ∧
      (∃ s, frontEnd 20 opts p = some (true, s) ∧ (s.circuit.gate 4).type = .not ∧
        (s.circuit.gate 4).children = [3] ∧ (s.circuit.gate 3).type = .not ∧
        ¬s.circuit.CnfShaped true) ∧
      main 20 opts p = none :=
  ⟨⟨.ofCheck (fun g => if g < 3 then 0 else g - 2) (by decide)⟩,
    ⟨fun g => g = 3, by decide, by decide, by decide⟩, ⟨_, rfl, rfl, rfl, rfl, by decide⟩, rfl⟩

end BcSat
