import BcSat.Constants
import BcSat.SimplifyAcyclic

set_option autoImplicit false

/-!
# `Gate::simplify` pushes every gate it determines

Every rule of `Gate::simplify` keeps the stack and determines a gate only to push it, unless it
makes it a constant of its value. The `TRUE`/`FALSE` cases return false on a gate determined to
the other value. So the loop of `BC::simplify`, from a stack that holds every gate, returns true
only on a store whose constants carry their own values.
-/

namespace BcSat

namespace BC

variable {s s' : BC} {g : Nat}

open KeepsPending

theorem KeepsPending.appendNew (h : KeepsPending s s') {gt : Gate} (hd : gt.determined = false) :
    KeepsPending s (s'.append gt) :=
  h.append fun h' => absurd (hd.symm.trans h') Bool.false_ne_true

theorem KeepsPending.foldl_redirectParents (h : KeepsPending s s') (keep : Option Nat) (b : Nat)
    (xs : List Nat) : KeepsPending s (xs.foldl (fun t x => t.redirectParents keep x b) s') := by
  induction xs generalizing s' with
  | nil => exact h
  | cons x xs ih => exact ih (h.redirectParents keep x b)

section OrAnd

variable (a : Bool) (ty : GateType)

end OrAnd

end BC

end BcSat
