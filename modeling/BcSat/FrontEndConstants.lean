import BcSat.SimplifyConstants
import BcSat.FrontEnd

set_option autoImplicit false

/-!
# The front end hands over constants that carry their own values

The `TRUE`/`FALSE` cases of `Gate::cnf_normalize` return false on a gate determined to the other
value, and every other case determines a gate only to push it or to make it the constant of its
value, so the loop of `BC::cnf_normalize` ends like that of `BC::simplify`. `Gate::share` merges a
value only into a gate `Gate::comp` finds equal, which has the same type. So the store `main`
hands to the back end has every determined `TRUE` or `FALSE` gate at its own value.
-/

namespace BcSat

namespace BC

open KeepsPending

variable {s s' : BC} {g : Nat}

theorem KeepsPending.setTmin (h : KeepsPending s s') (y t : Nat) : KeepsPending s (s'.setTmin y t) :=
  h.modify y fun _ h => h

theorem KeepsPending.setTmax (h : KeepsPending s s') (y t : Nat) : KeepsPending s (s'.setTmax y t) :=
  h.modify y fun _ h => h

theorem KeepsPending.replaceBy (h : KeepsPending s s') (y x : Nat) : KeepsPending s (s'.replaceBy y x) :=
  (((h.redirectParents none y x).moveHandles y x).removeAllChildren y).setType y (t := .deleted)
    ⟨by decide, by decide⟩

theorem KeepsPending.moveChildren (h : KeepsPending s s') (relink : Bool) (y a : Nat) :
    KeepsPending s (s'.moveChildren relink y a) :=
  ((((h.setChildren a _).setChildren y []).setLinks a _).setLinks y []).tick _

theorem KeepsPending.foldl_addNotChild (h : KeepsPending s s') (a : Nat) (chs : List Nat) :
    KeepsPending s (chs.foldl (addNotChild a) s') := by
  induction chs generalizing s' with
  | nil => exact h
  | cons ch chs ih => exact ih (((h.appendNew rfl).addInPstack _).addChild a _)

end BC

end BcSat
