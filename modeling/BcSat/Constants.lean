import BcSat.Store

set_option autoImplicit false

/-!
# Constants against their values stay on the stack

A `TRUE` or `FALSE` gate may be determined to the other value when a rule propagates a value
down to it. The propagation loops of `BC::simplify` and `BC::cnf_normalize` keep the invariant
that every such gate is on the stack: a rule that determines a gate pushes it, and the
`TRUE`/`FALSE` cases return false on a gate determined against its type. A loop that ends with
an empty stack so leaves every constant carrying its own value.
-/

namespace BcSat

/-- A determined `TRUE` or `FALSE` gate carries its own value. -/
def Gate.OwnValue (gt : Gate) : Prop :=
  gt.determined = true → (gt.type = .true → gt.value = true) ∧ (gt.type = .false → gt.value = false)

instance (gt : Gate) : Decidable gt.OwnValue := inferInstanceAs (Decidable (_ → _))

theorem Gate.ownValue_of_type {gt : Gate} (h : gt.type ≠ .true ∧ gt.type ≠ .false) :
    gt.OwnValue := fun _ => ⟨fun h' => absurd h' h.1, fun h' => absurd h' h.2⟩

theorem Circuit.constantsAgree_iff {c : Circuit} :
    c.ConstantsAgree ↔ ∀ g < c.size, (c.gate g).OwnValue := Iff.rfl

namespace BC

variable {s s' s'' : BC} {g x : Nat}

/-- `s'` keeps the stack of `s` and leaves no new gate against its value off its stack. -/
structure KeepsPending (s s' : BC) : Prop where
  pstack : ∀ x ∈ s.pstack, x ∈ s'.pstack
  own : ∀ x, x ∉ s'.pstack → (s.gate x).OwnValue → (s'.gate x).OwnValue

namespace KeepsPending

theorem refl (s : BC) : KeepsPending s s := ⟨fun _ h => h, fun _ _ h => h⟩

theorem trans (h₁ : KeepsPending s s') (h₂ : KeepsPending s' s'') : KeepsPending s s'' :=
  ⟨fun x hx => h₂.pstack x (h₁.pstack x hx),
    fun x hx ho => h₂.own x hx (h₁.own x (fun h => hx (h₂.pstack x h)) ho)⟩

theorem of_gates (hp : s'.pstack = s.pstack) (h : ∀ x, (s.gate x).OwnValue → (s'.gate x).OwnValue) :
    KeepsPending s s' :=
  ⟨fun _ hx => hp ▸ hx, fun x _ ho => h x ho⟩

theorem of_circuit_eq (h : KeepsPending s s') (hc : s''.circuit = s'.circuit)
    (hp : s''.pstack = s'.pstack) : KeepsPending s s'' :=
  ⟨fun x hx => hp ▸ h.pstack x hx, fun x hx ho => by
    rw [← circuit_gate, hc]; exact h.own x (hp ▸ hx) ho⟩

theorem setLinks (h : KeepsPending s s') (p : Nat) (l : List Nat) :
    KeepsPending s (s'.setLinks p l) := h.of_circuit_eq rfl rfl

theorem tick (h : KeepsPending s s') (n : Nat) : KeepsPending s (s'.tick n) := h.of_circuit_eq rfl rfl

theorem changed (h : KeepsPending s s') (b : Bool) : KeepsPending s { s' with changed := b } :=
  h.of_circuit_eq rfl rfl

theorem modify (h : KeepsPending s s') (y : Nat) {f : Gate → Gate}
    (hf : ∀ gt, gt.OwnValue → (f gt).OwnValue) : KeepsPending s (s'.modify y f) :=
  h.trans (of_gates rfl fun x ho => by rw [gate_modify]; split_ifs; exacts [hf _ ho, ho])

theorem setTemp (h : KeepsPending s s') (y : Nat) (t : Int) : KeepsPending s (s'.setTemp y t) :=
  h.modify y fun _ h => h

theorem setChildren (h : KeepsPending s s') (y : Nat) (chs : List Nat) :
    KeepsPending s (s'.setChildren y chs) :=
  h.modify y fun _ h => h

theorem setType (h : KeepsPending s s') (y : Nat) {t : GateType} (ht : t ≠ .true ∧ t ≠ .false) :
    KeepsPending s (s'.setType y t) :=
  h.modify y fun _ _ => Gate.ownValue_of_type ht

theorem determine (h : KeepsPending s s') (y : Nat) {v : Bool}
    (hv : ((s'.gate y).type = .true → v = true) ∧ ((s'.gate y).type = .false → v = false)) :
    KeepsPending s (s'.determine y v) :=
  h.trans (of_gates rfl fun x ho => by
    rw [BC.determine, gate_modify]
    split_ifs with h
    · obtain ⟨rfl, -⟩ := h; exact fun _ => hv
    · exact ho)

theorem addInPstack (h : KeepsPending s s') (y : Nat) : KeepsPending s (s'.addInPstack y) := by
  refine h.trans ?_
  unfold BC.addInPstack
  split
  · exact refl s'
  · exact ⟨fun x hx => List.mem_cons_of_mem y hx, fun _ _ h => h⟩

theorem foldl_addInPstack (h : KeepsPending s s') (l : List Nat) :
    KeepsPending s (l.foldl BC.addInPstack s') := by
  induction l generalizing s' with
  | nil => exact h
  | cons y l ih => exact ih (h.addInPstack y)

theorem addParentsInPstack (h : KeepsPending s s') (y : Nat) :
    KeepsPending s (s'.addParentsInPstack y) :=
  h.foldl_addInPstack _

theorem addChildrenInPstack (h : KeepsPending s s') (y : Nat) :
    KeepsPending s (s'.addChildrenInPstack y) :=
  h.foldl_addInPstack _

theorem pushIfOrphan (h : KeepsPending s s') (y : Nat) : KeepsPending s (s'.pushIfOrphan y) := by
  unfold BC.pushIfOrphan; split
  · exact h.addInPstack y
  · exact h

theorem removeAllChildren (h : KeepsPending s s') (y : Nat) :
    KeepsPending s (s'.removeAllChildren y) :=
  (h.setChildren y []).setLinks y []

theorem addChild (h : KeepsPending s s') (y ch : Nat) : KeepsPending s (s'.addChild y ch) :=
  ((h.setChildren y _).setLinks y _).tick 1

theorem foldl_addChild (h : KeepsPending s s') (y : Nat) (l : List Nat) :
    KeepsPending s (l.foldl (fun s ch => s.addChild y ch) s') := by
  induction l generalizing s' with
  | nil => exact h
  | cons ch l ih => exact ih (h.addChild y ch)

theorem redirectParents (h : KeepsPending s s') (keep : Option Nat) (a b : Nat) :
    KeepsPending s (s'.redirectParents keep a b) :=
  h.trans (of_gates rfl fun x ho => by rw [gate_redirectParents]; split_ifs; exacts [ho, ho])

theorem moveHandles (h : KeepsPending s s') (a b : Nat) : KeepsPending s (s'.moveHandles a b) :=
  h.trans (of_gates rfl fun x ho => by simp only [BC.moveHandles, gate_modify]; split_ifs <;> exact ho)

theorem popChildren (h : KeepsPending s s') (y : Nat) (chs : List Nat) :
    KeepsPending s (BC.popChildren y chs s') := by
  induction chs generalizing s' with
  | nil => exact h
  | cons ch rest ih => exact ih (((h.setChildren y rest).setLinks y _).pushIfOrphan ch)

theorem transformIntoConstant (h : KeepsPending s s') {v : Bool} {s'' : BC}
    (ht : s'.transformIntoConstant g v = some s'') : KeepsPending s s'' := by
  unfold BC.transformIntoConstant at ht
  split at ht
  · cases ht
  · cases ht
    refine ((h.modify g fun gt _ _ => ?_).popChildren g _).changed true
    cases v <;> simp

theorem becomeConstant (h : KeepsPending s s') {v : Bool} {r : Bool × BC}
    (hb : s'.becomeConstant g v = some r) : KeepsPending s r.2 := by
  unfold BC.becomeConstant at hb
  split at hb
  · cases hb; exact h
  · obtain ⟨s₁, h₁, rfl⟩ := Option.map_eq_some'.1 hb
    exact (h.transformIntoConstant h₁).addParentsInPstack g

theorem append (h : KeepsPending s s') {gt : Gate} (hgt : gt.OwnValue) :
    KeepsPending s (s'.append gt) :=
  h.trans (of_gates rfl fun x ho => by rw [gate_append]; split_ifs; exacts [hgt, ho])

theorem setTemps (h : KeepsPending s s') (xs : List Nat) (t : Int) :
    KeepsPending s (xs.foldl (fun s x => s.setTemp x t) s') := by
  induction xs generalizing s' with
  | nil => exact h
  | cons y xs ih => exact ih (h.setTemp y t)

end KeepsPending

end BC

end BcSat
