import Mathlib.Data.List.Sort
import Mathlib.Data.List.GetD
import BcSat.Circuit

set_option autoImplicit false

/-!
# The gate store while rewriting

The store the rewriting passes of `gate.cc` work on (`class BC`): the gates, the propagation
stack `pstack` with the `in_pstack` flags, the `changed` flag and the knob
`may_transform_input_gates`, together with the routines that edit edges (`ChildAssoc`), push
gates, turn a gate into a constant and create gates.

Each edge carries the time it was last linked into its child's parents list (by `add_child`
or `change_child`); a gate's parents list is read off these times, most recently linked first,
as `ChildAssoc::link_child` puts a new edge at its head.
-/

namespace BcSat

/-- `class BC` as the rewriting passes see it. The stack is listed top first; a gate's
`in_pstack` flag is set exactly when it is on the stack. -/
structure BC where
  circuit : Circuit
  pstack : List Nat := []
  changed : Bool := false
  mayTransformInputGates : Bool := true
  /-- For each gate, the link times of the edges of its children list, in its order. -/
  links : List (List Nat) := []
  /-- The last link time given out; an edge without a time is older than every other. -/
  clock : Nat := 0
  deriving DecidableEq, Repr

/-- Toggles between `ODD` and `EVEN`. -/
def GateType.flipParity : GateType → GateType
  | .odd => .even
  | .even => .odd
  | t => t

namespace BC

variable (s : BC)

def gate (g : Nat) : Gate := s.circuit.gate g

def size : Nat := s.circuit.size

def modify (g : Nat) (f : Gate → Gate) : BC := { s with circuit := s.circuit.modify g f }

def setTemp (g : Nat) (t : Int) : BC := s.modify g fun gt => { gt with temp := t }

def setChildren (g : Nat) (chs : List Nat) : BC :=
  s.modify g fun gt => { gt with children := chs }

def setType (g : Nat) (t : GateType) : BC := s.modify g fun gt => { gt with type := t }

/-- Determines gate `g` to `v`. -/
def determine (g : Nat) (v : Bool) : BC :=
  s.modify g fun gt => { gt with determined := true, value := v }

/-- `Gate::add_in_pstack`. -/
def addInPstack (g : Nat) : BC := if g ∈ s.pstack then s else { s with pstack := g :: s.pstack }

/-- The link time of the `i`-th edge of gate `p`. -/
def linkTime (p i : Nat) : Nat := (s.links.getD p []).getD i 0

/-- The link times of the edges of `p`, one per child. -/
def linkTimes (p : Nat) : List Nat := (List.range (s.gate p).children.length).map (s.linkTime p)

def setLinks (p : Nat) (l : List Nat) : BC :=
  { s with links := (s.links ++ List.replicate (p + 1 - s.links.length) []).set p l }

/-- Gives out `n` link times. -/
def tick (n : Nat) : BC := { s with clock := s.clock + n }

/-- The edges into `c`, as parent and position in its children list, in the order of the parents
list of `c`. The edges of the input count as linked gate after gate in store order, each gate's
children from the last to the first, as the constructors of `Gate` link them. -/
def parentEdges (c : Nat) : List (Nat × Nat) :=
  ((List.range s.size).reverse.flatMap fun p =>
    ((List.range (s.gate p).children.length).filter fun i => (s.gate p).children.getD i 0 = c).map
      (p, ·)).insertionSort fun a b => s.linkTime b.1 b.2 ≤ s.linkTime a.1 a.2

/-- The parents list of `c`, one entry per edge. -/
def parents (c : Nat) : List Nat := (s.parentEdges c).map Prod.fst

/-- The number of edges into `g`: the length of its parents list in the source. -/
def nofParentEdges (g : Nat) : Nat :=
  (List.range s.size).foldr (fun p n => (s.gate p).children.count g + n) 0

/-- `Gate::add_parents_in_pstack`. -/
def addParentsInPstack (g : Nat) : BC := (s.parents g).foldl addInPstack s

/-- `Gate::add_children_in_pstack`. -/
def addChildrenInPstack (g : Nat) : BC := (s.gate g).children.foldl addInPstack s

/-- Pushes `g` if no edge is left into it (`if(!child->parents) child->add_in_pstack(bc)`). -/
def pushIfOrphan (g : Nat) : BC := if s.parents g = [] then s.addInPstack g else s

/-- `Gate::add_child`: the new edge goes to the front of the children list and of the parents
list of `ch`. -/
def addChild (g ch : Nat) : BC :=
  ((s.setChildren g (ch :: (s.gate g).children)).setLinks g ((s.clock + 1) :: s.linkTimes g)).tick 1

/-- `x->children->child`, `none` for a gate without children. -/
def headChild (x : Nat) : Option Nat := (s.gate x).children.head?

/-- `Gate::remove_all_children`. -/
def removeAllChildren (g : Nat) : BC := (s.setChildren g []).setLinks g []

/-- The loop of `transform_into_constant`: deletes the edges of `g` from the front, pushing
every child left without parents. -/
def popChildren (g : Nat) : List Nat → BC → BC
  | [], s => s
  | ch :: rest, s =>
    popChildren g rest (((s.setChildren g rest).setLinks g (s.linkTimes g).tail).pushIfOrphan ch)

/-- `Gate::transform_into_constant`; `none` is the failed `assert(value == v)`. -/
def transformIntoConstant (g : Nat) (v : Bool) : Option BC :=
  if (s.gate g).determined && (s.gate g).value != v then none
  else
    let s' := s.modify g fun gt =>
      { gt with determined := true, value := v, type := if v then .true else .false }
    some { popChildren g (s.gate g).children s' with changed := true }

/-- The step the rules take when a gate is trivially `v`: `return false` if it is determined to
the other value, else it becomes the constant and its parents are pushed. -/
def becomeConstant (g : Nat) (v : Bool) : Option (Bool × BC) :=
  if (s.gate g).determined && (s.gate g).value != v then some (false, s)
  else (s.transformIntoConstant g v).map fun s => (true, s.addParentsInPstack g)

/-- Appends a gate to the store, its children linked from the last to the first. -/
def append (gt : Gate) : BC :=
  let n := gt.children.length
  ({ s with circuit := ⟨s.circuit.gates ++ [gt]⟩ }.setLinks s.size
    ((List.range n).map fun i => s.clock + n - i)).tick n

/-- Modelled from the spec: `BC::install_gate` (bc.cc is not among the sources) gives a new gate
the next index and appends it to the store. -/
def installGate (gt : Gate) : BC × Nat := (s.append gt, s.size)

/-- Modelled from the spec: `BC::new_NOT` (bc.cc is not among the sources) installs a new gate
`NOT(ch)`. -/
def newNOT (ch : Nat) : BC × Nat := s.installGate { type := .not, children := [ch] }

/-- The link times after `change_child` on the edges `moved`, in that order. -/
def relinkTimes (moved : List (Nat × Nat)) : List (List Nat) :=
  (List.range s.size).map fun p => (List.range (s.gate p).children.length).map fun i =>
    match moved.indexOf? (p, i) with
    | some k => s.clock + k + 1
    | none => s.linkTime p i

/-- `ChildAssoc::change_child` on every edge into `old` whose parent is not `keep`, walking the
parents list of `old`: each edge keeps its place in the parent's children list, now goes to
`new`, and is linked at the front of the parents list of `new`. -/
def redirectParents (keep : Option Nat) (old new : Nat) : BC :=
  let moved := (s.parentEdges old).filter fun e => keep ≠ some e.1
  { s with
    circuit := ⟨s.circuit.gates.mapIdx fun p gt =>
      if keep = some p then gt
      else { gt with children := gt.children.map fun x => if x = old then new else x }⟩
    links := s.relinkTimes moved
    clock := s.clock + moved.length }

/-- Modelled from the spec: `Handle::change_gate` (handle.cc is not among the sources) moves
every handle of `g` to `g'`; here they go in front of those of `g'`. -/
def moveHandles (g g' : Nat) : BC :=
  (s.modify g' fun gt => { gt with handles := (s.gate g).handles ++ gt.handles }).modify g
    fun gt => { gt with handles := [] }

/-- A depth-first search from the gates `todo` for `b` that visits every gate once. -/
def searchFor (b : Nat) : Nat → List Nat → List Nat → Bool
  | 0, _, _ => false
  | _ + 1, [], _ => false
  | fuel + 1, x :: todo, seen =>
    if x = b then true
    else if x ∈ seen then searchFor b fuel todo seen
    else searchFor b fuel ((s.gate x).children ++ todo) (x :: seen)

/-- The number of edges in the store. -/
def edgeCount : Nat := s.circuit.gates.foldr (fun gt n => gt.children.length + n) 0

/-- Modelled from the spec: `BC::depends_on(a, b)` (bc.cc is not among the sources) tells
whether `b` is in the transitive child-closure of `a`. The search makes at most one step per
edge pushed, so `2 * edgeCount + 1` steps are enough. -/
def dependsOn (a b : Nat) : Bool := s.searchFor b (2 * s.edgeCount + 1) (s.gate a).children []

section Edits

variable {s} {g x : Nat}

@[simp] theorem circuit_gate : s.circuit.gate x = s.gate x := rfl

@[simp] theorem circuit_size : s.circuit.size = s.size := rfl

@[simp] theorem circuit_setLinks (l : List Nat) : (s.setLinks g l).circuit = s.circuit := rfl

@[simp] theorem pstack_setLinks (l : List Nat) : (s.setLinks g l).pstack = s.pstack := rfl

@[simp] theorem gate_setLinks (l : List Nat) : (s.setLinks g l).gate x = s.gate x := rfl

@[simp] theorem size_setLinks (l : List Nat) : (s.setLinks g l).size = s.size := rfl

@[simp] theorem circuit_tick (n : Nat) : (s.tick n).circuit = s.circuit := rfl

@[simp] theorem pstack_tick (n : Nat) : (s.tick n).pstack = s.pstack := rfl

@[simp] theorem gate_tick (n : Nat) : (s.tick n).gate x = s.gate x := rfl

@[simp] theorem size_tick (n : Nat) : (s.tick n).size = s.size := rfl

theorem mem_parents_iff {p c : Nat} : p ∈ s.parents c ↔ p < s.size ∧ c ∈ (s.gate p).children := by
  simp only [parents, parentEdges, List.mem_map, List.mem_insertionSort, List.mem_flatMap,
    List.mem_reverse, List.mem_range, List.mem_filter, decide_eq_true_eq]
  constructor
  · rintro ⟨_, ⟨q, hq, i, ⟨hi, hc⟩, rfl⟩, rfl⟩
    rw [List.getD_eq_getElem _ _ hi] at hc
    exact ⟨hq, hc ▸ List.getElem_mem hi⟩
  · rintro ⟨hp, hc⟩
    obtain ⟨i, hi, rfl⟩ := List.getElem_of_mem hc
    exact ⟨_, ⟨p, hp, i, ⟨hi, List.getD_eq_getElem _ _ hi⟩, rfl⟩, rfl⟩

theorem parents_eq_nil_iff {c : Nat} : s.parents c = [] ↔ ∀ p < s.size, c ∉ (s.gate p).children := by
  rw [List.eq_nil_iff_forall_not_mem]
  exact ⟨fun h p hp hc => h p (mem_parents_iff.2 ⟨hp, hc⟩), fun h p hp =>
    h p (mem_parents_iff.1 hp).1 (mem_parents_iff.1 hp).2⟩

@[simp] theorem circuit_addInPstack : (s.addInPstack g).circuit = s.circuit := by
  unfold addInPstack; split <;> rfl

@[simp] theorem gate_addInPstack : (s.addInPstack g).gate x = s.gate x := by
  simp only [gate, circuit_addInPstack]

@[simp] theorem size_addInPstack : (s.addInPstack g).size = s.size := by
  simp only [size, circuit_addInPstack]

@[simp] theorem size_modify (f : Gate → Gate) : (s.modify g f).size = s.size :=
  Circuit.size_modify _ _ _

theorem gate_modify (f : Gate → Gate) :
    (s.modify g f).gate x = if g = x ∧ x < s.size then f (s.gate x) else s.gate x :=
  Circuit.gate_modify _ _ _ _

@[simp] theorem gate_modify_self (f : Gate → Gate) (h : g < s.size) :
    (s.modify g f).gate g = f (s.gate g) := Circuit.gate_modify_self _ _ _ h

@[simp] theorem gate_modify_of_ne (f : Gate → Gate) (hne : g ≠ x) :
    (s.modify g f).gate x = s.gate x := Circuit.gate_modify_of_ne _ _ hne

@[simp] theorem size_setTemp (t : Int) : (s.setTemp g t).size = s.size := size_modify _

@[simp] theorem size_setChildren (chs : List Nat) : (s.setChildren g chs).size = s.size :=
  size_modify _

@[simp] theorem size_setType (t : GateType) : (s.setType g t).size = s.size := size_modify _

@[simp] theorem size_determine (v : Bool) : (s.determine g v).size = s.size := size_modify _

@[simp] theorem size_addChild (ch : Nat) : (s.addChild g ch).size = s.size := size_modify _

@[simp] theorem size_removeAllChildren : (s.removeAllChildren g).size = s.size := size_modify _

@[simp] theorem circuit_determine (v : Bool) : (s.determine g v).circuit = s.circuit.setValue g v :=
  rfl

@[simp] theorem size_append (gt : Gate) : (s.append gt).size = s.size + 1 := by
  simp [append, size, Circuit.size]

theorem gate_append (gt : Gate) : (s.append gt).gate x = if x = s.size then gt else s.gate x := by
  simp only [append, gate, size, Circuit.gate, Circuit.size, List.getD_eq_getElem?_getD]
  rcases Nat.lt_trichotomy x s.circuit.gates.length with hx | rfl | hx
  · simp [List.getElem?_append_left hx, hx.ne]
  · simp
  · simp [List.getElem?_eq_none (show s.circuit.gates.length ≤ x by omega),
      List.getElem?_eq_none (show (s.circuit.gates ++ [gt]).length ≤ x by simp; omega), hx.ne']

@[simp] theorem gate_append_self (gt : Gate) : (s.append gt).gate s.size = gt := by
  simp [gate_append]

@[simp] theorem gate_append_of_lt (gt : Gate) (h : x < s.size) : (s.append gt).gate x = s.gate x := by
  simp [gate_append, h.ne]

@[simp] theorem installGate_eq (gt : Gate) : s.installGate gt = (s.append gt, s.size) := rfl

@[simp] theorem newNOT_eq (ch : Nat) :
    s.newNOT ch = (s.append { type := .not, children := [ch] }, s.size) := rfl

theorem gate_redirectParents (keep : Option Nat) (a b : Nat) :
    (s.redirectParents keep a b).gate x = if keep = some x then s.gate x
      else { s.gate x with children := (s.gate x).children.map fun y => if y = a then b else y } := by
  simp only [redirectParents, gate, Circuit.gate, List.getD_eq_getElem?_getD, List.getElem?_mapIdx]
  cases s.circuit.gates[x]? <;> split_ifs <;> rfl

@[simp] theorem size_redirectParents (keep : Option Nat) (a b : Nat) :
    (s.redirectParents keep a b).size = s.size := by
  simp [redirectParents, size, Circuit.size]

@[simp] theorem size_moveHandles (a b : Nat) : (s.moveHandles a b).size = s.size := by
  simp [moveHandles]

@[simp] theorem gate_pushIfOrphan : (s.pushIfOrphan g).gate x = s.gate x := by
  unfold pushIfOrphan; split <;> simp

@[simp] theorem size_pushIfOrphan : (s.pushIfOrphan g).size = s.size := by
  unfold pushIfOrphan; split <;> simp

theorem gate_popChildren : ∀ (chs : List Nat) (s : BC), g < s.size →
    (popChildren g chs s).gate x =
      if x = g ∧ chs ≠ [] then { s.gate g with children := [] } else s.gate x
  | [], s, _ => by simp [popChildren]
  | ch :: rest, s, hg => by
    rw [popChildren, gate_popChildren rest _ (by simpa [setChildren] using hg)]
    by_cases hx : x = g
    · subst hx; cases rest <;> simp [setChildren, hg]
    · simp [setChildren, hx, Ne.symm hx]

@[simp] theorem size_popChildren : ∀ (chs : List Nat) (s : BC), (popChildren g chs s).size = s.size
  | [], s => rfl
  | ch :: rest, s => by rw [popChildren, size_popChildren rest]; simp [setChildren]

theorem transformIntoConstant_gate {v : Bool} {s' : BC} (hg : g < s.size)
    (h : s.transformIntoConstant g v = some s') :
    s'.size = s.size ∧ ∀ x, s'.gate x = if x = g then
      { s.gate g with determined := true, value := v, type := if v then .true else .false,
                      children := [] } else s.gate x := by
  unfold transformIntoConstant at h
  split at h
  · cases h
  · cases h
    refine ⟨show (popChildren g _ _).size = _ by simp, fun x => ?_⟩
    show (popChildren g _ _).gate x = _
    rw [gate_popChildren _ _ (by simpa using hg)]
    by_cases hx : x = g
    · subst hx
      simp only [gate_modify_self _ hg, if_true, true_and]
      cases hgt : s.gate x
      split_ifs <;> simp_all
    · simp [hx, Ne.symm hx]

end Edits

/-- Pushes every gate, in store order. -/
def pushAll : BC := (List.range s.size).foldl addInPstack s

/-- Modelled from the spec: the propagation loop of `BC::simplify` and `BC::cnf_normalize`
(bc.cc is not among the sources) pops the top of the stack and calls `step` on it, until the
stack is empty or a call returns false. The fuel bounds the number of pops; `none` is the fuel
running out or a call that fails. -/
def runStack (step : BC → Nat → Option (Bool × BC)) (fuel : Nat) (s : BC) :
    Option (Bool × BC) :=
  match s.pstack, fuel with
  | [], _ => some (true, s)
  | _ :: _, 0 => none
  | g :: rest, fuel + 1 => (step { s with pstack := rest } g).bind fun (ok, s) =>
    if ok then runStack step fuel s else some (false, s)

theorem runStack_of_pstack_nil (step : BC → Nat → Option (Bool × BC)) {fuel : Nat} {s : BC}
    (hs : s.pstack = []) : runStack step fuel s = some (true, s) := by
  rw [runStack.eq_def, hs]

theorem runStack_mono (step : BC → Nat → Option (Bool × BC)) :
    ∀ {fuel fuel' : Nat} {s : BC} {r : Bool × BC}, fuel ≤ fuel' →
      runStack step fuel s = some r → runStack step fuel' s = some r := by
  intro fuel
  induction fuel with
  | zero =>
    intro fuel' s r _ h
    cases hs : s.pstack with
    | nil => rwa [runStack_of_pstack_nil step hs] at h ⊢
    | cons g rest => rw [runStack.eq_def, hs] at h; cases h
  | succ fuel ih =>
    intro fuel' s r hle h
    obtain ⟨fuel', rfl⟩ : ∃ f, fuel' = f + 1 := ⟨fuel' - 1, by omega⟩
    cases hs : s.pstack with
    | nil => rwa [runStack_of_pstack_nil step hs] at h ⊢
    | cons g rest =>
      rw [runStack.eq_def, hs] at h ⊢
      cases hst : step { s with pstack := rest } g with
      | none => simp [hst] at h
      | some p =>
        simp only [hst, Option.some_bind] at h ⊢
        split at h
        · rw [if_pos ‹_›]; exact ih (by omega) h
        · rw [if_neg ‹_›]; exact h

/-- A property of the circuit that every call keeps holds when the loop ends: the pops touch
only the stack. -/
theorem runStack_invariant (step : BC → Nat → Option (Bool × BC)) (P : Circuit → Prop)
    (hstep : ∀ s g r, P s.circuit → step s g = some r → P r.2.circuit) :
    ∀ {fuel : Nat} {s : BC} {r : Bool × BC}, P s.circuit → runStack step fuel s = some r →
      P r.2.circuit := by
  intro fuel
  induction fuel with
  | zero =>
    intro s r hs h
    cases hp : s.pstack with
    | nil => rw [runStack_of_pstack_nil step hp] at h; cases h; exact hs
    | cons g rest => rw [runStack.eq_def, hp] at h; cases h
  | succ fuel ih =>
    intro s r hs h
    cases hp : s.pstack with
    | nil => rw [runStack_of_pstack_nil step hp] at h; cases h; exact hs
    | cons g rest =>
      rw [runStack.eq_def, hp] at h
      obtain ⟨⟨ok, s'⟩, hst, h⟩ := Option.bind_eq_some.1 h
      have hs' := hstep { s with pstack := rest } g _ hs hst
      dsimp only at h
      split at h
      · exact ih hs' h
      · cases h; exact hs'

end BC

end BcSat
