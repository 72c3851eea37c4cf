import BcSat.Store

set_option autoImplicit false

/-!
# Structural sharing

`Gate::comp`, `Gate::sort_children` and `Gate::share` of `gate.cc`, with the hash table and the
loop of `BC::share` modelled from the spec (gatehash.cc and bc.cc are not among the sources).
`Gate::share` visits the children of a gate before the gate itself, sorts the children of a
commutative gate, and merges the gate into an equal one already in the table. The results of the
calls on the children are not looked at.
-/

namespace BcSat

/-- The position of a type in `Gate::Type`, the order `Gate::comp` compares types in. -/
def GateType.rank : GateType → Nat
  | .equiv => 0 | .or => 1 | .and => 2 | .even => 3 | .odd => 4 | .ite => 5 | .not => 6
  | .true => 7 | .false => 8 | .var => 9 | .threshold => 10 | .atleast => 11 | .ref => 12
  | .undef => 13 | .deleted => 14

/-- Modelled from the spec: `Gate::is_commutative` (gate.hh is not among the sources) holds of
the types whose children are an unordered collection. -/
def GateType.isCommutative (t : GateType) : Bool :=
  t = .or || t = .and || t = .equiv || t = .odd || t = .even || t = .threshold || t = .atleast

/-- The comparison of child lists in `Gate::comp`: by index, position by position, the shorter
list first. -/
def compChildren : List Nat → List Nat → Ordering
  | [], [] => .eq
  | [], _ :: _ => .lt
  | _ :: _, [] => .gt
  | x :: xs, y :: ys => if x < y then .lt else if y < x then .gt else compChildren xs ys

theorem compChildren_eq_iff : ∀ xs ys : List Nat, compChildren xs ys = .eq ↔ xs = ys
  | [], [] => by simp [compChildren]
  | [], _ :: _ => by simp [compChildren]
  | _ :: _, [] => by simp [compChildren]
  | x :: xs, y :: ys => by
    simp only [compChildren, List.cons.injEq]
    split_ifs with h₁ h₂
    · simp only [reduceCtorEq, false_iff]; omega
    · simp only [reduceCtorEq, false_iff]; omega
    · rw [compChildren_eq_iff xs ys, show x = y by omega]; simp

namespace BC

variable (s : BC)

/-- `Gate::comp`; `none` is the `internal_error` on an `UNDEF` or `DELETED` gate. -/
def comp (g h : Nat) : Option Ordering :=
  let a := s.gate g
  let b := s.gate h
  if g = h then some .eq
  else if a.type.rank < b.type.rank then some .lt
  else if b.type.rank < a.type.rank then some .gt
  else match a.type with
    | .false | .true => some .eq
    | .var => some (if g < h then .lt else .gt)
    | .threshold =>
      some (if a.tmin < b.tmin then .lt else if b.tmin < a.tmin then .gt
        else if a.tmax < b.tmax then .lt else if b.tmax < a.tmax then .gt
        else compChildren a.children b.children)
    | .atleast =>
      some (if a.tmin < b.tmin then .lt else if b.tmin < a.tmin then .gt
        else compChildren a.children b.children)
    | .undef | .deleted => none
    | _ => some (compChildren a.children b.children)

end BC

/-- One pass of the radix sort of `sort_children`: a stable distribution of the indices over the
`N = 2 << 4` buckets of the digit `(index >> shift) & MASK`. -/
def radixPass (shift : Nat) (xs : List Nat) : List Nat :=
  (List.range 32).flatMap fun d => xs.filter fun x => (x >>> shift) % 32 = d

/-- The passes of `sort_children`, while the largest index shifted right by `4` per pass is not
zero; the shift advances by `SHIFT = 4`. The fuel bounds the number of passes. -/
def radixPasses : Nat → Nat → Nat → List Nat → List Nat
  | 0, _, _, xs => xs
  | fuel + 1, largest, shift, xs =>
    if largest = 0 then xs else radixPasses fuel (largest >>> 4) (shift + 4) (radixPass shift xs)

/-- The scan of `sort_children` that checks whether the indices are already non-decreasing. -/
def alreadySorted : List Nat → Nat → Bool
  | [], _ => true
  | x :: xs, largest => largest ≤ x && alreadySorted xs x

/-- The indices of the children as `sort_children` leaves them: unchanged when they are already
in non-decreasing order, else sorted by the radix passes. -/
def sortIndices (xs : List Nat) : List Nat :=
  if alreadySorted xs 0 then xs
  else radixPasses (xs.foldl max 0) (xs.foldl max 0) 0 xs

namespace BC

variable (s : BC)

/-- `Gate::sort_children`. -/
def sortChildren (g : Nat) : BC :=
  let chs := (s.gate g).children
  -- unless the scan finds them sorted, every edge is moved by `change_child`, from the first on
  let sorted := alreadySorted chs 0
  if (s.gate g).type.isCommutative then
    ((s.setChildren g (sortIndices chs)).setLinks g
      (if sorted then s.linkTimes g else (List.range chs.length).map (s.clock + · + 1))).tick
      (if sorted then 0 else chs.length)
  else s

theorem circuit_sortChildren (g : Nat) : (s.sortChildren g).circuit =
    if (s.gate g).type.isCommutative then (s.setChildren g (sortIndices (s.gate g).children)).circuit
    else s.circuit := by
  unfold sortChildren; split_ifs <;> rfl

/-- The state `BC::share` threads through the calls: the store, the gates in the hash table (in
order of insertion) and the cache of `Gate::share` indexed by `Gate::index`. -/
structure ShareState where
  bc : BC
  table : List Nat
  cache : Nat → Option Nat

/-- The first gate of `hs` equal to `g` under `Gate::comp`; `none` is an `internal_error` of
`comp`. -/
def findEqual (g : Nat) : List Nat → Option (Option Nat)
  | [] => some none
  | h :: hs => (s.comp h g).bind fun o => if o = .eq then some (some h) else findEqual g hs

/-- Modelled from the spec: `GateHash::test_and_set` (gatehash.cc is not among the sources)
returns a gate of the table equal to `g` under `Gate::comp` and otherwise inserts `g`. -/
def testAndSet (table : List Nat) (g : Nat) : Option (Nat × List Nat) :=
  (s.findEqual g table).map fun
    | some h => (h, table)
    | none => (g, table ++ [g])

/-- The merge of `Gate::share` once the table answered `e ≠ g`: the determined values are
merged (`false` on a conflict), and `g` loses its children, its parents and handles go to `e`,
and it is deleted. -/
def mergeInto (g e : Nat) : Bool × BC :=
  let gt := s.gate g
  let merged : Option BC :=
    if gt.determined then
      if (s.gate e).determined then (if (s.gate e).value ≠ gt.value then none else some s)
      else some (s.determine e gt.value)
    else some s
  match merged with
  | none => (false, s)
  | some s =>
    let s := ((s.removeAllChildren g).redirectParents none g e).moveHandles g e
    (true, { s.setType g .deleted with changed := true })

end BC

open BC in
/-- `Gate::share`, with the fuel bounding the depth of the recursion: `none` is the fuel running
out or an `internal_error` of `comp`. The calls on the children are made one position at a time,
reading the child at that position when the call is made; their results are dropped. -/
def shareGate : Nat → Nat → ShareState → Option (Bool × ShareState)
  | 0, _, _ => none
  | fuel + 1, g, st =>
    let gt := st.bc.gate g
    if gt.type = .deleted ∨ gt.type = .var ∨ (st.cache g).isSome then some (true, st)
    else
      let visit (st : ShareState) (i : Nat) : Option ShareState :=
        match (st.bc.gate g).children[i]? with
        | none => some st
        | some ch => (shareGate fuel ch st).map Prod.snd
      ((List.range gt.children.length).foldlM visit st).bind fun st =>
        let bc := st.bc.sortChildren g
        (bc.testAndSet st.table g).map fun (e, table) =>
          let cache := fun x => if x = g then some e else st.cache x
          if e = g then (true, ⟨bc, table, cache⟩)
          else
            let (ok, bc) := bc.mergeInto g e
            (ok, ⟨bc, table, cache⟩)

/-- Modelled from the spec: `BC::share` (bc.cc is not among the sources) calls `Gate::share` on
every gate in store order with an empty hash table and cache, and fails at the first call that
returns false. The fuel of each call is the size of the store. -/
def BC.share (s : BC) : Option (Bool × BC) :=
  let rec go : List Nat → ShareState → Option (Bool × BC)
    | [], st => some (true, st.bc)
    | g :: gs, st => (shareGate (s.size + 1) g st).bind fun (ok, st) =>
      if ok then go gs st else some (false, st.bc)
  go (List.range s.size) ⟨s, [], fun _ => none⟩

/-- The result of the call on a child is dropped. A child first reached from a parent that comes
before it in the store, and merged into an equal gate determined to the other value, makes that
call return false unseen: `BC::share` succeeds and leaves two equal gates, `NOT(x) = T` and
`NOT(x) = F`. -/
theorem share_drops_child_conflict :
    let c : Circuit := ⟨[{ type := .var, children := [] },
      { type := .not, children := [0], determined := true, value := true },
      { type := .not, children := [3] },
      { type := .not, children := [0], determined := true, value := false }]⟩
    c.Acyclic ∧ ∃ s, ({ circuit := c } : BC).share = some (true, s) ∧ s.comp 1 3 = some .eq ∧
      (s.gate 1).determined ∧ (s.gate 3).determined ∧ (s.gate 1).value ≠ (s.gate 3).value :=
  ⟨⟨.ofCheck (fun g => if g = 0 then 0 else if g = 2 then 2 else 1) (by decide)⟩,
    _, rfl, rfl, rfl, rfl, by decide⟩

/-- The same drop, seen from one call: once `NOT(x) = T` is in the table, `Gate::share` on
`NOT(x) = F` tries to merge it into the gate determined to the other value and returns false, but
`Gate::share` on its parent makes that call and still returns true. -/
theorem shareGate_parent_ignores_conflict :
    let c : Circuit := ⟨[{ type := .var, children := [] },
      { type := .not, children := [0], determined := true, value := true },
      { type := .not, children := [3] },
      { type := .not, children := [0], determined := true, value := false }]⟩
    let st : BC.ShareState := ⟨{ circuit := c }, [1], fun x => if x = 1 then some 1 else none⟩
    c.Acyclic ∧ (shareGate 5 3 st).map Prod.fst = some false ∧
      (shareGate 5 2 st).map Prod.fst = some true :=
  ⟨⟨.ofCheck (fun g => if g = 0 then 0 else if g = 2 then 2 else 1) (by decide)⟩, rfl, rfl⟩

end BcSat
