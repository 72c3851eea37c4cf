import BcSat.Store

set_option autoImplicit false

/-!
# `Gate::simplify`

One call of the simplifier on gate `g` of the store, rule by rule as `gate.cc` has them. A call
gives `some (ok, s')`, where `ok` is the Boolean the source returns (`false` when it derives an
inconsistency) and `s'` the store after the call, or `none` for an `internal_error`, a failed
`assert` or a read through a missing child. `DEBUG_ASSERT`s are compiled out and not modelled.

The loops that delete edges while they walk the children list keep the children already walked
(`kept`) and those still to walk (`rest`); the store's list is `kept ++ rest` whenever another
gate's parents are read.
-/

namespace BcSat

namespace BC

variable (s : BC)

/-- Clears the `temp` of every gate in `xs` and, for a `NOT`, of its child. -/
def clearTemps : List Nat → BC → Option BC
  | [], s => some s
  | x :: xs, s =>
    let s := s.setTemp x 0
    if (s.gate x).type = .not then
      (s.headChild x).bind fun gc => clearTemps xs (s.setTemp gc 0)
    else clearTemps xs s

/-- Sets the `temp` of every gate in `xs` to `t`. -/
def setTemps (xs : List Nat) (t : Int) : BC := xs.foldl (fun s x => s.setTemp x t) s

/-- The scan of `remove_g_not_g_and_duplicate_children`: `temp = 1` marks a child seen, `temp = 2`
a gate seen under a `NOT`. Returns whether a pair `x, NOT(x)` was found; a later duplicate of an
undetermined child is deleted. -/
def gNotGScan (g : Nat) (kept : List Nat) : List Nat → BC → Option (Bool × BC)
  | [], s => some (false, s)
  | ch :: rest, s =>
    if (s.gate ch).determined then gNotGScan g (kept ++ [ch]) rest s
    else if (s.gate ch).temp = 2 then some (true, s)
    else if (s.gate ch).temp = 1 then
      gNotGScan g kept rest ((s.setChildren g (kept ++ rest)).setLinks g ((s.linkTimes g).eraseIdx kept.length))
    else
      let s := s.setTemp ch 1
      if (s.gate ch).type = .not then
        (s.headChild ch).bind fun gc =>
          if (s.gate gc).temp = 1 then some (true, s)
          else gNotGScan g (kept ++ [ch]) rest (s.setTemp gc 2)
      else gNotGScan g (kept ++ [ch]) rest s

/-- `Gate::remove_g_not_g_and_duplicate_children`. -/
def removeGNotGAndDuplicateChildren (g : Nat) : Option (Bool × BC) :=
  let t := (s.gate g).type
  if !(t = .or || t = .and || t = .equiv) then some (true, s)
  else (clearTemps (s.gate g).children s).bind fun s =>
    (gNotGScan g [] (s.gate g).children s).bind fun (found, s) =>
      (clearTemps (s.gate g).children s).bind fun s =>
        if found then s.becomeConstant g (t = .or)
        else some (true, if (s.gate g).children.length = 1 then s.addInPstack g else s)

/-- The scan of `remove_parity_duplicate_children`: a second occurrence of an undetermined child
is deleted with the first one. -/
def parityScan (g : Nat) (kept : List Nat) : List Nat → BC → Option BC
  | [], s => some s
  | ch :: rest, s =>
    if (s.gate ch).determined then parityScan g (kept ++ [ch]) rest s
    else if (s.gate ch).temp = 1 then
      let s := s.setTemp ch 0
      if ch ∈ kept then
        let l := ((s.linkTimes g).eraseIdx kept.length).eraseIdx (kept.indexOf ch)
        let kept := kept.erase ch
        parityScan g kept rest (((s.setChildren g (kept ++ rest)).setLinks g l).pushIfOrphan ch)
      else none
    else parityScan g (kept ++ [ch]) rest (s.setTemp ch 1)

/-- `Gate::remove_parity_duplicate_children`. -/
def removeParityDuplicateChildren (g : Nat) : Option (Bool × BC) :=
  let t := (s.gate g).type
  if !(t = .odd || t = .even) then some (true, s)
  else (parityScan g [] (s.gate g).children (s.setTemps (s.gate g).children 0)).bind fun s =>
    let s := s.setTemps (s.gate g).children 0
    if (s.gate g).children = [] then s.becomeConstant g (t = .even)
    else some (true, if (s.gate g).children.length = 1 then s.addInPstack g else s)

/-- The bounds of a cardinality gate after a pair `x, NOT(x)` is dropped:
`[L,U](x,~x,y,z) = [L-1,U-1](y,z)`, or false when `U = 0`. The inner `some b` is a return. -/
def dropPair (g : Nat) : Option (Option Bool × BC) :=
  if (s.gate g).tmax = 0 then (s.becomeConstant g false).map fun (b, s) => (some b, s)
  else some (none, s.modify g fun gt => { gt with tmin := gt.tmin - 1, tmax := gt.tmax - 1 })

/-- The scan of `remove_cardinality_g_not_g`. The inner `some b` is a return from the routine;
`none` is the end of the scan. -/
def cardinalityScan (g : Nat) (kept : List Nat) : List Nat → BC → Option (Option Bool × BC)
  | [], s => some (none, s)
  | ch :: rest, s =>
    if (s.gate ch).temp = 2 then
      -- `ch` was seen under a `NOT`: drop the first such `NOT` and `ch`
      let s := s.setTemp ch 0
      match kept.findIdx? (fun x => (s.gate x).type = .not ∧ s.headChild x = some ch) with
      | none => none
      | some i =>
        let ch2 := kept.getD i 0
        let l := (s.linkTimes g).eraseIdx i
        let kept := kept.eraseIdx i
        let s := (((s.setTemp ch2 0).setChildren g (kept ++ ch :: rest)).setLinks g l).pushIfOrphan ch2
        (((s.setChildren g (kept ++ rest)).setLinks g (l.eraseIdx kept.length)).dropPair g).bind
          fun (r, s) =>
          match r with
          | some b => some (some b, s)
          | none => cardinalityScan g kept rest s
    else
      let s := s.setTemp ch 1
      if (s.gate ch).type = .not then
        (s.headChild ch).bind fun gc =>
          if (s.gate gc).temp = 1 then
            -- `gc` was seen: drop its first occurrence and `NOT(gc)`
            let s := (s.setTemp ch 0).setTemp gc 0
            if gc ∈ kept then
              let l := ((s.linkTimes g).eraseIdx kept.length).eraseIdx (kept.indexOf gc)
              let kept := kept.erase gc
              ((((s.setChildren g (kept ++ rest)).setLinks g l).pushIfOrphan ch).dropPair g).bind
                fun (r, s) =>
                match r with
                | some b => some (some b, s)
                | none => cardinalityScan g kept rest s
            else none
          else cardinalityScan g (kept ++ [ch]) rest (s.setTemp gc 2)
      else cardinalityScan g (kept ++ [ch]) rest s

/-- `Gate::remove_cardinality_g_not_g`. -/
def removeCardinalityGNotG (g : Nat) : Option (Bool × BC) :=
  if (s.gate g).type ≠ .threshold then some (true, s)
  else (clearTemps (s.gate g).children s).bind fun s =>
    (cardinalityScan g [] (s.gate g).children s).bind fun (r, s) =>
      match r with
      | some b => some (b, s)
      | none => (clearTemps (s.gate g).children s).map fun s => (true, s)

/-- `g` becomes `NOT(h)` for a new gate `h` of type `t` that takes over the children of `g`
(`change_parent` moves them one by one to the front, so their order is reversed); `h` is pushed
before the move, `g` after it. -/
def notOfNew (g : Nat) (t : GateType) : BC × Nat :=
  let (s, h) := s.installGate { type := t, children := [] }
  let s := s.addInPstack h
  let s := (((s.setChildren h (s.gate g).children.reverse).setChildren g []).setLinks h
    (s.linkTimes g).reverse).setLinks g []
  let s := s.modify g fun gt => { gt with type := .not, tmin := 0, tmax := 0 }
  ((s.addChild g h).addInPstack g, h)

/-- `g`'s children are replaced by `chs`, pushed first, and its type becomes `t` (the `ITE`
rewrites): `add_children_in_pstack`, `remove_all_children`, then `add_child` in order. -/
def rebuild (g : Nat) (t : GateType) (chs : List Nat) : BC :=
  let s := (s.addChildrenInPstack g).removeAllChildren g
  let s := chs.foldl (fun s ch => s.addChild g ch) (s.setType g t)
  { s.addInPstack g with changed := true }

/-- `FALSE` (`v = false`) and `TRUE` (`v = true`). -/
def simplifyConstant (g : Nat) (v : Bool) : Option (Bool × BC) :=
  let gt := s.gate g
  if gt.determined && gt.value != v then some (false, s)
  else
    let s := if gt.determined then s else (s.determine g v).addParentsInPstack g
    some (true, if (s.gate g).handles = [] ∧ s.parents g = [] then s.setType g .deleted else s)

/-- `VAR`: a determined input becomes a constant if input gates may be rewritten. -/
def simplifyVar (g : Nat) : Option (Bool × BC) :=
  if (s.gate g).determined && s.mayTransformInputGates then
    (s.transformIntoConstant g (s.gate g).value).map fun s => (true, s)
  else some (true, s)

/-- `REF` (`neg = false`) and `NOT` (`neg = true`) with a determined end: the value goes down to
the child, or up from it. -/
def simplifyUnaryDetermined (g ch : Nat) (neg : Bool) : Option (Option (Bool × BC)) :=
  let gt := s.gate g
  if gt.determined then
    let down : Option BC :=
      if (s.gate ch).determined then
        if (s.gate ch).value = (gt.value ^^ neg) then some s else none
      else some ((s.determine ch (gt.value ^^ neg)).addInPstack ch)
    match down with
    | none => some (some (false, s))
    | some s => some ((s.transformIntoConstant g gt.value).map fun s => (true, s.addParentsInPstack g))
  else if (s.gate ch).determined then
    some ((s.transformIntoConstant g ((s.gate ch).value ^^ neg)).map fun s =>
      (true, s.addParentsInPstack g))
  else none

/-- `REF`: a determined end moves its value; otherwise `g` is unified with its child. -/
def simplifyRef (g : Nat) : Option (Bool × BC) :=
  (s.headChild g).bind fun ch =>
    match s.simplifyUnaryDetermined g ch false with
    | some r => r
    | none =>
      let s := ((s.addParentsInPstack g).redirectParents none g ch).moveHandles g ch
      some (true, { (s.removeAllChildren g).setType g .deleted with changed := true })

/-- `NOT`: a determined end moves its value; `NOT(NOT(h))` becomes `REF(h)`. -/
def simplifyNot (g : Nat) : Option (Bool × BC) :=
  (s.headChild g).bind fun ch =>
    match s.simplifyUnaryDetermined g ch true with
    | some r => r
    | none =>
      if (s.gate ch).type = .not then
        (s.headChild ch).map fun gc =>
          let s := ((s.setType g .ref).removeAllChildren g).pushIfOrphan ch
          (true, { (s.addChild g gc).addInPstack g with changed := true })
      else some (true, s)

/-- `ITE(i,t,e)`. -/
def simplifyIte (g : Nat) : Option (Bool × BC) :=
  match (s.gate g).children with
  | i :: t :: e :: _ =>
    let det (x : Nat) (v : Bool) := (s.gate x).determined && (s.gate x).value == v
    if det i true then some (true, s.rebuild g .ref [t])
    else if det i false then some (true, s.rebuild g .ref [e])
    else if det t true then some (true, (s.rebuild g .or [i, e]).addParentsInPstack g)
    else if det t false then
      let s := (s.addChildrenInPstack g).removeAllChildren g
      let (s, n) := (s.setType g .and).newNOT i
      some (true, { ((s.addChild g n).addChild g e).addInPstack g |>.addParentsInPstack g
        with changed := true })
    else if det e true then
      let s := (s.addChildrenInPstack g).removeAllChildren g
      let (s, n) := (s.setType g .or).newNOT i
      some (true, { ((s.addChild g n).addChild g t).addInPstack g |>.addParentsInPstack g
        with changed := true })
    else if det e false then some (true, (s.rebuild g .and [i, t]).addParentsInPstack g)
    else if t = e then some (true, s.rebuild g .ref [t])
    else if i = t then some (true, (s.rebuild g .or [i, e]).addParentsInPstack g)
    else if i = e then some (true, (s.rebuild g .and [i, t]).addParentsInPstack g)
    else if (s.gate e).type = .not ∧ s.headChild e = some t then
      let s := ((s.removeAllChildren g).pushIfOrphan e).setType g .equiv
      some (true, { ((s.addChild g i).addChild g t).addInPstack g with changed := true })
    else if (s.gate t).type = .not ∧ s.headChild t = some e then
      let s := ((s.removeAllChildren g).pushIfOrphan t).setType g .odd
      some (true, { ((s.addChild g i).addChild g e).addInPstack g with changed := true })
    else some (true, s)
  | _ => none

section OrAnd

/- The `OR` and `AND` cases are duals: `a` is the value that absorbs (`true` for `OR`, `false`
for `AND`) and `ty` the type. -/
variable (a : Bool) (ty : GateType)

/-- A gate forced to the dual value `!a` forces every child to `!a`, deleting the edges from
the front; `false` when a child is determined to `a`. -/
def forceChildren (g : Nat) : List Nat → BC → Bool × BC
  | [], s => (true, s)
  | ch :: rest, s =>
    if (s.gate ch).determined then
      if (s.gate ch).value != !a then (false, s)
      else forceChildren g rest ((s.setChildren g rest).setLinks g (s.linkTimes g).tail)
    else forceChildren g rest ((((s.determine ch (!a)).addInPstack ch).setChildren g rest).setLinks g
      (s.linkTimes g).tail)

/-- Deletes the children determined to `!a`; stops at one determined to `a`. Returns whether one
was found and the number of undetermined children kept. -/
def absorbScan (g : Nat) (kept : List Nat) : List Nat → BC → Bool × Nat × BC
  | [], s => (false, kept.length, s)
  | ch :: rest, s =>
    if (s.gate ch).determined then
      if (s.gate ch).value = a then (true, kept.length, s)
      else absorbScan g kept rest (((s.setChildren g (kept ++ rest)).setLinks g
        ((s.linkTimes g).eraseIdx kept.length)).pushIfOrphan ch)
    else absorbScan g (kept ++ [ch]) rest s

/-- Subset sharing: the first parent `p ≠ g` of a child of `g`, of type `ty`, determined or with
a parent, whose children (with multiplicity) all have `temp = 1`, and which has more than one
but fewer children than `g`. -/
def sharedSubset (g : Nat) : List Nat → Option Nat
  | [] => none
  | ch :: chs =>
    match (s.parents ch).find? fun p => p ≠ g ∧ (s.gate p).type = ty ∧
        ((s.gate p).determined ∨ s.parents p ≠ []) ∧
        (s.gate p).children.all (fun x => (s.gate x).temp = 1) ∧
        1 < (s.gate p).children.length ∧ (s.gate p).children.length < (s.gate g).children.length with
    | some p => some p
    | none => sharedSubset g chs

/-- `OR(x,y,z,v), t = OR(y,z) ==> OR(x,t,v)`: the children of `g` are marked, and the children
of the first shared subset `p` are replaced by `p`. -/
def shareSubset (g : Nat) : BC :=
  let chs := (s.gate g).children
  let s₁ := s.setTemps chs 1
  match s₁.sharedSubset ty g chs with
  | none => s₁.setTemps chs 0
  | some p =>
    let s₂ := s₁.setTemps (s₁.gate p).children 0
    let s₃ := (s₂.setChildren g (chs.filter fun x => (s₂.gate x).temp ≠ 0)).setLinks g
      (((chs.zip (s₂.linkTimes g)).filter fun e => (s₂.gate e.1).temp ≠ 0).map Prod.snd)
    let s₄ := s₃.addChild g p
    s₄.setTemps (s₄.gate g).children 0

/-- Collapsing: a child of type `ty`, undetermined and with `g` as its only parent, is replaced
by its children, added in front. Returns whether one was collapsed. -/
def collapseScan (g : Nat) (kept : List Nat) : List Nat → BC → Bool → Bool × BC
  | [], s, done => (done, s)
  | ch :: rest, s, done =>
    if (s.gate ch).type = ty ∧ ¬(s.gate ch).determined ∧ s.nofParentEdges ch = 1 then
      let gcs := (s.gate ch).children
      let added := gcs.foldl (fun acc x => x :: acc) []
      let l := (List.range gcs.length).reverse.map (s.clock + · + 1) ++ (s.linkTimes g).eraseIdx kept.length
      let kept := added ++ kept
      collapseScan g kept rest ((((s.setChildren g (kept ++ rest)).setLinks g l).tick gcs.length).addInPstack ch)
        true
    else collapseScan g (kept ++ [ch]) rest s done

/-- The `OR` (`a = true`) and `AND` (`a = false`) cases. -/
def simplifyOrAnd (g : Nat) : Option (Bool × BC) :=
  let gt := s.gate g
  if gt.determined && gt.value == !a then
    match forceChildren a g gt.children s with
    | (false, s) => some (false, s)
    | (true, s) => (s.transformIntoConstant g (!a)).map fun s => (true, s.addParentsInPstack g)
  else
    match absorbScan a g [] gt.children s with
    | (true, _, s) => (s.transformIntoConstant g a).map fun s => (true, s.addParentsInPstack g)
    | (false, 0, s) => s.becomeConstant g (!a)
    | (false, 1, s) => some (true, (s.setType g .ref).addInPstack g)
    | (false, _, s) =>
      (s.removeGNotGAndDuplicateChildren g).bind fun (ok, s) =>
        if !ok then some (false, s)
        else if (s.gate g).type ≠ ty then some (true, s)
        else
          let s := if 3 ≤ (s.gate g).children.length then s.shareSubset ty g else s
          match collapseScan ty g [] (s.gate g).children s false with
          | (true, s) => some (true, s.addInPstack g)
          | (false, s) => some (true, s)

end OrAnd

/-- Deletes the determined children of a parity gate, flipping its type for each true one, and
counts the undetermined ones. -/
def parityDetScan (g : Nat) (kept : List Nat) : List Nat → BC → Nat × BC
  | [], s => (kept.length, s)
  | ch :: rest, s =>
    if (s.gate ch).determined then
      let s := if (s.gate ch).value then s.modify g fun gt => { gt with type := gt.type.flipParity }
        else s
      parityDetScan g kept rest (((s.setChildren g (kept ++ rest)).setLinks g
        ((s.linkTimes g).eraseIdx kept.length)).pushIfOrphan ch)
    else parityDetScan g (kept ++ [ch]) rest s

/-- "Absorbs" `NOT` children: `ODD(NOT(x),...) = EVEN(x,...)`. Returns whether a child is now
determined. -/
def absorbNots (g : Nat) (kept : List Nat) : List Nat → BC → Bool → Option (Bool × BC)
  | [], s, det => some (det, s)
  | ch :: rest, s, det =>
    if (s.gate ch).type = .not then
      (s.headChild ch).bind fun gc =>
        let s := (((s.setChildren g (kept ++ gc :: rest)).setLinks g
          ((s.linkTimes g).set kept.length (s.clock + 1))).tick 1).pushIfOrphan ch
        let s := s.modify g fun gt => { gt with type := gt.type.flipParity }
        absorbNots g (kept ++ [gc]) rest s (det || (s.gate gc).determined)
    else absorbNots g (kept ++ [ch]) rest s det

/-- `EVEN(x,y) = T` and `ODD(x,y) = F`: the two children are equivalent. An input child not
reached from the other becomes a `REF` to it; otherwise, when both children have other parents,
the other edges into one of them move to the other (the child not depending on the other keeps
them) and the next rule is tried (`.inr`). -/
def equateRule (g c₁ c₂ : Nat) : Option (Bool × BC) ⊕ BC :=
  let v := (s.gate g).value
  if c₁ = c₂ then .inl ((s.transformIntoConstant g v).map fun s => (true, s.addParentsInPstack g))
  else if s.mayTransformInputGates ∧ (s.gate c₁).type = .var ∧ !s.dependsOn c₂ c₁ then
    .inl ((s.transformIntoConstant g v).map fun s =>
      (true, (((s.addParentsInPstack g).setType c₁ .ref).addChild c₁ c₂).addInPstack c₁))
  else if s.mayTransformInputGates ∧ (s.gate c₂).type = .var ∧ !s.dependsOn c₁ c₂ then
    .inl ((s.transformIntoConstant g v).map fun s =>
      (true, (((s.addParentsInPstack g).setType c₂ .ref).addChild c₂ c₁).addInPstack c₂))
  else if 2 ≤ s.nofParentEdges c₁ ∧ 2 ≤ s.nofParentEdges c₂ then
    if !s.dependsOn c₁ c₂ then .inr ((s.redirectParents (some g) c₂ c₁).addParentsInPstack c₁)
    else .inr ((s.redirectParents (some g) c₁ c₂).addParentsInPstack c₂)
  else .inr s

/-- `EVEN(x,y) = F` and `ODD(x,y) = T`: the two children are complementary. An input child not
reached from the other becomes a `NOT` of it; otherwise, when both children have other parents,
the other edges into one of them go to a new `NOT` of the other. -/
def antiEquateRule (g c₁ c₂ : Nat) : Option (Bool × BC) ⊕ BC :=
  let v := (s.gate g).value
  if c₁ = c₂ then .inl (some (false, s))
  else if s.mayTransformInputGates ∧ (s.gate c₁).type = .var ∧ !s.dependsOn c₂ c₁ then
    .inl ((s.transformIntoConstant g v).map fun s =>
      let s := ((s.addParentsInPstack g).setType c₁ .not).addChild c₁ c₂
      (true, (s.addParentsInPstack c₁).addInPstack c₁))
  else if s.mayTransformInputGates ∧ (s.gate c₂).type = .var ∧ !s.dependsOn c₁ c₂ then
    .inl ((s.transformIntoConstant g v).map fun s =>
      let s := ((s.addParentsInPstack g).setType c₂ .not).addChild c₂ c₁
      (true, (s.addParentsInPstack c₂).addInPstack c₂))
  else if 2 ≤ s.nofParentEdges c₁ ∧ 2 ≤ s.nofParentEdges c₂ then
    let (x, y) := if (s.gate c₁).type = .var ∨ !s.dependsOn c₁ c₂ then (c₁, c₂) else (c₂, c₁)
    let (s, n) := s.installGate { type := .not, children := [x] }
    .inr (((s.redirectParents (some g) y n).addParentsInPstack n).addInPstack n)
  else .inr s

/-- `ODD(x, OR(x,y,z)) = AND(NOT(x), OR(y,z))`, when the `OR` has no other parent: `x` is `c`
and the `OR` is `o`. -/
def oddOfOr (g c o : Nat) : BC :=
  let (s, n₁) := s.installGate { type := .or, children := [] }
  let s := ((s.gate o).children.filter (· ≠ c)).foldl (fun s x => s.addChild n₁ x) s
  let s := (s.removeAllChildren g).pushIfOrphan o
  let (s, n₂) := s.installGate { type := .not, children := [c] }
  let s := ((s.setType g .and).addChild g n₂).addChild g n₁
  ((s.addInPstack g).addInPstack n₂).addInPstack n₁

/-- The last rule of the parity case, for `ODD(c₁, c₂)`. -/
def oddOrRule (g c₁ c₂ : Nat) : Option (Bool × BC) :=
  if (s.gate c₁).determined ∨ (s.gate c₂).determined then none
  else if (s.gate c₂).type = .or ∧ s.nofParentEdges c₂ = 1 then
    some (true, if c₁ ∈ (s.gate c₂).children then s.oddOfOr g c₁ c₂ else s)
  else if (s.gate c₁).type = .or ∧ s.nofParentEdges c₁ = 1 then
    some (true, if c₂ ∈ (s.gate c₁).children then s.oddOfOr g c₂ c₁ else s)
  else some (true, s)

/-- The rules of the parity case for at least two undetermined children `c₁ :: c₂ :: rest`. -/
def parityPairRules (g c₁ c₂ : Nat) (rest : List Nat) : Option (Bool × BC) :=
  let gt := s.gate g
  let pair := rest = [] ∧ gt.determined
  let step (b : Bool) (r : BC → Option (Bool × BC) ⊕ BC) (s : BC) : Option (Bool × BC) ⊕ BC :=
    if b then r s else .inr s
  match step (pair ∧ ((gt.type = .even ∧ gt.value) ∨ (gt.type = .odd ∧ !gt.value)))
      (fun s => s.equateRule g c₁ c₂) s with
  | .inl r => r
  | .inr s =>
    match step (pair ∧ ((gt.type = .even ∧ !gt.value) ∨ (gt.type = .odd ∧ gt.value)))
        (fun s => s.antiEquateRule g c₁ c₂) s with
    | .inl r => r
    | .inr s => if (s.gate g).type = .odd ∧ rest = [] then s.oddOrRule g c₁ c₂ else some (true, s)

/-- The `ODD` and `EVEN` cases. -/
def simplifyParity (g : Nat) : Option (Bool × BC) :=
  match parityDetScan g [] (s.gate g).children s with
  | (0, s) => s.becomeConstant g ((s.gate g).type = .even)
  | (1, s) =>
    let s := if (s.gate g).type = .odd then s.setType g .ref
      else (s.setType g .not).addParentsInPstack g
    some (true, s.addInPstack g)
  | (_, s) =>
    (absorbNots g [] (s.gate g).children s false).bind fun (det, s) =>
      if det then some (true, s.addInPstack g)
      else (s.removeParityDuplicateChildren g).bind fun (ok, s) =>
        if !ok then some (false, s)
        else if g ∈ s.pstack then some (true, s)
        else if !((s.gate g).type = .odd || (s.gate g).type = .even) then some (true, s)
        else match (s.gate g).children with
          | c₁ :: c₂ :: rest => s.parityPairRules g c₁ c₂ rest
          | _ => none

/-- The first determined child of an `EQUIV` gate, if any. -/
def firstDetermined : List Nat → Option Nat
  | [] => none
  | ch :: chs => if (s.gate ch).determined then some ch else firstDetermined chs

/-- The unification of the input children of `EQUIV(...) = T`. A non-shared input becomes a
`REF` to its neighbour (the next child, or the previous one for the last) and the call returns
(`.inl`); every later shared input becomes a `REF` to the first one. Returns the first shared
input and whether some input was unified. -/
def unifyInputs (g : Nat) (prev : Option Nat) (first : Option Nat) (unified : Bool) :
    List Nat → BC → Option (Bool × BC) ⊕ (Option Nat × Bool × BC)
  | [], s => .inr (first, unified, s)
  | ch :: rest, s =>
    if (s.gate ch).type ≠ .var then unifyInputs g (some ch) first unified rest s
    else if s.nofParentEdges ch = 1 then
      let other := match rest with
        | o :: _ => some o
        | [] => prev
      .inl (other.bind fun o =>
        if o = ch then none
        else some (true, ((((s.setType ch .ref).addChild ch o)).addInPstack g).addInPstack ch))
    else match first with
      | none => unifyInputs g (some ch) (some ch) unified rest s
      | some f =>
        unifyInputs g (some ch) first true rest (((s.setType ch .ref).addChild ch f).addInPstack ch)

/-- The least child of `EQUIV(...) = T`: the scan replaces the candidate by every later child
it depends on. -/
def leastChild (cand : Nat) : List Nat → Nat
  | [] => cand
  | ch :: chs => leastChild (if s.dependsOn cand ch then ch else cand) chs

/-- The `EQUIV` case. -/
def simplifyEquiv (g : Nat) : Option (Bool × BC) :=
  match (s.gate g).children with
  | [] => none
  | [_] => s.becomeConstant g true
  | chs =>
    match s.firstDetermined chs with
    | some ch =>
      if (s.gate ch).value then
        -- `EQUIV(T,x,y,z) --> AND(T,x,y,z)`
        some (true, ((s.setType g .and).addParentsInPstack g).addInPstack g)
      else
        -- `EQUIV(F,x,y,z) --> NOT(OR(F,x,y,z))`
        let (s, n) := s.installGate { type := .or, children := [] }
        let s := (((s.setChildren n chs.reverse).setChildren g []).setLinks n (s.linkTimes g).reverse).setLinks
          g []
        let s := ((s.setType g .not).addChild g n).addParentsInPstack g
        some (true, (s.addInPstack g).addInPstack n)
    | none =>
      (s.removeGNotGAndDuplicateChildren g).bind fun (ok, s) =>
        if !ok then some (false, s)
        else if g ∈ s.pstack then some (true, s)
        else if (s.gate g).type ≠ .equiv then some (true, s)
        else
          let gt := s.gate g
          if gt.determined && gt.value then
            let r : Option (Bool × BC) ⊕ BC :=
              if s.mayTransformInputGates then
                match s.unifyInputs g none none false gt.children with
                | .inl r => .inl r
                | .inr (some f, true, s) => .inl (some (true, s.addParentsInPstack f))
                | .inr (_, _, s) => .inr s
              else .inr s
            match r with
            | .inl r => r
            | .inr s =>
              match (s.gate g).children with
              | [] => none
              | c :: cs =>
                let least := s.leastChild c cs
                let others := (c :: cs).filter (· ≠ least)
                let moved := others.any fun x => (s.parents x).any (· ≠ g)
                let s := others.foldl (fun s x => s.redirectParents (some g) x least) s
                some (true, if moved then s.addParentsInPstack least else s)
          else if gt.determined && !gt.value && gt.children.length = 2 then
            some (true, ((s.setType g .even).addParentsInPstack g).addInPstack g)
          else some (true, s)

/-- The scan of the `THRESHOLD` case: a child determined false is dropped, one determined true
is dropped and lowers both bounds, and the scan stops at a child once `tmax = 0`. Returns the
children left, the bounds, the number of undetermined children and whether it stopped early;
`none` is the failed `assert(tmin <= tmax)`. -/
def thresholdScan (c : Circuit) (kept : List Nat) :
    List Nat → Nat → Nat → Nat → Option (List Nat × Nat × Nat × Nat × Bool)
  | [], tmin, tmax, undet => some (kept, tmin, tmax, undet, false)
  | ch :: rest, tmin, tmax, undet =>
    if tmax < tmin then none
    else if tmax = 0 then some (kept ++ ch :: rest, tmin, tmax, undet, true)
    else if !(c.gate ch).determined then thresholdScan c (kept ++ [ch]) rest tmin tmax (undet + 1)
    else if (c.gate ch).value then thresholdScan c kept rest (tmin - 1) (tmax - 1) undet
    else thresholdScan c kept rest tmin tmax undet

/-- The rule for a `THRESHOLD` gate determined true, over the parents `ps` of one child: a
parent `AND` whose children all have `temp = 1` and number (with repetitions) more than `tmax`
is made false; `false` when it is determined true. -/
def falsifyParentAnds (tmax : Nat) : List Nat → BC → Option (Bool × BC)
  | [], s => some (true, s)
  | p :: ps, s =>
    if (s.gate p).type = .and ∧ (s.gate p).children.all (fun x => (s.gate x).temp = 1) ∧
        tmax < (s.gate p).children.length then
      if (s.gate p).determined && (s.gate p).value != false then some (false, s)
      else (s.transformIntoConstant p false).bind fun s =>
        falsifyParentAnds tmax ps (s.addParentsInPstack p)
    else falsifyParentAnds tmax ps s

/-- The loop of the rule over the children of the gate. -/
def falsifyAndsOver (tmax : Nat) : List Nat → BC → Option (Bool × BC)
  | [], s => some (true, s)
  | ch :: chs, s =>
    (falsifyParentAnds tmax (s.parents ch) s).bind fun (ok, s) =>
      if ok then falsifyAndsOver tmax chs s else some (false, s)

/-- "`[0,2](x,y,z,v) = T ==> AND(x,y,z) = F`": the children are marked with `temp = 1`, the
parent `AND`s checked, and the marks cleared (left set on a `return false`). -/
def thresholdParentRule (g : Nat) : Option (Bool × BC) :=
  let chs := (s.gate g).children
  (falsifyAndsOver (s.gate g).tmax chs (s.setTemps chs 1)).map fun (ok, s) =>
    if ok then (true, s.setTemps chs 0) else (false, s)

/-- The `THRESHOLD` case. -/
def simplifyThreshold (g : Nat) : Option (Bool × BC) :=
  let gt := s.gate g
  if gt.tmax < gt.tmin then s.becomeConstant g false
  else (thresholdScan s.circuit [] gt.children gt.tmin gt.tmax 0).bind
    fun (chs, tmin, tmax, undet, stopped) =>
    -- the scan deletes the determined children before the point where it stops
    let j := if stopped then gt.children.length - (chs.length - undet) else gt.children.length
    let l := (((gt.children.zip (s.linkTimes g)).take j).filter fun e => !(s.gate e.1).determined).map
      Prod.snd ++ (s.linkTimes g).drop j
    let s := (s.modify g fun gt => { gt with children := chs, tmin := tmin, tmax := tmax }).setLinks g l
    if stopped then some (true, (s.notOfNew g .or).1)
    else if tmax < tmin then none
    else if undet < tmin then s.becomeConstant g false
    else
      let tmax := min tmax undet
      let s := s.modify g fun gt => { gt with tmax := tmax }
      if chs = [] then (if tmin = 0 ∧ tmax = 0 then s.becomeConstant g true else none)
      else if tmax = 0 then some (true, (s.notOfNew g .or).1.addParentsInPstack g)
      else if tmin = undet then
        some (true, (s.modify g fun gt => { gt with type := .and, tmin := 0, tmax := 0 }).addInPstack g)
      else if tmin = 0 ∧ tmax = undet then s.becomeConstant g true
      else if tmin = 0 ∧ tmax + 1 = undet then
        some (true, (s.notOfNew g .and).1.addParentsInPstack g)
      else
        let r := if gt.determined && gt.value then s.thresholdParentRule g else some (true, s)
        r.bind fun (ok, s) =>
          if !ok then some (false, s)
          else if (s.gate g).type ≠ .threshold then some (true, s)
          else s.removeCardinalityGNotG g

/-- The scan of the `ATLEAST` case: determined children are dropped, a true one lowering the
bound. Returns the children left, the bound and the number of undetermined children. -/
def atleastScan (c : Circuit) (kept : List Nat) : List Nat → Nat → List Nat × Nat
  | [], tmin => (kept, tmin)
  | ch :: rest, tmin =>
    if !(c.gate ch).determined then atleastScan c (kept ++ [ch]) rest tmin
    else if (c.gate ch).value then atleastScan c kept rest (tmin - 1)
    else atleastScan c kept rest tmin

/-- The `ATLEAST` case. -/
def simplifyAtleast (g : Nat) : Option (Bool × BC) :=
  let (chs, tmin) := atleastScan s.circuit [] (s.gate g).children (s.gate g).tmin
  let l := (((s.gate g).children.zip (s.linkTimes g)).filter fun e => !(s.gate e.1).determined).map Prod.snd
  let s := (s.modify g fun gt => { gt with children := chs, tmin := tmin }).setLinks g l
  if tmin = 0 then s.becomeConstant g true
  else if chs.length < tmin then s.becomeConstant g false
  else if tmin = chs.length then
    some (true, (s.modify g fun gt => { gt with type := .and, tmin := 0, tmax := 0 }).addInPstack g)
  else some (true, s)

/-- `Gate::simplify(bc, preserve_cnf_normalized_form)`; the flag only guards a rewrite that is
switched off in the source. -/
def simplify (g : Nat) (_preserve : Bool) : Option (Bool × BC) :=
  let gt := s.gate g
  if gt.type = .deleted then some (true, s)
  else if s.parents g = [] ∧ gt.handles = [] ∧ !gt.determined then
    let s := (s.addChildrenInPstack g).removeAllChildren g
    some (true, { s.setType g .deleted with changed := true })
  else match gt.type with
    | .false => s.simplifyConstant g false
    | .true => s.simplifyConstant g true
    | .var => s.simplifyVar g
    | .ref => s.simplifyRef g
    | .not => s.simplifyNot g
    | .ite => s.simplifyIte g
    | .or => s.simplifyOrAnd true .or g
    | .and => s.simplifyOrAnd false .and g
    | .odd | .even => s.simplifyParity g
    | .equiv => s.simplifyEquiv g
    | .threshold => s.simplifyThreshold g
    | .atleast => s.simplifyAtleast g
    | .undef | .deleted => none

/-- `remove_cardinality_g_not_g` loses track of its marks when a removed `NOT` had marked its own
child: over `NOT(y), NOT(NOT(y)), y` the second child removes itself and the first, leaving `y`
marked as seen under a `NOT`, and at `y` the search for that `NOT` fails `assert(ca2 != ca)`. The
simplifier reaches the routine on `[1,2]` over these children. -/
theorem removeCardinalityGNotG_nested_not :
    let s : BC := { circuit := ⟨[{ type := .var, children := [] },
      { type := .not, children := [0] }, { type := .not, children := [1] },
      { type := .threshold, children := [1, 2, 0], handles := [.name "t"], tmin := 1, tmax := 2 }]⟩ }
    s.circuit.Acyclic ∧ (∀ x < s.size, (s.gate x).temp = 0) ∧
      (∀ ch ∈ (s.gate 3).children, (s.gate ch).determined = false) ∧
      s.removeCardinalityGNotG 3 = none ∧ s.simplify 3 false = none :=
  ⟨⟨.ofCheck (fun g => g) (by decide)⟩, by decide, by decide, rfl, rfl⟩

/-- The same removal leaves a mark behind on a call that returns true: `[1,1]` over
`NOT(y), NOT(NOT(y))` loses both children, so the final clearing loop, which walks the children
left, never clears the `temp = 2` of `y`. -/
theorem simplify_threshold_leaves_mark :
    let s : BC := { circuit := ⟨[{ type := .var, children := [] },
      { type := .not, children := [0] }, { type := .not, children := [1] },
      { type := .threshold, children := [1, 2], handles := [.name "t"], tmin := 1, tmax := 1 }]⟩ }
    s.circuit.Acyclic ∧ (∀ x < s.size, (s.gate x).temp = 0) ∧
      ∃ s', s.simplify 3 false = some (true, s') ∧ (s'.gate 0).temp = 2 :=
  ⟨⟨.ofCheck (fun g => g) (by decide)⟩, by decide, _, rfl, rfl⟩

/-- A threshold made only of pairs `x, NOT(x)` loses all its children: `[1,1](x, NOT(x))`
becomes `[0,0]()`, a `THRESHOLD` without children, on a call that returns true. -/
theorem simplify_threshold_no_children :
    let s : BC := { circuit := ⟨[{ type := .var, children := [], handles := [.name "x"] },
      { type := .not, children := [0] },
      { type := .threshold, children := [0, 1], handles := [.name "t"], tmin := 1, tmax := 1 }]⟩ }
    s.circuit.Acyclic ∧ s.circuit.AritiesOk ∧
      ∃ s', s.simplify 2 false = some (true, s') ∧ (s'.gate 2).type = .threshold ∧
        (s'.gate 2).children = [] ∧ ¬s'.circuit.AritiesOk :=
  ⟨⟨.ofCheck (fun g => g) (by decide)⟩, by decide, _, rfl, rfl, rfl, by decide⟩

/-- Modelled from the spec: `BC::simplify(preserve)` (bc.cc is not among the sources) pushes every
gate in store order and runs the propagation loop with `Gate::simplify`. The `temp` fields are
cleared first: the checks under `DEBUG_EXPENSIVE_CHECKS` in `Gate::simplify` require every `temp`
to be `0`, and `cnf_normalize` leaves `temp = 1` on the gates of the `ATLEAST` array. -/
def simplifyPass (preserve : Bool) (fuel : Nat) : Option (Bool × BC) :=
  { s with circuit := s.circuit.resetTempFields 0 }.pushAll.runStack
    (fun s g => s.simplify g preserve) fuel

/-- The pair removal of the `THRESHOLD` case changes the children and bounds of the gate without
pushing it: `[1,2](x, NOT(x), y)` becomes `[0,1](y)`, which is trivially true, and the loop ends
with every call returning true and the gate still `[0,1](y)`; one more call makes it `TRUE`. -/
theorem simplifyPass_threshold_not_fixpoint :
    let s : BC := { circuit := ⟨[{ type := .var, children := [], handles := [.name "x"] },
      { type := .not, children := [0] }, { type := .var, children := [], handles := [.name "y"] },
      { type := .threshold, children := [0, 1, 2], handles := [.name "t"], tmin := 1, tmax := 2 }]⟩ }
    s.circuit.Acyclic ∧
      (∃ s₁, s.simplify 3 false = some (true, s₁) ∧ s₁.gate 3 ≠ s.gate 3 ∧ 3 ∉ s₁.pstack ∧
        ∃ s₂, s₁.simplify 3 false = some (true, s₂) ∧ s₂.gate 3 ≠ s₁.gate 3) ∧
      ∃ s', s.simplifyPass false 20 = some (true, s') ∧ (s'.gate 3).handles ≠ [] ∧
        ∃ s'', s'.simplify 3 false = some (true, s'') ∧ (s''.gate 3).type = .true :=
  ⟨⟨.ofCheck (fun g => g) (by decide)⟩, ⟨_, rfl, by decide, by decide, _, rfl, by decide⟩,
    _, rfl, by decide, _, rfl, rfl⟩

end BC

/-- The rule "`[0,2](x,y,z,v) = T ==> AND(x,y,z) = F`" is sound for an `AND` over distinct
children: if every child of the `AND` is a child of a true `THRESHOLD` gate, and there are more of
them than its upper bound, the `AND` is false. -/
theorem and_false_of_threshold {chs pchs : List Nat} (σ : Nat → Bool) (tmin tmax : Nat)
    (hthr : GateType.threshold.eval tmin tmax (chs.map σ) = true) (hnd : pchs.Nodup)
    (hsub : ∀ x ∈ pchs, x ∈ chs) (hlen : tmax < pchs.length) :
    GateType.and.eval 0 0 (pchs.map σ) = false := by
  by_contra hand
  simp only [GateType.eval, Bool.not_eq_false, beq_iff_eq, List.count_eq_zero, List.mem_map,
    not_exists, not_and, Bool.not_eq_false] at hand
  -- every child of the `AND` is true, and each is counted once among the gate's children
  have hcount : (pchs.map σ).count Bool.true = pchs.length := by
    rw [List.count_eq_length.mpr fun b hb => ?_, List.length_map]
    obtain ⟨x, hx, rfl⟩ := List.mem_map.mp hb
    exact (hand x hx).symm
  obtain ⟨l, hp, hs⟩ := List.subperm_of_subset hnd hsub
  have hperm := (hp.map σ).count_eq Bool.true
  have hle := (hs.map σ).count_le Bool.true
  simp only [GateType.eval, Bool.and_eq_true, decide_eq_true_eq] at hthr
  omega

/-- The rule counts the children of a parent `AND` with repetitions, so one call of the simplifier
returns `false` on a satisfiable circuit: `[0,1](x,y,z) = T` beside `AND(x,x) = T`, where
`x = T, y = z = F` is a consistent evaluation. -/
theorem simplify_threshold_duplicate_child :
    let c : Circuit := ⟨[{ type := .var, children := [] }, { type := .var, children := [] },
      { type := .var, children := [] },
      { type := .and, children := [0, 0], determined := true, value := true },
      { type := .threshold, children := [0, 1, 2], determined := true, value := true,
        tmin := 0, tmax := 1 }]⟩
    c.Acyclic ∧ c.Consistent (fun g => g = 0 ∨ 3 ≤ g) ∧
      (({ circuit := c } : BC).simplify 4 false).map Prod.fst = some false :=
  ⟨⟨.ofCheck (fun g => if 3 ≤ g then 1 else 0) (by decide)⟩, by decide, by decide⟩

end BcSat
