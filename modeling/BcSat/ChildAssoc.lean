import Mathlib.Data.Finset.Card
import Mathlib.Logic.Function.Basic
import BcSat.Store

set_option autoImplicit false

/-!
# The edge store: `ChildAssoc`

Every edge of the circuit is a `ChildAssoc` object on two doubly linked lists: its parent's
`children` list (fields `parent`, `prev_child`, `next_child`, head `Gate::children`) and its
child's `parents` list (fields `child`, `prev_parent`, `next_parent`, head `Gate::parents`).
The objects are modelled by their addresses and the store by one record of field maps per kind
of list, so that `link_parent` and `link_child` are one `Lists.link` on two records, and
`unlink_parent` and `unlink_child` one `Lists.unlink`.

The representation invariant `Lists.Rep` says that each gate's list is the list of addresses
linked from its head, with `prev` mirroring `next`, no address twice, and exactly the
associations owned by the gate. Each edge operation keeps it, and says what it does to the
lists: a new association goes to the front of both of its lists, `change_child` leaves the
parent's list as it is, and `delete` takes the association out of both. The children lists the
code reads from the edge store are those of the gate store `BC`, and `add_child` and
`remove_all_children` change both alike.
-/

namespace BcSat

/-- One kind of list of the edge store, as field maps over the addresses of the `ChildAssoc`
objects: `owner` is `parent` (`child`), `prev` is `prev_child` (`prev_parent`), `next` is
`next_child` (`next_parent`), and `head` maps each gate to `Gate::children`
(`Gate::parents`). `none` is the null pointer. -/
structure Lists where
  owner : Nat → Option Nat
  prev : Nat → Option Nat
  next : Nat → Option Nat
  head : Nat → Option Nat

namespace Lists

variable {L L' : Lists} {e g : Nat}

/-- Clears the three fields of association `e`. -/
def clear (L : Lists) (e : Nat) : Lists :=
  { L with owner := Function.update L.owner e none, next := Function.update L.next e none,
           prev := Function.update L.prev e none }

/-- `ChildAssoc::link_parent` (`link_child` on the parents lists): association `e` goes to
the front of gate `g`'s list. The old head `n` gets `e` as its `prev`; then `e`'s own `prev`
is cleared. -/
def link (L : Lists) (e g : Nat) : Lists :=
  let n := L.head g
  let prev := match n with
    | some n => Function.update L.prev n (some e)
    | none => L.prev
  { owner := Function.update L.owner e (some g), next := Function.update L.next e n,
    prev := Function.update prev e none, head := Function.update L.head g (some e) }

/-- `ChildAssoc::unlink_parent` (`unlink_child`): association `e` leaves its owner's list, its
neighbours being linked to each other (the head moving on when `e` was first), and its fields
are cleared. The code writes only the neighbours' fields before it reads `e`'s own, so they
are read here at the start. With no owner (a null dereference in the code) no head is
written. -/
def unlink (L : Lists) (e : Nat) : Lists :=
  let prev := match L.next e with
    | some n => Function.update L.prev n (L.prev e)
    | none => L.prev
  let next := match L.prev e with
    | some p => Function.update L.next p (L.next e)
    | none => L.next
  let head := match L.prev e, L.owner e with
    | none, some g => Function.update L.head g (L.next e)
    | _, _ => L.head
  { owner := Function.update L.owner e none, next := Function.update next e none,
    prev := Function.update prev e none, head := head }

theorem link_owner (x : Nat) : (L.link e g).owner x = if x = e then some g else L.owner x :=
  Function.update_apply _ _ _ _

theorem link_next (x : Nat) : (L.link e g).next x = if x = e then L.head g else L.next x :=
  Function.update_apply _ _ _ _

theorem link_prev (x : Nat) :
    (L.link e g).prev x = if x = e then none else if L.head g = some x then some e else L.prev x := by
  simp only [link]
  cases L.head g <;> simp [Function.update_apply, eq_comm]

theorem link_head (x : Nat) : (L.link e g).head x = if x = g then some e else L.head x :=
  Function.update_apply _ _ _ _

theorem unlink_owner (x : Nat) : (L.unlink e).owner x = if x = e then none else L.owner x :=
  Function.update_apply _ _ _ _

theorem unlink_next (x : Nat) : (L.unlink e).next x =
    if x = e then none else if L.prev e = some x then L.next e else L.next x := by
  simp only [unlink]
  cases L.prev e <;> simp [Function.update_apply, eq_comm]

theorem unlink_prev (x : Nat) : (L.unlink e).prev x =
    if x = e then none else if L.next e = some x then L.prev e else L.prev x := by
  simp only [unlink]
  cases L.next e <;> simp [Function.update_apply, eq_comm]

theorem unlink_head (x : Nat) : (L.unlink e).head x =
    if L.prev e = none ∧ L.owner e = some x then L.next e else L.head x := by
  simp only [unlink]
  cases L.prev e <;> cases L.owner e <;> simp [Function.update_apply, eq_comm]

theorem clear_owner (x : Nat) : (L.clear e).owner x = if x = e then none else L.owner x :=
  Function.update_apply _ _ _ _

theorem clear_next (x : Nat) : (L.clear e).next x = if x = e then none else L.next x :=
  Function.update_apply _ _ _ _

theorem clear_prev (x : Nat) : (L.clear e).prev x = if x = e then none else L.prev x :=
  Function.update_apply _ _ _ _

@[simp] theorem clear_head : (L.clear e).head = L.head := rfl

/-- `l` is the list linked from `hd`: following `next` from `hd` meets the addresses of `l` in
order and then null, the `prev` of each being the one before it (`p` for the first). -/
def Linked (L : Lists) : Option Nat → Option Nat → List Nat → Prop
  | hd, _, [] => hd = none
  | hd, p, x :: l => hd = some x ∧ L.prev x = p ∧ L.Linked (L.next x) (some x) l

theorem Linked.head_eq {hd p : Option Nat} {l : List Nat} (h : L.Linked hd p l) :
    hd = l.head? := by
  cases l with
  | nil => exact h
  | cons x l => exact h.1

theorem Linked.frame : ∀ {l : List Nat} {hd p : Option Nat}, L.Linked hd p l →
    (∀ x ∈ l, L'.next x = L.next x ∧ L'.prev x = L.prev x) → L'.Linked hd p l
  | [], _, _, h, _ => h
  | x :: _, _, _, ⟨hx, hp, hl⟩, hf => by
    obtain ⟨hn, hp'⟩ := hf x (List.mem_cons_self _ _)
    exact ⟨hx, hp' ▸ hp, hn ▸ hl.frame fun y hy => hf y (List.mem_cons_of_mem _ hy)⟩

theorem Linked.tail : ∀ {l₁ : List Nat} {hd p : Option Nat} {l₂ : List Nat},
    L.Linked hd p (l₁ ++ e :: l₂) → L.Linked (L.next e) (some e) l₂
  | [], _, _, _, h => h.2.2
  | _ :: _, _, _, _, h => h.2.2.tail

theorem Linked.prev_eq : ∀ {l₁ : List Nat} {hd p : Option Nat} {l₂ : List Nat},
    L.Linked hd p (l₁ ++ e :: l₂) → (l₁ = [] ∧ L.prev e = p) ∨ ∃ y ∈ l₁, L.prev e = some y
  | [], _, _, _, h => .inl ⟨rfl, h.2.1⟩
  | x :: _, _, _, _, h => by
    rcases h.2.2.prev_eq with ⟨rfl, hp⟩ | ⟨y, hy, hp⟩
    · exact .inr ⟨x, List.mem_cons_self _ _, hp⟩
    · exact .inr ⟨y, List.mem_cons_of_mem _ hy, hp⟩

theorem Linked.unique : ∀ {l l' : List Nat} {hd p p' : Option Nat},
    L.Linked hd p l → L.Linked hd p' l' → l = l'
  | [], [], _, _, _, _, _ => rfl
  | [], _ :: _, _, _, _, h, h' => by rw [h] at h'; cases h'.1
  | _ :: _, [], _, _, _, h, h' => by rw [h'] at h; cases h.1
  | x :: _, x' :: _, _, _, _, h, h' => by
    obtain rfl : x = x' := Option.some_injective _ (h.1.symm.trans h'.1)
    rw [h.2.2.unique h'.2.2]

section Erase

variable (hN : ∀ x ≠ e, L'.next x = if L.prev e = some x then L.next e else L.next x)
  (hP : ∀ x ≠ e, L'.prev x = if L.next e = some x then L.prev e else L.prev x)

include hN hP in
theorem Linked.unlink_after {l₂ : List Nat} (h : L.Linked (L.next e) (some e) l₂)
    (hnd : (e :: l₂).Nodup) (hp : ∀ x ∈ l₂, L.prev e ≠ some x) :
    L'.Linked (L.next e) (L.prev e) l₂ := by
  cases l₂ with
  | nil => exact h
  | cons y l₂ =>
    obtain ⟨hy, -, hl⟩ := h
    have hye : y ≠ e := fun h => (List.nodup_cons.1 hnd).1 (h ▸ List.mem_cons_self _ _)
    have hnd' := (List.nodup_cons.1 (List.nodup_cons.1 hnd).2)
    refine ⟨hy, by rw [hP y hye, if_pos hy], ?_⟩
    rw [hN y hye, if_neg (hp y (List.mem_cons_self _ _))]
    refine hl.frame fun z hz => ?_
    have hze : z ≠ e := fun h => (List.nodup_cons.1 hnd).1 (h ▸ List.mem_cons_of_mem _ hz)
    have hzy : L.next e ≠ some z := fun h => hnd'.1 (Option.some_injective _ (hy.symm.trans h) ▸ hz)
    rw [hN z hze, hP z hze, if_neg (hp z (List.mem_cons_of_mem _ hz)), if_neg hzy]
    exact ⟨rfl, rfl⟩

include hN hP in
theorem Linked.unlink : ∀ {l₁ : List Nat} {hd p : Option Nat} {l₂ : List Nat},
    L.Linked hd p (l₁ ++ e :: l₂) → (l₁ ++ e :: l₂).Nodup →
      (∀ x, p = some x → x ∉ l₁ ++ e :: l₂) →
      L'.Linked (if l₁ = [] then L.next e else hd) p (l₁ ++ l₂)
  | [], _, p, l₂, h, hnd, hp => by
    obtain ⟨-, hpe, hl⟩ := h
    rw [if_pos rfl, ← hpe]
    exact Linked.unlink_after hN hP hl hnd fun x hx hpx =>
      hp x (hpe ▸ hpx) (List.mem_cons_of_mem _ hx)
  | x :: l₁, hd, p, l₂, h, hnd, hp => by
    obtain ⟨hx, hpx, hl⟩ := h
    have hnd' := List.nodup_cons.1 hnd
    have hxe : x ≠ e := fun h => hnd'.1 (h ▸ List.mem_append_right _ (List.mem_cons_self _ _))
    have hnx : L.next e ≠ some x := by
      rw [hl.tail.head_eq]
      intro h
      exact hnd'.1 (List.mem_append_right _ (List.mem_cons_of_mem _ (List.mem_of_mem_head? h)))
    rw [if_neg (List.cons_ne_nil _ _)]
    refine ⟨hx, by rw [hP x hxe, if_neg hnx, hpx], ?_⟩
    have ih := Linked.unlink hl hnd'.2 fun y hy => by
      cases hy; exact hnd'.1
    rw [hN x hxe]
    rcases hl.prev_eq with ⟨rfl, hpe⟩ | ⟨y, hy, hpe⟩
    · rwa [if_pos hpe]
    · have hyx : y ≠ x := fun h => hnd'.1 (List.mem_append_left _ (h ▸ hy))
      rw [if_neg (fun h => hyx (Option.some_injective _ (hpe.symm.trans h)))]
      rwa [if_neg (List.ne_nil_of_mem hy)] at ih

end Erase

theorem Linked.adjacent {l₁ l₂ : List Nat} {hd p : Option Nat} {x y : Nat}
    (h : L.Linked hd p (l₁ ++ x :: y :: l₂)) : L.next x = some y ∧ L.prev y = some x :=
  ⟨h.tail.1, h.tail.2.1⟩

/-- The addresses met following `next` from `hd`, for at most `fuel` steps: the loops
`for(ca = children; ca; ca = ca->next_child)` of the code. -/
def follow (L : Lists) : Nat → Option Nat → List Nat
  | 0, _ => []
  | _ + 1, none => []
  | fuel + 1, some x => x :: L.follow fuel (L.next x)

theorem Linked.follow_eq : ∀ {l : List Nat} {hd p : Option Nat} {fuel : Nat},
    L.Linked hd p l → l.length ≤ fuel → L.follow fuel hd = l
  | [], _, _, 0, _, _ => rfl
  | [], _, _, _ + 1, h, _ => by rw [h]; rfl
  | _ :: _, _, _, 0, _, hle => absurd hle (Nat.not_succ_le_zero _)
  | _ :: _, _, _, _ + 1, h, hle => by
    rw [h.1, follow, h.2.2.follow_eq (Nat.le_of_succ_le_succ hle)]

/-- The lists of one kind: for every gate `g`, `l g` is linked from `g`'s head, has no address
twice, and holds exactly the associations whose owner is `g`. -/
structure Rep (L : Lists) (l : Nat → List Nat) : Prop where
  linked : ∀ g, L.Linked (L.head g) none (l g)
  nodup : ∀ g, (l g).Nodup
  mem_iff : ∀ g e, e ∈ l g ↔ L.owner e = some g

namespace Rep

variable {l : Nat → List Nat}

theorem not_mem (hr : L.Rep l) (he : L.owner e = none) (x : Nat) : e ∉ l x := fun h => by
  rw [hr.mem_iff, he] at h; cases h

theorem eq_of_mem (hr : L.Rep l) {x y z : Nat} (hx : z ∈ l x) (hy : z ∈ l y) : x = y :=
  Option.some_injective _ (((hr.mem_iff x z).1 hx).symm.trans ((hr.mem_iff y z).1 hy))

theorem head_mem (hr : L.Rep l) {y : Nat} (h : L.head g = some y) : y ∈ l g :=
  List.mem_of_mem_head? (show y ∈ (l g).head? from (hr.linked g).head_eq ▸ h)

theorem clear (hr : L.Rep l) (he : L.owner e = none) : (L.clear e).Rep l where
  linked x := (hr.linked x).frame fun z hz => by
    have hze : z ≠ e := fun h => hr.not_mem he x (h ▸ hz)
    rw [clear_next, clear_prev, if_neg hze, if_neg hze]; exact ⟨rfl, rfl⟩
  nodup := hr.nodup
  mem_iff x y := by
    rw [clear_owner]
    split_ifs with hy
    · subst hy; simp [hr.not_mem he x]
    · exact hr.mem_iff x y

theorem link (hr : L.Rep l) (he : L.owner e = none) (g : Nat) :
    (L.link e g).Rep (Function.update l g (e :: l g)) where
  linked x := by
    rw [link_head]
    by_cases hx : x = g
    · subst hx
      rw [if_pos rfl, Function.update_same]
      refine ⟨rfl, by rw [link_prev, if_pos rfl], ?_⟩
      rw [link_next, if_pos rfl]
      have hl := hr.linked x
      cases hlx : l x with
      | nil => rw [hlx] at hl; exact hl
      | cons y l' =>
        rw [hlx] at hl
        obtain ⟨hy, -, hrest⟩ := hl
        have hnd := hr.nodup x
        rw [hlx] at hnd
        have hye : y ≠ e := fun h => hr.not_mem he x (by rw [hlx, h]; exact List.mem_cons_self _ _)
        refine ⟨hy, by rw [link_prev, if_neg hye, if_pos hy], ?_⟩
        rw [link_next, if_neg hye]
        refine hrest.frame fun z hz => ?_
        have hze : z ≠ e := fun h => hr.not_mem he x (by rw [hlx, ← h]; exact List.mem_cons_of_mem _ hz)
        have hzy : L.head x ≠ some z := fun h =>
          (List.nodup_cons.1 hnd).1 (Option.some_injective _ (hy.symm.trans h) ▸ hz)
        rw [link_next, link_prev, if_neg hze, if_neg hze, if_neg hzy]; exact ⟨rfl, rfl⟩
    · rw [if_neg hx, Function.update_noteq hx]
      refine (hr.linked x).frame fun z hz => ?_
      have hze : z ≠ e := fun h => hr.not_mem he x (h ▸ hz)
      have hzg : L.head g ≠ some z := fun h => hx (hr.eq_of_mem hz (hr.head_mem h))
      rw [link_next, link_prev, if_neg hze, if_neg hze, if_neg hzg]; exact ⟨rfl, rfl⟩
  nodup x := by
    rw [Function.update_apply]
    split_ifs with hx
    · subst hx; exact List.nodup_cons.2 ⟨hr.not_mem he x, hr.nodup x⟩
    · exact hr.nodup x
  mem_iff x y := by
    rw [link_owner, Function.update_apply]
    by_cases hy : y = e
    · subst hy
      by_cases hx : x = g
      · simp [hx]
      · simp [hx, hr.not_mem he x, Ne.symm hx]
    · rw [if_neg hy, ← hr.mem_iff]
      split_ifs with hx
      · subst hx; simp [hy]
      · rfl

theorem unlink (hr : L.Rep l) (he : L.owner e = some g) :
    (L.unlink e).Rep (Function.update l g ((l g).erase e)) := by
  obtain ⟨l₁, l₂, hsplit⟩ := List.append_of_mem ((hr.mem_iff g e).2 he)
  have hnd : (l₁ ++ e :: l₂).Nodup := hsplit ▸ hr.nodup g
  have hlk : L.Linked (L.head g) none (l₁ ++ e :: l₂) := hsplit ▸ hr.linked g
  have herase : (l g).erase e = l₁ ++ l₂ := by
    rw [hsplit, List.erase_append_right _ fun h => (List.nodup_append.1 hnd).2.2 h
      (List.mem_cons_self _ _), List.erase_cons_head]
  -- the neighbours of `e` are on `g`'s list
  have hnext : ∀ y, L.next e = some y → y ∈ l g := fun y h => by
    rw [hsplit]
    exact List.mem_append_right _ (List.mem_cons_of_mem _
      (List.mem_of_mem_head? (show y ∈ l₂.head? from hlk.tail.head_eq ▸ h)))
  have hprev : ∀ y, L.prev e = some y → y ∈ l g := fun y h => by
    rcases hlk.prev_eq with ⟨-, hp⟩ | ⟨z, hz, hp⟩
    · rw [hp] at h; cases h
    · rw [hsplit, Option.some_injective _ (h.symm.trans hp)]; exact List.mem_append_left _ hz
  have hN : ∀ x ≠ e, (L.unlink e).next x = if L.prev e = some x then L.next e else L.next x :=
    fun x hx => by rw [unlink_next, if_neg hx]
  have hP : ∀ x ≠ e, (L.unlink e).prev x = if L.next e = some x then L.prev e else L.prev x :=
    fun x hx => by rw [unlink_prev, if_neg hx]
  refine ⟨fun x => ?_, fun x => ?_, fun x y => ?_⟩
  · rw [unlink_head]
    by_cases hx : x = g
    · subst hx
      rw [Function.update_same, herase]
      have hfirst : (L.prev e = none ∧ L.owner e = some x) ↔ l₁ = [] := by
        rcases hlk.prev_eq with ⟨rfl, hp⟩ | ⟨z, hz, hp⟩
        · simp [hp, he]
        · simp [hp, List.ne_nil_of_mem hz]
      simpa only [hfirst] using hlk.unlink hN hP hnd fun _ h => by cases h
    · rw [Function.update_noteq hx, if_neg fun h => hx (Option.some_injective _ (h.2.symm.trans he))]
      refine (hr.linked x).frame fun z hz => ?_
      have hze : z ≠ e := fun h => hx (hr.eq_of_mem (h ▸ hz) ((hr.mem_iff g e).2 he))
      have hzn : L.next e ≠ some z := fun h => hx (hr.eq_of_mem hz (hnext z h))
      have hzp : L.prev e ≠ some z := fun h => hx (hr.eq_of_mem hz (hprev z h))
      rw [hN z hze, hP z hze, if_neg hzp, if_neg hzn]; exact ⟨rfl, rfl⟩
  · rw [Function.update_apply]
    split_ifs with hx
    · subst hx; exact (hr.nodup x).erase e
    · exact hr.nodup x
  · rw [unlink_owner, Function.update_apply]
    split_ifs with hx hy hy
    · subst hx hy; simp [(hr.nodup x).mem_erase_iff]
    · subst hx; rw [(hr.nodup x).mem_erase_iff, hr.mem_iff]; simp [hy]
    · subst hy; exact ⟨fun h => absurd (hr.eq_of_mem h ((hr.mem_iff g y).2 he)) hx, nofun⟩
    · exact hr.mem_iff x y

end Rep

end Lists

/-- The edge store: the children lists, the parents lists, and the address the next
`new ChildAssoc` returns (in the model addresses are not reused). -/
structure EdgeStore where
  byParent : Lists
  byChild : Lists
  fresh : Nat

namespace EdgeStore

/-- `new ChildAssoc(f, c)`: the association at the fresh address, its six fields null (the
constructor's initializers), then `link_parent(f)` and `link_child(c)`. -/
def newChildAssoc (h : EdgeStore) (f c : Nat) : EdgeStore where
  byParent := (h.byParent.clear h.fresh).link h.fresh f
  byChild := (h.byChild.clear h.fresh).link h.fresh c
  fresh := h.fresh + 1

/-- `Gate::add_child`: `new ChildAssoc(this, child)`. -/
def addChild (h : EdgeStore) (g c : Nat) : EdgeStore := h.newChildAssoc g c

/-- `delete` of association `e`, the destructor `~ChildAssoc`: `unlink_parent`, then
`unlink_child`. -/
def deleteAssoc (h : EdgeStore) (e : Nat) : EdgeStore :=
  { h with byParent := h.byParent.unlink e, byChild := h.byChild.unlink e }

/-- `ChildAssoc::change_child`: `unlink_child`, then `link_child(new_child)`. -/
def changeChild (h : EdgeStore) (e c : Nat) : EdgeStore :=
  { h with byChild := (h.byChild.unlink e).link e c }

/-- `ChildAssoc::change_parent`: `unlink_parent`, then `link_parent(new_parent)`. -/
def changeParent (h : EdgeStore) (e f : Nat) : EdgeStore :=
  { h with byParent := (h.byParent.unlink e).link e f }

/-- `Gate::remove_all_children`: `delete children` while the list is not empty; `none` when
the fuel runs out. -/
def removeAllChildren : Nat → EdgeStore → Nat → Option EdgeStore
  | 0, _, _ => none
  | fuel + 1, h, g => match h.byParent.head g with
    | none => some h
    | some e => removeAllChildren fuel (h.deleteAssoc e) g

/-- The constructor `Gate(t, child1, child2)`: `add_child(child2)`, then `add_child(child1)`. -/
def gateBinary (h : EdgeStore) (g c₁ c₂ : Nat) : EdgeStore := (h.addChild g c₂).addChild g c₁

/-- The constructor `Gate(t, if_child, then_child, else_child)` of an `ITE`: the children are
added from the else child. -/
def gateIte (h : EdgeStore) (g i t e : Nat) : EdgeStore :=
  ((h.addChild g e).addChild g t).addChild g i

/-- The constructor `Gate(t, childs)`: the children are added from the back of the list. -/
def gateOfList (h : EdgeStore) (g : Nat) (cs : List Nat) : EdgeStore :=
  cs.foldr (fun c h => h.addChild g c) h

/-- The children of `g` as the code's loops read them: the `child` of each association met
following `next_child` from `Gate::children`. -/
def childGates (h : EdgeStore) (g : Nat) : List Nat :=
  (h.byParent.follow h.fresh (h.byParent.head g)).filterMap h.byChild.owner

/-- The representation invariant: `kids g` and `pars g` are `g`'s children and parents lists,
an association is on a children list exactly when it is on a parents list, and nothing from
the fresh address on is on any. -/
structure Rep (h : EdgeStore) (kids pars : Nat → List Nat) : Prop where
  kids : h.byParent.Rep kids
  pars : h.byChild.Rep pars
  linked_iff : ∀ e, (h.byParent.owner e).isSome ↔ (h.byChild.owner e).isSome
  fresh_free : ∀ e, h.fresh ≤ e → h.byParent.owner e = none

/-- The store is well formed: it has lists that represent it. -/
def WellFormed (h : EdgeStore) : Prop := ∃ kids pars, h.Rep kids pars

/-- The store with no associations. -/
def empty : EdgeStore where
  byParent := ⟨fun _ => none, fun _ => none, fun _ => none, fun _ => none⟩
  byChild := ⟨fun _ => none, fun _ => none, fun _ => none, fun _ => none⟩
  fresh := 0

theorem empty_rep : empty.Rep (fun _ => []) (fun _ => []) where
  kids := ⟨fun _ => rfl, fun _ => List.nodup_nil, fun _ _ => ⟨nofun, nofun⟩⟩
  pars := ⟨fun _ => rfl, fun _ => List.nodup_nil, fun _ _ => ⟨nofun, nofun⟩⟩
  linked_iff _ := Iff.rfl
  fresh_free _ _ := rfl

namespace Rep

variable {h : EdgeStore} {kids pars : Nat → List Nat}

theorem child_fresh (hr : h.Rep kids pars) {e : Nat} (he : h.fresh ≤ e) :
    h.byChild.owner e = none := by
  have := hr.linked_iff e
  rw [hr.fresh_free e he] at this
  simpa using this

theorem length_le (hr : h.Rep kids pars) (g : Nat) : (kids g).length ≤ h.fresh :=
  calc (kids g).length = (kids g).toFinset.card := (List.toFinset_card_of_nodup (hr.kids.nodup g)).symm
    _ ≤ (Finset.range h.fresh).card := Finset.card_le_card fun e he => by
        rw [List.mem_toFinset, hr.kids.mem_iff] at he
        rw [Finset.mem_range]
        by_contra hlt
        rw [hr.fresh_free e (Nat.le_of_not_lt hlt)] at he
        cases he
    _ = h.fresh := Finset.card_range _

theorem childGates_eq (hr : h.Rep kids pars) (g : Nat) :
    h.childGates g = (kids g).filterMap h.byChild.owner := by
  rw [childGates, (hr.kids.linked g).follow_eq (hr.length_le g)]

theorem newChildAssoc (hr : h.Rep kids pars) (f c : Nat) :
    (h.newChildAssoc f c).Rep (Function.update kids f (h.fresh :: kids f))
      (Function.update pars c (h.fresh :: pars c)) where
  kids := (hr.kids.clear (hr.fresh_free _ le_rfl)).link (by rw [Lists.clear_owner, if_pos rfl]) f
  pars := (hr.pars.clear (hr.child_fresh le_rfl)).link (by rw [Lists.clear_owner, if_pos rfl]) c
  linked_iff e := by
    simp only [EdgeStore.newChildAssoc, Lists.link_owner, Lists.clear_owner]
    split_ifs
    · rfl
    · exact hr.linked_iff e
  fresh_free e (he : h.fresh + 1 ≤ e) := by
    simp only [EdgeStore.newChildAssoc, Lists.link_owner, Lists.clear_owner]
    rw [if_neg (by omega), if_neg (by omega)]
    exact hr.fresh_free e (by omega)

theorem deleteAssoc (hr : h.Rep kids pars) {e f c : Nat} (hf : h.byParent.owner e = some f)
    (hc : h.byChild.owner e = some c) :
    (h.deleteAssoc e).Rep (Function.update kids f ((kids f).erase e))
      (Function.update pars c ((pars c).erase e)) where
  kids := hr.kids.unlink hf
  pars := hr.pars.unlink hc
  linked_iff x := by
    simp only [EdgeStore.deleteAssoc, Lists.unlink_owner]
    split_ifs
    · rfl
    · exact hr.linked_iff x
  fresh_free x hx := by
    simp only [EdgeStore.deleteAssoc, Lists.unlink_owner]
    split_ifs
    · rfl
    · exact hr.fresh_free x hx

theorem changeChild (hr : h.Rep kids pars) {e f c : Nat} (hf : h.byParent.owner e = some f)
    (hc : h.byChild.owner e = some c) (c' : Nat) :
    (h.changeChild e c').Rep kids
      (Function.update (Function.update pars c ((pars c).erase e)) c'
        (e :: Function.update pars c ((pars c).erase e) c')) where
  kids := hr.kids
  pars := (hr.pars.unlink hc).link (by rw [Lists.unlink_owner, if_pos rfl]) c'
  linked_iff x := by
    simp only [EdgeStore.changeChild, Lists.link_owner, Lists.unlink_owner]
    split_ifs with hx
    · subst hx; simp [hf]
    · exact hr.linked_iff x
  fresh_free := hr.fresh_free

theorem changeParent (hr : h.Rep kids pars) {e f c : Nat} (hf : h.byParent.owner e = some f)
    (hc : h.byChild.owner e = some c) (f' : Nat) :
    (h.changeParent e f').Rep
      (Function.update (Function.update kids f ((kids f).erase e)) f'
        (e :: Function.update kids f ((kids f).erase e) f')) pars where
  kids := (hr.kids.unlink hf).link (by rw [Lists.unlink_owner, if_pos rfl]) f'
  pars := hr.pars
  linked_iff x := by
    simp only [EdgeStore.changeParent, Lists.link_owner, Lists.unlink_owner]
    split_ifs with hx
    · subst hx; simp [hc]
    · exact hr.linked_iff x
  fresh_free x hx := by
    simp only [EdgeStore.changeParent, Lists.link_owner, Lists.unlink_owner]
    have hxe : x ≠ e := by rintro rfl; rw [hr.fresh_free x hx] at hf; cases hf
    rw [if_neg hxe, if_neg hxe]
    exact hr.fresh_free x hx

theorem addChild (hr : h.Rep kids pars) (g c : Nat) :
    (h.addChild g c).Rep (Function.update kids g (h.fresh :: kids g))
      (Function.update pars c (h.fresh :: pars c)) :=
  hr.newChildAssoc g c

theorem count_pars (hr : h.Rep kids pars) {g e : Nat} (he : e ∈ kids g) :
    ∃ c, h.byChild.owner e = some c ∧ (pars c).count e = 1 := by
  obtain ⟨c, hc⟩ := Option.isSome_iff_exists.1
    ((hr.linked_iff e).1 (by rw [(hr.kids.mem_iff g e).1 he]; rfl))
  exact ⟨c, hc, List.count_eq_one_of_mem (hr.pars.nodup c) ((hr.pars.mem_iff c e).2 hc)⟩

theorem count_kids (hr : h.Rep kids pars) {g e : Nat} (he : e ∈ pars g) :
    ∃ f, h.byParent.owner e = some f ∧ (kids f).count e = 1 := by
  obtain ⟨f, hf⟩ := Option.isSome_iff_exists.1
    ((hr.linked_iff e).2 (by rw [(hr.pars.mem_iff g e).1 he]; rfl))
  exact ⟨f, hf, List.count_eq_one_of_mem (hr.kids.nodup f) ((hr.kids.mem_iff f e).2 hf)⟩

theorem childGates_addChild (hr : h.Rep kids pars) (g c : Nat) :
    (h.addChild g c).childGates g = c :: h.childGates g := by
  rw [(hr.addChild g c).childGates_eq, hr.childGates_eq, Function.update_same, List.filterMap_cons]
  have hown : ∀ x, (h.addChild g c).byChild.owner x =
      if x = h.fresh then some c else h.byChild.owner x := fun x => by
    simp only [EdgeStore.addChild, EdgeStore.newChildAssoc, Lists.link_owner, Lists.clear_owner]
    split_ifs <;> rfl
  rw [hown, if_pos rfl]
  refine congrArg _ (List.filterMap_congr fun x hx => ?_)
  have hx' : x ≠ h.fresh := fun h' => hr.kids.not_mem (hr.fresh_free _ le_rfl) g (h' ▸ hx)
  rw [hown, if_neg hx']

theorem childGates_addChild_of_ne (hr : h.Rep kids pars) {g x : Nat} (c : Nat) (hx : x ≠ g) :
    (h.addChild g c).childGates x = h.childGates x := by
  rw [(hr.addChild g c).childGates_eq, hr.childGates_eq, Function.update_noteq hx]
  refine List.filterMap_congr fun y hy => ?_
  have hy' : y ≠ h.fresh := fun h' => hr.kids.not_mem (hr.fresh_free _ le_rfl) x (h' ▸ hy)
  simp only [EdgeStore.addChild, EdgeStore.newChildAssoc, Lists.link_owner, Lists.clear_owner,
    if_neg hy']

theorem childGates_changeChild (hr : h.Rep kids pars) {e f c : Nat}
    (hf : h.byParent.owner e = some f) (hc : h.byChild.owner e = some c) (c' x : Nat) :
    (h.changeChild e c').childGates x =
      (kids x).filterMap (Function.update h.byChild.owner e (some c')) := by
  rw [(hr.changeChild hf hc c').childGates_eq]
  congr 1
  funext y
  simp only [EdgeStore.changeChild, Lists.link_owner, Lists.unlink_owner, Function.update_apply]
  split_ifs <;> rfl

theorem gateOfList (hr : h.Rep kids pars) (g : Nat) : ∀ cs : List Nat,
    (∃ kids' pars', (h.gateOfList g cs).Rep kids' pars') ∧
      (h.gateOfList g cs).childGates g = cs ++ h.childGates g
  | [] => ⟨⟨kids, pars, hr⟩, rfl⟩
  | c :: cs => by
    obtain ⟨⟨kids', pars', hr'⟩, hch⟩ := gateOfList hr g cs
    exact ⟨⟨_, _, hr'.addChild g c⟩, by
      rw [EdgeStore.gateOfList, List.foldr_cons, ← EdgeStore.gateOfList,
        hr'.childGates_addChild, hch, List.cons_append]⟩

theorem removeAllChildren : ∀ (fuel : Nat) {h : EdgeStore} {kids pars : Nat → List Nat} (g : Nat),
    h.Rep kids pars → (kids g).length < fuel →
      ∃ h' pars', EdgeStore.removeAllChildren fuel h g = some h' ∧
        h'.Rep (Function.update kids g []) pars' ∧
        ∀ y ∉ kids g, h'.byChild.owner y = h.byChild.owner y
  | 0, _, _, _, _, _, hlt => absurd hlt (Nat.not_lt_zero _)
  | fuel + 1, h, kids, pars, g, hr, hlt => by
    have hl := hr.kids.linked g
    cases hk : kids g with
    | nil =>
      rw [hk] at hl
      refine ⟨h, pars, by rw [EdgeStore.removeAllChildren, hl], ?_, fun _ _ => rfl⟩
      rwa [← hk, Function.update_eq_self]
    | cons e rest =>
      rw [hk] at hl hlt
      have hf : h.byParent.owner e = some g :=
        (hr.kids.mem_iff g e).1 (hk ▸ List.mem_cons_self _ _)
      obtain ⟨c, hc⟩ := Option.isSome_iff_exists.1 ((hr.linked_iff e).1 (by rw [hf]; rfl))
      have hr' := hr.deleteAssoc hf hc
      rw [hk, List.erase_cons_head] at hr'
      obtain ⟨h', pars', hrun, hr'', hown⟩ := removeAllChildren fuel g hr'
        (by rw [Function.update_same]; simpa using hlt)
      refine ⟨h', pars', by rw [EdgeStore.removeAllChildren, hl.1]; exact hrun,
        by rwa [Function.update_idem] at hr'', fun y hy => ?_⟩
      have hye : y ≠ e := fun h' => hy (h' ▸ List.mem_cons_self _ _)
      rw [hown y (by rw [Function.update_same]; exact fun h' => hy (List.mem_cons_of_mem _ h')),
        EdgeStore.deleteAssoc, Lists.unlink_owner, if_neg hye]

end Rep

end EdgeStore

/-- The operations on the edge store. -/
inductive EdgeOp where
  | addChild (g c : Nat)
  | delete (e : Nat)
  | changeChild (e c : Nat)
  | changeParent (e f : Nat)
  | removeAllChildren (g : Nat)
  deriving DecidableEq, Repr

/-- An operation names an association only when it is in the store. -/
def EdgeOp.Valid (h : EdgeStore) : EdgeOp → Prop
  | .delete e | .changeChild e _ | .changeParent e _ => (h.byParent.owner e).isSome
  | .addChild _ _ | .removeAllChildren _ => True

namespace EdgeStore

/-- One operation; `none` when it names an association that is not in the store (the code would
follow a dangling pointer) or `remove_all_children` runs out of fuel. -/
def step (h : EdgeStore) : EdgeOp → Option EdgeStore
  | .addChild g c => some (h.addChild g c)
  | .delete e => if (h.byParent.owner e).isSome then some (h.deleteAssoc e) else none
  | .changeChild e c => if (h.byParent.owner e).isSome then some (h.changeChild e c) else none
  | .changeParent e f => if (h.byParent.owner e).isSome then some (h.changeParent e f) else none
  | .removeAllChildren g => removeAllChildren (h.fresh + 1) h g

/-- A sequence of operations. -/
def run (h : EdgeStore) : List EdgeOp → Option EdgeStore
  | [] => some h
  | op :: ops => (h.step op).bind fun h => h.run ops

theorem Rep.owners {h : EdgeStore} {kids pars : Nat → List Nat} (hr : h.Rep kids pars) {e : Nat}
    (he : (h.byParent.owner e).isSome) :
    ∃ f c, h.byParent.owner e = some f ∧ h.byChild.owner e = some c := by
  obtain ⟨f, hf⟩ := Option.isSome_iff_exists.1 he
  obtain ⟨c, hc⟩ := Option.isSome_iff_exists.1 ((hr.linked_iff e).1 he)
  exact ⟨f, c, hf, hc⟩

theorem WellFormed.step {h : EdgeStore} (hwf : h.WellFormed) {op : EdgeOp} (hv : op.Valid h) :
    ∃ h', h.step op = some h' ∧ h'.WellFormed := by
  obtain ⟨kids, pars, hr⟩ := hwf
  cases op with
  | addChild g c => exact ⟨_, rfl, _, _, hr.addChild g c⟩
  | delete e =>
    obtain ⟨f, c, hf, hc⟩ := hr.owners hv
    exact ⟨_, if_pos hv, _, _, hr.deleteAssoc hf hc⟩
  | changeChild e c' =>
    obtain ⟨f, c, hf, hc⟩ := hr.owners hv
    exact ⟨_, if_pos hv, _, _, hr.changeChild hf hc c'⟩
  | changeParent e f' =>
    obtain ⟨f, c, hf, hc⟩ := hr.owners hv
    exact ⟨_, if_pos hv, _, _, hr.changeParent hf hc f'⟩
  | removeAllChildren g =>
    obtain ⟨h', pars', hrun, hr', -⟩ :=
      hr.removeAllChildren (h.fresh + 1) g (Nat.lt_succ_of_le (hr.length_le g))
    exact ⟨h', hrun, _, _, hr'⟩

theorem step_valid {h h' : EdgeStore} (hwf : h.WellFormed) {op : EdgeOp}
    (hs : h.step op = some h') : h'.WellFormed := by
  have hv : op.Valid h := by
    cases op <;> simp only [step] at hs <;> (try split_ifs at hs) <;> trivial
  obtain ⟨h'', hs', hwf'⟩ := hwf.step hv
  rw [hs] at hs'
  cases hs'
  exact hwf'

/-- A run from a well-formed store ends in a well-formed store. -/
theorem WellFormed.run : ∀ {h h' : EdgeStore} {ops : List EdgeOp}, h.WellFormed →
    h.run ops = some h' → h'.WellFormed
  | _, _, [], hwf, hrun => Option.some_inj.1 hrun ▸ hwf
  | h, _, op :: ops, hwf, hrun => by
    obtain ⟨h₁, hs, hr⟩ := Option.bind_eq_some.1 hrun
    exact (step_valid hwf hs).run hr

end EdgeStore

namespace EdgeStore

/-- From a well-formed store, every run of `add_child`, `delete`, `change_child`,
`change_parent` and `remove_all_children` that returns ends in a well-formed store, and every
operation that names an association of the store returns. In a represented store, an
association on a children list is exactly once on its child's parents list, and the converse;
`change_child` leaves every gate's children in the same order with only the association's child
changed; `add_child` puts the new child first, so that from a gate with no children the two-,
three- and list-argument constructors give the children in argument order. -/
theorem edgeOps_keep_wellFormed :
    (∀ (h h' : EdgeStore) (ops : List EdgeOp), h.WellFormed → h.run ops = some h' →
      h'.WellFormed) ∧
    (∀ (h : EdgeStore) (op : EdgeOp), h.WellFormed → op.Valid h →
      ∃ h', h.step op = some h' ∧ h'.WellFormed) ∧
    ∀ (h : EdgeStore) (kids pars : Nat → List Nat), h.Rep kids pars →
      (∀ g e, e ∈ kids g → ∃ c, h.byChild.owner e = some c ∧ (pars c).count e = 1) ∧
      (∀ g e, e ∈ pars g → ∃ f, h.byParent.owner e = some f ∧ (kids f).count e = 1) ∧
      (∀ e c', (h.byParent.owner e).isSome → ∀ x, (h.changeChild e c').childGates x =
        (kids x).filterMap (Function.update h.byChild.owner e (some c'))) ∧
      (∀ g c, (h.addChild g c).childGates g = c :: h.childGates g) ∧
      ∀ g, h.childGates g = [] →
        (∀ c₁ c₂, (h.gateBinary g c₁ c₂).childGates g = [c₁, c₂]) ∧
        (∀ i t e, (h.gateIte g i t e).childGates g = [i, t, e]) ∧
        ∀ cs, (h.gateOfList g cs).childGates g = cs := by
  refine ⟨fun _ _ _ hwf hrun => hwf.run hrun, fun _ _ hwf hv => hwf.step hv,
    fun h kids pars hr => ⟨fun _ _ => hr.count_pars, fun _ _ => hr.count_kids,
      fun e c' he x => ?_, hr.childGates_addChild, fun g hg => ?_⟩⟩
  · obtain ⟨f, c, hf, hc⟩ := hr.owners he
    exact hr.childGates_changeChild hf hc c' x
  · have hlist := fun cs => (hr.gateOfList g cs).2.trans (by rw [hg, List.append_nil])
    exact ⟨fun c₁ c₂ => hlist [c₁, c₂], fun i t e => hlist [i, t, e], hlist⟩

end EdgeStore

namespace EdgeStore

/-- The edge store implements the children lists of the gate store: it is well formed, and
every gate's children as the code reads them are its children in the gate store. -/
def Implements (h : EdgeStore) (s : BC) : Prop :=
  h.WellFormed ∧ ∀ g, (s.gate g).children = h.childGates g

variable {h : EdgeStore} {s : BC} {g : Nat}

theorem Implements.addChild (hi : h.Implements s) (hg : g < s.size) (c : Nat) :
    (h.addChild g c).Implements (s.addChild g c) := by
  obtain ⟨⟨kids, pars, hr⟩, hch⟩ := hi
  refine ⟨⟨_, _, hr.addChild g c⟩, fun x => ?_⟩
  by_cases hx : x = g
  · subst hx
    simp [BC.addChild, BC.setChildren, hg, hr.childGates_addChild, hch]
  · simp [BC.addChild, BC.setChildren, Ne.symm hx, hr.childGates_addChild_of_ne c hx, hch]

theorem Implements.removeAllChildren (hi : h.Implements s) (hg : g < s.size) :
    ∃ h', EdgeStore.removeAllChildren (h.fresh + 1) h g = some h' ∧
      h'.Implements (s.removeAllChildren g) := by
  obtain ⟨⟨kids, pars, hr⟩, hch⟩ := hi
  obtain ⟨h', pars', hrun, hr', hown⟩ :=
    hr.removeAllChildren (h.fresh + 1) g (Nat.lt_succ_of_le (hr.length_le g))
  refine ⟨h', hrun, ⟨_, _, hr'⟩, fun x => ?_⟩
  rw [hr'.childGates_eq]
  by_cases hx : x = g
  · subst hx
    simp [BC.removeAllChildren, BC.setChildren, hg]
  · rw [Function.update_noteq hx]
    rw [BC.removeAllChildren, BC.gate_setLinks, BC.setChildren, BC.gate_modify_of_ne _ (Ne.symm hx), hch,
      hr.childGates_eq]
    exact List.filterMap_congr fun y hy => (hown y fun h' => hx (hr.kids.eq_of_mem hy h')).symm

end EdgeStore

example : (EdgeStore.empty.gateBinary 0 1 2).childGates 0 = [1, 2] := by decide

end BcSat
