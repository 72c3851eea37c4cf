import BcSat.SimplifyMoves
import BcSat.NormalizeShape

set_option autoImplicit false

/-!
# `Gate::simplify` loses no solution

Every rule of the simplifier outside the `THRESHOLD` case rewrites the store so that each
consistent evaluation stays consistent, once it is extended to the gates the rule adds; and a
rule returns false only when no consistent evaluation exists. The `THRESHOLD` case is left out:
its parent-`AND` rule does lose solutions (`simplify_threshold_duplicate_child`).

The proofs follow one evaluation `σ` through the edits of a rule: each edit keeps `σ`
consistent once a side condition on `σ` holds, and the side conditions are read off the gates
`σ` is consistent with.
-/

namespace BcSat

namespace BC

/-- A call on `s` that returned `r` loses no solution: the store does not shrink, and on every
consistent evaluation of `s` the call returned true and left a store that the evaluation,
changed only on the gates the call added, is consistent with. -/
def Keeps (s : BC) (r : Bool × BC) : Prop :=
  s.size ≤ r.2.size ∧ ∀ σ, s.circuit.Consistent σ →
    r.1 = true ∧ ∃ σ', r.2.circuit.Consistent σ' ∧ ∀ x < s.size, σ' x = σ x

namespace Keeps

variable {s s₁ : BC} {r : Bool × BC}

theorem trans (h₁ : Keeps s (true, s₁)) (h₂ : Keeps s₁ r) : Keeps s r := by
  refine ⟨h₁.1.trans h₂.1, fun σ hσ => ?_⟩
  obtain ⟨-, σ₁, hσ₁, hag₁⟩ := h₁.2 σ hσ
  obtain ⟨hok, σ₂, hσ₂, hag₂⟩ := h₂.2 σ₁ hσ₁
  exact ⟨hok, σ₂, hσ₂, fun x hx => (hag₂ x (lt_of_lt_of_le hx h₁.1)).trans (hag₁ x hx)⟩

theorem of_consistent (hsize : s.size ≤ r.2.size)
    (h : ∀ σ, s.circuit.Consistent σ → r.1 = true ∧ r.2.circuit.Consistent σ) : Keeps s r :=
  ⟨hsize, fun σ hσ => ⟨(h σ hσ).1, σ, (h σ hσ).2, fun _ _ => rfl⟩⟩

theorem refl (s : BC) : Keeps s (true, s) := of_consistent le_rfl fun _ hσ => ⟨rfl, hσ⟩

theorem of_unsat {s' : BC} (hsize : s.size ≤ s'.size) (h : ¬s.circuit.Satisfiable) :
    Keeps s (false, s') :=
  ⟨hsize, fun σ hσ => absurd ⟨σ, hσ⟩ h⟩

theorem unsat {s' : BC} (h : Keeps s (false, s')) : ¬s.circuit.Satisfiable :=
  fun ⟨σ, hσ⟩ => Bool.false_ne_true (h.2 σ hσ).1

end Keeps

variable {s : BC} {σ : Nat → Bool} {g : Nat}

@[simp] theorem circuit_pushIfOrphan : (s.pushIfOrphan g).circuit = s.circuit := by
  unfold pushIfOrphan; split <;> simp

@[simp] theorem circuit_addChildrenInPstack : (s.addChildrenInPstack g).circuit = s.circuit :=
  circuit_foldl_addInPstack s _

@[simp] theorem gate_withChanged (b : Bool) (x : Nat) : ({ s with changed := b }).gate x = s.gate x :=
  rfl

@[simp] theorem size_withChanged (b : Bool) : ({ s with changed := b }).size = s.size := rfl

section Gates

variable {x : Nat}

@[simp] theorem gate_setType_self (t : GateType) (hg : g < s.size) :
    (s.setType g t).gate g = { s.gate g with type := t } := gate_modify_self _ hg

@[simp] theorem gate_setType_of_ne (t : GateType) (hne : g ≠ x) : (s.setType g t).gate x = s.gate x :=
  gate_modify_of_ne _ hne

@[simp] theorem gate_setChildren_self (chs : List Nat) (hg : g < s.size) :
    (s.setChildren g chs).gate g = { s.gate g with children := chs } := gate_modify_self _ hg

@[simp] theorem gate_setChildren_of_ne (chs : List Nat) (hne : g ≠ x) :
    (s.setChildren g chs).gate x = s.gate x := gate_modify_of_ne _ hne

@[simp] theorem gate_addChild_self (ch : Nat) (hg : g < s.size) :
    (s.addChild g ch).gate g = { s.gate g with children := ch :: (s.gate g).children } :=
  gate_modify_self _ hg

@[simp] theorem gate_addChild_of_ne (ch : Nat) (hne : g ≠ x) : (s.addChild g ch).gate x = s.gate x :=
  gate_modify_of_ne _ hne

@[simp] theorem gate_removeAllChildren_self (hg : g < s.size) :
    (s.removeAllChildren g).gate g = { s.gate g with children := [] } := gate_modify_self _ hg

@[simp] theorem gate_removeAllChildren_of_ne (hne : g ≠ x) :
    (s.removeAllChildren g).gate x = s.gate x := gate_modify_of_ne _ hne

theorem gate_foldl_addChild (hg : g < s.size) (chs : List Nat) :
    (chs.foldl (fun s ch => s.addChild g ch) s).gate x =
      if x = g then { s.gate g with children := chs.reverse ++ (s.gate g).children } else s.gate x := by
  induction chs generalizing s with
  | nil => split_ifs with hx <;> simp [hx]
  | cons ch chs ih =>
    rw [List.foldl_cons, ih (by simpa using hg)]
    by_cases hx : x = g
    · simp [hx, hg]
    · simp [hx, Ne.symm hx]

theorem gate_rebuild (hg : g < s.size) (t : GateType) (chs : List Nat) :
    (s.rebuild g t chs).gate x =
      if x = g then { s.gate g with type := t, children := chs.reverse } else s.gate x := by
  simp only [rebuild, gate_withChanged, gate_addInPstack]
  rw [gate_foldl_addChild (by simpa using hg)]
  by_cases hx : x = g
  · simp [hx, hg]
  · simp [hx, Ne.symm hx]

@[simp] theorem size_rebuild (t : GateType) (chs : List Nat) : (s.rebuild g t chs).size = s.size := by
  simp [rebuild]

theorem gate_overNot (hg : g < s.size) (ty : GateType) (i c x : Nat) :
    ({ ((((((s.addChildrenInPstack g).removeAllChildren g).setType g ty).append
      { type := .not, children := [i] }).addChild g s.size).addChild g c).addInPstack g
      |>.addParentsInPstack g with changed := true } : BC).gate x =
      if x = g then { s.gate g with type := ty, children := [c, s.size] }
      else if x = s.size then { type := .not, children := [i] } else s.gate x := by
  have hg₁ : g < s.size + 1 := by omega
  by_cases hx : x = g
  · subst hx; simp [hg, hg₁, Nat.ne_of_lt hg]
  · simp only [gate_withChanged, gate_addParentsInPstack, gate_addInPstack,
      gate_addChild_of_ne _ (Ne.symm hx), gate_append, size_setType, size_removeAllChildren,
      size_addChildrenInPstack, if_neg hx]
    split_ifs <;> simp [Ne.symm hx]

theorem gate_retypePair (hg : g < s.size) (ty : GateType) (o a b x : Nat) :
    ({ ((((s.removeAllChildren g).pushIfOrphan o).setType g ty).addChild g a).addChild g b
      |>.addInPstack g with changed := true } : BC).gate x =
      if x = g then { s.gate g with type := ty, children := [b, a] } else s.gate x := by
  by_cases hx : x = g
  · subst hx; simp [hg]
  · simp [hx, Ne.symm hx]

theorem type_modify_of {f : Gate → Gate} (hf : ∀ gt, (f gt).type = gt.type) :
    ((s.modify g f).gate x).type = (s.gate x).type := by
  rw [gate_modify]; split_ifs <;> simp [hf]

@[simp] theorem type_setChildren_eq (chs : List Nat) :
    ((s.setChildren g chs).gate x).type = (s.gate x).type := type_modify_of fun _ => rfl

@[simp] theorem type_setTemp_eq (t : Int) : ((s.setTemp g t).gate x).type = (s.gate x).type :=
  type_modify_of fun _ => rfl

@[simp] theorem type_addChild_eq (ch : Nat) : ((s.addChild g ch).gate x).type = (s.gate x).type :=
  type_modify_of fun _ => rfl

@[simp] theorem type_removeAllChildren_eq : ((s.removeAllChildren g).gate x).type = (s.gate x).type :=
  type_modify_of fun _ => rfl

end Gates

end BC

namespace Circuit.Consistent

open BC

variable {s : BC} {σ : Nat → Bool} {g : Nat}

theorem modify (hσ : s.circuit.Consistent σ) (f : Gate → Gate)
    (hg : g < s.size → (f (s.gate g)).Holds (σ g) ((f (s.gate g)).children.map σ)) :
    (s.modify g f).circuit.Consistent σ := by
  intro x hx
  show (s.circuit.modify g f).GateOk σ x
  rw [gateOk_iff, Circuit.gate_modify]
  split_ifs with h
  · obtain ⟨rfl, hx⟩ := h
    exact hg hx
  · exact hσ x (by simpa using hx)

theorem setTemp (hσ : s.circuit.Consistent σ) (t : Int) : (s.setTemp g t).circuit.Consistent σ :=
  hσ.modify _ fun hg => hσ g hg

theorem setTemps (hσ : s.circuit.Consistent σ) (xs : List Nat) (t : Int) :
    (s.setTemps xs t).circuit.Consistent σ := by
  induction xs generalizing s with
  | nil => exact hσ
  | cons x xs ih => exact ih (hσ.setTemp t)

theorem setChildren (hσ : s.circuit.Consistent σ) {chs : List Nat}
    (h : g < s.size → (s.gate g).type.Live → (s.gate g).type ≠ .var →
      σ g = (s.gate g).type.eval (s.gate g).tmin (s.gate g).tmax (chs.map σ)) :
    (s.setChildren g chs).circuit.Consistent σ :=
  hσ.modify _ fun hg hl => ⟨h hg hl, ((hσ g hg) hl).2⟩

theorem setType (hσ : s.circuit.Consistent σ) {t : GateType}
    (h : g < s.size → t.Live → t ≠ .var →
      σ g = t.eval (s.gate g).tmin (s.gate g).tmax ((s.gate g).children.map σ))
    (hdet : g < s.size → t.Live → (s.gate g).determined → σ g = (s.gate g).value) :
    (s.setType g t).circuit.Consistent σ :=
  hσ.modify _ fun hg hl => ⟨h hg hl, hdet hg hl⟩

theorem onlyAt (hσ : s.circuit.Consistent σ) {s' : BC} (hsize : s'.size = s.size)
    (hframe : ∀ x, x ≠ g → s'.gate x = s.gate x) (hg : g < s.size → s'.circuit.GateOk σ g) :
    s'.circuit.Consistent σ := by
  intro x hx
  have hx' : x < s.size := by simpa [hsize] using hx
  by_cases hxg : x = g
  · subst hxg; exact hg hx'
  · rw [gateOk_iff, circuit_gate, hframe x hxg]; exact hσ x hx'

theorem determine (hσ : s.circuit.Consistent σ) {v : Bool} (hv : g < s.size → σ g = v) :
    (s.determine g v).circuit.Consistent σ :=
  hσ.modify _ fun hg hl => ⟨((hσ g hg) hl).1, fun _ => hv hg⟩

theorem redirectParents (hσ : s.circuit.Consistent σ) (keep : Option Nat) {a b : Nat}
    (hab : σ a = σ b) : (s.redirectParents keep a b).circuit.Consistent σ := by
  intro x hx
  have hx' : x < s.size := by simpa using hx
  rw [gateOk_iff, circuit_gate, gate_redirectParents]
  split_ifs
  · exact hσ x hx'
  · rw [map_redirect hab]; exact hσ x hx'

theorem moveHandles (hσ : s.circuit.Consistent σ) (a b : Nat) :
    (s.moveHandles a b).circuit.Consistent σ := by
  unfold BC.moveHandles
  have h₁ := hσ.modify (g := b) (fun gt => { gt with handles := (s.gate a).handles ++ gt.handles })
    fun hg => hσ b hg
  exact h₁.modify _ fun hg => h₁ a hg

theorem append (hσ : s.circuit.Consistent σ) {gt : Gate}
    (hnew : gt.Holds (σ s.size) (gt.children.map σ)) : (s.append gt).circuit.Consistent σ := by
  intro x hx
  rw [gateOk_iff, circuit_gate, gate_append]
  split_ifs with h
  · subst h; exact hnew
  · exact hσ x (by simp only [circuit_size, size_append] at hx ⊢; omega)

theorem update (hσ : s.circuit.Consistent σ) (hcl : s.circuit.Closed) {n : Nat} (hn : s.size ≤ n)
    (b : Bool) : s.circuit.Consistent (Function.update σ n b) := by
  intro x hx
  have hmap : (s.gate x).children.map (Function.update σ n b) = (s.gate x).children.map σ :=
    List.map_congr_left fun ch hch =>
      Function.update_noteq (by have := hcl x hx ch hch; simp at this; omega) _ _
  rw [gateOk_iff, circuit_gate, hmap, Function.update_noteq (by simp at hx; omega)]
  exact hσ x hx

theorem updateShaped (hσ : s.circuit.Consistent σ) (hs : s.circuit.Shaped) {n : Nat} (hn : s.size ≤ n)
    (b : Bool) : s.circuit.Consistent (Function.update σ n b) := by
  intro x hx
  rw [gateOk_iff]
  intro hl
  have hmap : (s.circuit.gate x).children.map (Function.update σ n b) =
      (s.circuit.gate x).children.map σ :=
    List.map_congr_left fun ch hch => Function.update_noteq (by
      have := lt_size_of_live ((hs x hx hl).1 ch hch); simp at this; omega) _ _
  rw [hmap, Function.update_noteq (by simp at hx; omega)]
  exact hσ x hx hl

theorem transformIntoConstant (hσ : s.circuit.Consistent σ) (hg : g < s.size) {v : Bool}
    {s' : BC} (h : s.transformIntoConstant g v = some s') (hv : σ g = v) :
    s'.circuit.Consistent σ := by
  obtain ⟨hsize, hgate⟩ := transformIntoConstant_gate hg h
  intro x hx
  rw [gateOk_iff, circuit_gate, hgate]
  by_cases hx' : x = g
  · subst hx'
    rw [if_pos rfl]
    exact fun _ => ⟨fun _ => by cases v <;> simp [hv, GateType.eval], fun _ => hv⟩
  · rw [if_neg hx']
    exact hσ x (by simpa [hsize] using hx)

theorem delete (hσ : s.circuit.Consistent σ) (f : Gate → Gate) :
    ((s.modify g f).setType g .deleted).circuit.Consistent σ :=
  hσ.onlyAt (g := g) (by simp) (fun x hx => by simp [BC.setType, Ne.symm hx])
    fun hg hl => absurd (by simp [BC.setType, hg]) hl.1

theorem rebuilt (hσ : s.circuit.Consistent σ) {s' : BC} (hsize : s'.size = s.size)
    (hframe : ∀ x, x ≠ g → s'.gate x = s.gate x)
    (hdet : (s'.gate g).determined = (s.gate g).determined)
    (hval : (s'.gate g).value = (s.gate g).value)
    (hlive : (s'.gate g).type.Live → (s.gate g).type.Live)
    (heval : g < s.size → (s'.gate g).type.Live → (s'.gate g).type ≠ .var →
      σ g = (s'.gate g).type.eval (s'.gate g).tmin (s'.gate g).tmax ((s'.gate g).children.map σ)) :
    s'.circuit.Consistent σ :=
  hσ.onlyAt hsize hframe fun hg hl' =>
    ⟨heval hg hl', fun hd => by
      show σ g = (s'.gate g).value
      rw [hval]; exact (hσ g hg (hlive hl')).2 (hdet ▸ hd)⟩

end Circuit.Consistent

namespace BC

open Circuit

variable {s : BC} {g : Nat}

theorem becomeConstant_keeps (hl : (s.gate g).type.Live) {v : Bool} {r : Bool × BC}
    (h : s.becomeConstant g v = some r) (hforced : ∀ σ, s.circuit.Consistent σ → σ g = v) :
    Keeps s r := by
  have hg : g < s.size := lt_size_of_live (c := s.circuit) hl
  unfold becomeConstant at h
  split_ifs at h with hc
  · cases h
    refine .of_unsat le_rfl fun ⟨σ, hσ⟩ => ?_
    simp only [Bool.and_eq_true, bne_iff_ne] at hc
    exact hc.2 ((consistent_det hσ hg hl hc.1).symm.trans (hforced σ hσ))
  · obtain ⟨s', hs', rfl⟩ := Option.map_eq_some'.1 h
    refine .of_consistent (by simp [(transformIntoConstant_gate hg hs').1]) fun σ hσ =>
      ⟨rfl, by simpa using hσ.transformIntoConstant hg hs' (hforced σ hσ)⟩

theorem simplifyConstant_keeps {v : Bool} (hty : (s.gate g).type = if v then .true else .false)
    {r : Bool × BC} (h : s.simplifyConstant g v = some r) : Keeps s r := by
  have hl : (s.gate g).type.Live := by rw [hty]; cases v <;> decide
  have hg : g < s.size := lt_size_of_live (c := s.circuit) hl
  have hv : ∀ σ, s.circuit.Consistent σ → σ g = v := fun σ hσ => by
    rw [consistent_eval hσ hg hl (by rw [hty]; cases v <;> decide), hty]; cases v <;> rfl
  unfold simplifyConstant at h
  dsimp only at h
  by_cases hc : ((s.gate g).determined && (s.gate g).value != v) = true
  · rw [if_pos hc] at h
    cases h
    refine .of_unsat le_rfl fun ⟨σ, hσ⟩ => ?_
    simp only [Bool.and_eq_true, bne_iff_ne] at hc
    exact hc.2 ((consistent_det hσ hg hl hc.1).symm.trans (hv σ hσ))
  · rw [if_neg hc] at h
    cases h
    have hsz : (if (s.gate g).determined then s
        else (s.determine g v).addParentsInPstack g).size = s.size := by split_ifs <;> simp
    have h₁ : ∀ σ, s.circuit.Consistent σ → (if (s.gate g).determined then s
        else (s.determine g v).addParentsInPstack g).circuit.Consistent σ := fun σ hσ => by
      split_ifs
      · exact hσ
      · simpa using hσ.determine fun _ => hv σ hσ
    generalize (if (s.gate g).determined then s else (s.determine g v).addParentsInPstack g) = s₁
      at hsz h₁ ⊢
    refine .of_consistent (by split_ifs <;> simp [hsz]) fun σ hσ => ⟨rfl, ?_⟩
    split_ifs
    · exact (h₁ σ hσ).setType (fun _ hl => absurd rfl hl.1) fun _ hl => absurd rfl hl.1
    · exact h₁ σ hσ

theorem simplifyVar_keeps (hty : (s.gate g).type = .var) {r : Bool × BC}
    (h : s.simplifyVar g = some r) : Keeps s r := by
  have hl : (s.gate g).type.Live := by rw [hty]; decide
  have hg : g < s.size := lt_size_of_live (c := s.circuit) hl
  unfold simplifyVar at h
  split_ifs at h with hc
  · obtain ⟨s', hs', rfl⟩ := Option.map_eq_some'.1 h
    simp only [Bool.and_eq_true] at hc
    exact .of_consistent (by simp [(transformIntoConstant_gate hg hs').1]) fun σ hσ =>
      ⟨rfl, hσ.transformIntoConstant hg hs' (consistent_det hσ hg hl hc.1)⟩
  · cases h
    exact .of_consistent le_rfl fun σ hσ => ⟨rfl, hσ⟩

theorem xor_eq_comm {a b c : Bool} : a = (b ^^ c) ↔ b = (a ^^ c) := by
  cases a <;> cases b <;> cases c <;> decide

section Unary

/- `REF` (`neg = false`) and `NOT` (`neg = true`) over their one child `ch`. -/
variable {ch : Nat} {neg : Bool} (hty : (s.gate g).type = if neg then .not else .ref)
  (hch : (s.gate g).children = [ch]) (hchl : (s.gate ch).type.Live)
include hty hch

theorem unary_value {σ : Nat → Bool} (hσ : s.circuit.Consistent σ) : σ g = (σ ch ^^ neg) := by
  have hl : (s.gate g).type.Live := by rw [hty]; cases neg <;> decide
  rw [consistent_eval hσ (lt_size_of_live (c := s.circuit) hl) hl (by rw [hty]; cases neg <;> decide),
    hty, hch]
  cases neg <;> simp

include hchl in
theorem simplifyUnaryDetermined_keeps {r : Bool × BC}
    (h : s.simplifyUnaryDetermined g ch neg = some (some r)) : Keeps s r := by
  have hl : (s.gate g).type.Live := by rw [hty]; cases neg <;> decide
  have hg : g < s.size := lt_size_of_live (c := s.circuit) hl
  have hc : ch < s.size := lt_size_of_live (c := s.circuit) hchl
  have hval := fun σ (hσ : s.circuit.Consistent σ) => unary_value hty hch hσ
  unfold simplifyUnaryDetermined at h
  by_cases hd : (s.gate g).determined = true
  · -- the value goes down, or clashes with the child's
    have hgv := fun σ (hσ : s.circuit.Consistent σ) => consistent_det hσ hg hl hd
    have hdown := fun σ (hσ : s.circuit.Consistent σ) =>
      xor_eq_comm.1 ((hgv σ hσ).symm.trans (hval σ hσ))
    by_cases hcd : (s.gate ch).determined = true
    · by_cases hcv : (s.gate ch).value = ((s.gate g).value ^^ neg)
      · simp only [hd, hcd, hcv, if_true] at h
        obtain ⟨s₂, hs₂, rfl⟩ := Option.map_eq_some'.1 (Option.some.inj h)
        exact .of_consistent (by simp [(transformIntoConstant_gate hg hs₂).1]) fun σ hσ =>
          ⟨rfl, by simpa using hσ.transformIntoConstant hg hs₂ (hgv σ hσ)⟩
      · simp only [hd, hcd, hcv, if_true, if_false, Option.some.injEq] at h
        subst h
        exact .of_unsat le_rfl fun ⟨σ, hσ⟩ =>
          hcv ((consistent_det hσ hc hchl hcd).symm.trans (hdown σ hσ))
    · simp only [hd, hcd, if_true, if_false, Bool.false_eq_true] at h
      obtain ⟨s₂, hs₂, rfl⟩ := Option.map_eq_some'.1 (Option.some.inj h)
      have hg₁ : g < ((s.determine ch ((s.gate g).value ^^ neg)).addInPstack ch).size := by
        simpa using hg
      refine .of_consistent (by simp [(transformIntoConstant_gate hg₁ hs₂).1]) fun σ hσ =>
        ⟨rfl, ?_⟩
      have h₁ : ((s.determine ch ((s.gate g).value ^^ neg)).addInPstack ch).circuit.Consistent σ := by
        simpa using hσ.determine fun _ => hdown σ hσ
      simpa using h₁.transformIntoConstant hg₁ hs₂ (hgv σ hσ)
  · -- the value comes up from the child
    by_cases hcd : (s.gate ch).determined = true
    · simp only [hd, hcd, if_true, if_false, Bool.false_eq_true] at h
      obtain ⟨s₂, hs₂, rfl⟩ := Option.map_eq_some'.1 (Option.some.inj h)
      refine .of_consistent (by simp [(transformIntoConstant_gate hg hs₂).1]) fun σ hσ => ⟨rfl, ?_⟩
      simpa using hσ.transformIntoConstant hg hs₂
        ((hval σ hσ).trans (by rw [consistent_det hσ hc hchl hcd]))
    · simp [hd, hcd] at h

end Unary

theorem Keeps.of_circuit_eq {s₁ s₂ : BC} {b : Bool} (h : Keeps s (b, s₁))
    (hc : s₁.circuit = s₂.circuit) : Keeps s (b, s₂) := by
  obtain ⟨hsize, hk⟩ := h
  refine ⟨?_, fun σ hσ => by simpa [hc] using hk σ hσ⟩
  show s.size ≤ s₂.circuit.size
  rw [← hc]; exact hsize

section Rebuild

variable (hl : (s.gate g).type.Live)
include hl

theorem rebuild_keeps {ty : GateType} {chs : List Nat}
    (heval : ∀ σ, s.circuit.Consistent σ → ty.Live → ty ≠ .var →
      σ g = ty.eval (s.gate g).tmin (s.gate g).tmax (chs.reverse.map σ)) :
    Keeps s (true, s.rebuild g ty chs) := by
  have hg : g < s.size := lt_size_of_live (c := s.circuit) hl
  have hgate : (s.rebuild g ty chs).gate g = { s.gate g with type := ty, children := chs.reverse } := by
    rw [gate_rebuild hg, if_pos rfl]
  refine .of_consistent (by simp) fun σ hσ => ⟨rfl, hσ.rebuilt (g := g) (by simp)
    (fun x hx => by rw [gate_rebuild hg, if_neg hx]) (by rw [hgate]) (by rw [hgate])
    (fun _ => hl) fun _ hl' hv' => ?_⟩
  rw [hgate] at hl' hv' ⊢
  exact heval σ hσ hl' hv'

theorem overNot_keeps (hs : s.circuit.Shaped) {ty : GateType} {i c : Nat} (hi : i < s.size)
    (hc : c < s.size)
    (heval : ∀ σ, s.circuit.Consistent σ → σ g = ty.eval (s.gate g).tmin (s.gate g).tmax [σ c, !σ i]) :
    Keeps s (true, { ((((((s.addChildrenInPstack g).removeAllChildren g).setType g ty).append
      { type := .not, children := [i] }).addChild g s.size).addChild g c).addInPstack g
      |>.addParentsInPstack g with changed := true }) := by
  have hg : g < s.size := lt_size_of_live (c := s.circuit) hl
  refine ⟨by simp, fun σ hσ => ⟨rfl, Function.update σ s.size (!σ i), ?_,
    fun x hx => Function.update_noteq (by omega) _ _⟩⟩
  have hσ' := (hσ.updateShaped hs le_rfl (!σ i)).append
    (show Gate.Holds { type := .not, children := [i] } _ _ from fun _ => ⟨fun _ => by
      simp only [List.map_cons, List.map_nil, Function.update_same,
        Function.update_noteq (Nat.ne_of_lt hi)]
      cases σ i <;> rfl, nofun⟩)
  refine hσ'.onlyAt (g := g) (by simp) (fun x hx => ?_) fun _ => ?_
  · rw [gate_overNot hg, if_neg hx, gate_append]
  · have hgn : g ≠ s.size := Nat.ne_of_lt hg
    rw [gateOk_iff, circuit_gate, gate_overNot hg, if_pos rfl]
    refine fun _ => ⟨fun _ => ?_, fun hd => ?_⟩
    · simp only [List.map_cons, List.map_nil, Function.update_same,
        Function.update_noteq (Nat.ne_of_lt hc), Function.update_noteq hgn]
      exact heval σ hσ
    · rw [Function.update_noteq hgn]; exact (hσ g hg hl).2 hd

theorem retypePair_keeps {ty : GateType} {o a b : Nat}
    (heval : ∀ σ, s.circuit.Consistent σ → σ g = ty.eval (s.gate g).tmin (s.gate g).tmax [σ b, σ a]) :
    Keeps s (true, { ((((s.removeAllChildren g).pushIfOrphan o).setType g ty).addChild g a).addChild g b
      |>.addInPstack g with changed := true }) := by
  have hg : g < s.size := lt_size_of_live (c := s.circuit) hl
  refine .of_consistent (by simp) fun σ hσ => ⟨rfl, hσ.rebuilt (g := g) (by simp)
    (fun x hx => by rw [gate_retypePair hg, if_neg hx]) (by rw [gate_retypePair hg, if_pos rfl])
    (by rw [gate_retypePair hg, if_pos rfl]) (fun _ => hl) fun _ _ _ => ?_⟩
  rw [gate_retypePair hg, if_pos rfl]
  exact heval σ hσ

end Rebuild

theorem simplifyIte_keeps (hty : (s.gate g).type = .ite) (hs : s.circuit.Shaped) {r : Bool × BC} (h : s.simplifyIte g = some r) : Keeps s r := by
  have hl : (s.gate g).type.Live := by rw [hty]; decide
  have hg : g < s.size := lt_size_of_live (c := s.circuit) hl
  obtain ⟨hlive, -, -⟩ := hs g hg hl
  unfold simplifyIte at h
  split at h
  swap
  · cases h
  rename_i i t e rest hchs
  have hmem : i ∈ (s.gate g).children ∧ t ∈ (s.gate g).children ∧ e ∈ (s.gate g).children := by
    simp [hchs]
  have hval : ∀ σ, s.circuit.Consistent σ → σ g = if σ i then σ t else σ e := fun σ hσ => by
    rw [consistent_eval hσ hg hl (by rw [hty]; decide), hty, hchs]; rfl
  have hdv : ∀ x ∈ (s.gate g).children, ∀ v, ((s.gate x).determined && (s.gate x).value == v) →
      ∀ σ, s.circuit.Consistent σ → σ x = v := fun x hx v hd σ hσ => by
    simp only [Bool.and_eq_true, beq_iff_eq] at hd
    rw [← hd.2]
    exact consistent_det hσ (lt_size_of_live (c := s.circuit) (hlive x hx)) (hlive x hx) hd.1
  have hlt : ∀ x ∈ (s.gate g).children, x < s.size := fun x hx =>
    lt_size_of_live (c := s.circuit) (hlive x hx)
  have hnot : ∀ a b, (s.gate a).type = .not → s.headChild a = some b → a ∈ (s.gate g).children →
      ∀ σ, s.circuit.Consistent σ → σ a = !σ b := fun a b ha hb hm σ hσ => by
    have hal := hlive a hm
    obtain ⟨-, hlen, -⟩ := hs a (hlt a hm) hal
    obtain ⟨b', hb'⟩ : ∃ b', (s.gate a).children = [b'] := List.length_eq_one.1 (hlen (.inr ha))
    rw [headChild, hb', List.head?_cons, Option.some_inj] at hb
    subst hb
    rw [consistent_eval hσ (hlt a hm) hal (by rw [ha]; decide), ha, hb']
    simp
  have hsz : ∀ ty : GateType, (((s.addChildrenInPstack g).removeAllChildren g).setType g ty).size =
      s.size := fun _ => by simp
  dsimp only at h
  simp only [newNOT_eq, installGate_eq, hsz] at h
  rcases ite_eq_iff.1 h with ⟨h₁, h⟩ | ⟨-, h⟩
  · rw [← Option.some.inj h]
    exact rebuild_keeps hl fun σ hσ _ _ => by simp [hval σ hσ, hdv i hmem.1 true h₁ σ hσ]
  rcases ite_eq_iff.1 h with ⟨h₂, h⟩ | ⟨-, h⟩
  · rw [← Option.some.inj h]
    exact rebuild_keeps hl fun σ hσ _ _ => by simp [hval σ hσ, hdv i hmem.1 false h₂ σ hσ]
  rcases ite_eq_iff.1 h with ⟨h₃, h⟩ | ⟨-, h⟩
  · rw [← Option.some.inj h]
    exact (show Keeps s (true, s.rebuild g .or [i, e]) from rebuild_keeps hl fun σ hσ _ _ => by
      simp [hval σ hσ, hdv t hmem.2.1 true h₃ σ hσ]; cases σ i <;> simp).of_circuit_eq (by simp)
  rcases ite_eq_iff.1 h with ⟨h₄, h⟩ | ⟨-, h⟩
  · rw [← Option.some.inj h]
    exact overNot_keeps hl hs (hlt i hmem.1) (hlt e hmem.2.2) fun σ hσ => by
      simp [hval σ hσ, hdv t hmem.2.1 false h₄ σ hσ]; cases σ i <;> simp
  rcases ite_eq_iff.1 h with ⟨h₅, h⟩ | ⟨-, h⟩
  · rw [← Option.some.inj h]
    exact overNot_keeps hl hs (hlt i hmem.1) (hlt t hmem.2.1) fun σ hσ => by
      simp [hval σ hσ, hdv e hmem.2.2 true h₅ σ hσ]; cases σ i <;> simp
  rcases ite_eq_iff.1 h with ⟨h₆, h⟩ | ⟨-, h⟩
  · rw [← Option.some.inj h]
    exact (show Keeps s (true, s.rebuild g .and [i, t]) from rebuild_keeps hl fun σ hσ _ _ => by
      simp [hval σ hσ, hdv e hmem.2.2 false h₆ σ hσ]; cases σ i <;> simp).of_circuit_eq (by simp)
  rcases ite_eq_iff.1 h with ⟨h₇, h⟩ | ⟨-, h⟩
  · rw [← Option.some.inj h]
    exact rebuild_keeps hl fun σ hσ _ _ => by simp [hval σ hσ, h₇]
  rcases ite_eq_iff.1 h with ⟨h₈, h⟩ | ⟨-, h⟩
  · rw [← Option.some.inj h]
    subst h₈
    exact (show Keeps s (true, s.rebuild g .or [i, e]) from rebuild_keeps hl fun σ hσ _ _ => by
      simp [hval σ hσ]; cases σ i <;> simp).of_circuit_eq (by simp)
  rcases ite_eq_iff.1 h with ⟨h₉, h⟩ | ⟨-, h⟩
  · rw [← Option.some.inj h]
    subst h₉
    exact (show Keeps s (true, s.rebuild g .and [i, t]) from rebuild_keeps hl fun σ hσ _ _ => by
      simp [hval σ hσ]; cases σ i <;> simp).of_circuit_eq (by simp)
  rcases ite_eq_iff.1 h with ⟨⟨h₁₀, h₁₀'⟩, h⟩ | ⟨-, h⟩
  · rw [← Option.some.inj h]
    exact retypePair_keeps hl fun σ hσ => by
      simp [hval σ hσ, hnot e t h₁₀ h₁₀' hmem.2.2 σ hσ]; cases σ i <;> cases σ t <;> rfl
  rcases ite_eq_iff.1 h with ⟨⟨h₁₁, h₁₁'⟩, h⟩ | ⟨-, h⟩
  · rw [← Option.some.inj h]
    exact retypePair_keeps hl fun σ hσ => by
      simp [hval σ hσ, hnot t e h₁₁ h₁₁' hmem.2.1 σ hσ]; cases σ i <;> cases σ e <;> rfl
  · rw [← Option.some.inj h]
    exact .of_consistent le_rfl fun σ hσ => ⟨rfl, hσ⟩

theorem simplifyRef_keeps (hty : (s.gate g).type = .ref) (hs : s.circuit.Shaped) {r : Bool × BC}
    (h : s.simplifyRef g = some r) : Keeps s r := by
  have hl : (s.gate g).type.Live := by rw [hty]; decide
  have hg : g < s.size := lt_size_of_live (c := s.circuit) hl
  obtain ⟨hlive, hlen, -⟩ := hs g hg hl
  obtain ⟨ch, hch⟩ : ∃ ch, (s.gate g).children = [ch] := List.length_eq_one.1 (hlen (.inl hty))
  have hchl := hlive ch (by simp [hch])
  have hty' : (s.gate g).type = if false then .not else .ref := hty
  unfold simplifyRef at h
  rw [headChild, hch, List.head?_cons, Option.some_bind] at h
  split at h
  · rename_i r' hu
    subst h
    exact simplifyUnaryDetermined_keeps hty' hch hchl hu
  · cases h
    refine .of_consistent (by simp) fun σ hσ => ⟨rfl, ?_⟩
    have hgc : σ g = σ ch := (unary_value hty' hch hσ).trans (Bool.xor_false _)
    exact (((by simpa using hσ : (s.addParentsInPstack g).circuit.Consistent σ).redirectParents
      none hgc).moveHandles g ch).delete fun gt => { gt with children := [] }

theorem simplifyNot_keeps (hty : (s.gate g).type = .not) (hs : s.circuit.Shaped) {r : Bool × BC}
    (h : s.simplifyNot g = some r) : Keeps s r := by
  have hl : (s.gate g).type.Live := by rw [hty]; decide
  have hg : g < s.size := lt_size_of_live (c := s.circuit) hl
  obtain ⟨hlive, hlen, -⟩ := hs g hg hl
  obtain ⟨ch, hch⟩ : ∃ ch, (s.gate g).children = [ch] := List.length_eq_one.1 (hlen (.inr hty))
  have hchl := hlive ch (by simp [hch])
  have hty' : (s.gate g).type = if true then .not else .ref := hty
  unfold simplifyNot at h
  rw [headChild, hch, List.head?_cons, Option.some_bind] at h
  split at h
  · rename_i r' hu
    subst h
    exact simplifyUnaryDetermined_keeps hty' hch hchl hu
  · split_ifs at h with hnn
    · -- `NOT(NOT(gc))` becomes `REF(gc)`
      have hc : ch < s.size := lt_size_of_live (c := s.circuit) hchl
      obtain ⟨-, hclen, -⟩ := hs ch hc hchl
      obtain ⟨gc, hgc⟩ : ∃ gc, (s.gate ch).children = [gc] :=
        List.length_eq_one.1 (hclen (.inr hnn))
      rw [headChild, hgc, List.head?_cons, Option.map_some'] at h
      cases h
      refine .of_consistent (by simp) fun σ hσ => ⟨rfl, ?_⟩
      have hv : σ g = σ gc := by
        rw [unary_value hty' hch hσ, consistent_eval hσ hc hchl (by rw [hnn]; decide), hnn, hgc]
        simp
      refine hσ.rebuilt (g := g) (by simp) (fun x hx => by simp [BC.setType, BC.removeAllChildren,
        BC.setChildren, BC.addChild, Ne.symm hx]) (by simp [BC.setType, BC.removeAllChildren,
        BC.setChildren, BC.addChild, hg]) (by simp [BC.setType, BC.removeAllChildren,
        BC.setChildren, BC.addChild, hg]) (fun _ => hl) fun _ _ _ => ?_
      simp [BC.setType, BC.removeAllChildren, BC.setChildren, BC.addChild, hg, hv]
    · cases h
      exact .of_consistent le_rfl fun σ hσ => ⟨rfl, hσ⟩

end BC

end BcSat
