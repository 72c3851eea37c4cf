import BcSat.SimplifyPass

set_option autoImplicit false

/-!
# `Gate::simplify` adds no solution

The converse of `Keeps`: every consistent evaluation of the store a rule leaves comes from a
consistent evaluation of the store it was given, under which each name has the value of the gate
that carries it now. A rule rewrites a gate into one that reads the same on every evaluation
that the other gates hold under, so the evaluation itself is kept. A gate the rule deletes gets
its value back: its own function of its children, or, for a `REF` unified with its child, the
child's value, and the child then carries the names of the `REF`.

The proofs read the facts a rule relies on (a determined child's value, the value of a `NOT`
child) off the gates other than the rewritten one, which the rule leaves as they were.
-/

namespace BcSat

namespace Circuit

variable {c : Circuit} {g x : Nat}

theorem Acyclic.ne_of_mem (ha : c.Acyclic) (h : x ∈ (c.gate g).children) : x ≠ g :=
  fun e => ha.not_hasCycle ⟨g, .single (show c.Edge g g from e ▸ h)⟩

end Circuit

namespace BC

open Circuit

variable {s t : BC} {g : Nat} {σ : Nat → Bool}

/-- The handles of every gate. -/
def handleMap (s : BC) : Nat → List Handle := fun x => (s.gate x).handles

/-- A call on `s` that returned `r` adds no solution: when it returned true, every consistent
evaluation of the store it left comes from a consistent evaluation of `s`, under which every
name of `s` has the value of a gate that carries the name in the new store. -/
def Restores (s : BC) (r : Bool × BC) : Prop :=
  r.1 = true → ∀ σ', r.2.circuit.Consistent σ' → ∃ σ, s.circuit.Consistent σ ∧
    ∀ x n, Handle.name n ∈ (s.gate x).handles →
      ∃ y, Handle.name n ∈ (r.2.gate y).handles ∧ σ x = σ' y

namespace Restores

theorem trans {s₁ : BC} {r : Bool × BC} (h₁ : Restores s (true, s₁)) (h₂ : Restores s₁ r) :
    Restores s r := fun hr σ' hσ' =>
  let ⟨σ₁, hσ₁, hn₁⟩ := h₂ hr σ' hσ'
  let ⟨σ, hσ, hn⟩ := h₁ rfl σ₁ hσ₁
  ⟨σ, hσ, fun x n hx =>
    let ⟨y₁, hy₁, e₁⟩ := hn x n hx
    let ⟨y, hy, e⟩ := hn₁ y₁ n hy₁
    ⟨y, hy, e₁.trans e⟩⟩

theorem of_false (t : BC) : Restores s (false, t) := nofun

theorem of_consistent {b : Bool} (hh : t.handleMap = s.handleMap)
    (h : ∀ σ, t.circuit.Consistent σ → s.circuit.Consistent σ) : Restores s (b, t) :=
  fun _ σ hσ => ⟨σ, h σ hσ, fun x _ hx => ⟨x, by rwa [show (t.gate x).handles = _ from congrFun hh x], rfl⟩⟩

theorem refl (s : BC) : Restores s (true, s) := of_consistent rfl fun _ => id

end Restores

section Handles

theorem handles_of_size_le {x : Nat} (h : s.size ≤ x) : (s.gate x).handles = [] := by
  rw [← circuit_gate, s.circuit.gate_of_size_le h]; rfl

@[simp] theorem handleMap_modify {f : Gate → Gate} (hf : ∀ gt, (f gt).handles = gt.handles) :
    (s.modify g f).handleMap = s.handleMap :=
  funext fun x => by simp only [handleMap, gate_modify]; split_ifs; exacts [hf _, rfl]

@[simp] theorem handleMap_setTemp (t : Int) : (s.setTemp g t).handleMap = s.handleMap :=
  handleMap_modify fun _ => rfl

@[simp] theorem handleMap_setChildren (chs : List Nat) :
    (s.setChildren g chs).handleMap = s.handleMap := handleMap_modify fun _ => rfl

@[simp] theorem handleMap_setType (ty : GateType) : (s.setType g ty).handleMap = s.handleMap :=
  handleMap_modify fun _ => rfl

@[simp] theorem handleMap_determine (v : Bool) : (s.determine g v).handleMap = s.handleMap :=
  handleMap_modify fun _ => rfl

@[simp] theorem handleMap_setLinks (l : List Nat) : (s.setLinks g l).handleMap = s.handleMap := rfl

@[simp] theorem handleMap_tick (n : Nat) : (s.tick n).handleMap = s.handleMap := rfl

@[simp] theorem handleMap_withChanged (b : Bool) : ({ s with changed := b } : BC).handleMap = s.handleMap :=
  rfl

@[simp] theorem handleMap_addInPstack : (s.addInPstack g).handleMap = s.handleMap :=
  funext fun _ => by simp [handleMap]

@[simp] theorem handleMap_pushIfOrphan : (s.pushIfOrphan g).handleMap = s.handleMap :=
  funext fun _ => by simp [handleMap]

@[simp] theorem handleMap_addParentsInPstack : (s.addParentsInPstack g).handleMap = s.handleMap :=
  funext fun _ => by simp [handleMap]

@[simp] theorem handleMap_addChildrenInPstack : (s.addChildrenInPstack g).handleMap = s.handleMap :=
  funext fun _ => by simp [handleMap]

@[simp] theorem handleMap_addChild (ch : Nat) : (s.addChild g ch).handleMap = s.handleMap := by
  simp [addChild]

@[simp] theorem handleMap_removeAllChildren : (s.removeAllChildren g).handleMap = s.handleMap := by
  simp [removeAllChildren]

@[simp] theorem handleMap_redirectParents (keep : Option Nat) (a b : Nat) :
    (s.redirectParents keep a b).handleMap = s.handleMap :=
  funext fun x => by simp only [handleMap, gate_redirectParents]; split_ifs <;> rfl

@[simp] theorem handleMap_append {gt : Gate} (h : gt.handles = []) :
    (s.append gt).handleMap = s.handleMap :=
  funext fun x => by
    simp only [handleMap, gate_append]
    split_ifs with hx
    · rw [h, hx, handles_of_size_le le_rfl]
    · rfl

@[simp] theorem handleMap_setTemps (xs : List Nat) (t : Int) :
    (s.setTemps xs t).handleMap = s.handleMap := by
  induction xs generalizing s with
  | nil => rfl
  | cons x xs ih => exact (ih (s := s.setTemp x t)).trans (handleMap_setTemp t)

@[simp] theorem handleMap_foldl_addChild (chs : List Nat) :
    (chs.foldl (fun s ch => s.addChild g ch) s).handleMap = s.handleMap := by
  induction chs generalizing s with
  | nil => rfl
  | cons ch chs ih => exact (ih (s := s.addChild g ch)).trans (handleMap_addChild ch)

@[simp] theorem handleMap_popChildren :
    ∀ (chs : List Nat) (s : BC), (popChildren g chs s).handleMap = s.handleMap
  | [], _ => rfl
  | _ :: rest, s => by rw [popChildren, handleMap_popChildren rest]; simp

theorem handleMap_transformIntoConstant {v : Bool} (h : s.transformIntoConstant g v = some t) :
    t.handleMap = s.handleMap := by
  unfold transformIntoConstant at h
  split at h
  · cases h
  · cases h; simp

theorem handleMap_becomeConstant {v : Bool} {r : Bool × BC} (h : s.becomeConstant g v = some r) :
    r.2.handleMap = s.handleMap := by
  unfold becomeConstant at h
  split_ifs at h
  · cases h; rfl
  · obtain ⟨s₁, h₁, rfl⟩ := Option.map_eq_some'.1 h
    simp [handleMap_transformIntoConstant h₁]

@[simp] theorem handleMap_rebuild (ty : GateType) (chs : List Nat) :
    (s.rebuild g ty chs).handleMap = s.handleMap := by
  rw [rebuild, handleMap_withChanged]; simp

theorem handleMap_clearTemps : ∀ (xs : List Nat) (s : BC) {s' : BC}, clearTemps xs s = some s' →
    s'.handleMap = s.handleMap
  | [], _, _, h => by cases h; rfl
  | x :: xs, s, s', h => by
    simp only [clearTemps] at h
    split_ifs at h
    · obtain ⟨gc, -, h⟩ := Option.bind_eq_some.1 h
      rw [handleMap_clearTemps xs _ h]; simp
    · rw [handleMap_clearTemps xs _ h]; simp

end Handles

theorem transformIntoConstant_value {v : Bool} (h : s.transformIntoConstant g v = some t)
    (hd : (s.gate g).determined) : (s.gate g).value = v := by
  unfold transformIntoConstant at h
  split at h
  · cases h
  · rename_i hc
    simpa [hd] using hc

end BC

namespace BC

open Circuit

variable {s t : BC} {g : Nat} {σ : Nat → Bool}

theorem gateOk_of_determine {x y : Nat} {v : Bool} (h : (s.determine x v).circuit.GateOk σ y)
    (hv : (s.gate x).determined → (s.gate x).value = v) : s.circuit.GateOk σ y := by
  rw [gateOk_iff, circuit_gate, BC.determine, gate_modify] at h
  rw [gateOk_iff, circuit_gate]
  split_ifs at h with hy
  · obtain ⟨rfl, -⟩ := hy
    exact fun hl => ⟨(h hl).1, fun hd => ((h hl).2 rfl).trans (hv hd).symm⟩
  · exact h

end BC

namespace Circuit.ConsistentBut

open BC

variable {s t : BC} {g : Nat} {σ : Nat → Bool}

/-- The gates a change leaves as they were hold in the old store. -/
theorem of_eq (hb : t.circuit.ConsistentBut σ g) (hsize : s.size ≤ t.size)
    (h : ∀ x < s.size, x ≠ g → t.gate x = s.gate x) : s.circuit.ConsistentBut σ g :=
  fun x hx hxg => by
    have := hb x (by simp only [circuit_size] at hx ⊢; omega) hxg
    rwa [gateOk_iff, circuit_gate, h x hx hxg] at this

theorem of_determine {x : Nat} {v : Bool} (hb : (s.determine x v).circuit.ConsistentBut σ g)
    (hv : (s.gate x).determined → (s.gate x).value = v) : s.circuit.ConsistentBut σ g :=
  fun y hy hyg => gateOk_of_determine (hb y (by simpa using hy) hyg) hv

end Circuit.ConsistentBut

namespace Circuit.Consistent

open BC

variable {s t : BC} {g : Nat} {σ : Nat → Bool}

/-- The old gate `g` holds once the new one fixes its value and has its function. -/
theorem of_but (hσ : t.circuit.Consistent σ) (hb : s.circuit.ConsistentBut σ g) (hg : g < t.size)
    (hlive : (s.gate g).type.Live → (t.gate g).type.Live)
    (hdet : (s.gate g).determined → (t.gate g).determined ∧ (t.gate g).value = (s.gate g).value)
    (heval : (s.gate g).type.Live → (s.gate g).type ≠ .var →
      σ g = (s.gate g).type.eval (s.gate g).tmin (s.gate g).tmax ((s.gate g).children.map σ)) :
    s.circuit.Consistent σ :=
  hb.consistent fun _ hl => ⟨heval hl, fun hd => by
    obtain ⟨hd', hv⟩ := hdet hd
    exact (consistent_det hσ hg (hlive hl) hd').trans hv⟩

theorem of_gateAt (hσ : t.circuit.Consistent σ) (h : GateAt g s t)
    (hlive : (s.gate g).type.Live → (t.gate g).type.Live)
    (heval : s.circuit.ConsistentBut σ g → (s.gate g).type.Live → (s.gate g).type ≠ .var →
      σ g = (s.gate g).type.eval (s.gate g).tmin (s.gate g).tmax ((s.gate g).children.map σ)) :
    s.circuit.Consistent σ := by
  have hb := (hσ.but g).of_gateAt h
  by_cases hg : g < s.size
  · obtain ⟨-, -, h₄, h₅⟩ := h.fields g
    exact hσ.of_but hb (h.size_eq ▸ hg) hlive (fun hd => ⟨h₄ ▸ hd, h₅⟩) (heval hb)
  · exact hb.consistent fun hg' => absurd hg' hg

/-- A gate made a constant keeps the other gates, and the evaluation reads the constant there. -/
theorem but_of_transformIntoConstant {v : Bool} (hσ : t.circuit.Consistent σ) (hg : g < s.size)
    (h : s.transformIntoConstant g v = some t) : s.circuit.ConsistentBut σ g ∧ σ g = v := by
  obtain ⟨hsize, hgate⟩ := transformIntoConstant_gate hg h
  have hgt : t.gate g =
      { s.gate g with determined := true, value := v, type := if v then .true else .false,
                      children := [] } := by rw [hgate, if_pos rfl]
  refine ⟨(hσ.but g).of_eq hsize.ge fun x _ hx => by rw [hgate, if_neg hx], ?_⟩
  have := consistent_det hσ (hsize ▸ hg)
    (by rw [hgt]; show (if v then GateType.true else .false).Live; cases v <;> decide) (by rw [hgt])
  rwa [hgt] at this

theorem of_transformIntoConstant {v : Bool} (hσ : t.circuit.Consistent σ) (hg : g < s.size)
    (h : s.transformIntoConstant g v = some t)
    (heval : s.circuit.ConsistentBut σ g → (s.gate g).type.Live → (s.gate g).type ≠ .var →
      v = (s.gate g).type.eval (s.gate g).tmin (s.gate g).tmax ((s.gate g).children.map σ)) :
    s.circuit.Consistent σ := by
  obtain ⟨hb, hv⟩ := hσ.but_of_transformIntoConstant hg h
  exact hb.consistent fun _ hl => ⟨fun hnv => hv.trans (heval hb hl hnv),
    fun hd => hv.trans (transformIntoConstant_value h hd).symm⟩

theorem of_determine {x : Nat} {v : Bool} (hσ : (s.determine x v).circuit.Consistent σ)
    (hv : (s.gate x).determined → (s.gate x).value = v) : s.circuit.Consistent σ :=
  fun y hy => gateOk_of_determine (hσ y (by simpa using hy)) hv

end Circuit.Consistent

namespace BC

open Circuit

variable {s t : BC} {g : Nat}

/-- A gate that no gate reads and that carries no handle can go: the evaluation gets back a
value the old gate holds at. -/
theorem restores_of_orphan {b : Bool} (hp : ∀ p < s.size, g ∉ (s.gate p).children)
    (hh : (s.gate g).handles = []) (hsize : s.size ≤ t.size)
    (hframe : ∀ x < s.size, x ≠ g → t.gate x = s.gate x)
    (hg : ∀ σ, t.circuit.Consistent σ → ∃ v, (s.gate g).Holds v ((s.gate g).children.map σ)) :
    Restores s (b, t) := fun _ σ hσ => by
  obtain ⟨v, hv⟩ := hg σ hσ
  have hmap : ∀ y < s.size, (s.gate y).children.map (Function.update σ g v) = (s.gate y).children.map σ :=
    fun y hy => List.map_congr_left fun c hc => Function.update_noteq (by rintro rfl; exact hp y hy hc) _ _
  refine ⟨Function.update σ g v, fun x hx => ?_, fun x n hx => ?_⟩
  · have hx' : x < s.size := hx
    rw [gateOk_iff, circuit_gate, hmap x hx']
    by_cases hxg : x = g
    · subst hxg; rw [Function.update_same]; exact hv
    · have := hσ x (by simp only [circuit_size]; omega)
      rw [gateOk_iff, circuit_gate, hframe x hx' hxg] at this
      rwa [Function.update_noteq hxg]
  · have hxg : x ≠ g := fun e => by rw [e, hh] at hx; exact List.not_mem_nil _ hx
    have hx' : x < s.size := by
      by_contra hx'
      rw [handles_of_size_le (not_lt.1 hx')] at hx
      exact List.not_mem_nil _ hx
    exact ⟨x, by rwa [hframe x hx' hxg], Function.update_noteq hxg _ _⟩

theorem deleted_restores (hp : s.parents g = []) (hh : (s.gate g).handles = [])
    (hd : (s.gate g).determined = false) :
    Restores s (true, { ((s.addChildrenInPstack g).removeAllChildren g).setType g .deleted with
      changed := true }) :=
  restores_of_orphan (fun p _ => Tidy.not_mem_children_of_parents_nil hp p) hh (by simp)
    (fun x _ hx => by simp [Ne.symm hx]) fun σ _ =>
    ⟨(s.gate g).type.eval (s.gate g).tmin (s.gate g).tmax ((s.gate g).children.map σ),
      fun _ => ⟨fun _ => rfl, fun h => absurd h (by simp [hd])⟩⟩

theorem becomeConstant_restores {v : Bool} {r : Bool × BC} (hg : g < s.size)
    (h : s.becomeConstant g v = some r)
    (hforced : ∀ σ, s.circuit.ConsistentBut σ g → (s.gate g).type.Live → (s.gate g).type ≠ .var →
      v = (s.gate g).type.eval (s.gate g).tmin (s.gate g).tmax ((s.gate g).children.map σ)) :
    Restores s r := by
  unfold becomeConstant at h
  split_ifs at h
  · cases h; exact .of_false _
  · obtain ⟨s₁, h₁, rfl⟩ := Option.map_eq_some'.1 h
    exact .of_consistent (by simp [handleMap_transformIntoConstant h₁]) fun σ hσ =>
      Consistent.of_transformIntoConstant (by simpa using hσ) hg h₁ (hforced σ)

theorem simplifyConstant_restores {v : Bool} (hty : (s.gate g).type = if v then .true else .false)
    {r : Bool × BC} (h : s.simplifyConstant g v = some r) : Restores s r := by
  have hl : (s.gate g).type.Live := by rw [hty]; cases v <;> decide
  have hg : g < s.size := lt_size_of_live (c := s.circuit) hl
  have hev : (s.gate g).type.eval (s.gate g).tmin (s.gate g).tmax [] = v := by
    rw [hty]; cases v <;> rfl
  unfold simplifyConstant at h
  dsimp only at h
  by_cases hc : ((s.gate g).determined && (s.gate g).value != v) = true
  · rw [if_pos hc] at h; cases h; exact .of_false _
  rw [if_neg hc] at h
  cases h
  have hval : (s.gate g).determined → (s.gate g).value = v := fun hd => by simpa [hd] using hc
  -- the old constant holds at `v` whatever its children read
  have hholds : ∀ vs, (s.gate g).Holds v vs := fun vs _ =>
    ⟨fun _ => by rw [hty]; cases v <;> rfl, fun hd => (hval hd).symm⟩
  have hframe : ∀ x, x ≠ g → (if (s.gate g).determined then s
      else (s.determine g v).addParentsInPstack g).gate x = s.gate x := fun x hx => by
    split_ifs <;> simp [BC.determine, Ne.symm hx]
  have hsz : (if (s.gate g).determined then s
      else (s.determine g v).addParentsInPstack g).size = s.size := by split_ifs <;> simp
  have hgate : (if (s.gate g).determined then s
      else (s.determine g v).addParentsInPstack g).gate g =
        { s.gate g with determined := true, value := v } := by
    split_ifs with hd
    · rw [← hval hd]
      generalize s.gate g = gt at hd ⊢
      cases gt; simp only at hd; subst hd; rfl
    · simp [BC.determine, hg]
  generalize (if (s.gate g).determined then s else (s.determine g v).addParentsInPstack g) = s₁
    at hframe hsz hgate ⊢
  split_ifs with hdel
  · -- no handle and no parent: the constant goes
    refine restores_of_orphan (fun p hp hm => ?_) (by simpa [hgate] using hdel.1) (by simp [hsz])
      (fun x _ hx => by simp [BC.setType, Ne.symm hx, hframe x hx]) fun _ _ => ⟨v, hholds _⟩
    have hp' := (BC.parents_eq_nil_iff.1 hdel.2) p (by rwa [hsz])
    by_cases hpg : p = g
    · subst hpg; rw [hgate] at hp'; exact hp' hm
    · rw [hframe p hpg] at hp'; exact hp' hm
  · refine .of_consistent (funext fun x => ?_) fun σ hσ => ?_
    · by_cases hx : x = g
      · subst hx; simp [handleMap, hgate]
      · simp [handleMap, hframe x hx]
    · have hb := (hσ.but g).of_eq hsz.ge fun x _ hx => hframe x hx
      have hv : σ g = v := by
        have := consistent_det hσ (hsz ▸ hg) (by rw [hgate]; exact hl) (by rw [hgate])
        rwa [hgate] at this
      exact hb.consistent fun _ _ => hv ▸ hholds _ hl

theorem simplifyVar_restores (hty : (s.gate g).type = .var) {r : Bool × BC}
    (h : s.simplifyVar g = some r) : Restores s r := by
  have hg : g < s.size := lt_size_of_live (c := s.circuit) (show (s.gate g).type.Live by rw [hty]; decide)
  unfold simplifyVar at h
  split_ifs at h
  · obtain ⟨s', hs', rfl⟩ := Option.map_eq_some'.1 h
    exact .of_consistent (handleMap_transformIntoConstant hs') fun σ hσ =>
      hσ.of_transformIntoConstant hg hs' fun _ _ hv => absurd hty hv
  · cases h; exact .refl s

section Unary

variable {ch : Nat} {neg : Bool} (hty : (s.gate g).type = if neg then .not else .ref)
  (hch : (s.gate g).children = [ch]) (hchl : (s.gate ch).type.Live) (hcg : ch ≠ g)
include hty hch hchl hcg

theorem simplifyUnaryDetermined_restores {r : Bool × BC}
    (h : s.simplifyUnaryDetermined g ch neg = some (some r)) : Restores s r := by
  have hl : (s.gate g).type.Live := by rw [hty]; cases neg <;> decide
  have hg : g < s.size := lt_size_of_live (c := s.circuit) hl
  have hc : ch < s.size := lt_size_of_live (c := s.circuit) hchl
  -- the old gate reads its child's value, flipped for a `NOT`
  have heval : ∀ σ, (s.gate g).type.eval (s.gate g).tmin (s.gate g).tmax ((s.gate g).children.map σ) =
      (σ ch ^^ neg) := fun σ => by rw [hty, hch]; cases neg <;> simp
  unfold simplifyUnaryDetermined at h
  by_cases hd : (s.gate g).determined = true
  · by_cases hcd : (s.gate ch).determined = true
    · by_cases hcv : (s.gate ch).value = ((s.gate g).value ^^ neg)
      · simp only [hd, hcd, hcv, if_true] at h
        obtain ⟨s₂, hs₂, rfl⟩ := Option.map_eq_some'.1 (Option.some.inj h)
        refine .of_consistent (by simp [handleMap_transformIntoConstant hs₂]) fun σ hσ =>
          Consistent.of_transformIntoConstant (by simpa using hσ) hg hs₂ fun hb _ _ => ?_
        rw [heval, hb.det hc hcg hchl hcd, circuit_gate, hcv, Bool.xor_assoc, Bool.xor_self, Bool.xor_false]
      · simp only [hd, hcd, hcv, if_true, if_false, Option.some.injEq] at h
        subst h; exact .of_false _
    · simp only [hd, hcd, if_true, if_false, Bool.false_eq_true] at h
      obtain ⟨s₂, hs₂, rfl⟩ := Option.map_eq_some'.1 (Option.some.inj h)
      have hg₁ : g < ((s.determine ch ((s.gate g).value ^^ neg)).addInPstack ch).size := by simpa using hg
      refine .of_consistent (by simp [handleMap_transformIntoConstant hs₂]) fun σ hσ => ?_
      have h₁ := Consistent.of_transformIntoConstant (by simpa using hσ) hg₁ hs₂ fun hb _ _ => by
        have := hb.det (x := ch) (by simpa using hc) hcg (by simpa [BC.determine, hc] using hchl)
          (by simp [BC.determine, hc])
        simp only [circuit_gate, gate_addInPstack, BC.determine, gate_modify_self _ hc] at this
        simp only [gate_addInPstack, BC.determine, gate_modify_of_ne _ hcg]
        rw [heval, this]; simp
      exact Consistent.of_determine (by simpa using h₁) fun h => absurd h hcd
  · by_cases hcd : (s.gate ch).determined = true
    · simp only [hd, hcd, if_true, if_false, Bool.false_eq_true] at h
      obtain ⟨s₂, hs₂, rfl⟩ := Option.map_eq_some'.1 (Option.some.inj h)
      refine .of_consistent (by simp [handleMap_transformIntoConstant hs₂]) fun σ hσ =>
        Consistent.of_transformIntoConstant (by simpa using hσ) hg hs₂ fun hb _ _ => ?_
      rw [heval, hb.det hc hcg hchl hcd, circuit_gate]
    · simp [hd, hcd] at h

end Unary

theorem Restores.of_circuit_eq {b : Bool} {t₁ t₂ : BC} (h : Restores s (b, t₁))
    (hc : t₁.circuit = t₂.circuit) : Restores s (b, t₂) := fun hb σ hσ => by
  obtain ⟨σ₀, hσ₀, hn⟩ := h hb σ (hc ▸ hσ)
  refine ⟨σ₀, hσ₀, fun x n hx => ?_⟩
  obtain ⟨y, hy, e⟩ := hn x n hx
  exact ⟨y, show _ ∈ (t₂.circuit.gate y).handles by rw [← hc]; exact hy, e⟩

theorem gateOk_congr {c : Circuit} {σ σ' : Nat → Bool} {x : Nat} (hx : σ x = σ' x)
    (hc : ∀ y ∈ (c.gate x).children, σ y = σ' y) : c.GateOk σ x ↔ c.GateOk σ' x := by
  rw [gateOk_iff, gateOk_iff, hx, List.map_congr_left hc]

theorem gateOk_of_redirectParents {σ : Nat → Bool} {keep : Option Nat} {a b x : Nat}
    (hab : σ a = σ b) (h : (s.redirectParents keep a b).circuit.GateOk σ x) : s.circuit.GateOk σ x := by
  rw [gateOk_iff, circuit_gate, gate_redirectParents] at h
  split_ifs at h
  · exact h
  · rwa [map_redirect hab] at h

theorem holds_moveHandles (a b x : Nat) {v : Bool} {vs : List Bool} :
    ((s.moveHandles a b).gate x).Holds v vs ↔ (s.gate x).Holds v vs := by
  simp only [moveHandles, gate_modify]
  split_ifs <;> rfl

theorem mem_handles_moveHandles {a b x : Nat} {h : Handle} (hb : b < s.size) (hab : a ≠ b)
    (hx : h ∈ (s.gate x).handles) :
    h ∈ ((s.moveHandles a b).gate (if x = a then b else x)).handles := by
  simp only [moveHandles, gate_modify]
  by_cases hxa : x = a
  · subst hxa; simp [hab, hb, hx]
  · by_cases hxb : x = b
    · subst hxb; simp [hxa, hb, hx, hab]
    · simp [hxa, Ne.symm hxa, Ne.symm hxb, hx]

theorem simplifyRef_restores (ha : s.circuit.Acyclic) (hty : (s.gate g).type = .ref)
    (hs : s.circuit.Shaped) {r : Bool × BC} (h : s.simplifyRef g = some r) : Restores s r := by
  have hl : (s.gate g).type.Live := by rw [hty]; decide
  have hg : g < s.size := lt_size_of_live (c := s.circuit) hl
  obtain ⟨hlive, hlen, -⟩ := hs g hg hl
  obtain ⟨ch, hch⟩ : ∃ ch, (s.gate g).children = [ch] := List.length_eq_one.1 (hlen (.inl hty))
  have hchl := hlive ch (by simp [hch])
  have hc : ch < s.size := lt_size_of_live (c := s.circuit) hchl
  have hcg : ch ≠ g := ha.ne_of_mem (by rw [circuit_gate, hch]; simp)
  have hty' : (s.gate g).type = if false then .not else .ref := hty
  unfold simplifyRef at h
  rw [headChild, hch, List.head?_cons, Option.some_bind] at h
  split at h
  · rename_i r' hu
    subst h
    exact simplifyUnaryDetermined_restores hty' hch hchl hcg hu
  rename_i hnone
  have hd : (s.gate g).determined = false := by
    cases hgd : (s.gate g).determined
    · rfl
    · unfold simplifyUnaryDetermined at hnone
      simp only [hgd, if_true] at hnone
      split at hnone <;> cases hnone
  cases h
  -- `g` goes and takes the value of its child, which takes its names
  intro _ σ' hσ'
  have hσ'g : ∀ x < s.size, x ≠ g →
      (((s.addParentsInPstack g).redirectParents none g ch).moveHandles g ch).circuit.GateOk σ' x :=
    fun x hx hxg => by
      have := hσ' x (by simpa using hx)
      dsimp only at this
      rw [gateOk_iff, circuit_gate] at this ⊢
      simpa [Ne.symm hxg] using this
  refine ⟨Function.update σ' g (σ' ch), fun x hx => ?_, fun x n hx => ?_⟩
  · by_cases hxg : x = g
    · subst hxg
      rw [gateOk_iff, circuit_gate, hch, Function.update_same]
      refine fun _ => ⟨fun _ => ?_, fun h => absurd h (by simp [hd])⟩
      rw [hty, List.map_singleton, Function.update_noteq hcg, GateType.eval_ref_one]
    · have h₂ : ((s.addParentsInPstack g).redirectParents none g ch).circuit.GateOk
          (Function.update σ' g (σ' ch)) x := by
        have h₁ := hσ'g x hx hxg
        rw [gateOk_iff, circuit_gate, holds_moveHandles, children_moveHandles] at h₁
        refine (gateOk_congr (Function.update_noteq hxg _ _) fun y hy => ?_).2 h₁
        rw [circuit_gate, gate_redirectParents, if_neg (by simp)] at hy
        obtain ⟨z, -, rfl⟩ := List.mem_map.1 hy
        by_cases hz : z = g <;> simp [hz, hcg]
      simpa using gateOk_of_redirectParents (s := s.addParentsInPstack g)
        (by rw [Function.update_same, Function.update_noteq hcg]) h₂
  · have hn := mem_handles_moveHandles (s := (s.addParentsInPstack g).redirectParents none g ch)
      (h := Handle.name n) (by simpa using hc) (Ne.symm hcg) (x := x)
      (by rw [gate_redirectParents]; split_ifs <;> simpa using hx)
    by_cases hxg : x = g
    · subst hxg
      rw [if_pos rfl] at hn
      exact ⟨ch, by simpa [hcg, Ne.symm hcg] using hn, Function.update_same _ _ _⟩
    · rw [if_neg hxg] at hn
      exact ⟨x, by simpa [Ne.symm hxg] using hn, Function.update_noteq hxg _ _⟩

/-- A rule that rewrites `g` in place into a gate of type `ty` over `chs` adds no solution when
the new gate reads like the old one on every evaluation the other gates hold under. -/
theorem restores_of_rewrite {b : Bool} {ty : GateType} {chs : List Nat} (hg : g < s.size)
    (hty : ty.Live ∧ ty ≠ .var) (hsize : t.size = s.size)
    (hgate : ∀ x, t.gate x = if x = g then { s.gate g with type := ty, children := chs } else s.gate x)
    (heval : ∀ σ, s.circuit.ConsistentBut σ g → (s.gate g).type.Live → (s.gate g).type ≠ .var →
      ty.eval (s.gate g).tmin (s.gate g).tmax (chs.map σ) =
        (s.gate g).type.eval (s.gate g).tmin (s.gate g).tmax ((s.gate g).children.map σ)) :
    Restores s (b, t) := by
  have hg' : t.gate g = { s.gate g with type := ty, children := chs } := by rw [hgate, if_pos rfl]
  refine .of_consistent (funext fun x => ?_) fun σ hσ => ?_
  · simp only [handleMap, hgate]
    split_ifs with hx
    · subst hx; rfl
    · rfl
  have hb := (hσ.but g).of_eq hsize.ge fun x _ hx => by rw [hgate, if_neg hx]
  refine hσ.of_but hb (hsize ▸ hg) (fun _ => by rw [hg']; exact hty.1)
    (fun hd => by rw [hg']; exact ⟨hd, rfl⟩) fun hl hv => ?_
  have := consistent_eval hσ (hsize ▸ hg) (by rw [hg']; exact hty.1) (by rw [hg']; exact hty.2)
  rw [hg'] at this
  exact this.trans (heval σ hb hl hv)

theorem gate_notNotRef (hg : g < s.size) (ch gc x : Nat) :
    ({ ((((s.setType g .ref).removeAllChildren g).pushIfOrphan ch).addChild g gc).addInPstack g
      with changed := true } : BC).gate x =
      if x = g then { s.gate g with type := .ref, children := [gc] } else s.gate x := by
  by_cases hx : x = g
  · subst hx; simp [hg]
  · simp [hx, Ne.symm hx]

theorem simplifyNot_restores (ha : s.circuit.Acyclic) (hty : (s.gate g).type = .not)
    (hs : s.circuit.Shaped) {r : Bool × BC} (h : s.simplifyNot g = some r) : Restores s r := by
  have hl : (s.gate g).type.Live := by rw [hty]; decide
  have hg : g < s.size := lt_size_of_live (c := s.circuit) hl
  obtain ⟨hlive, hlen, -⟩ := hs g hg hl
  obtain ⟨ch, hch⟩ : ∃ ch, (s.gate g).children = [ch] := List.length_eq_one.1 (hlen (.inr hty))
  have hchl := hlive ch (by simp [hch])
  have hcg : ch ≠ g := ha.ne_of_mem (by rw [circuit_gate, hch]; simp)
  have hty' : (s.gate g).type = if true then .not else .ref := hty
  unfold simplifyNot at h
  rw [headChild, hch, List.head?_cons, Option.some_bind] at h
  split at h
  · rename_i r' hu
    subst h
    exact simplifyUnaryDetermined_restores hty' hch hchl hcg hu
  · split_ifs at h with hnn
    · -- `NOT(NOT(gc))` becomes `REF(gc)`
      have hc : ch < s.size := lt_size_of_live (c := s.circuit) hchl
      obtain ⟨-, hclen, -⟩ := hs ch hc hchl
      obtain ⟨gc, hgc⟩ : ∃ gc, (s.gate ch).children = [gc] :=
        List.length_eq_one.1 (hclen (.inr hnn))
      rw [headChild, hgc, List.head?_cons, Option.map_some'] at h
      cases h
      refine restores_of_rewrite hg ⟨by decide, by decide⟩ (by simp) (gate_notNotRef hg ch gc)
        fun σ hb _ _ => ?_
      rw [hty, hch]
      simp only [List.map_cons, List.map_nil]
      rw [hb.eval hc hcg hchl (by rw [circuit_gate, hnn]; decide), circuit_gate, hnn, hgc]
      simp
    · cases h; exact .refl s

section Rebuild

variable (hg : g < s.size)
include hg

theorem rebuild_restores {ty : GateType} {chs : List Nat} (hty : ty.Live ∧ ty ≠ .var)
    (heval : ∀ σ, s.circuit.ConsistentBut σ g → (s.gate g).type.Live → (s.gate g).type ≠ .var →
      ty.eval (s.gate g).tmin (s.gate g).tmax (chs.reverse.map σ) =
        (s.gate g).type.eval (s.gate g).tmin (s.gate g).tmax ((s.gate g).children.map σ)) :
    Restores s (true, s.rebuild g ty chs) :=
  restores_of_rewrite hg hty (by simp) (fun _ => gate_rebuild hg ty chs) heval

theorem overNot_restores {ty : GateType} {i c : Nat} (hty : ty.Live ∧ ty ≠ .var)
    (heval : ∀ σ, s.circuit.ConsistentBut σ g → (s.gate g).type.Live → (s.gate g).type ≠ .var →
      ty.eval (s.gate g).tmin (s.gate g).tmax [σ c, !σ i] =
        (s.gate g).type.eval (s.gate g).tmin (s.gate g).tmax ((s.gate g).children.map σ)) :
    Restores s (true, { ((((((s.addChildrenInPstack g).removeAllChildren g).setType g ty).append
      { type := .not, children := [i] }).addChild g s.size).addChild g c).addInPstack g
      |>.addParentsInPstack g with changed := true }) := by
  generalize ht : ({ ((((((s.addChildrenInPstack g).removeAllChildren g).setType g ty).append
      { type := .not, children := [i] }).addChild g s.size).addChild g c).addInPstack g
      |>.addParentsInPstack g with changed := true } : BC) = t
  have hgate : ∀ x, t.gate x = _ := fun x => ht ▸ gate_overNot hg ty i c x
  have hsize : t.size = s.size + 1 := by rw [← ht]; simp
  have hgn : g ≠ s.size := Nat.ne_of_lt hg
  have hgg : t.gate g = { s.gate g with type := ty, children := [c, s.size] } := by
    rw [hgate, if_pos rfl]
  have hgs : t.gate s.size = { type := .not, children := [i] } := by
    rw [hgate, if_neg (Ne.symm hgn), if_pos rfl]
  refine .of_consistent (funext fun x => ?_) fun σ hσ => ?_
  · simp only [handleMap, hgate]
    split_ifs with h₁ h₂
    · subst h₁; rfl
    · subst h₂; rw [handles_of_size_le le_rfl]
    · rfl
  have hb := (hσ.but g).of_eq (s := s) (by omega) fun x hx hxg => by
    rw [hgate, if_neg hxg, if_neg (Nat.ne_of_lt hx)]
  have hn := consistent_eval hσ (x := s.size) (by omega) (by rw [hgs]; exact (by decide : GateType.not.Live))
    (by rw [hgs]; exact (by decide : GateType.not ≠ .var))
  rw [hgs] at hn
  refine hσ.of_but hb (by omega) (fun _ => by rw [hgg]; exact hty.1)
    (fun hd => by rw [hgg]; exact ⟨hd, rfl⟩) fun hl hv => ?_
  have := consistent_eval hσ (x := g) (by omega) (by rw [hgg]; exact hty.1) (by rw [hgg]; exact hty.2)
  rw [hgg] at this
  rw [this, ← heval σ hb hl hv]
  simp only [List.map_cons, List.map_nil, hn, GateType.eval_not_one]

theorem retypePair_restores {ty : GateType} {o a b : Nat} (hty : ty.Live ∧ ty ≠ .var)
    (heval : ∀ σ, s.circuit.ConsistentBut σ g → (s.gate g).type.Live → (s.gate g).type ≠ .var →
      ty.eval (s.gate g).tmin (s.gate g).tmax [σ b, σ a] =
        (s.gate g).type.eval (s.gate g).tmin (s.gate g).tmax ((s.gate g).children.map σ)) :
    Restores s (true, { ((((s.removeAllChildren g).pushIfOrphan o).setType g ty).addChild g a).addChild g b
      |>.addInPstack g with changed := true }) :=
  restores_of_rewrite hg hty (by simp) (gate_retypePair hg ty o a b) heval

end Rebuild

theorem simplifyIte_restores (ha : s.circuit.Acyclic) (hty : (s.gate g).type = .ite)
    (hs : s.circuit.Shaped) {r : Bool × BC} (h : s.simplifyIte g = some r) : Restores s r := by
  have hl : (s.gate g).type.Live := by rw [hty]; decide
  have hg : g < s.size := lt_size_of_live (c := s.circuit) hl
  obtain ⟨hlive, -, -⟩ := hs g hg hl
  unfold simplifyIte at h
  split at h
  swap
  · cases h
  rename_i i t e rest hchs
  have hmem : i ∈ (s.gate g).children ∧ t ∈ (s.gate g).children ∧ e ∈ (s.gate g).children := by
    simp [hchs]
  have hite : ∀ σ : Nat → Bool, (s.gate g).type.eval (s.gate g).tmin (s.gate g).tmax
      ((s.gate g).children.map σ) = if σ i then σ t else σ e := fun σ => by rw [hty, hchs]; rfl
  have hlt : ∀ x ∈ (s.gate g).children, x < s.size := fun x hx =>
    lt_size_of_live (c := s.circuit) (hlive x hx)
  have hne : ∀ x ∈ (s.gate g).children, x ≠ g := fun x hx => ha.ne_of_mem hx
  -- the facts the rewrites rely on hold on the other gates
  have hdv : ∀ x ∈ (s.gate g).children, ∀ v, ((s.gate x).determined && (s.gate x).value == v) →
      ∀ σ, s.circuit.ConsistentBut σ g → σ x = v := fun x hx v hd σ hb => by
    simp only [Bool.and_eq_true, beq_iff_eq] at hd
    rw [← hd.2]
    exact hb.det (hlt x hx) (hne x hx) (hlive x hx) hd.1
  have hnot : ∀ a b, (s.gate a).type = .not → s.headChild a = some b → a ∈ (s.gate g).children →
      ∀ σ, s.circuit.ConsistentBut σ g → σ a = !σ b := fun a b ha' hb' hm σ hb => by
    have hal := hlive a hm
    obtain ⟨-, hlen, -⟩ := hs a (hlt a hm) hal
    obtain ⟨b', hb''⟩ : ∃ b', (s.gate a).children = [b'] := List.length_eq_one.1 (hlen (.inr ha'))
    rw [headChild, hb'', List.head?_cons, Option.some_inj] at hb'
    subst hb'
    rw [hb.eval (hlt a hm) (hne a hm) hal (by rw [circuit_gate, ha']; decide), circuit_gate, ha', hb'']
    simp
  have hsz : ∀ ty : GateType, (((s.addChildrenInPstack g).removeAllChildren g).setType g ty).size =
      s.size := fun _ => by simp
  dsimp only at h
  simp only [newNOT_eq, installGate_eq, hsz] at h
  rcases ite_eq_iff.1 h with ⟨h₁, h⟩ | ⟨-, h⟩
  · rw [← Option.some.inj h]
    exact rebuild_restores hg ⟨by decide, by decide⟩ fun σ hb _ _ => by
      simp [hite, hdv i hmem.1 true h₁ σ hb]
  rcases ite_eq_iff.1 h with ⟨h₂, h⟩ | ⟨-, h⟩
  · rw [← Option.some.inj h]
    exact rebuild_restores hg ⟨by decide, by decide⟩ fun σ hb _ _ => by
      simp [hite, hdv i hmem.1 false h₂ σ hb]
  rcases ite_eq_iff.1 h with ⟨h₃, h⟩ | ⟨-, h⟩
  · rw [← Option.some.inj h]
    exact (show Restores s (true, s.rebuild g .or [i, e]) from rebuild_restores hg ⟨by decide, by decide⟩
      fun σ hb _ _ => by simp [hite, hdv t hmem.2.1 true h₃ σ hb]; cases σ i <;> simp).of_circuit_eq
      (by simp)
  rcases ite_eq_iff.1 h with ⟨h₄, h⟩ | ⟨-, h⟩
  · rw [← Option.some.inj h]
    exact overNot_restores hg ⟨by decide, by decide⟩ fun σ hb _ _ => by
      simp [hite, hdv t hmem.2.1 false h₄ σ hb]; cases σ i <;> simp
  rcases ite_eq_iff.1 h with ⟨h₅, h⟩ | ⟨-, h⟩
  · rw [← Option.some.inj h]
    exact overNot_restores hg ⟨by decide, by decide⟩ fun σ hb _ _ => by
      simp [hite, hdv e hmem.2.2 true h₅ σ hb]; cases σ i <;> simp
  rcases ite_eq_iff.1 h with ⟨h₆, h⟩ | ⟨-, h⟩
  · rw [← Option.some.inj h]
    exact (show Restores s (true, s.rebuild g .and [i, t]) from rebuild_restores hg ⟨by decide, by decide⟩
      fun σ hb _ _ => by simp [hite, hdv e hmem.2.2 false h₆ σ hb]; cases σ i <;> simp).of_circuit_eq
      (by simp)
  rcases ite_eq_iff.1 h with ⟨h₇, h⟩ | ⟨-, h⟩
  · rw [← Option.some.inj h]
    exact rebuild_restores hg ⟨by decide, by decide⟩ fun σ _ _ _ => by simp [hite, h₇]
  rcases ite_eq_iff.1 h with ⟨h₈, h⟩ | ⟨-, h⟩
  · rw [← Option.some.inj h]
    subst h₈
    exact (show Restores s (true, s.rebuild g .or [i, e]) from rebuild_restores hg ⟨by decide, by decide⟩
      fun σ _ _ _ => by simp [hite]; cases σ i <;> simp).of_circuit_eq (by simp)
  rcases ite_eq_iff.1 h with ⟨h₉, h⟩ | ⟨-, h⟩
  · rw [← Option.some.inj h]
    subst h₉
    exact (show Restores s (true, s.rebuild g .and [i, t]) from rebuild_restores hg ⟨by decide, by decide⟩
      fun σ _ _ _ => by simp [hite]; cases σ i <;> simp).of_circuit_eq (by simp)
  rcases ite_eq_iff.1 h with ⟨⟨h₁₀, h₁₀'⟩, h⟩ | ⟨-, h⟩
  · rw [← Option.some.inj h]
    exact retypePair_restores hg ⟨by decide, by decide⟩ fun σ hb _ _ => by
      simp [hite, hnot e t h₁₀ h₁₀' hmem.2.2 σ hb]; cases σ i <;> cases σ t <;> rfl
  rcases ite_eq_iff.1 h with ⟨⟨h₁₁, h₁₁'⟩, h⟩ | ⟨-, h⟩
  · rw [← Option.some.inj h]
    exact retypePair_restores hg ⟨by decide, by decide⟩ fun σ hb _ _ => by
      simp [hite, hnot t e h₁₁ h₁₁' hmem.2.1 σ hb]; cases σ i <;> cases σ e <;> rfl
  · rw [← Option.some.inj h]
    exact .refl s

end BC

end BcSat
