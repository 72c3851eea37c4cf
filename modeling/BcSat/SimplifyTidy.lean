import BcSat.SimplifyKeepsCall

set_option autoImplicit false

/-!
# What every call of `Gate::simplify` keeps

The soundness of a call (`simplify_keeps`) needs the store in the shape the rules rely on: live
gates over live children, `REF` and `NOT` over one child, parity gates over at least one, no
child under an input or a constant, and no mark `temp = 1`, which subset sharing reads as
"child of the gate". This module shows that a call on an acyclic store of that kind, at a gate
that is no `THRESHOLD`, leaves a store of that kind, so that the invariant carries over the whole
loop of `BC::simplify`.
-/

namespace BcSat

/-- A gate the loop takes: no `THRESHOLD`, and no child under an input or a constant. -/
def Gate.Plain (gt : Gate) : Prop :=
  gt.type ≠ .threshold ∧ (gt.type = .var ∨ gt.type = .true ∨ gt.type = .false → gt.children = [])

instance (gt : Gate) : Decidable gt.Plain := inferInstanceAs (Decidable (_ ∧ _))

theorem Gate.plain_none : Gate.none.Plain := ⟨by decide, fun _ => rfl⟩

theorem Gate.Plain.of_frame {gt gt' : Gate} (hp : gt.Plain)
    (h : gt'.type = gt.type ∧ gt'.children = gt.children) : gt'.Plain :=
  ⟨h.1 ▸ hp.1, fun h' => h.2 ▸ hp.2 (h.1 ▸ h')⟩

theorem Gate.plain_of_type {gt : Gate} (h : gt.type ≠ .threshold ∧ gt.type ≠ .var ∧ gt.type ≠ .true ∧
    gt.type ≠ .false) : gt.Plain :=
  ⟨h.1, fun h' => by rcases h' with e | e | e <;> simp [e] at h⟩

namespace BC

open Circuit

variable {s s' : BC} {g : Nat}

/-- The invariant of the loop of `BC::simplify`. -/
structure Tidy (s : BC) : Prop where
  /-- Live gates read live gates, with the arities the rules rely on. -/
  shaped : s.circuit.Shaped
  /-- No `THRESHOLD`, and no child under an input or a constant. -/
  plain : ∀ x < s.size, (s.gate x).Plain
  /-- No mark `temp = 1`. -/
  noMarks : NoMarks s

section Temps

variable (s) (g x)

@[simp] theorem temp_addChild (ch : Nat) : ((s.addChild g ch).gate x).temp = (s.gate x).temp :=
  temp_setChildren s g x _

@[simp] theorem temp_removeAllChildren : ((s.removeAllChildren g).gate x).temp = (s.gate x).temp :=
  temp_setChildren s g x _

@[simp] theorem temp_redirectParents (keep : Option Nat) (a b : Nat) :
    ((s.redirectParents keep a b).gate x).temp = (s.gate x).temp := by
  rw [gate_redirectParents]; split_ifs <;> rfl

@[simp] theorem temp_moveHandles (a b : Nat) : ((s.moveHandles a b).gate x).temp = (s.gate x).temp := by
  unfold moveHandles; simp only [gate_modify]; split_ifs <;> rfl

theorem temp_append {gt : Gate} (h : gt.temp = 0) : ((s.append gt).gate x).temp = (s.gate x).temp := by
  rw [gate_append]
  split_ifs with hx
  · subst hx; rw [h, ← circuit_gate, s.circuit.gate_of_size_le (by simp)]; rfl
  · rfl

end Temps

/-- What a gate that a rule writes must be for the invariant: live, neither a leaf nor a
`THRESHOLD`, over live gates of the store, with the arity of its type. -/
structure NewGateOk (s : BC) (t : GateType) (chs : List Nat) : Prop where
  live : t.Live
  inner : t ≠ .threshold ∧ t ≠ .var ∧ t ≠ .true ∧ t ≠ .false
  children_live : ∀ c ∈ chs, (s.gate c).type.Live
  unary : t = .ref ∨ t = .not → chs.length = 1
  parity : t = .odd ∨ t = .even → 0 < chs.length

theorem NewGateOk.mono {t : GateType} {chs : List Nat} (h : NewGateOk s t chs)
    (hlive : ∀ x, (s.gate x).type.Live → (s'.gate x).type.Live) : NewGateOk s' t chs :=
  ⟨h.live, h.inner, fun c hc => hlive c (h.children_live c hc), h.unary, h.parity⟩

theorem NewGateOk.shaped_plain {gt : Gate} (h : NewGateOk s gt.type gt.children) :
    s.circuit.GateShaped gt ∧ gt.Plain :=
  ⟨fun _ => ⟨h.children_live, h.unary, h.parity⟩, Gate.plain_of_type h.inner⟩

theorem NewGateOk.of_inner {t : GateType} {chs : List Nat}
    (ht : t = .or ∨ t = .and ∨ t = .equiv ∨ t = .atleast ∨ t = .odd ∨ t = .even)
    (hch : ∀ c ∈ chs, (s.gate c).type.Live) (hne : t = .odd ∨ t = .even → 0 < chs.length) :
    NewGateOk s t chs :=
  ⟨by rcases ht with e | e | e | e | e | e <;> subst e <;> decide,
    by rcases ht with e | e | e | e | e | e <;> subst e <;> decide, hch,
    fun h => by rcases ht with e | e | e | e | e | e <;> subst e <;> simp at h, hne⟩

theorem NewGateOk.of_unary {t : GateType} (ht : t = .ref ∨ t = .not) {x : Nat} (hx : (s.gate x).type.Live) :
    NewGateOk s t [x] :=
  ⟨by rcases ht with e | e <;> subst e <;> decide, by rcases ht with e | e <;> subst e <;> decide,
    by simpa using hx, fun _ => rfl, fun _ => by simp⟩

namespace Tidy

theorem plain_all (ht : Tidy s) (x : Nat) : (s.gate x).Plain := by
  by_cases hx : x < s.size
  · exact ht.plain x hx
  · rw [← circuit_gate, s.circuit.gate_of_size_le (by simpa using hx)]; exact Gate.plain_none

theorem leavesBare (ht : Tidy s) : s.circuit.LeavesBare := fun x _ => (ht.plain_all x).2

theorem type_ne_threshold (ht : Tidy s) (x : Nat) : (s.gate x).type ≠ .threshold := (ht.plain_all x).1

theorem of_frame (ht : Tidy s) (hlive : ∀ x, (s.gate x).type.Live → (s'.gate x).type.Live)
    (hgates : ∀ x < s'.size, ((s'.gate x).type = (s.gate x).type ∧
      (s'.gate x).children = (s.gate x).children) ∨
      (s'.circuit.GateShaped (s'.gate x) ∧ (s'.gate x).Plain)) (hm : NoMarks s') : Tidy s' where
  shaped := ht.shaped.of_frame hlive fun x hx => (hgates x hx).imp id And.left
  plain x hx := by
    rcases hgates x hx with h | ⟨-, h⟩
    exacts [(ht.plain_all x).of_frame h, h]
  noMarks := hm

theorem of_fields (ht : Tidy s) (hty : ∀ x, (s'.gate x).type = (s.gate x).type)
    (hch : ∀ x, (s'.gate x).children = (s.gate x).children)
    (htemp : ∀ x, (s'.gate x).temp = (s.gate x).temp) : Tidy s' :=
  ht.of_frame (fun x hx => (hty x).symm ▸ hx) (fun x _ => .inl ⟨hty x, hch x⟩)
    (ht.noMarks.of_temp htemp)

theorem of_onlyAt (ht : Tidy s) (h : OnlyAt g s s') (hsize : s'.size = s.size)
    (hlive : (s.gate g).type.Live → (s'.gate g).type.Live)
    (hg : g < s.size → s'.circuit.GateShaped (s'.gate g) ∧ (s'.gate g).Plain) (hm : NoMarks s') :
    Tidy s' := by
  refine ht.of_frame (fun x hx => ?_) (fun x hx => ?_) hm
  · by_cases hxg : x = g
    · subst hxg; exact hlive hx
    · rw [(h.frame x hxg).1]; exact hx
  · by_cases hxg : x = g
    · subst hxg; exact .inr (hg (hsize ▸ hx))
    · exact .inl (h.frame x hxg)

theorem of_circuit_eq (ht : Tidy s) (h : s'.circuit = s.circuit) : Tidy s' where
  shaped := by rw [h]; exact ht.shaped
  plain x hx := by
    rw [← circuit_gate, h]; exact ht.plain x (by rw [← circuit_size, h] at hx; exact hx)
  noMarks x := by rw [← circuit_gate, h]; exact ht.noMarks x

theorem setLinks (ht : Tidy s) (p : Nat) (l : List Nat) : Tidy (s.setLinks p l) := ht.of_circuit_eq rfl

theorem tick (ht : Tidy s) (n : Nat) : Tidy (s.tick n) := ht.of_circuit_eq rfl

theorem addInPstack (ht : Tidy s) (y : Nat) : Tidy (s.addInPstack y) :=
  ht.of_fields (fun _ => by simp) (fun _ => by simp) fun _ => by simp

theorem addParentsInPstack (ht : Tidy s) (y : Nat) : Tidy (s.addParentsInPstack y) :=
  ht.of_fields (fun _ => by simp) (fun _ => by simp) fun _ => by simp

theorem determine (ht : Tidy s) (v : Bool) : Tidy (s.determine g v) :=
  ht.of_fields (fun _ => by simp) (fun _ => by simp) fun _ => by simp

theorem withChanged (ht : Tidy s) (b : Bool) : Tidy { s with changed := b } :=
  ⟨ht.shaped, ht.plain, ht.noMarks⟩

theorem transformIntoConstant_of {t : BC} (ht : Tidy t) (hot : OnlyAt g t s) (hm : NoMarks s)
    (hg : g < s.size) {v : Bool} (h : s.transformIntoConstant g v = some s') : Tidy s' := by
  obtain ⟨-, hgate⟩ := transformIntoConstant_gate hg h
  have hlive : ∀ x, (t.gate x).type.Live → (s'.gate x).type.Live := fun x hx => by
    rw [hgate]
    by_cases hxg : x = g
    · rw [if_pos hxg]; show (if v then GateType.true else .false).Live; cases v <;> decide
    · rw [if_neg hxg, (hot.frame x hxg).1]; exact hx
  refine ht.of_frame hlive (fun x _ => ?_) (hm.of_temp (temp_transformIntoConstant h))
  rw [hgate]
  by_cases hxg : x = g
  · rw [if_pos hxg]
    exact .inr ⟨fun _ => ⟨by simp, by cases v <;> simp, by cases v <;> simp⟩, by cases v <;> simp,
      fun _ => rfl⟩
  · rw [if_neg hxg]; exact .inl (hot.frame x hxg)

theorem transformIntoConstant (ht : Tidy s) (hg : g < s.size) {v : Bool}
    (h : s.transformIntoConstant g v = some s') : Tidy s' :=
  ht.transformIntoConstant_of (.refl g s) ht.noMarks hg h

theorem becomeConstant_of {t : BC} (ht : Tidy t) (hot : OnlyAt g t s) (hm : NoMarks s) (hg : g < s.size)
    {v : Bool} {r : Bool × BC} (h : s.becomeConstant g v = some r) : r.1 = true → Tidy r.2 := by
  unfold BC.becomeConstant at h
  split_ifs at h
  · cases h; nofun
  · obtain ⟨s₁, h₁, rfl⟩ := Option.map_eq_some'.1 h
    exact fun _ => (ht.transformIntoConstant_of hot hm hg h₁).addParentsInPstack g

theorem becomeConstant (ht : Tidy s) (hg : g < s.size) {v : Bool} {r : Bool × BC}
    (h : s.becomeConstant g v = some r) : Tidy r.2 := by
  unfold BC.becomeConstant at h
  split_ifs at h
  · cases h; exact ht
  · obtain ⟨s₁, h₁, rfl⟩ := Option.map_eq_some'.1 h
    exact (ht.transformIntoConstant hg h₁).addParentsInPstack g

theorem redirectParents (ht : Tidy s) (keep : Option Nat) {a b : Nat} (hb : (s.gate b).type.Live) :
    Tidy (s.redirectParents keep a b) :=
  ⟨shaped_redirectParents ht.shaped keep hb, fun x _ => by
    have := ht.plain_all x
    rw [gate_redirectParents]
    split_ifs
    · exact this
    · exact ⟨this.1, fun h => by simp [this.2 h]⟩,
    ht.noMarks.of_temp fun _ => by simp⟩

theorem of_shaped (ht : Tidy s) (h : OnlyAt g s s') (hs : s'.circuit.Shaped) (hg : (s'.gate g).Plain)
    (hm : NoMarks s') : Tidy s' where
  shaped := hs
  plain x _ := by
    by_cases hxg : x = g
    · subst hxg; exact hg
    · exact (ht.plain_all x).of_frame (h.frame x hxg)
  noMarks := hm

theorem deleted (ht : Tidy s) (hp : ∀ p, g ∉ (s.gate p).children) (hsize : s'.size = s.size)
    (hframe : ∀ x ≠ g, s'.gate x = s.gate x) (hdel : g < s.size → (s'.gate g).type = .deleted)
    (htemp : (s'.gate g).temp = (s.gate g).temp) : Tidy s' := by
  have hlive : ∀ x, x ≠ g → (s.gate x).type.Live → (s'.gate x).type.Live := fun x hx hl => by
    rw [hframe x hx]; exact hl
  refine ⟨fun x hx hl => ?_, fun x hx => ?_, ht.noMarks.of_temp fun x => ?_⟩
  · simp only [circuit_gate, circuit_size, hsize] at hx hl ⊢
    have hxg : x ≠ g := fun e => by subst e; exact hl.1 (hdel hx)
    rw [hframe x hxg] at hl ⊢
    obtain ⟨h₁, h₂, h₃⟩ := ht.shaped x hx hl
    exact ⟨fun c hc => hlive c (fun e => hp x (e ▸ hc)) (h₁ c hc), h₂, h₃⟩
  · by_cases hxg : x = g
    · subst hxg; exact ⟨by rw [hdel (hsize ▸ hx)]; decide, fun h => by
        rcases h with e | e | e <;> rw [hdel (hsize ▸ hx)] at e <;> cases e⟩
    · rw [hframe x hxg]; exact ht.plain_all x
  · by_cases hxg : x = g
    · subst hxg; exact htemp
    · rw [hframe x hxg]

theorem not_mem_children_of_parents_nil (h : s.parents g = []) (p : Nat) : g ∉ (s.gate p).children :=
  fun hg => by
    have hp : p < s.size := s.circuit.lt_size_of_edge hg
    simpa [h] using (BC.mem_parents_iff (c := g) (p := p)).2 ⟨hp, hg⟩

theorem rewrite (ht : Tidy s) (h : OnlyAt g s s')
    (hok : NewGateOk s (s'.gate g).type (s'.gate g).children) (hm : NoMarks s') : Tidy s' := by
  have hlive : ∀ x, (s.gate x).type.Live → (s'.gate x).type.Live := fun x hx => by
    by_cases hxg : x = g
    · subst hxg; exact hok.live
    · rw [(h.frame x hxg).1]; exact hx
  refine ht.of_frame hlive (fun x _ => ?_) hm
  by_cases hxg : x = g
  · subst hxg; exact .inr (hok.mono hlive).shaped_plain
  · exact .inl (h.frame x hxg)

theorem append (ht : Tidy s) {gt : Gate} (hok : NewGateOk s gt.type gt.children) (htemp : gt.temp = 0) :
    Tidy (s.append gt) := by
  have hlive : ∀ x, (s.gate x).type.Live → ((s.append gt).gate x).type.Live := fun x hx => by
    rw [gate_append, if_neg (show x ≠ s.size from Nat.ne_of_lt (lt_size_of_live (c := s.circuit) hx))]
    exact hx
  refine ht.of_frame hlive (fun x _ => ?_) (ht.noMarks.of_temp fun x => temp_append s x htemp)
  rw [gate_append]
  split_ifs
  · exact .inr (hok.mono hlive).shaped_plain
  · exact .inl ⟨rfl, rfl⟩

theorem retypeLeaf (ht : Tidy s) {x y : Nat} (hx : x < s.size) (hc : (s.gate x).children = [])
    {t : GateType} (hty : t = .ref ∨ t = .not) (hy : (s.gate y).type.Live) :
    Tidy ((s.setType x t).addChild x y) :=
  ht.rewrite (g := x) (.of_gate fun z hz => by rw [gate_retypeLeaf hx hc, if_neg hz])
    (by rw [gate_retypeLeaf hx hc, if_pos rfl]; exact .of_unary hty hy)
    (ht.noMarks.of_temp fun z => by rw [gate_retypeLeaf hx hc]; split_ifs with hz <;> simp [hz])

theorem rebuild (ht : Tidy s) (hg : g < s.size) {t : GateType} {chs : List Nat}
    (hok : NewGateOk s t chs.reverse) : Tidy (s.rebuild g t chs) :=
  ht.rewrite (.of_gate fun x hx => by rw [gate_rebuild hg, if_neg hx])
    (by rw [gate_rebuild hg, if_pos rfl]; exact hok)
    (ht.noMarks.of_temp fun x => by rw [gate_rebuild hg]; split_ifs with hx <;> simp [hx])

theorem overNot (ht : Tidy s) (hg : g < s.size) {ty : GateType} (hty : ty = .or ∨ ty = .and) {i c : Nat}
    (hi : (s.gate i).type.Live) (hc : (s.gate c).type.Live) :
    Tidy { ((((((s.addChildrenInPstack g).removeAllChildren g).setType g ty).append
      { type := .not, children := [i] }).addChild g s.size).addChild g c).addInPstack g
      |>.addParentsInPstack g with changed := true } := by
  have h₁ : Tidy (s.append { type := .not, children := [i] }) :=
    ht.append (.of_unary (.inr rfl) hi) rfl
  refine h₁.rewrite (g := g) (.of_gate fun x hx => by rw [gate_overNot hg, if_neg hx, gate_append]) ?_
    fun x => ?_
  · rw [gate_overNot hg, if_pos rfl]
    refine .of_inner (by tauto) (fun x hx => ?_) fun h => by rcases hty with rfl | rfl <;> simp at h
    rcases List.mem_pair.1 hx with rfl | rfl
    · rw [gate_append_of_lt _ (lt_size_of_live (c := s.circuit) hc)]; exact hc
    · rw [gate_append_self]; exact (by decide : GateType.not.Live)
  · rw [gate_overNot hg]
    split_ifs
    exacts [ht.noMarks g, (by decide : (0 : Int) ≠ 1), ht.noMarks x]

theorem retypePair (ht : Tidy s) (hg : g < s.size) {ty : GateType} (hty : ty = .equiv ∨ ty = .odd)
    {o a b : Nat} (ha : (s.gate a).type.Live) (hb : (s.gate b).type.Live) :
    Tidy { ((((s.removeAllChildren g).pushIfOrphan o).setType g ty).addChild g a).addChild g b
      |>.addInPstack g with changed := true } :=
  ht.rewrite (.of_gate fun x hx => by rw [gate_retypePair hg, if_neg hx])
    (by
      rw [gate_retypePair hg, if_pos rfl]
      refine .of_inner (by tauto) (fun x hx => ?_) fun _ => by simp
      rcases List.mem_pair.1 hx with rfl | rfl
      exacts [hb, ha])
    fun x => by rw [gate_retypePair hg]; split_ifs; exacts [ht.noMarks g, ht.noMarks x]

theorem childrenAt (ht : Tidy s) (h : ChildrenAt g s s')
    (hfree : (s.gate g).type = .or ∨ (s.gate g).type = .and ∨ (s.gate g).type = .equiv)
    (hlive : ∀ y ∈ (s'.gate g).children, (s.gate y).type.Live) (hm : NoMarks s') : Tidy s' :=
  ht.rewrite (GateAt.of_childrenAt h).toOnlyAt (.of_inner (by rw [h.type_eq]; tauto) hlive
    fun hp => by rw [h.type_eq] at hp; rcases hfree with e | e | e <;> rw [e] at hp <;> simp at hp) hm

theorem live_children (ht : Tidy s) (hl : (s.gate g).type.Live) :
    ∀ y ∈ (s.gate g).children, (s.gate y).type.Live :=
  (ht.shaped g (lt_size_of_live (c := s.circuit) hl) hl).1

theorem setChildren (ht : Tidy s)
    (hfree : (s.gate g).type = .or ∨ (s.gate g).type = .and ∨ (s.gate g).type = .equiv) {chs : List Nat}
    (hlive : ∀ y ∈ chs, (s.gate y).type.Live) : Tidy (s.setChildren g chs) :=
  ht.childrenAt (.setChildren chs) hfree (fun y hy => by
    have hl : (s.gate g).type.Live := by rcases hfree with e | e | e <;> rw [e] <;> decide
    rw [children_setChildren] at hy
    split_ifs at hy
    exacts [hlive y hy, ht.live_children hl y hy])
    (ht.noMarks.of_temp fun _ => by simp)

theorem setType_unary (ht : Tidy s) (hl : (s.gate g).type.Live) {t : GateType} (hty : t = .ref ∨ t = .not)
    {c : Nat} (hc : (s.gate g).children = [c]) : Tidy (s.setType g t) :=
  ht.rewrite (OnlyAt.modify _) (by
    rw [gate_setType_self _ (lt_size_of_live (c := s.circuit) hl)]
    show NewGateOk s t (s.gate g).children
    rw [hc]
    exact .of_unary hty (ht.live_children hl c (by simp [hc])))
    (ht.noMarks.of_temp fun _ => by simp)

theorem setType_inner (ht : Tidy s) (hl : (s.gate g).type.Live) {t : GateType}
    (hty : t = .or ∨ t = .and ∨ t = .equiv ∨ t = .atleast ∨ t = .odd ∨ t = .even)
    (hne : t = .odd ∨ t = .even → 0 < (s.gate g).children.length) : Tidy (s.setType g t) :=
  ht.rewrite (OnlyAt.modify _) (by
    rw [gate_setType_self _ (lt_size_of_live (c := s.circuit) hl)]
    exact .of_inner hty (ht.live_children hl) hne)
    (ht.noMarks.of_temp fun _ => by simp)

theorem foldl_redirectParents (keep : Option Nat) {b : Nat} : ∀ (xs : List Nat) (s : BC), Tidy s →
    (s.gate b).type.Live → Tidy (xs.foldl (fun t x => t.redirectParents keep x b) s)
  | [], _, ht, _ => ht
  | _ :: xs, _, ht, hb => foldl_redirectParents keep xs _ (ht.redirectParents keep hb) (by
      rw [gate_redirectParents]; split_ifs; exacts [hb, hb])

end Tidy

section Cases

variable (ha : s.circuit.Acyclic) (ht : Tidy s)
include ht

omit ha in
theorem Tidy.setType_deleted (hp : s.parents g = []) : Tidy (s.setType g .deleted) :=
  ht.deleted (Tidy.not_mem_children_of_parents_nil hp) (by simp) (fun x hx => by simp [Ne.symm hx])
    (fun hg => by simp [hg]) (by simp)

omit ha in
theorem simplifyConstant_tidy {v : Bool} {r : Bool × BC} (h : s.simplifyConstant g v = some r) :
    Tidy r.2 := by
  unfold simplifyConstant at h
  dsimp only at h
  split_ifs at h with _ _ hp hp' <;> cases h
  · exact ht
  · exact ht.setType_deleted hp.2
  · exact ht
  · exact ((ht.determine v).addParentsInPstack g).setType_deleted hp'.2
  · exact (ht.determine v).addParentsInPstack g

omit ha in
theorem simplifyVar_tidy (hg : g < s.size) {r : Bool × BC} (h : s.simplifyVar g = some r) : Tidy r.2 := by
  unfold simplifyVar at h
  split_ifs at h
  · obtain ⟨s₁, h₁, rfl⟩ := Option.map_eq_some'.1 h
    exact ht.transformIntoConstant hg h₁
  · cases h; exact ht

omit ha in
theorem simplifyUnaryDetermined_tidy (hg : g < s.size) {ch : Nat} {neg : Bool}
    {r : Bool × BC} (h : s.simplifyUnaryDetermined g ch neg = some (some r)) : Tidy r.2 := by
  unfold simplifyUnaryDetermined at h
  dsimp only at h
  by_cases hd : (s.gate g).determined = true
  · rw [if_pos hd] at h
    split at h
    · cases h; exact ht
    · rename_i s₁ hdown
      obtain ⟨s₂, h₂, rfl⟩ := Option.map_eq_some'.1 (Option.some.inj h)
      have h₁ : Tidy s₁ ∧ s₁.size = s.size := by
        split_ifs at hdown <;> cases hdown
        · exact ⟨ht, rfl⟩
        · exact ⟨(ht.determine _).addInPstack ch, by simp⟩
      exact (h₁.1.transformIntoConstant (h₁.2 ▸ hg) h₂).addParentsInPstack g
  · rw [if_neg hd] at h
    split_ifs at h
    obtain ⟨s₂, h₂, rfl⟩ := Option.map_eq_some'.1 (Option.some.inj h)
    exact (ht.transformIntoConstant hg h₂).addParentsInPstack g

include ha in
theorem simplifyRef_tidy (hty : (s.gate g).type = .ref) {r : Bool × BC} (h : s.simplifyRef g = some r) :
    Tidy r.2 := by
  have hl : (s.gate g).type.Live := by rw [hty]; decide
  have hg : g < s.size := lt_size_of_live (c := s.circuit) hl
  obtain ⟨hlive, hlen, -⟩ := ht.shaped g hg hl
  obtain ⟨ch, hch⟩ : ∃ ch, (s.gate g).children = [ch] := List.length_eq_one.1 (hlen (.inl hty))
  have hchl : (s.gate ch).type.Live := hlive ch (by simp [hch])
  have hc : ch < s.size := lt_size_of_live (c := s.circuit) hchl
  have hne : ch ≠ g := fun e => (acyclic_iff.1 ha).2 ⟨g, .single (show g ∈ (s.gate g).children by
    rw [hch, e]; exact List.mem_singleton_self _)⟩
  unfold simplifyRef at h
  rw [headChild, hch, List.head?_cons, Option.some_bind] at h
  split at h
  · rename_i r' hu
    subst h
    exact simplifyUnaryDetermined_tidy ht hg hu
  · cases h
    have ht₁ := ht.addParentsInPstack g
    have hgate := gate_replaceBy (s := s.addParentsInPstack g) (by simpa using hg) (by simpa using hc) hne
    refine Tidy.withChanged ⟨shaped_replaceBy ht₁.shaped (by simpa using hg) (by simpa using hc) hne
      (by simpa using hchl), fun x _ => ?_, ht.noMarks.of_temp fun x => ?_⟩ true
    · show ((s.addParentsInPstack g).replaceBy g ch).gate x |>.Plain
      rw [hgate]
      by_cases hxg : x = g
      · rw [if_pos hxg]; exact ⟨by simp, by simp⟩
      · rw [if_neg hxg]
        have := ht.plain_all x
        exact ⟨by simpa using this.1, fun h => by simp [this.2 (by simpa using h)]⟩
    · show (((s.addParentsInPstack g).replaceBy g ch).gate x).temp = _
      rw [hgate]; split_ifs with hx <;> simp [hx]

omit ha in
theorem simplifyNot_tidy (hty : (s.gate g).type = .not) {r : Bool × BC} (h : s.simplifyNot g = some r) :
    Tidy r.2 := by
  have hl : (s.gate g).type.Live := by rw [hty]; decide
  have hg : g < s.size := lt_size_of_live (c := s.circuit) hl
  obtain ⟨hlive, hlen, -⟩ := ht.shaped g hg hl
  obtain ⟨ch, hch⟩ : ∃ ch, (s.gate g).children = [ch] := List.length_eq_one.1 (hlen (.inr hty))
  have hchl : (s.gate ch).type.Live := hlive ch (by simp [hch])
  have hc : ch < s.size := lt_size_of_live (c := s.circuit) hchl
  unfold simplifyNot at h
  rw [headChild, hch, List.head?_cons, Option.some_bind] at h
  split at h
  · rename_i r' hu
    subst h
    exact simplifyUnaryDetermined_tidy ht hg hu
  · split_ifs at h with hnot
    · obtain ⟨gc, hgc, rfl⟩ := Option.map_eq_some'.1 h
      have hgcl : (s.gate gc).type.Live := (ht.shaped ch hc hchl).1 gc (List.mem_of_mem_head? hgc)
      have hgate : ∀ x, ((((((s.setType g .ref).removeAllChildren g).pushIfOrphan ch).addChild g
          gc).addInPstack g).gate x) = if x = g then { s.gate g with type := .ref, children := [gc] }
          else s.gate x := fun x => by
        by_cases hx : x = g
        · subst hx; simp [hg]
        · simp [hx, Ne.symm hx]
      refine Tidy.withChanged (ht.of_onlyAt (OnlyAt.of_gate fun x hx => by rw [hgate, if_neg hx])
        (by simp) (fun _ => by rw [hgate, if_pos rfl]; exact (by decide : GateType.ref.Live)) (fun _ => ?_)
        (ht.noMarks.of_temp fun x => by rw [hgate]; split_ifs <;> simp_all)) true
      rw [hgate, if_pos rfl]
      refine ⟨fun _ => ⟨fun c hc' => ?_, fun _ => rfl, nofun⟩, Gate.plain_of_type (by simp)⟩
      rw [List.mem_singleton.1 hc', circuit_gate, hgate]
      split_ifs; exacts [(by decide : GateType.ref.Live), hgcl]
    · cases h; exact ht

omit ha in
theorem simplifyIte_tidy (hty : (s.gate g).type = .ite) {r : Bool × BC} (h : s.simplifyIte g = some r) :
    Tidy r.2 := by
  have hl : (s.gate g).type.Live := by rw [hty]; decide
  have hg : g < s.size := lt_size_of_live (c := s.circuit) hl
  unfold simplifyIte at h
  split at h
  swap
  · cases h
  rename_i i t e rest hchs
  have hc : ∀ x ∈ [i, t, e], (s.gate x).type.Live := fun x hx =>
    (ht.shaped g hg hl).1 x (by
      simp only [List.mem_cons, List.mem_singleton, List.not_mem_nil, or_false] at hx
      rcases hx with rfl | rfl | rfl <;> simp [hchs])
  have hi := hc i (by simp)
  have htl := hc t (by simp)
  have hel := hc e (by simp)
  have href : ∀ x ∈ [i, t, e], Tidy (s.rebuild g .ref [x]) := fun x hx =>
    ht.rebuild hg (.of_unary (.inl rfl) (hc x hx))
  have hpair : ∀ ty, ty = .or ∨ ty = .and → ∀ x ∈ [i, t, e], ∀ y ∈ [i, t, e],
      Tidy ((s.rebuild g ty [x, y]).addParentsInPstack g) := fun ty hty x hx y hy =>
    (ht.rebuild hg (.of_inner (by tauto) (fun z hz => by
      rcases List.mem_pair.1 hz with e | e <;> rw [e]
      exacts [hc y hy, hc x hx])
      fun h => by rcases hty with rfl | rfl <;> simp at h)).addParentsInPstack g
  dsimp only at h
  simp only [newNOT_eq, installGate_eq, size_setType, size_removeAllChildren,
    size_addChildrenInPstack] at h
  rcases ite_eq_iff.1 h with ⟨-, h⟩ | ⟨-, h⟩
  · rw [← Option.some.inj h]; dsimp only; exact href t (by simp)
  rcases ite_eq_iff.1 h with ⟨-, h⟩ | ⟨-, h⟩
  · rw [← Option.some.inj h]; dsimp only; exact href e (by simp)
  rcases ite_eq_iff.1 h with ⟨-, h⟩ | ⟨-, h⟩
  · rw [← Option.some.inj h]; dsimp only; exact hpair .or (.inl rfl) i (by simp) e (by simp)
  rcases ite_eq_iff.1 h with ⟨-, h⟩ | ⟨-, h⟩
  · rw [← Option.some.inj h]; dsimp only; exact ht.overNot hg (.inr rfl) hi hel
  rcases ite_eq_iff.1 h with ⟨-, h⟩ | ⟨-, h⟩
  · rw [← Option.some.inj h]; dsimp only; exact ht.overNot hg (.inl rfl) hi htl
  rcases ite_eq_iff.1 h with ⟨-, h⟩ | ⟨-, h⟩
  · rw [← Option.some.inj h]; dsimp only; exact hpair .and (.inr rfl) i (by simp) t (by simp)
  rcases ite_eq_iff.1 h with ⟨-, h⟩ | ⟨-, h⟩
  · rw [← Option.some.inj h]; dsimp only; exact href t (by simp)
  rcases ite_eq_iff.1 h with ⟨-, h⟩ | ⟨-, h⟩
  · rw [← Option.some.inj h]; dsimp only; exact hpair .or (.inl rfl) i (by simp) e (by simp)
  rcases ite_eq_iff.1 h with ⟨-, h⟩ | ⟨-, h⟩
  · rw [← Option.some.inj h]; dsimp only; exact hpair .and (.inr rfl) i (by simp) t (by simp)
  rcases ite_eq_iff.1 h with ⟨-, h⟩ | ⟨-, h⟩
  · rw [← Option.some.inj h]; dsimp only; exact ht.retypePair hg (.inl rfl) hi htl
  rcases ite_eq_iff.1 h with ⟨-, h⟩ | ⟨-, h⟩
  · rw [← Option.some.inj h]; dsimp only; exact ht.retypePair hg (.inr rfl) hi hel
  · rw [← Option.some.inj h]; dsimp only; exact ht

end Cases

theorem removeGNotGAndDuplicateChildren_tidy (ht : Tidy s)
    (hfree : (s.gate g).type = .or ∨ (s.gate g).type = .and ∨ (s.gate g).type = .equiv) {r : Bool × BC}
    (h : s.removeGNotGAndDuplicateChildren g = some r) : Tidy r.2 := by
  have hl : (s.gate g).type.Live := by rcases hfree with e | e | e <;> rw [e] <;> decide
  have hm := removeGNotGAndDuplicateChildren_noMarks ht.noMarks h
  rcases removeGNotGAndDuplicateChildren_spec ht.noMarks hfree h with ⟨-, e⟩ | ⟨-, s₃, e, h₃⟩
  · exact ht.childrenAt e.toChildrenAt hfree (fun y hy => ht.live_children hl y ((e.mem_iff y).1 hy)) hm
  · exact (ht.childrenAt e.toChildrenAt hfree (fun y hy => ht.live_children hl y ((e.mem_iff y).1 hy))
      (hm.of_temp fun x => (temp_becomeConstant h₃ x).symm)).becomeConstant
      (e.size_eq ▸ lt_size_of_live (c := s.circuit) hl) h₃

section OrAnd

variable {a : Bool} {ty : GateType} (hty : ty = if a then .or else .and)
include hty

theorem orAnd_free : ty = .or ∨ ty = .and ∨ ty = .equiv := by subst hty; cases a <;> simp

theorem forceChildren_tidy : ∀ (rest : List Nat) (s : BC), Tidy s → (s.gate g).type = ty →
    (s.gate g).children = rest → Tidy (forceChildren a g rest s).2
  | [], _, ht, _, _ => ht
  | ch :: rest, s, ht, ht', hch => by
    have hl : (s.gate g).type.Live := ht' ▸ (orAnd_live hty).1
    have hg : g < s.size := lt_size_of_live (c := s.circuit) hl
    have hrest : ∀ y ∈ rest, (s.gate y).type.Live := fun y hy => ht.live_children hl y (by simp [hch, hy])
    unfold forceChildren
    split_ifs
    · exact ht
    · exact forceChildren_tidy rest _ ((ht.setChildren (ht' ▸ orAnd_free hty) hrest).setLinks g _)
        (by simp [ht']) (by simp [children_setChildren, hg])
    · have ht₁ := (ht.determine (g := ch) (!a)).addInPstack ch
      exact forceChildren_tidy rest _ ((ht₁.setChildren (g := g) (by simpa [ht'] using orAnd_free hty)
        fun y hy => by simpa using hrest y hy).setLinks g _) (by simp [ht']) (by simp [children_setChildren, hg])

theorem shareSubset_tidy {s : BC} (ht : Tidy s) (ht' : (s.gate g).type = ty) : Tidy (s.shareSubset ty g) := by
  have hl : (s.gate g).type.Live := ht' ▸ (orAnd_live hty).1
  have hg : g < s.size := lt_size_of_live (c := s.circuit) hl
  have hfree := ht' ▸ orAnd_free hty
  unfold shareSubset
  dsimp only
  split
  · refine ht.childrenAt ((ChildrenAt.setTemps _ _).trans (.setTemps _ _)) hfree
      (fun y hy => ht.live_children hl y (by simpa using hy)) fun x => ?_
    simp only [temp_setTemps, size_setTemps]
    split_ifs
    exacts [by decide, ht.noMarks x]
  next p hp =>
    obtain ⟨-, hps, -, hpty⟩ := sharedSubset_spec ty g hp
    have hpl : (s.gate p).type.Live := by
      rw [(ChildrenAt.setTemps (g := g) _ _).type_eq] at hpty; rw [hpty]; exact (orAnd_live hty).1
    set s₁ := s.setTemps (s.gate g).children 1
    set s₂ := s₁.setTemps (s₁.gate p).children 0
    set F := (s.gate g).children.filter fun x => (s₂.gate x).temp ≠ 0
    set s₄ := ((s₂.setChildren g F).setLinks g ((((s.gate g).children.zip (s₂.linkTimes g)).filter
      fun e => (s₂.gate e.1).temp ≠ 0).map Prod.snd)).addChild g p
    have hch : ((s₄.setTemps (s₄.gate g).children 0).gate g).children = p :: F := by
      simp [s₄, s₂, s₁, addChild, children_setChildren, hg]
    refine ht.childrenAt ((((((ChildrenAt.setTemps _ _).trans (.setTemps _ _)).trans
      (.setChildren _)).setLinks g _).trans (.addChild _)).trans (.setTemps _ _)) hfree (fun y hy => ?_)
      fun x hx => ?_
    · rw [hch] at hy
      rcases List.mem_cons.1 hy with rfl | hy
      exacts [hpl, ht.live_children hl y (List.mem_of_mem_filter hy)]
    · have hF : x ∈ (s.gate g).children → x < s.size → x ∉ (s.gate p).children → x ∈ F := fun h₁ h₂ h₃ => by
        simp [F, s₂, s₁, temp_setTemps, h₁, h₂, h₃]
      have e₄ : (s₄.gate g).children = p :: F := by simp [s₄, s₂, s₁, addChild, children_setChildren, hg]
      have hs₄ : s₄.size = s.size := by simp [s₄, s₂, s₁]
      have ht₄ : (s₄.gate x).temp = (s₂.gate x).temp := by simp [s₄]
      rw [temp_setTemps, e₄, hs₄, ht₄] at hx
      simp only [s₂, s₁, temp_setTemps, size_setTemps, children_setTemps] at hx
      split_ifs at hx with h₁ h₂ h₃
      · exact absurd hx (by decide)
      · exact absurd hx (by decide)
      · exact h₁ ⟨.tail _ (hF h₃.1 h₃.2 fun h => h₂ ⟨h, h₃.2⟩), h₃.2⟩
      · exact ht.noMarks x hx

theorem collapseScan_tidy : ∀ (rest kept : List Nat) (s : BC) (done : Bool), Tidy s →
    (s.gate g).type = ty → (s.gate g).children = kept ++ rest → Tidy (collapseScan ty g kept rest s done).2
  | [], _, _, _, ht, _, _ => ht
  | ch :: rest, kept, s, done, ht, ht', hch => by
    have hl : (s.gate g).type.Live := ht' ▸ (orAnd_live hty).1
    have hg : g < s.size := lt_size_of_live (c := s.circuit) hl
    unfold collapseScan
    split_ifs with hc
    · have hchl : (s.gate ch).type.Live := hc.1 ▸ (orAnd_live hty).1
      refine collapseScan_tidy rest _ _ true ((((ht.setChildren (ht' ▸ orAnd_free hty) fun y hy => ?_).setLinks
        g _).tick _).addInPstack ch)
        (by simp [ht']) (by simp [children_setChildren, hg])
      simp only [List.mem_append, mem_foldl_flip_cons, List.not_mem_nil, or_false] at hy
      rcases hy with (hy | hy) | hy
      · exact ht.live_children hchl y hy
      · exact ht.live_children hl y (by simp [hch, hy])
      · exact ht.live_children hl y (by simp [hch, hy])
    · exact collapseScan_tidy rest _ s done ht ht' (by simp [hch])

theorem simplifyOrAnd_tidy {s : BC} (ht : Tidy s) (ht' : (s.gate g).type = ty) {r : Bool × BC}
    (h : s.simplifyOrAnd a ty g = some r) : Tidy r.2 := by
  have hl : (s.gate g).type.Live := ht' ▸ (orAnd_live hty).1
  have hg : g < s.size := lt_size_of_live (c := s.circuit) hl
  have hfree := ht' ▸ orAnd_free hty
  unfold simplifyOrAnd at h
  dsimp only at h
  split at h
  · have hf := forceChildren_tidy hty _ s ht ht' rfl
    have hsize := (forceChildren_implied a g _ s (ScanOk.init s g)).size_eq
    split at h
    next s₁ heq => cases h; rw [heq] at hf; exact hf
    next s₁ heq =>
      rw [heq] at hf hsize
      obtain ⟨s₂, h₂, rfl⟩ := Option.map_eq_some'.1 h
      exact (hf.transformIntoConstant (hsize ▸ hg) h₂).addParentsInPstack g
  · obtain ⟨e₁, hsub₁, hlen₁⟩ := absorbScan_childrenAt (a := a) (s.gate g).children [] s hg rfl
    have ht₁ := ht.childrenAt e₁ hfree (fun y hy => ht.live_children hl y (by simpa using hsub₁ y hy))
      (ht.noMarks.of_temp (absorbScan_temp a g _ [] s))
    split at h
    next _ s₁ heq =>
      rw [heq] at ht₁ e₁
      obtain ⟨s₂, h₂, rfl⟩ := Option.map_eq_some'.1 h
      exact (ht₁.transformIntoConstant (e₁.size_eq ▸ hg) h₂).addParentsInPstack g
    next s₁ heq =>
      rw [heq] at ht₁ e₁
      exact ht₁.becomeConstant (e₁.size_eq ▸ hg) h
    next s₁ heq =>
      rw [heq] at ht₁ e₁ hlen₁
      cases h
      obtain ⟨c, hc⟩ := List.length_eq_one.1 (hlen₁ rfl)
      exact (ht₁.setType_unary (by rw [e₁.type_eq]; exact hl) (.inl rfl) hc).addInPstack g
    next _ s₁ _ _ heq =>
      rw [heq] at ht₁ e₁
      have hfree₁ : (s₁.gate g).type = .or ∨ (s₁.gate g).type = .and ∨ (s₁.gate g).type = .equiv := by
        rwa [e₁.type_eq]
      obtain ⟨⟨ok, s₂⟩, h₂, h⟩ := Option.bind_eq_some.1 h
      have ht₂ := removeGNotGAndDuplicateChildren_tidy ht₁ hfree₁ h₂
      dsimp only at h
      by_cases hok : ok = true
      swap
      · rw [Bool.not_eq_true] at hok
        subst hok
        cases h
        exact ht₂
      subst hok
      rw [if_neg (show ¬(!true) = true from nofun)] at h
      by_cases hty₂ : (s₂.gate g).type = ty
      swap
      · rw [if_pos hty₂] at h
        cases h
        exact ht₂
      rw [if_neg (not_not.2 hty₂)] at h
      generalize hs₃ : (if 3 ≤ (s₂.gate g).children.length then s₂.shareSubset ty g else s₂) = s₃ at h
      have ht₃ : Tidy s₃ := by
        rw [← hs₃]; split_ifs; exacts [shareSubset_tidy hty ht₂ hty₂, ht₂]
      have hty₃ : (s₃.gate g).type = ty := by
        rw [← hs₃]; split_ifs; exacts [by rw [shareSubset_childrenAt.type_eq]; exact hty₂, hty₂]
      have hc := collapseScan_tidy hty _ [] _ false ht₃ hty₃ rfl
      split at h <;> cases h <;> rename_i heq <;> rw [heq] at hc
      exacts [hc.addInPstack g, hc]

end OrAnd

end BC

end BcSat
