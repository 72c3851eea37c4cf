import BcSat.NormalizeCall
import BcSat.NormalizeAcyclic

set_option autoImplicit false

/-!
# The shape `Gate::cnf_normalize` keeps

The cases of `Gate::cnf_normalize` read the children of the gate they are called on as the
`DEBUG_ASSERT`s of gate.cc describe them: live, one for a `REF` or a `NOT`, at least one for an
`ODD` or an `EVEN`. Every case leaves every gate of the store in that shape: a gate rewritten in
place takes a type its children fit, the gates it installs read children of the old gate or
gates installed with it, and a gate it deletes has its parents moved to a live gate first. So
the loop of `BC::cnf_normalize` can call the cases over and over.
-/

namespace BcSat

namespace Circuit

variable {c c' : Circuit}

/-- Gate `gt`, its children read in `c`, has the shape the cases of `Gate::cnf_normalize` rely
on: its children are live, a `REF` or a `NOT` has one, and an `ODD` or an `EVEN` at least one
(`DEBUG_ASSERT(nof_children >= 1)`). -/
def GateShaped (c : Circuit) (gt : Gate) : Prop :=
  gt.type.Live → (∀ ch ∈ gt.children, (c.gate ch).type.Live) ∧
    (gt.type = .ref ∨ gt.type = .not → gt.children.length = 1) ∧
    (gt.type = .odd ∨ gt.type = .even → 0 < gt.children.length)

/-- Every gate of `c` has the shape. -/
def Shaped (c : Circuit) : Prop := ∀ x < c.size, c.GateShaped (c.gate x)

instance (gt : Gate) : Decidable (c.GateShaped gt) := inferInstanceAs (Decidable (_ → _ ∧ _ ∧ _))

instance : Decidable c.Shaped := inferInstanceAs (Decidable (∀ x < c.size, _))

theorem Shaped.wellFormed (h : c.Shaped) : c.WellFormed := fun x hx hl =>
  let ⟨h₁, h₂, h₃⟩ := h x hx hl
  ⟨h₁, h₂, fun ho => h₃ (.inl ho)⟩

theorem lt_size_of_live {x : Nat} (h : (c.gate x).type.Live) : x < c.size := by
  by_contra hx
  rw [c.gate_of_size_le (not_lt.1 hx)] at h
  exact h.1 rfl

theorem Shaped.of_frame (h : c.Shaped) (hlive : ∀ x, (c.gate x).type.Live → (c'.gate x).type.Live)
    (hgates : ∀ x < c'.size, ((c'.gate x).type = (c.gate x).type ∧
      (c'.gate x).children = (c.gate x).children) ∨ c'.GateShaped (c'.gate x)) : c'.Shaped := by
  intro x hx
  rcases hgates x hx with ⟨hty, hch⟩ | h'
  · intro hl
    rw [hty] at hl
    obtain ⟨h₁, h₂, h₃⟩ := h x (lt_size_of_live hl) hl
    rw [hty, hch]
    exact ⟨fun ch hc => hlive ch (h₁ ch hc), h₂, h₃⟩
  · exact h'

theorem Shaped.of_fields (h : c.Shaped) (hty : ∀ x, (c'.gate x).type = (c.gate x).type)
    (hch : ∀ x, (c'.gate x).children = (c.gate x).children) : c'.Shaped :=
  h.of_frame (fun x hx => (hty x).symm ▸ hx) fun x _ => .inl ⟨hty x, hch x⟩

end Circuit

namespace BC

open Circuit

variable {s s' : BC} {g : Nat} {res : Bool × BC}

@[simp] theorem type_determine (v : Bool) (x : Nat) :
    ((s.determine g v).gate x).type = (s.gate x).type := by
  simp only [determine, gate_modify]; split_ifs <;> rfl

theorem live_modify {f : Gate → Gate} (hf : (s.gate g).type.Live → (f (s.gate g)).type.Live)
    {x : Nat} (hx : (s.gate x).type.Live) : ((s.modify g f).gate x).type.Live := by
  rw [gate_modify]
  split_ifs with h
  · obtain ⟨rfl, -⟩ := h; exact hf hx
  · exact hx

theorem shaped_modify (hs : s.circuit.Shaped) (f : Gate → Gate)
    (hf : (s.gate g).type.Live → (f (s.gate g)).type.Live)
    (hshape : g < s.size → (s.modify g f).circuit.GateShaped (f (s.gate g))) :
    (s.modify g f).circuit.Shaped := by
  refine hs.of_frame (fun x hx => live_modify hf hx) fun x _ => ?_
  simp only [circuit_gate, gate_modify]
  split_ifs with h
  · obtain ⟨rfl, hg⟩ := h; exact .inr (hshape hg)
  · exact .inl ⟨rfl, rfl⟩

theorem shaped_modify_fields (hs : s.circuit.Shaped) {f : Gate → Gate}
    (hf : ∀ gt, (f gt).type = gt.type ∧ (f gt).children = gt.children) :
    (s.modify g f).circuit.Shaped :=
  hs.of_fields (fun x => by simp only [circuit_gate, gate_modify]; split_ifs; exacts [(hf _).1, rfl])
    fun x => by simp only [circuit_gate, gate_modify]; split_ifs; exacts [(hf _).2, rfl]

theorem shaped_determine (hs : s.circuit.Shaped) (v : Bool) : (s.determine g v).circuit.Shaped :=
  shaped_modify_fields hs fun _ => ⟨rfl, rfl⟩

theorem shaped_setTmin (hs : s.circuit.Shaped) (k : Nat) : (s.setTmin g k).circuit.Shaped :=
  shaped_modify_fields hs fun _ => ⟨rfl, rfl⟩

theorem shaped_setTmax (hs : s.circuit.Shaped) (k : Nat) : (s.setTmax g k).circuit.Shaped :=
  shaped_modify_fields hs fun _ => ⟨rfl, rfl⟩

theorem shaped_append (hs : s.circuit.Shaped) {gt : Gate}
    (hgt : (s.append gt).circuit.GateShaped gt) : (s.append gt).circuit.Shaped := by
  refine hs.of_frame (fun x hx => ?_) fun x _ => ?_
  · rwa [circuit_gate, gate_append_of_lt _ (lt_size_of_live hx)]
  · simp only [circuit_gate, gate_append]
    split_ifs
    · exact .inr hgt
    · exact .inl ⟨rfl, rfl⟩

theorem shaped_replaceBy (hs : s.circuit.Shaped) {x : Nat} (hg : g < s.size) (hx : x < s.size)
    (hne : x ≠ g) (hxl : (s.gate x).type.Live) : (s.replaceBy g x).circuit.Shaped := by
  intro y hy hl
  simp only [circuit_size, size_replaceBy, circuit_gate] at hy hl ⊢
  rw [gate_replaceBy hg hx hne] at hl ⊢
  by_cases hyg : y = g
  · rw [if_pos hyg] at hl; exact absurd rfl hl.1
  rw [if_neg hyg] at hl ⊢
  obtain ⟨h₁, h₂, h₃⟩ := hs y hy hl
  refine ⟨fun ch hch => ?_, by simpa using h₂, by simpa using h₃⟩
  obtain ⟨c, hc, rfl⟩ := List.mem_map.1 hch
  rw [gate_replaceBy hg hx hne]
  by_cases hcg : c = g
  · simpa [hcg, hne] using hxl
  · simpa [hcg] using h₁ c hc

theorem shaped_transformIntoConstant (hs : s.circuit.Shaped) (hg : g < s.size) {v : Bool}
    (h : s.transformIntoConstant g v = some s') : s'.circuit.Shaped := by
  obtain ⟨-, hgate⟩ := transformIntoConstant_gate hg h
  have hl : (if v then GateType.true else .false).Live := by cases v <;> decide
  refine hs.of_frame (fun x hx => ?_) fun x _ => ?_ <;> rw [circuit_gate, hgate] <;>
    by_cases hxg : x = g
  · rw [if_pos hxg]; exact hl
  · rw [if_neg hxg]; exact hx
  · rw [if_pos hxg]; exact .inr fun _ => ⟨by simp, by cases v <;> simp, by cases v <;> simp⟩
  · rw [if_neg hxg]; exact .inl ⟨rfl, rfl⟩

theorem normalizeConstant_shaped (hs : s.circuit.Shaped) {v : Bool}
    (h : s.normalizeConstant g v = some res) : res.2.circuit.Shaped := by
  unfold normalizeConstant at h
  split_ifs at h <;> cases h
  · exact hs
  · exact shaped_determine hs v

theorem normalizeToConstant_shaped (hs : s.circuit.Shaped) (hg : g < s.size) {v : Bool}
    (h : s.normalizeToConstant g v = some res) : res.2.circuit.Shaped := by
  unfold normalizeToConstant at h
  split_ifs at h
  · cases h; exact hs
  · obtain ⟨s', h', rfl⟩ := Option.map_eq_some'.1 h
    exact shaped_transformIntoConstant hs hg h'

section Unary

variable (r : Ranking s.circuit) (hs : s.circuit.Shaped) (hg : g < s.size)
include r hs hg

theorem normalizeRef_shaped (ht : (s.gate g).type = .ref) (h : s.normalizeRef g = some res) :
    res.2.circuit.Shaped := by
  obtain ⟨ch, hch, rfl⟩ := Option.map_eq_some'.1 h
  have hmem : ch ∈ (s.gate g).children := List.mem_of_mem_head? hch
  have hchl : (s.gate ch).type.Live := (hs g hg (by rw [circuit_gate, ht]; decide)).1 ch hmem
  have hchs : ch < s.size := lt_size_of_live (c := s.circuit) hchl
  have hne := child_ne r hg hmem
  dsimp only
  split_ifs
  · exact hs
  · exact shaped_replaceBy (by simpa using shaped_determine hs _) (by simpa using hg)
      (by simpa using hchs) hne (by simpa using hchl)
  · exact shaped_replaceBy hs hg hchs hne hchl

theorem normalizeNot_shaped (ht : (s.gate g).type = .not) (h : s.normalizeNot g = some res) :
    res.2.circuit.Shaped := by
  obtain ⟨ch, hch, h⟩ := Option.bind_eq_some.1 h
  have hmem : ch ∈ (s.gate g).children := List.mem_of_mem_head? hch
  have hchl : (s.gate ch).type.Live := (hs g hg (by rw [circuit_gate, ht]; decide)).1 ch hmem
  have hchs : ch < s.size := lt_size_of_live (c := s.circuit) hchl
  dsimp only at h
  split_ifs at h with hd hsame hnot
  · cases h; exact hs
  · obtain ⟨s', h', rfl⟩ := Option.map_eq_some'.1 h
    exact shaped_transformIntoConstant (by simpa using shaped_determine hs _) (by simpa using hg) h'
  · -- `NOT(NOT(y))`: `y` is a child of a live `NOT`, below `g`
    obtain ⟨gc, hgc, rfl⟩ := Option.map_eq_some'.1 h
    have hgcm : gc ∈ (s.gate ch).children := List.mem_of_mem_head? hgc
    have hgcl := (hs ch hchs (by rw [circuit_gate, hnot]; decide)).1 gc hgcm
    have hne : gc ≠ g := by
      rintro rfl
      have h₁ := (r.child_lt _ hg ch hmem).2
      have h₂ := (r.child_lt ch hchs _ hgcm).2
      omega
    exact shaped_replaceBy hs hg (lt_size_of_live hgcl) hne hgcl
  · cases h; exact hs

end Unary

theorem shaped_setType (hs : s.circuit.Shaped) (hg : g < s.size) (hl : (s.gate g).type.Live)
    {ty : GateType} (hty : ty.Live) (h₁ : ty = .ref ∨ ty = .not → (s.gate g).children.length = 1)
    (h₂ : ty = .odd ∨ ty = .even → 0 < (s.gate g).children.length) :
    (s.setType g ty).circuit.Shaped :=
  shaped_modify hs _ (fun _ => hty) fun _ _ =>
    ⟨fun c hc => live_modify (fun _ => hty) ((hs g hg hl).1 c hc), h₁, h₂⟩

theorem normalizeOrAnd_shaped (hs : s.circuit.Shaped) (hg : g < s.size)
    (ht : (s.gate g).type = .or ∨ (s.gate g).type = .and) (h : s.normalizeOrAnd g = some res) :
    res.2.circuit.Shaped := by
  have hl : (s.gate g).type.Live := by rcases ht with ht | ht <;> rw [ht] <;> decide
  unfold normalizeOrAnd at h
  cases h
  dsimp only
  split_ifs with h1
  · rw [circuit_addInPstack]
    exact shaped_setType hs hg hl (by decide) (fun _ => h1) (by simp)
  · exact hs

theorem shaped_install (hs : s.circuit.Shaped)
    (hframe : ∀ x < s.size, x ≠ g → s'.gate x = s.gate x) (hgl : (s'.gate g).type.Live)
    (hnew : (∀ y, (s.gate y).type.Live → (s'.gate y).type.Live) →
      ∀ x < s'.size, x = g ∨ s.size ≤ x → s'.circuit.GateShaped (s'.gate x)) :
    s'.circuit.Shaped := by
  have hlive : ∀ y, (s.gate y).type.Live → (s'.gate y).type.Live := fun y hy => by
    have := lt_size_of_live (c := s.circuit) hy
    by_cases hyg : y = g
    · exact hyg ▸ hgl
    · rwa [hframe y this hyg]
  refine hs.of_frame hlive fun x hx => ?_
  by_cases hnx : x = g ∨ s.size ≤ x
  · exact .inr (hnew hlive x hx hnx)
  · push_neg at hnx
    rw [circuit_gate, hframe x hnx.2 hnx.1]
    exact .inl ⟨rfl, rfl⟩

section Install

variable (hs : s.circuit.Shaped) (hg : g < s.size)
include hs hg

theorem normalizeEquiv_shaped (ht : (s.gate g).type = .equiv) (h : s.normalizeEquiv g = some res) :
    res.2.circuit.Shaped := by
  obtain ⟨-, h⟩ | rfl | ⟨s', rfl, hsize, hgate⟩ := normalizeEquiv_spec hg h
  · exact normalizeToConstant_shaped hs hg h
  · exact hs
  dsimp only
  have hchl := (hs g hg (by rw [circuit_gate, ht]; decide)).1
  have hnl : ∀ x, s.size ≤ x → x < s'.size → (s'.gate x).type.Live := fun x h₁ h₂ => by
    rw [hgate, if_neg (by omega)]
    split_ifs <;> first | omega | simp [GateType.Live]
  refine shaped_install hs (fun x hx hxg => by
      rw [hgate, if_neg hxg, if_neg (by omega), if_neg (by omega), if_neg (by omega)])
    (by rw [hgate, if_pos rfl]; simp [GateType.Live]) fun hold x hx hx' => ?_
  rw [hgate]
  by_cases hxg : x = g
  · rw [if_pos hxg]
    refine fun _ => ⟨fun ch hch => ?_, by simp, by simp⟩
    rcases List.mem_pair.1 hch with rfl | rfl <;> exact hnl _ (by omega) (by omega)
  have hx' := hx'.resolve_left hxg
  rw [if_neg hxg]
  split_ifs with h₁ h₂ h₃
  · exact fun _ => ⟨fun ch hch => hold ch (hchl ch (List.mem_reverse.1 hch)), by simp, by simp⟩
  · refine fun _ => ⟨fun ch hch => ?_, by simp, by simp⟩
    obtain ⟨k, hk, rfl⟩ := List.mem_map.1 (List.mem_reverse.1 hch)
    exact hnl _ (by omega) (by have := List.mem_range.1 hk; omega)
  · refine fun _ => ⟨fun ch hch => ?_, by simp, by simp⟩
    obtain rfl := List.mem_singleton.1 hch
    refine hold _ (hchl _ ?_)
    rw [List.getD_eq_getElem _ _ (by omega)]; exact List.getElem_mem _
  · omega

theorem normalizeEven_shaped (ht : (s.gate g).type = .even) (h : s.normalizeEven g = some res) :
    res.2.circuit.Shaped := by
  obtain ⟨hchl, -, hpos⟩ := hs g hg (by rw [circuit_gate, ht]; decide)
  have hpos : 0 < (s.gate g).children.length := hpos (.inr ht)
  obtain ⟨s', rfl, ⟨h1, hsize, hgate⟩ | rfl | ⟨-, hsize, hgate⟩⟩ := normalizeEven_spec hg h <;>
    dsimp only
  · refine shaped_install hs (fun x _ hxg => by rw [hgate, if_neg hxg])
      (by rw [hgate, if_pos rfl]; simp [GateType.Live]) fun hold x hx hx' => ?_
    obtain rfl : x = g := hx'.resolve_right (by omega)
    rw [hgate, if_pos rfl]
    exact fun _ => ⟨fun ch hch => hold ch (hchl ch hch), fun _ => h1, by simp⟩
  · exact hs
  · refine shaped_install hs (fun x hx hxg => by rw [hgate, if_neg hxg, if_neg (by omega)])
      (by rw [hgate, if_pos rfl]; simp [GateType.Live]) fun hold x hx hx' => ?_
    rw [hgate]
    by_cases hxg : x = g
    · rw [if_pos hxg]
      refine fun _ => ⟨fun ch hch => ?_, by simp, by simp⟩
      obtain rfl := List.mem_singleton.1 hch
      rw [circuit_gate, hgate, if_neg (by omega), if_pos rfl]; simp [GateType.Live]
    · rw [if_neg hxg, if_pos (by omega)]
      exact fun _ => ⟨fun ch hch => hold ch (hchl ch (List.mem_reverse.1 hch)), by simp,
        fun _ => by simpa using hpos⟩

theorem normalizeOdd_shaped (ht : (s.gate g).type = .odd) (h : s.normalizeOdd g = some res) :
    res.2.circuit.Shaped := by
  have hchl := (hs g hg (by rw [circuit_gate, ht]; decide)).1
  obtain ⟨s', rfl, ⟨h1, hsize, hgate⟩ | rfl | ⟨c₁, rest, hcs, hrest, hsize, hgate⟩⟩ :=
    normalizeOdd_spec hg h <;> dsimp only
  · refine shaped_install hs (fun x _ hxg => by rw [hgate, if_neg hxg])
      (by rw [hgate, if_pos rfl]; simp [GateType.Live]) fun hold x hx hx' => ?_
    obtain rfl : x = g := hx'.resolve_right (by omega)
    rw [hgate, if_pos rfl]
    exact fun _ => ⟨fun ch hch => hold ch (hchl ch hch), fun _ => h1, by simp⟩
  · exact hs
  · refine shaped_install hs (fun x hx hxg => by rw [hgate, if_neg hxg, if_neg (by omega)])
      (by rw [hgate, if_pos rfl]; simp [ht, GateType.Live]) fun hold x hx hx' => ?_
    rw [hgate]
    by_cases hxg : x = g
    · rw [if_pos hxg]
      refine fun _ => ⟨fun ch hch => ?_, by simp [ht], by simp⟩
      rcases List.mem_pair.1 hch with rfl | rfl
      · exact hold _ (hchl _ (by simp [hcs]))
      · rw [circuit_gate, hgate, if_neg (by omega), if_pos rfl]; simp [GateType.Live]
    · rw [if_neg hxg, if_pos (by omega)]
      exact fun _ => ⟨fun ch hch => hold ch (hchl ch (by simp [hcs, List.mem_reverse.1 hch])),
        by simp, fun _ => by simpa [List.length_pos] using hrest⟩

end Install

theorem toConstantReset_shaped {t : BC} (hs : t.circuit.Shaped) (hg : g < t.size) {v : Bool}
    {f : BC → BC} (hf : ∀ u : BC, u.circuit.Shaped → (f u).circuit.Shaped)
    (h : ((t.normalizeToConstant g v).map fun x => (x.1, if x.1 = true then f x.2 else x.2)) =
      some res) : res.2.circuit.Shaped := by
  obtain ⟨⟨ok, t'⟩, h', rfl⟩ := Option.map_eq_some'.1 h
  have i := normalizeToConstant_shaped hs hg h'
  dsimp only
  split_ifs
  · exact hf _ i
  · exact i

section Threshold

variable {t : BC} (hs : t.circuit.Shaped) (hg : g < t.size) (ht : (t.gate g).type = .threshold)
include hs hg ht

theorem thresholdNot_shaped (k : Nat) :
    ((((((t.append { type := .atleast, children := [], tmin := k }).addInPstack t.size).moveChildren
      false g t.size).addChild g t.size).setType g .not).addInPstack g).circuit.Shaped := by
  have hchl := (hs g hg (by rw [circuit_gate, ht]; decide)).1
  have hgate := gate_thresholdNot hg k
  refine shaped_install hs (fun x hx hxg => by rw [hgate, if_neg hxg, if_neg (by omega)])
    (by rw [hgate, if_pos rfl]; simp [GateType.Live]) fun hold x hx hx' => ?_
  rw [hgate]
  by_cases hxg : x = g
  · rw [if_pos hxg]
    refine fun _ => ⟨fun ch hch => ?_, by simp, by simp⟩
    obtain rfl := List.mem_singleton.1 hch
    rw [circuit_gate, hgate, if_neg (by omega), if_pos rfl]; simp [GateType.Live]
  · rw [if_neg hxg, if_pos (by simp at hx; omega)]
    exact fun _ => ⟨fun ch hch => hold ch (hchl ch (List.mem_reverse.1 hch)), by simp, by simp⟩

theorem thresholdPair_shaped {t' : BC} {l : List Nat} (hl : ∀ ch ∈ l, ch ∈ (t.gate g).children)
    (hsize : t'.size = t.size + 3) (lo hi : Nat)
    (hgate : ∀ x, t'.gate x =
      if x = g then { t.gate g with type := .and, children := [t.size + 2, t.size] }
      else if x = t.size then { type := .atleast, children := l, tmin := lo }
      else if x = t.size + 1 then { type := .atleast, children := l, tmin := hi }
      else if x = t.size + 2 then { type := .not, children := [t.size + 1] }
      else t.gate x) : t'.circuit.Shaped := by
  have hchl := (hs g hg (by rw [circuit_gate, ht]; decide)).1
  have hnl : ∀ x, t.size ≤ x → x < t'.size → (t'.gate x).type.Live := fun x h₁ h₂ => by
    rw [hgate, if_neg (by omega)]
    split_ifs <;> first | omega | simp [GateType.Live]
  refine shaped_install hs (fun x hx hxg => by
      rw [hgate, if_neg hxg, if_neg (by omega), if_neg (by omega), if_neg (by omega)])
    (by rw [hgate, if_pos rfl]; simp [GateType.Live]) fun hold x hx hx' => ?_
  rw [hgate]
  by_cases hxg : x = g
  · rw [if_pos hxg]
    refine fun _ => ⟨fun ch hch => ?_, by simp, by simp⟩
    rcases List.mem_pair.1 hch with rfl | rfl <;> exact hnl _ (by omega) (by omega)
  have hx' := hx'.resolve_left hxg
  rw [if_neg hxg]
  split_ifs with h₁ h₂ h₃
  · exact fun _ => ⟨fun ch hch => hold ch (hchl ch (hl ch hch)), by simp, by simp⟩
  · exact fun _ => ⟨fun ch hch => hold ch (hchl ch (hl ch hch)), by simp, by simp⟩
  · refine fun _ => ⟨fun ch hch => ?_, by simp, by simp⟩
    obtain rfl := List.mem_singleton.1 hch
    exact hnl _ (by omega) (by omega)
  · omega

theorem thresholdSplit_shaped (l k : Nat) :
    ((((((((((t.append { type := .atleast, children := (t.gate g).children.reverse, tmin := l }).addInPstack
      t.size).append { type := .atleast, children := [], tmin := k }).addInPstack
      (t.size + 1)).moveChildren false g (t.size + 1)).append
      { type := .not, children := [t.size + 1] }).addInPstack (t.size + 1 + 1)).addChild g
      t.size).addChild g (t.size + 1 + 1)).setType g .and).circuit.Shaped :=
  thresholdPair_shaped hs hg ht (fun _ h => List.mem_reverse.1 h) (by simp [setType, addChild]) l k
    (gate_thresholdSplit hg l k)

theorem thresholdCounter_shaped (l k : Nat) :
    (((((((((t.append { type := .atleast, children := (t.gate g).children, tmin := l }).addInPstack
      t.size).append { type := .atleast, children := (t.gate g).children, tmin := k }).addInPstack
      (t.size + 1)).append { type := .not, children := [t.size + 1] }).addInPstack
      (t.size + 1 + 1)).removeAllChildren g).setType g .and).setChildren g
      [t.size + 1 + 1, t.size]).circuit.Shaped :=
  thresholdPair_shaped hs hg ht (fun _ h => h) (by simp [setType, setChildren, removeAllChildren])
    l k (gate_thresholdCounter hg l k)

end Threshold

theorem normalizeThreshold_shaped (hs : s.circuit.Shaped) (hg : g < s.size)
    (ht : (s.gate g).type = .threshold) (h : s.normalizeThreshold g = some res) :
    res.2.circuit.Shaped := by
  have hl : (s.gate g).type.Live := by rw [ht]; decide
  unfold normalizeThreshold at h
  simp only [addCounterComparisons, installGate_eq, newNOT_eq, size_addInPstack, size_append,
    size_moveChildren, size_setTmax] at h
  generalize htd : s.setTmax g ((s.gate g).tmax ⊓ (s.gate g).children.length) = t at h
  have hts : t.circuit.Shaped := htd ▸ shaped_setTmax hs _
  have hsize : t.size = s.size := by rw [← htd]; simp
  have htg : g < t.size := hsize ▸ hg
  have hgt : t.gate g = { s.gate g with tmax := (s.gate g).tmax ⊓ (s.gate g).children.length } := by
    rw [← htd]; simp [setTmax, hg]
  have htt : (t.gate g).type = .threshold := by rw [hgt, ht]
  have htl : (t.gate g).type.Live := by rw [htt]; decide
  have hch : (s.gate g).children = (t.gate g).children := by rw [hgt]
  have hreset : ∀ u : BC, u.circuit.Shaped → ((u.setTmin g 0).setTmax g 0).circuit.Shaped :=
    fun _ hu => shaped_setTmax (shaped_setTmin hu 0) 0
  have hretype : ∀ ty : GateType, ty.Live → (ty = .ref ∨ ty = .not → (t.gate g).children.length = 1) →
      (ty = .odd ∨ ty = .even → 0 < (t.gate g).children.length) →
      ((((t.setType g ty).setTmin g 0).setTmax g 0).addInPstack g).circuit.Shaped :=
    fun _ hty h₁ h₂ => by
      rw [circuit_addInPstack]
      exact hreset _ (shaped_setType hts htg htl hty h₁ h₂)
  rw [hch, ← hsize] at h
  obtain ⟨-, h⟩ | ⟨-, h⟩ := ite_eq_iff.1 h
  · exact toConstantReset_shaped hs hg hreset h
  obtain ⟨-, h⟩ | ⟨-, h⟩ := ite_eq_iff.1 h
  · exact toConstantReset_shaped hts htg hreset h
  obtain ⟨h1, h⟩ | ⟨-, h⟩ := ite_eq_iff.1 h
  · -- a single child
    obtain ⟨-, h⟩ | ⟨-, h⟩ := ite_eq_iff.1 h
    · exact toConstantReset_shaped hts htg hreset h
    obtain ⟨-, h⟩ | ⟨-, h⟩ := ite_eq_iff.1 h
    · cases h; exact hretype _ (by decide) (fun _ => hch ▸ h1) (by simp)
    obtain ⟨-, h⟩ | ⟨-, h⟩ := ite_eq_iff.1 h
    · cases h; exact hretype _ (by decide) (fun _ => hch ▸ h1) (by simp)
    · cases h
  obtain ⟨-, h⟩ | ⟨-, h⟩ := ite_eq_iff.1 h
  · exact toConstantReset_shaped hts htg hreset h
  obtain ⟨-, h⟩ | ⟨-, h⟩ := ite_eq_iff.1 h
  · cases h; exact hretype _ (by decide) (by simp) (by simp)
  obtain ⟨-, h⟩ | ⟨-, h⟩ := ite_eq_iff.1 h
  · cases h; exact thresholdCounter_shaped hts htg htt _ _
  obtain ⟨-, h⟩ | ⟨-, h⟩ := ite_eq_iff.1 h
  · cases h; exact thresholdNot_shaped hts htg htt _
  obtain ⟨-, h⟩ | ⟨-, h⟩ := ite_eq_iff.1 h
  · cases h
    rw [circuit_addInPstack]
    exact shaped_setType hts htg htl (by decide) (by simp) (by simp)
  · cases h; exact thresholdSplit_shaped hts htg htt _ _

theorem atleastCellGate_type {chs : List Nat} {slot : Nat × Nat → Option Nat} {idx : Nat}
    {c : (Nat × Nat) × Bool} {gt : Gate} (h : atleastCellGate chs slot idx c = some gt) :
    (gt.type = .ref ∧ gt.children.length = 1) ∨ gt.type = .and ∨ gt.type = .or := by
  obtain ⟨⟨i, j⟩, b⟩ := c
  cases b
  · obtain ⟨⟨ty, kids⟩, hentry, rfl⟩ := Option.map_eq_some'.1 h
    simp only [atleastEntry] at hentry
    split_ifs at hentry
    · cases hentry; simp
    all_goals obtain ⟨q, -, hq⟩ := Option.map_eq_some'.1 hentry; cases hq; simp
  · obtain ⟨q, -, rfl⟩ := Option.map_eq_some'.1 h; simp

theorem atleastRewrite_shaped (hs : s.circuit.Shaped) (hg : g < s.size)
    (ht : (s.gate g).type = .atleast) (h2 : 2 ≤ (s.gate g).tmin)
    (hlt : (s.gate g).tmin < (s.gate g).children.length) (h : s.atleastRewrite g = some res) :
    res.2.circuit.Shaped := by
  have hchl := (hs g hg (by rw [circuit_gate, ht]; decide)).1
  obtain ⟨chs, hchs⟩ : ∃ chs, (s.gate g).children = chs := ⟨_, rfl⟩
  obtain ⟨L, hL⟩ : ∃ L, (s.gate g).tmin = L := ⟨_, rfl⟩
  rw [hchs, hL] at hlt
  rw [hL] at h2
  rw [circuit_gate, hchs] at hchl
  obtain ⟨rest, s', hrun, -, hvalid, hclosed, hsize, hframe, ⟨pL, hpL, hG⟩, hcells⟩ :=
    atleastRewrite_layout hg hchs hL h2 hlt
  obtain rfl := Option.some.inj (h.symm.trans hrun)
  dsimp only
  have hcell : ∀ m, s.size + m < s'.size →
      ((s'.gate (s.size + m)).type = .ref ∧ (s'.gate (s.size + m)).children.length = 1) ∨
        (s'.gate (s.size + m)).type = .and ∨ (s'.gate (s.size + m)).type = .or := fun m hm =>
    atleastCellGate_type (hcells m _ (List.getElem?_eq_getElem (by omega)))
  have hnl : ∀ y, s.size ≤ y → y < s'.size → (s'.gate y).type.Live := fun y h₁ h₂ => by
    obtain ⟨m, rfl⟩ : ∃ m, y = s.size + m := ⟨y - s.size, by omega⟩
    rcases hcell m h₂ with ⟨h, -⟩ | h | h <;> rw [h] <;> decide
  have hgen : atleastGeneral L chs.length := by simp [atleastGeneral]; omega
  refine shaped_install hs hframe (by rw [hG]; simp [GateType.Live]) fun hold x hx hx' => ?_
  by_cases hxg : x = g
  · -- `g = OR(array[L][n-1], a)`
    subst hxg
    rw [hG]
    refine fun _ => ⟨fun ch hch => ?_, by simp, by simp⟩
    rcases List.mem_pair.1 hch with rfl | rfl
    · obtain ⟨h₁, h₂, -⟩ := atleastSlot_pushed hvalid hclosed (List.mem_cons_self _ _)
        (by rw [atleastNext, if_neg (by omega), if_neg (by omega)]; simp) hpL
      exact hnl _ h₁ (by omega)
    · have hc0 : (atleastCells (L, chs.length) ((L, chs.length) :: rest))[0]? =
          some ((L, chs.length), Bool.true) := by
        rw [atleastCells_cons, if_pos rfl, if_pos hgen]; simp
      exact hnl _ le_rfl (by have := (List.getElem?_eq_some_iff.1 hc0).1; omega)
  · -- a cell
    obtain ⟨m, rfl⟩ : ∃ m, x = s.size + m := ⟨x - s.size, by omega⟩
    have hc := List.getElem?_eq_getElem (l := atleastCells (L, chs.length) ((L, chs.length) :: rest))
      (n := m) (by omega)
    refine fun _ => ⟨fun ch hch => ?_, fun hr => ?_, fun ho => ?_⟩
    · rcases atleastCell_children hvalid hclosed hcells hc hch with hy | ⟨h₁, h₂, -⟩
      · exact hold ch (hchl ch hy)
      · exact hnl ch h₁ (by omega)
    · rcases hcell m hx with ⟨-, h⟩ | h | h
      · exact h
      all_goals rcases hr with hr | hr <;> rw [hr] at h <;> cases h
    · rcases hcell m hx with ⟨h, -⟩ | h | h <;> rcases ho with ho | ho <;> rw [ho] at h <;> cases h

theorem normalizeAtleast_shaped (hs : s.circuit.Shaped) (hg : g < s.size)
    (ht : (s.gate g).type = .atleast) (h : s.normalizeAtleast g = some res) :
    res.2.circuit.Shaped := by
  have hl : (s.gate g).type.Live := by rw [ht]; decide
  have hreset : ∀ u : BC, u.circuit.Shaped → (u.setTmin g 0).circuit.Shaped :=
    fun _ hu => shaped_setTmin hu 0
  have hretype : ∀ ty : GateType, ty.Live → ty ≠ .ref → ty ≠ .not → ty ≠ .odd → ty ≠ .even →
      (((s.setType g ty).setTmin g 0).addInPstack g).circuit.Shaped := fun _ hty h₁ h₂ h₃ h₄ => by
    rw [circuit_addInPstack]
    exact hreset _ (shaped_setType hs hg hl hty (by rintro (h | h) <;> contradiction)
      (by rintro (h | h) <;> contradiction))
  dsimp only [normalizeAtleast] at h
  split_ifs at h with h0 h1 h2 h3
  · exact toConstantReset_shaped hs hg hreset h
  · exact toConstantReset_shaped hs hg hreset h
  · cases h; exact hretype _ (by decide) (by decide) (by decide) (by decide) (by decide)
  · cases h; exact hretype _ (by decide) (by decide) (by decide) (by decide) (by decide)
  · exact atleastRewrite_shaped hs hg ht (by omega) (by omega) h

/-- Every case of `Gate::cnf_normalize` keeps the store shaped. -/
theorem cnfNormalize_shaped (ha : s.circuit.Acyclic) (hs : s.circuit.Shaped)
    (h : s.cnfNormalize g = some res) : res.2.circuit.Shaped := by
  obtain ⟨r⟩ := ha
  cases ht : (s.gate g).type <;> simp only [cnfNormalize, ht] at h
  case deleted | var | ite => cases h; exact hs
  case undef => cases h
  all_goals have hg : g < s.size := lt_size_of_type_ne_deleted (by rw [ht]; decide)
  case false | true => exact normalizeConstant_shaped hs h
  case ref => exact normalizeRef_shaped r hs hg ht h
  case not => exact normalizeNot_shaped r hs hg ht h
  case or => exact normalizeOrAnd_shaped hs hg (.inl ht) h
  case and => exact normalizeOrAnd_shaped hs hg (.inr ht) h
  case equiv => exact normalizeEquiv_shaped hs hg ht h
  case even => exact normalizeEven_shaped hs hg ht h
  case odd => exact normalizeOdd_shaped hs hg ht h
  case threshold => exact normalizeThreshold_shaped hs hg ht h
  case atleast => exact normalizeAtleast_shaped hs hg ht h

end BC

end BcSat
