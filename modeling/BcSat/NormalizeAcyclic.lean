import BcSat.AcyclicEdits
import BcSat.NormalizeSound
import BcSat.NormalizeCounting
import BcSat.NormalizeAtleast

set_option autoImplicit false

/-!
# `Gate::cnf_normalize` keeps the store acyclic

The cases that remove a `REF` or a double negation move the parents of `g` to a gate that `g`
reaches, and the constant cases only delete edges: every edge of the result is a path of the
store. The cases that install gates hang them below `g`: each new gate stands for `g` and reads
children of `g` or gates installed one level further down. The `ATLEAST` array is ranked by its
columns: `array[i][j]` reads entries of column `j - 1` and the `AND` of its own column, which
reads column `j - 1` again.
-/

namespace BcSat

namespace BC

open Relation Circuit

variable {s s' : BC} {g : Nat}

section Descends

variable {lvl : Nat → Nat}

theorem descends_old (hcl : s.circuit.Closed) {x y : Nat} (hx : x < s.size)
    (hy : y ∈ (s.gate x).children) : Descends (standFor s.size g) lvl s x y :=
  .inl (by rw [standFor_of_lt hx, standFor_of_lt (show y < s.size from hcl x hx y hy)]; exact .single hy)

theorem descends_child (hcl : s.circuit.Closed) (hg : g < s.size) {x y : Nat} (hx : s.size ≤ x)
    (hy : y ∈ (s.gate g).children) : Descends (standFor s.size g) lvl s x y :=
  .inl (by rw [standFor_of_le hx, standFor_of_lt (show y < s.size from hcl g hg y hy)]; exact .single hy)

theorem descends_level {x y : Nat} (hx : x = g ∨ s.size ≤ x) (hy : s.size ≤ y)
    (hl : lvl y < lvl x) : Descends (standFor s.size g) lvl s x y := by
  refine .inr ⟨?_, hl⟩
  rw [standFor_of_le hy]
  rcases hx with rfl | hx
  · unfold standFor; split_ifs <;> rfl
  · exact standFor_of_le hx

end Descends

theorem Embeds.of_gates (f lvl : Nat → Nat)
    (h : ∀ x < s'.size, ∀ y ∈ (s'.gate x).children, y < s'.size ∧ Descends f lvl s x y) :
    Embeds f lvl s s' :=
  ⟨fun x hx y hy => (h x hx y hy).1, fun x y e => (h x (s'.circuit.lt_size_of_edge e) y e).2⟩

theorem Embeds.moveChildren {f lvl : Nat → Nat} (h : Embeds f lvl s s') (relink : Bool) {a : Nat}
    (hd : ∀ y ∈ (s'.gate g).children, Descends f lvl s a y) :
    Embeds f lvl s (s'.moveChildren relink g a) := by
  refine (((h.setChildren (g := a) fun y hy => ?_).setChildren (g := g) (l := [])
    fun _ hy => absurd hy (List.not_mem_nil _)).setLinks a _ |>.setLinks g [] |>.tick _)
  rcases List.mem_append.1 hy with hy | hy
  · rw [List.mem_reverse] at hy
    exact .inr ⟨h.closed g (s'.circuit.lt_size_of_edge hy) y hy, hd y hy⟩
  · exact .inl hy

theorem replaceBy_implied {x : Nat} (h : TransGen s.circuit.Edge g x) : Implied s (s.replaceBy g x) :=
  (((Implied.redirectParents s none h).trans (Implied.moveHandles _ _ _)).trans
    (Implied.removeAllChildren _ _)).trans (Implied.setType _ _ _)

theorem setTmin_implied (t : Nat) : Implied s (s.setTmin g t) := Implied.modify _ _ fun _ => rfl

theorem setTmax_implied (t : Nat) : Implied s (s.setTmax g t) := Implied.modify _ _ fun _ => rfl

theorem normalizeConstant_implied {v : Bool} {r : Bool × BC} (h : s.normalizeConstant g v = some r) :
    Implied s r.2 := by
  unfold normalizeConstant at h
  split_ifs at h <;> cases h
  · exact .refl s
  · exact Implied.determine _ _ _

theorem normalizeToConstant_implied {v : Bool} {r : Bool × BC}
    (h : s.normalizeToConstant g v = some r) : Implied s r.2 := by
  unfold normalizeToConstant at h
  split_ifs at h
  · cases h; exact .refl s
  · obtain ⟨s', h', rfl⟩ := Option.map_eq_some'.1 h
    exact Implied.transformIntoConstant _ _ h'

theorem normalizeRef_implied {r : Bool × BC} (h : s.normalizeRef g = some r) : Implied s r.2 := by
  obtain ⟨ch, hch, rfl⟩ := Option.map_eq_some'.1 h
  have hch : ch ∈ (s.gate g).children := List.mem_of_mem_head? hch
  dsimp only
  split_ifs
  · exact .refl s
  · exact ((Implied.determine s ch _).trans (Implied.addInPstack _ ch)).trans
      (replaceBy_implied (.single (by rw [edge_iff, gate_addInPstack, children_determine]; exact hch)))
  · exact replaceBy_implied (.single hch)

theorem normalizeNot_implied {r : Bool × BC} (h : s.normalizeNot g = some r) : Implied s r.2 := by
  obtain ⟨ch, hch, h⟩ := Option.bind_eq_some.1 h
  have hch : ch ∈ (s.gate g).children := List.mem_of_mem_head? hch
  dsimp only at h
  split_ifs at h
  · cases h; exact .refl s
  · obtain ⟨s', h', rfl⟩ := Option.map_eq_some'.1 h
    exact ((Implied.determine s ch _).trans (Implied.addInPstack _ ch)).trans
      (Implied.transformIntoConstant _ _ h')
  · -- `NOT(NOT(y))`
    obtain ⟨gc, hgc, rfl⟩ := Option.map_eq_some'.1 h
    exact replaceBy_implied (.head hch (.single (List.mem_of_mem_head? hgc)))
  · cases h; exact .refl s

theorem normalizeOrAnd_implied {r : Bool × BC} (h : s.normalizeOrAnd g = some r) : Implied s r.2 := by
  unfold normalizeOrAnd at h
  cases h
  split_ifs
  · exact (Implied.setType _ _ _).trans (Implied.addInPstack _ _)
  · exact .refl s

theorem normalizeEven_acyclic (ha : s.circuit.Acyclic) (hg : g < s.size) {r : Bool × BC}
    (h : s.normalizeEven g = some r) : r.2.circuit.Acyclic := by
  have hcl := (acyclic_iff.1 ha).1
  obtain ⟨s', rfl, ⟨-, hs, hgate⟩ | rfl | ⟨-, hs, hgate⟩⟩ := normalizeEven_spec hg h
  · exact (Implied.of_children_eq hs fun x => by
      rw [hgate]; split_ifs with hx <;> (try subst hx) <;> rfl).acyclic ha
  · exact ha
  refine (Embeds.of_gates (standFor s.size g) (levelBelow s.size) fun x hx y hy => ?_).acyclic ha
  rw [hs] at hx ⊢
  rw [hgate] at hy
  split_ifs at hy with h₁ h₂
  · subst h₁
    obtain rfl := List.mem_singleton.1 hy
    exact ⟨by omega, descends_level (.inl rfl) le_rfl (by simp [hg])⟩
  · subst h₂
    rw [List.mem_reverse] at hy
    exact ⟨by have : y < s.size := hcl g hg y hy; omega, descends_child hcl hg le_rfl hy⟩
  · have hx' : x < s.size := by omega
    exact ⟨by have : y < s.size := hcl x hx' y hy; omega, descends_old hcl hx' hy⟩

theorem normalizeOdd_acyclic (ha : s.circuit.Acyclic) (hg : g < s.size) {r : Bool × BC}
    (h : s.normalizeOdd g = some r) : r.2.circuit.Acyclic := by
  have hcl := (acyclic_iff.1 ha).1
  obtain ⟨s', rfl, ⟨-, hs, hgate⟩ | rfl | ⟨c₁, rest, hch, -, hs, hgate⟩⟩ := normalizeOdd_spec hg h
  · exact (Implied.of_children_eq hs fun x => by
      rw [hgate]; split_ifs with hx <;> (try subst hx) <;> rfl).acyclic ha
  · exact ha
  refine (Embeds.of_gates (standFor s.size g) (levelBelow s.size) fun x hx y hy => ?_).acyclic ha
  rw [hs] at hx ⊢
  rw [hgate] at hy
  split_ifs at hy with h₁ h₂
  · subst h₁
    rcases List.mem_pair.1 hy with rfl | rfl
    · have hy : y ∈ (s.gate x).children := by simp [hch]
      exact ⟨by have : y < s.size := hcl x hg y hy; omega, descends_old hcl hg hy⟩
    · exact ⟨by omega, descends_level (.inl rfl) le_rfl (by simp [hg])⟩
  · subst h₂
    have hy : y ∈ (s.gate g).children := by simp [hch, List.mem_reverse.1 hy]
    exact ⟨by have : y < s.size := hcl g hg y hy; omega, descends_child hcl hg le_rfl hy⟩
  · have hx' : x < s.size := by omega
    exact ⟨by have : y < s.size := hcl x hx' y hy; omega, descends_old hcl hx' hy⟩

theorem normalizeEquiv_acyclic (ha : s.circuit.Acyclic) (hg : g < s.size) {r : Bool × BC}
    (h : s.normalizeEquiv g = some r) : r.2.circuit.Acyclic := by
  have hcl := (acyclic_iff.1 ha).1
  obtain ⟨-, h⟩ | rfl | ⟨s', rfl, hs, hgate⟩ := normalizeEquiv_spec hg h
  · exact (normalizeToConstant_implied h).acyclic ha
  · exact ha
  refine (Embeds.of_gates (standFor s.size g)
    (fun x => if x < s.size then 2 else if x < s.size + 2 then 1 else 0)
    fun x hx y hy => ?_).acyclic ha
  rw [hs] at hx ⊢
  rw [hgate] at hy
  split_ifs at hy with h₁ h₂ h₃ h₄
  · -- `g` over the two `AND`s
    subst h₁
    rcases List.mem_pair.1 hy with rfl | rfl <;>
      exact ⟨by omega, descends_level (.inl rfl) (by omega) (by split_ifs <;> omega)⟩
  · -- `AND(c₁,...,cₙ)`
    rw [List.mem_reverse] at hy
    exact ⟨by have : y < s.size := hcl g hg y hy; omega, descends_child hcl hg (by omega) hy⟩
  · -- `AND(NOT(c₁),...,NOT(cₙ))`
    obtain ⟨k, hk, rfl⟩ := List.mem_map.1 (List.mem_reverse.1 hy)
    have hk := List.mem_range.1 hk
    exact ⟨by omega, descends_level (.inr (by omega)) (by omega) (by split_ifs <;> omega)⟩
  · -- `NOT(cₖ)`
    obtain rfl := List.mem_singleton.1 hy
    have hy : (s.gate g).children.getD (x - (s.size + 2)) 0 ∈ (s.gate g).children := by
      rw [List.getD_eq_getElem _ _ (by omega)]; exact List.getElem_mem _
    exact ⟨by have := hcl g hg _ hy; simp only [circuit_size] at this; omega,
      descends_child hcl hg (by omega) hy⟩
  · have hx' : x < s.size := by omega
    exact ⟨by have : y < s.size := hcl x hx' y hy; omega, descends_old hcl hx' hy⟩

theorem toConstantReset_implied {t : BC} {v : Bool} {f : BC → BC} (hf : ∀ u, Implied u (f u))
    {r : Bool × BC}
    (h : ((t.normalizeToConstant g v).map fun x => (x.1, if x.1 = true then f x.2 else x.2)) = some r) :
    Implied t r.2 := by
  obtain ⟨⟨ok, t'⟩, h', rfl⟩ := Option.map_eq_some'.1 h
  have i := normalizeToConstant_implied h'
  dsimp only
  split_ifs
  · exact i.trans (hf _)
  · exact i

theorem thresholdRewrite_implied (t : BC) (ty : GateType) :
    Implied t ((((t.setType g ty).setTmin g 0).setTmax g 0).addInPstack g) :=
  (((Implied.setType _ _ _).trans (setTmin_implied 0)).trans (setTmax_implied 0)).trans
    (Implied.addInPstack _ _)

theorem Embeds.append_below {lvl : Nat → Nat} {t : BC} (h : Embeds (standFor s.size g) lvl s t)
    (hcl : s.circuit.Closed) (hg : g < s.size) (hst : s.size ≤ t.size) (gt : Gate)
    (hgt : ∀ y ∈ gt.children, y ∈ (s.gate g).children ∨ (s.size ≤ y ∧ y < t.size ∧ lvl y < lvl t.size)) :
    Embeds (standFor s.size g) lvl s (t.append gt) :=
  h.append gt fun y hy => (hgt y hy).elim
    (fun hy => ⟨(show y < s.size from hcl g hg y hy).trans_le hst, descends_child hcl hg hst hy⟩)
    fun ⟨h₁, h₂, h₃⟩ => ⟨h₂, descends_level (.inr hst) h₁ h₃⟩

section Threshold

theorem thresholdEmbeds {t : BC} (ha : t.circuit.Acyclic) :
    Embeds (standFor t.size g) (fun x => if x < t.size then 2 else if x = t.size + 2 then 1 else 0) t t :=
  Embeds.refl _ _ ha fun _ hy => standFor_of_lt hy

variable {t : BC} (ha : t.circuit.Acyclic) (hg : g < t.size)

include ha hg

theorem thresholdNot_acyclic (k : Nat) :
    ((((((t.append { type := .atleast, children := [], tmin := k }).addInPstack t.size).moveChildren
      false g t.size).addChild g t.size).setType g .not).addInPstack g).circuit.Acyclic := by
  have hcl := (acyclic_iff.1 ha).1
  refine (Embeds.implied (Embeds.addChild (Embeds.moveChildren (Embeds.implied
    ((thresholdEmbeds ha).append_below hcl hg le_rfl _ fun _ hy => absurd hy (List.not_mem_nil _))
    (Implied.addInPstack _ _)) false fun y hy => descends_child hcl hg le_rfl ?_) (by simp) ?_)
    ((Implied.setType _ _ _).trans (Implied.addInPstack _ _))).acyclic ha
  · simpa [gate_append_of_lt _ hg] using hy
  · exact descends_level (.inl rfl) le_rfl (by simp [hg])

theorem thresholdSplit_acyclic (l k : Nat) :
    ((((((((t.append { type := .atleast, children := (t.gate g).children.reverse, tmin := l }).addInPstack
      t.size).append { type := .atleast, children := [], tmin := k }).addInPstack (t.size + 1)).moveChildren
      false g (t.size + 1)).append { type := .not, children := [t.size + 1] }).addInPstack (t.size + 1 + 1)).addChild
      g t.size |>.addChild g (t.size + 1 + 1) |>.setType g .and).circuit.Acyclic := by
  have hcl := (acyclic_iff.1 ha).1
  refine (Embeds.implied (Embeds.addChild (Embeds.addChild (Embeds.implied (Embeds.append_below
    (Embeds.moveChildren (Embeds.implied (Embeds.append_below (Embeds.implied
      ((thresholdEmbeds ha).append_below hcl hg le_rfl _ fun y hy => .inl (List.mem_reverse.1 hy))
      (Implied.addInPstack _ _)) hcl hg (by simp) _ fun _ hy => absurd hy (List.not_mem_nil _))
      (Implied.addInPstack _ _)) false fun y hy => descends_child hcl hg (by simp) ?_)
    hcl hg (by simp; omega) _ fun y hy => .inr ?_) (Implied.addInPstack _ _)) (by simp; omega) ?_) (by simp) ?_)
    (Implied.setType _ _ _)).acyclic ha
  · simpa [gate_append, Nat.ne_of_lt hg, show g ≠ t.size + 1 by omega] using hy
  · obtain rfl := List.mem_singleton.1 hy
    simp only [size_addInPstack, size_moveChildren, size_append]
    split_ifs <;> omega
  · exact descends_level (.inl rfl) le_rfl (by split_ifs <;> omega)
  · exact descends_level (.inl rfl) (by omega) (by split_ifs <;> omega)

theorem thresholdCounter_acyclic (l k : Nat) :
    (((((((((t.append { type := .atleast, children := (t.gate g).children, tmin := l }).addInPstack
      t.size).append { type := .atleast, children := (t.gate g).children, tmin := k }).addInPstack
      (t.size + 1)).append { type := .not, children := [t.size + 1] }).addInPstack (t.size + 1 + 1)).removeAllChildren
      g).setType g .and).setChildren g [t.size + 1 + 1, t.size]).circuit.Acyclic := by
  have hcl := (acyclic_iff.1 ha).1
  have e₁ := ((thresholdEmbeds (g := g) ha).append_below hcl hg le_rfl
    { type := .atleast, children := (t.gate g).children, tmin := l } fun y hy => .inl hy).implied
    (Implied.addInPstack _ t.size)
  have e₂ := (e₁.append_below hcl hg (by simp only [size_addInPstack, size_append]; omega)
    { type := .atleast, children := (t.gate g).children, tmin := k } fun y hy => .inl hy).implied
    (Implied.addInPstack _ (t.size + 1))
  have e₃ := (e₂.append_below hcl hg (by simp only [size_addInPstack, size_append]; omega)
    { type := .not, children := [t.size + 1] } fun y hy => .inr (by
      obtain rfl := List.mem_singleton.1 hy
      simp only [size_addInPstack, size_append]
      split_ifs <;> omega)).implied
    (Implied.addInPstack _ (t.size + 1 + 1))
  refine ((e₃.implied ((Implied.removeAllChildren _ g).trans (Implied.setType _ g .and))).setChildren
    fun y hy => .inr ⟨?_, ?_⟩).acyclic ha <;> rcases List.mem_pair.1 hy with rfl | rfl
  iterate 2 simp only [size_setChildren, size_setType, size_removeAllChildren, size_addInPstack,
      size_append]; omega
  all_goals exact descends_level (.inl rfl) (by omega) (by split_ifs <;> omega)

end Threshold

theorem normalizeThreshold_acyclic (ha : s.circuit.Acyclic) (hg : g < s.size) {r : Bool × BC}
    (h : s.normalizeThreshold g = some r) : r.2.circuit.Acyclic := by
  unfold normalizeThreshold at h
  simp only [addCounterComparisons, installGate_eq, newNOT_eq, size_addInPstack, size_append,
    size_moveChildren, size_setTmax] at h
  generalize ht : s.setTmax g ((s.gate g).tmax ⊓ (s.gate g).children.length) = t at h
  have it : Implied s t := ht ▸ setTmax_implied _
  have hta := it.acyclic ha
  have htg : g < t.size := it.size_eq ▸ hg
  have hch : (s.gate g).children = (t.gate g).children := by
    rw [← ht, setTmax, gate_modify]; split_ifs <;> rfl
  have hreset : ∀ u : BC, Implied u ((u.setTmin g 0).setTmax g 0) := fun _ =>
    (setTmin_implied 0).trans (setTmax_implied 0)
  rw [hch, ← it.size_eq] at h
  obtain ⟨-, h⟩ | ⟨-, h⟩ := ite_eq_iff.1 h
  · exact (toConstantReset_implied hreset h).acyclic ha
  obtain ⟨-, h⟩ | ⟨-, h⟩ := ite_eq_iff.1 h
  · exact (toConstantReset_implied hreset h).acyclic hta
  obtain ⟨-, h⟩ | ⟨-, h⟩ := ite_eq_iff.1 h
  · -- a single child
    obtain ⟨-, h⟩ | ⟨-, h⟩ := ite_eq_iff.1 h
    · exact (toConstantReset_implied hreset h).acyclic hta
    obtain ⟨-, h⟩ | ⟨-, h⟩ := ite_eq_iff.1 h
    · cases h; exact (thresholdRewrite_implied _ _).acyclic hta
    obtain ⟨-, h⟩ | ⟨-, h⟩ := ite_eq_iff.1 h
    · cases h; exact (thresholdRewrite_implied _ _).acyclic hta
    · cases h
  obtain ⟨-, h⟩ | ⟨-, h⟩ := ite_eq_iff.1 h
  · exact (toConstantReset_implied hreset h).acyclic hta
  obtain ⟨-, h⟩ | ⟨-, h⟩ := ite_eq_iff.1 h
  · cases h; exact (thresholdRewrite_implied _ _).acyclic hta
  obtain ⟨-, h⟩ | ⟨-, h⟩ := ite_eq_iff.1 h
  · cases h; exact thresholdCounter_acyclic hta htg _ _
  obtain ⟨-, h⟩ | ⟨-, h⟩ := ite_eq_iff.1 h
  · cases h; exact thresholdNot_acyclic hta htg _
  obtain ⟨-, h⟩ | ⟨-, h⟩ := ite_eq_iff.1 h
  · cases h; exact ((Implied.setType _ _ _).trans (Implied.addInPstack _ _)).acyclic hta
  · cases h; exact thresholdSplit_acyclic hta htg _ _

theorem atleastRewrite_acyclic (ha : s.circuit.Acyclic) (hg : g < s.size)
    (h2 : 2 ≤ (s.gate g).tmin) (hlt : (s.gate g).tmin < (s.gate g).children.length)
    {r : Bool × BC} (h : s.atleastRewrite g = some r) : r.2.circuit.Acyclic := by
  have hcl := (acyclic_iff.1 ha).1
  obtain ⟨chs, hchs⟩ : ∃ chs, (s.gate g).children = chs := ⟨_, rfl⟩
  obtain ⟨L, hL⟩ : ∃ L, (s.gate g).tmin = L := ⟨_, rfl⟩
  rw [hchs, hL] at hlt
  rw [hL] at h2
  obtain ⟨rest, s', hrun, -, hvalid, hclosed, hsize, hframe, ⟨pL, hpL, hG⟩, hcells⟩ :=
    atleastRewrite_layout hg hchs hL h2 hlt
  obtain rfl := Option.some.inj (h.symm.trans hrun)
  have hgen : atleastGeneral L chs.length := by simp [atleastGeneral]; omega
  refine (Embeds.of_gates (standFor s.size g) (fun y => if y < s.size then 2 * chs.length else
    atleastRank (atleastCells (L, chs.length) ((L, chs.length) :: rest)) s.size y)
    fun x hx y hy => ?_).acyclic ha
  simp only [hsize] at hx ⊢
  by_cases hxo : x < s.size
  · by_cases hxg : x = g
    · -- `g = OR(array[L][n-1], a)`, `a` the `AND` of the top entry at `s.size`
      subst hxg
      rw [hG] at hy
      rcases List.mem_pair.1 hy with rfl | rfl
      · obtain ⟨h₁, h₂, h₃⟩ := atleastSlot_pushed hvalid hclosed (List.mem_cons_self _ _)
          (by rw [atleastNext, if_neg (by omega), if_neg (by omega)]; simp) hpL
        exact ⟨h₂, descends_level (.inl rfl) h₁ (by simp only [if_pos hxo, if_neg (by omega : ¬y < s.size)]; omega)⟩
      · have hc0 : (atleastCells (L, chs.length) ((L, chs.length) :: rest))[0]? =
            some ((L, chs.length), Bool.true) := by
          rw [atleastCells_cons, if_pos rfl, if_pos hgen]; simp
        have hr := @atleastRank_cell _ s.size _ _ hc0
        rw [Nat.add_zero, atleastCellRank_and] at hr
        refine ⟨by have := (List.getElem?_eq_some_iff.1 hc0).1; omega,
          descends_level (.inl rfl) le_rfl ?_⟩
        simp only [if_pos hxo, lt_irrefl, if_false, hr]; omega
    · rw [hframe x hxo hxg] at hy
      exact ⟨(show y < s.size from hcl x hxo y hy).trans_le (Nat.le_add_right _ _),
        descends_old hcl hxo hy⟩
  · -- a cell
    obtain ⟨m, rfl⟩ : ∃ m, x = s.size + m := ⟨x - s.size, by omega⟩
    have hc := List.getElem?_eq_getElem (l := atleastCells (L, chs.length) ((L, chs.length) :: rest))
      (n := m) (by omega)
    rcases atleastCell_children hvalid hclosed hcells hc hy with hy | ⟨h₁, h₂, h₃⟩
    · exact ⟨(show y < s.size from hcl g hg y (hchs ▸ hy)).trans_le (Nat.le_add_right _ _),
        descends_child hcl hg (Nat.le_add_right _ _) (hchs ▸ hy)⟩
    · refine ⟨h₂, descends_level (.inr (Nat.le_add_right _ _)) h₁ ?_⟩
      simp only [if_neg hxo, if_neg (by omega : ¬y < s.size), atleastRank_cell hc]
      exact h₃

theorem normalizeAtleast_acyclic (ha : s.circuit.Acyclic) (hg : g < s.size) {r : Bool × BC}
    (h : s.normalizeAtleast g = some r) : r.2.circuit.Acyclic := by
  have hreset : ∀ u : BC, Implied u (u.setTmin g 0) := fun _ => setTmin_implied 0
  have hretype : ∀ ty, Implied s (((s.setType g ty).setTmin g 0).addInPstack g) := fun _ =>
    ((Implied.setType _ _ _).trans (setTmin_implied 0)).trans (Implied.addInPstack _ _)
  dsimp only [normalizeAtleast] at h
  split_ifs at h with h0 h1 h2 h3
  · exact (toConstantReset_implied hreset h).acyclic ha
  · exact (toConstantReset_implied hreset h).acyclic ha
  · cases h; exact (hretype _).acyclic ha
  · cases h; exact (hretype _).acyclic ha
  · exact atleastRewrite_acyclic ha hg (by omega) (by omega) h

/-- Every case of `Gate::cnf_normalize` keeps the store acyclic. -/
theorem cnfNormalize_acyclic (ha : s.circuit.Acyclic) {r : Bool × BC}
    (h : s.cnfNormalize g = some r) : r.2.circuit.Acyclic := by
  cases ht : (s.gate g).type <;> simp only [cnfNormalize, ht] at h
  case deleted | var | ite => cases h; exact ha
  case undef => cases h
  all_goals have hg : g < s.size := lt_size_of_type_ne_deleted (by rw [ht]; decide)
  case false | true => exact (normalizeConstant_implied h).acyclic ha
  case ref => exact (normalizeRef_implied h).acyclic ha
  case not => exact (normalizeNot_implied h).acyclic ha
  case or | and => exact (normalizeOrAnd_implied h).acyclic ha
  case equiv => exact normalizeEquiv_acyclic ha hg h
  case even => exact normalizeEven_acyclic ha hg h
  case odd => exact normalizeOdd_acyclic ha hg h
  case threshold => exact normalizeThreshold_acyclic ha hg h
  case atleast => exact normalizeAtleast_acyclic ha hg h

/-- The loop of `BC::cnf_normalize` keeps the store acyclic: the pushes touch only the stack, and
every call keeps it. -/
theorem cnfNormalizePass_acyclic (ha : s.circuit.Acyclic) {fuel : Nat} {r : Bool × BC}
    (h : s.cnfNormalizePass fuel = some r) : r.2.circuit.Acyclic :=
  runStack_invariant _ Circuit.Acyclic (fun _ _ _ ha h => cnfNormalize_acyclic ha h)
    (by rwa [circuit_pushAll]) h

end BC

end BcSat
