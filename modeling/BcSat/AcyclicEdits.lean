import BcSat.DependsOn

set_option autoImplicit false

/-!
# Edits that keep the child graph acyclic

A store has a ranking exactly when its child graph is closed and has no cycle. The rewriting
passes change the graph in three ways, and each keeps it without cycles:

* every new edge stands for a path the graph already has (edges are deleted, an edge to a child is
  replaced by edges to the child's children, the edges into a gate go to a gate it reaches);
* a set `S` of gates is rebuilt: the gates outside `S` keep their edges, an edge leaving `S` goes
  to a gate that reaches no gate of `S`, and the edges inside `S` go down a rank (installed gates
  and the gate they replace);
* new edges whose targets reach none of the sources of new edges (the edges into a gate are
  redirected to a gate that does not reach it).
-/

namespace BcSat

open Relation

theorem Ranking.rank_lt_of_transGen {c : Circuit} (r : Ranking c) {x y : Nat}
    (h : TransGen c.Edge x y) : r.rank y < r.rank x := by
  induction h with
  | single hxy => exact (r.child_lt _ (c.lt_size_of_edge hxy) _ hxy).2
  | tail _ hyz ih => exact (r.child_lt _ (c.lt_size_of_edge hyz) _ hyz).2.trans ih

namespace Circuit

variable {c c' : Circuit}

theorem Acyclic.not_hasCycle (h : c.Acyclic) : ¬c.HasCycle := fun ⟨_, hg⟩ =>
  let ⟨r⟩ := h
  lt_irrefl _ (r.rank_lt_of_transGen hg)

theorem acyclic_of_closed (hcl : c.Closed) (hc : ¬c.HasCycle) : c.Acyclic := by
  classical
  let below (g : Nat) := (Finset.range c.size).filter fun x => TransGen c.Edge g x
  have hlt : ∀ g ch, c.Edge g ch → (below ch).card < (below g).card := by
    intro g ch hgc
    refine Finset.card_lt_card (Finset.ssubset_iff.2 ⟨ch, fun h => hc ⟨ch, (Finset.mem_filter.1 h).2⟩,
      Finset.insert_subset_iff.2 ⟨?_, fun x hx => ?_⟩⟩)
    · exact Finset.mem_filter.2
        ⟨Finset.mem_range.2 (hcl g (c.lt_size_of_edge hgc) ch hgc), .single hgc⟩
    · obtain ⟨hxs, hr⟩ := Finset.mem_filter.1 hx
      exact Finset.mem_filter.2 ⟨hxs, .head hgc hr⟩
  have hbound : ∀ g < c.size, (below g).card < c.size := fun g hg => by
    have hsub : below g ⊆ (Finset.range c.size).erase g := fun x hx => by
      obtain ⟨hxs, hr⟩ := Finset.mem_filter.1 hx
      exact Finset.mem_erase.2 ⟨by rintro rfl; exact hc ⟨x, hr⟩, hxs⟩
    have := Finset.card_le_card hsub
    rw [Finset.card_erase_of_mem (Finset.mem_range.2 hg), Finset.card_range] at this
    omega
  exact ⟨⟨fun g => (below g).card, hbound, fun g hg ch hch => ⟨hcl g hg ch hch, hlt g ch hch⟩⟩⟩

theorem acyclic_iff : c.Acyclic ↔ c.Closed ∧ ¬c.HasCycle :=
  ⟨fun h => ⟨let ⟨r⟩ := h; r.closed, h.not_hasCycle⟩, fun h => acyclic_of_closed h.1 h.2⟩

theorem not_hasCycle_of_implied (hc : ¬c.HasCycle)
    (h : ∀ x y, c'.Edge x y → TransGen c.Edge x y) : ¬c'.HasCycle :=
  fun ⟨g, hg⟩ => hc ⟨g, TransGen.lift' id h hg⟩

section Rebuild

variable (S : Nat → Prop) (ρ : Nat → Nat)
  (hout : ∀ x y, ¬S x → c'.Edge x y → c.Edge x y)
  (hsafe : ∀ x y, S x → c'.Edge x y → ¬S y → ∀ z, S z → ¬ReflTransGen c.Edge y z)
  (hrank : ∀ x y, S x → S y → c'.Edge x y → ρ y < ρ x)

include hout in
theorem transGen_outside {y w : Nat} (h : TransGen c'.Edge y w) (hy : ¬S y)
    (hreach : ∀ z, S z → ¬ReflTransGen c.Edge y z) : TransGen c.Edge y w ∧ ¬S w := by
  induction h using TransGen.head_induction_on with
  | base hyw =>
    have e := hout _ _ hy hyw
    exact ⟨.single e, fun hw => hreach _ hw (.single e)⟩
  | @ih y v hyv _ ih =>
    have e := hout _ _ hy hyv
    have hv : ¬S v := fun hv => hreach _ hv (.single e)
    obtain ⟨h₁, h₂⟩ := ih hv fun z hz hr => hreach z hz (.head e hr)
    exact ⟨.head e h₁, h₂⟩

include hout hsafe hrank in
theorem rank_lt_of_transGen_inside {x w : Nat} (h : TransGen c'.Edge x w) (hx : S x)
    (hw : S w) : ρ w < ρ x := by
  induction h using TransGen.head_induction_on with
  | base hxw => exact hrank _ _ hx hw hxw
  | @ih x v hxv hvw ih =>
    by_cases hv : S v
    · exact (ih hv).trans (hrank _ _ hx hv hxv)
    · exact absurd hw (transGen_outside S hout hvw hv (hsafe _ _ hx hxv hv)).2

include hout in
theorem transGen_enters {u w : Nat} (h : TransGen c'.Edge u w) (hu : ¬S u) :
    TransGen c.Edge u w ∨ ∃ z, S z ∧ TransGen c'.Edge u z ∧ ReflTransGen c'.Edge z w := by
  induction h using TransGen.head_induction_on with
  | base huw => exact .inl (.single (hout _ _ hu huw))
  | @ih u v huv hvw ih =>
    by_cases hv : S v
    · exact .inr ⟨v, hv, .single huv, hvw.to_reflTransGen⟩
    · rcases ih hv with h | ⟨z, hz, hvz, hzw⟩
      · exact .inl (.head (hout _ _ hu huv) h)
      · exact .inr ⟨z, hz, .head huv hvz, hzw⟩

include hout hsafe hrank in
theorem not_hasCycle_of_rebuild (hc : ¬c.HasCycle) : ¬c'.HasCycle := by
  rintro ⟨u, hu⟩
  by_cases hS : S u
  · exact lt_irrefl _ (rank_lt_of_transGen_inside S ρ hout hsafe hrank hu hS hS)
  · rcases transGen_enters S hout hu hS with h | ⟨z, hz, huz, hzu⟩
    · exact hc ⟨u, h⟩
    · exact lt_irrefl _
        (rank_lt_of_transGen_inside S ρ hout hsafe hrank (TransGen.trans_right hzu huz) hz hz)

end Rebuild

section NewEdges

/-- The edges of `c'` that `c` does not have. -/
def NewEdge (c c' : Circuit) (x y : Nat) : Prop := c'.Edge x y ∧ ¬c.Edge x y

theorem transGen_new_edges {u w : Nat} (h : TransGen c'.Edge u w) :
    TransGen c.Edge u w ∨ ((∃ x y, NewEdge c c' x y ∧ ReflTransGen c.Edge u x) ∧
      ∃ x y, NewEdge c c' x y ∧ ReflTransGen c.Edge y w) := by
  induction h with
  | @single w huw =>
    by_cases e : c.Edge u w
    · exact .inl (.single e)
    · exact .inr ⟨⟨_, _, ⟨huw, e⟩, .refl⟩, _, _, ⟨huw, e⟩, .refl⟩
  | @tail v w _ hvw ih =>
    by_cases e : c.Edge v w
    · rcases ih with h | ⟨hfirst, x, y, hxy, hyv⟩
      · exact .inl (.tail h e)
      · exact .inr ⟨hfirst, x, y, hxy, .tail hyv e⟩
    · refine .inr ⟨?_, _, _, ⟨hvw, e⟩, .refl⟩
      rcases ih with h | ⟨hfirst, -⟩
      · exact ⟨_, _, ⟨hvw, e⟩, h.to_reflTransGen⟩
      · exact hfirst

theorem not_hasCycle_of_new_edges (hc : ¬c.HasCycle)
    (hsafe : ∀ x y x' y', NewEdge c c' x y → NewEdge c c' x' y' → ¬ReflTransGen c.Edge y x') :
    ¬c'.HasCycle := by
  rintro ⟨u, hu⟩
  rcases transGen_new_edges hu with h | ⟨⟨x, y, hxy, hux⟩, x', y', hxy', hy'u⟩
  · exact hc ⟨u, h⟩
  · exact hsafe x' y' x y hxy' hxy (hy'u.trans hux)

end NewEdges

theorem not_reflTransGen_of_edge (hc : ¬c.HasCycle) {x y : Nat} (h : c.Edge x y) :
    ¬ReflTransGen c.Edge y x := fun hr => hc ⟨x, .head' h hr⟩

theorem not_reflTransGen_size (hcl : c.Closed) {y : Nat} (hy : y < c.size) :
    ¬ReflTransGen c.Edge y c.size := by
  intro h
  rcases h.cases_tail with h | ⟨b, -, hb⟩
  · omega
  · exact absurd (hcl b (c.lt_size_of_edge hb) _ hb) (lt_irrefl _)

/-- Input and constant gates have no children, as the parser builds them. -/
def LeavesBare (c : Circuit) : Prop :=
  ∀ x < c.size, (c.gate x).type = .var ∨ (c.gate x).type = .true ∨ (c.gate x).type = .false →
    (c.gate x).children = []

instance (c : Circuit) : Decidable c.LeavesBare := inferInstanceAs (Decidable (∀ x < c.size, _))

end Circuit

namespace BC

open Circuit

variable {s s' s'' : BC} {g x : Nat}

theorem edge_iff {y : Nat} : s.circuit.Edge x y ↔ y ∈ (s.gate x).children := Iff.rfl

theorem lt_size_of_type_ne_deleted (h : (s.gate g).type ≠ .deleted) : g < s.size := by
  by_contra hg
  rw [← circuit_gate, s.circuit.gate_of_size_le (by simpa using hg)] at h
  exact h rfl

/-- Every edge of `s'` is a path of `s`, over the same gates: deleting edges, following an edge
further down, and every edit that leaves the edges alone. -/
structure Implied (s s' : BC) : Prop where
  size_eq : s'.size = s.size
  edge : ∀ x y, s'.circuit.Edge x y → TransGen s.circuit.Edge x y

theorem Implied.refl (s : BC) : Implied s s := ⟨rfl, fun _ _ h => .single h⟩

theorem Implied.trans (h₁ : Implied s s') (h₂ : Implied s' s'') : Implied s s'' :=
  ⟨h₂.size_eq.trans h₁.size_eq, fun x y h => TransGen.lift' id h₁.edge (h₂.edge x y h)⟩

theorem Implied.transGen (h : Implied s s') {y z : Nat} (hyz : TransGen s'.circuit.Edge y z) :
    TransGen s.circuit.Edge y z := TransGen.lift' id h.edge hyz

theorem Implied.reflTransGen (h : Implied s s') {y z : Nat}
    (hyz : ReflTransGen s'.circuit.Edge y z) : ReflTransGen s.circuit.Edge y z := by
  rcases hyz.cases_tail with rfl | ⟨w, hyw, hwz⟩
  · exact .refl
  · exact (h.transGen (TransGen.tail' hyw hwz)).to_reflTransGen

theorem Implied.acyclic (h : Implied s s') (ha : s.circuit.Acyclic) : s'.circuit.Acyclic := by
  rw [acyclic_iff] at ha ⊢
  refine ⟨fun x _ y hy => ?_, not_hasCycle_of_implied ha.2 h.edge⟩
  obtain ⟨b, -, hb⟩ := TransGen.tail'_iff.1 (h.edge x y hy)
  rw [circuit_size, h.size_eq]
  exact ha.1 b (s.circuit.lt_size_of_edge hb) y hb

theorem Implied.of_circuit_eq (h : Implied s s') (e : s''.circuit = s'.circuit) : Implied s s'' :=
  ⟨(congrArg Circuit.size e).trans h.size_eq, fun x y hxy => h.edge x y (e ▸ hxy)⟩

theorem Implied.setLinks (h : Implied s s') (g : Nat) (l : List Nat) : Implied s (s'.setLinks g l) :=
  h.of_circuit_eq rfl

theorem Implied.tick (h : Implied s s') (n : Nat) : Implied s (s'.tick n) := h.of_circuit_eq rfl

theorem Implied.of_subset (hsize : s'.size = s.size)
    (h : ∀ x, ∀ y ∈ (s'.gate x).children, y ∈ (s.gate x).children) : Implied s s' :=
  ⟨hsize, fun x y hy => .single (h x y hy)⟩

theorem Implied.of_children_eq (hsize : s'.size = s.size)
    (h : ∀ x, (s'.gate x).children = (s.gate x).children) : Implied s s' :=
  .of_subset hsize fun x y hy => by rwa [← h x]

section Children

variable (s) (g x)

theorem children_modify_of {f : Gate → Gate} (hf : ∀ gt, (f gt).children = gt.children) :
    ((s.modify g f).gate x).children = (s.gate x).children := by
  rw [gate_modify]; split_ifs <;> simp [hf]

@[simp] theorem children_setType (t : GateType) :
    ((s.setType g t).gate x).children = (s.gate x).children := children_modify_of s g x fun _ => rfl

@[simp] theorem children_setTemp (t : Int) :
    ((s.setTemp g t).gate x).children = (s.gate x).children := children_modify_of s g x fun _ => rfl

@[simp] theorem children_determine (v : Bool) :
    ((s.determine g v).gate x).children = (s.gate x).children :=
  children_modify_of s g x fun _ => rfl

@[simp] theorem gate_mk (c : Circuit) (p : List Nat) (b m : Bool) (l : List (List Nat)) (k : Nat) :
    ({ circuit := c, pstack := p, changed := b, mayTransformInputGates := m, links := l,
       clock := k } : BC).gate x = c.gate x := rfl

@[simp] theorem size_mk (c : Circuit) (p : List Nat) (b m : Bool) (l : List (List Nat)) (k : Nat) :
    ({ circuit := c, pstack := p, changed := b, mayTransformInputGates := m, links := l,
       clock := k } : BC).size = c.size := rfl

@[simp] theorem circuit_foldl_addInPstack (l : List Nat) :
    (l.foldl addInPstack s).circuit = s.circuit := by
  induction l generalizing s with
  | nil => rfl
  | cons y l ih => rw [List.foldl_cons, ih, circuit_addInPstack]

@[simp] theorem circuit_pushAll : s.pushAll.circuit = s.circuit := circuit_foldl_addInPstack s _

@[simp] theorem circuit_addParentsInPstack : (s.addParentsInPstack g).circuit = s.circuit :=
  circuit_foldl_addInPstack s _

@[simp] theorem gate_addParentsInPstack : (s.addParentsInPstack g).gate x = s.gate x :=
  congrArg (Circuit.gate · x) (circuit_foldl_addInPstack s _)

@[simp] theorem size_addParentsInPstack : (s.addParentsInPstack g).size = s.size :=
  congrArg Circuit.size (circuit_foldl_addInPstack s _)

@[simp] theorem gate_addChildrenInPstack : (s.addChildrenInPstack g).gate x = s.gate x :=
  congrArg (Circuit.gate · x) (circuit_foldl_addInPstack s _)

@[simp] theorem size_addChildrenInPstack : (s.addChildrenInPstack g).size = s.size :=
  congrArg Circuit.size (circuit_foldl_addInPstack s _)

@[simp] theorem children_moveHandles (a b : Nat) :
    ((s.moveHandles a b).gate x).children = (s.gate x).children := by
  rw [moveHandles, children_modify_of (f := fun gt => { gt with handles := [] }) _ _ _ fun _ => rfl,
    children_modify_of (f := fun gt => { gt with handles := (s.gate a).handles ++ gt.handles })
      _ _ _ fun _ => rfl]

@[simp] theorem size_foldl_addChild (chs : List Nat) :
    ∀ s : BC, (chs.foldl (fun s ch => s.addChild g ch) s).size = s.size := by
  induction chs with
  | nil => exact fun _ => rfl
  | cons y chs ih => exact fun s => (ih _).trans (size_addChild y)

theorem children_setChildren (chs : List Nat) :
    ((s.setChildren g chs).gate x).children =
      if x = g ∧ g < s.size then chs else (s.gate x).children := by
  rw [setChildren, gate_modify]
  by_cases hx : x = g
  · subst hx; split_ifs <;> simp_all
  · simp [hx, Ne.symm hx]

end Children

theorem Implied.of_frame (hsize : s'.size = s.size)
    (h : ∀ x, (s'.gate x).children = (s.gate x).children) : Implied s s' :=
  .of_children_eq hsize h

theorem acyclic_setChildren (ha : s.circuit.Acyclic) {chs : List Nat}
    (hchs : ∀ y ∈ chs, y ∈ (s.gate g).children ∨
      (y < s.size ∧ ¬ReflTransGen s.circuit.Edge y g)) :
    (s.setChildren g chs).circuit.Acyclic := by
  rw [acyclic_iff] at ha ⊢
  -- an edge of `g` in the new store is an old one or goes to a gate that does not reach `g`
  have hg : ∀ y, (s.setChildren g chs).circuit.Edge g y → ¬ReflTransGen s.circuit.Edge y g := by
    intro y hy
    rw [edge_iff, children_setChildren] at hy
    split_ifs at hy with h
    · rcases hchs y hy with hy | hy
      · exact not_reflTransGen_of_edge ha.2 hy
      · exact hy.2
    · exact not_reflTransGen_of_edge ha.2 hy
  have hout : ∀ x y, ¬x = g → (s.setChildren g chs).circuit.Edge x y → s.circuit.Edge x y := by
    intro x y hx hy
    rwa [edge_iff, children_setChildren, if_neg (fun h => hx h.1)] at hy
  refine ⟨fun x hx y hy => ?_, not_hasCycle_of_rebuild (· = g) (fun _ => 0) hout
    (fun x y (hx : x = g) hy _ z (hz : z = g) => by subst hx hz; exact hg y hy)
    (fun x y (hx : x = g) (hy : y = g) hxy => by subst hx hy; exact absurd .refl (hg _ hxy)) ha.2⟩
  simp only [circuit_gate, circuit_size, size_setChildren, children_setChildren] at hx hy ⊢
  split_ifs at hy with h
  · rcases hchs y hy with hy | hy
    · exact ha.1 g h.2 y hy
    · exact hy.1
  · exact ha.1 x hx y hy

theorem acyclic_append (ha : s.circuit.Acyclic) {t : Gate}
    (hgt : ∀ y ∈ t.children, y < s.size) : (s.append t).circuit.Acyclic := by
  rw [acyclic_iff] at ha ⊢
  -- the new edges leave the new gate
  have hnew : ∀ x y, NewEdge s.circuit (s.append t).circuit x y → x = s.size ∧ y ∈ t.children := by
    rintro x y ⟨hy, hn⟩
    rw [edge_iff, gate_append] at hy
    split_ifs at hy with hx
    · exact ⟨hx, hy⟩
    · exact absurd hy hn
  refine ⟨fun x hx y hy => ?_, not_hasCycle_of_new_edges ha.2 fun x y x' y' h h' => ?_⟩
  · simp only [circuit_gate, circuit_size, size_append, gate_append] at hx hy ⊢
    split_ifs at hy
    · exact Nat.lt_succ_of_lt (hgt y hy)
    · exact Nat.lt_succ_of_lt (ha.1 x (show x < s.size by omega) y hy)
  · obtain ⟨-, hy⟩ := hnew x y h
    obtain ⟨rfl, -⟩ := hnew x' y' h'
    exact not_reflTransGen_size ha.1 (hgt y hy)

theorem acyclic_redirectParents (ha : s.circuit.Acyclic) (keep : Option Nat) {a b : Nat}
    (hb : b < s.size) (hba : ¬ReflTransGen s.circuit.Edge b a) :
    (s.redirectParents keep a b).circuit.Acyclic := by
  rw [acyclic_iff] at ha ⊢
  have hmem : ∀ x y, y ∈ ((s.redirectParents keep a b).gate x).children →
      y ∈ (s.gate x).children ∨ (y = b ∧ a ∈ (s.gate x).children) := by
    intro x y hy
    rw [gate_redirectParents] at hy
    split_ifs at hy
    · exact .inl hy
    · obtain ⟨z, hz, rfl⟩ := List.mem_map.1 hy
      split_ifs with hza
      · exact .inr ⟨rfl, hza ▸ hz⟩
      · exact .inl hz
  refine ⟨fun x hx y hy => ?_, not_hasCycle_of_new_edges ha.2 fun x y x' y' h h' hr => ?_⟩
  · simp only [circuit_gate, circuit_size, size_redirectParents] at hx hy ⊢
    rcases hmem x y hy with hy | ⟨rfl, -⟩
    · exact ha.1 x hx y hy
    · exact hb
  · rcases hmem x y h.1 with hy | ⟨rfl, -⟩
    · exact h.2 hy
    rcases hmem x' y' h'.1 with hy' | ⟨-, ha'⟩
    · exact h'.2 hy'
    exact hba (hr.tail ha')

theorem reflTransGen_redirectParents (keep : Option Nat) {a b z : Nat}
    (h : ReflTransGen (s.redirectParents keep a b).circuit.Edge b z) :
    ReflTransGen s.circuit.Edge b z := by
  induction h with
  | refl => exact .refl
  | @tail v w _ hvw ih =>
    rw [edge_iff, gate_redirectParents] at hvw
    split_ifs at hvw
    · exact ih.tail hvw
    · obtain ⟨y, hy, rfl⟩ := List.mem_map.1 hvw
      split_ifs
      · exact .refl
      · exact ih.tail hy

theorem acyclic_foldl_redirectParents (keep : Option Nat) {b : Nat} :
    ∀ (xs : List Nat) (s : BC), s.circuit.Acyclic → b < s.size →
      (∀ x ∈ xs, ¬ReflTransGen s.circuit.Edge b x) →
      (xs.foldl (fun s x => s.redirectParents keep x b) s).circuit.Acyclic
  | [], _, ha, _, _ => ha
  | x :: xs, s, ha, hb, hxs =>
    acyclic_foldl_redirectParents keep xs _
      (acyclic_redirectParents ha keep hb (hxs x (.head _)))
      (by rwa [size_redirectParents])
      fun y hy hr => hxs y (.tail _ hy) (reflTransGen_redirectParents keep hr)

theorem acyclic_addChild (ha : s.circuit.Acyclic) {y : Nat} (hy : y < s.size)
    (hyx : ¬ReflTransGen s.circuit.Edge y x) : (s.addChild x y).circuit.Acyclic :=
  acyclic_setChildren ha fun _ hz => (List.mem_cons.1 hz).elim (fun e => .inr (e ▸ ⟨hy, hyx⟩)) .inl

theorem not_reflTransGen_of_dependsOn {y : Nat} (hne : y ≠ x) (hd : s.dependsOn y x = false) :
    ¬ReflTransGen s.circuit.Edge y x := fun hr =>
  (reflTransGen_iff_eq_or_transGen.1 hr).elim (fun e => hne e.symm)
    fun ht => Bool.false_ne_true (hd.symm.trans ((dependsOn_iff y x).2 ht))

theorem reflTransGen_append_of_lt (hcl : s.circuit.Closed) {gt : Gate} {y : Nat} (hx : x < s.size)
    (h : ReflTransGen (s.append gt).circuit.Edge x y) :
    ReflTransGen s.circuit.Edge x y ∧ y < s.size := by
  induction h with
  | refl => exact ⟨.refl, hx⟩
  | @tail v w _ hvw ih =>
    rw [edge_iff, gate_append_of_lt _ ih.2] at hvw
    exact ⟨ih.1.tail hvw, hcl v ih.2 w hvw⟩

namespace Implied

variable (s) (g)

theorem setType (t : GateType) : Implied s (s.setType g t) :=
  .of_frame (size_setType _) fun x => children_setType s g x t

theorem setTemp (t : Int) : Implied s (s.setTemp g t) :=
  .of_frame (size_setTemp _) fun x => children_setTemp s g x t

theorem determine (v : Bool) : Implied s (s.determine g v) :=
  .of_frame (size_determine _) fun x => children_determine s g x v

theorem modify {f : Gate → Gate} (hf : ∀ gt, (f gt).children = gt.children) :
    Implied s (s.modify g f) :=
  .of_frame (size_modify _) fun x => children_modify_of s g x hf

theorem addInPstack : Implied s (s.addInPstack g) :=
  .of_frame size_addInPstack fun _ => by rw [gate_addInPstack]

theorem addParentsInPstack : Implied s (s.addParentsInPstack g) :=
  .of_frame (size_addParentsInPstack s g) fun x => by rw [gate_addParentsInPstack]

theorem addChildrenInPstack : Implied s (s.addChildrenInPstack g) :=
  .of_frame (size_addChildrenInPstack s g) fun x => by rw [gate_addChildrenInPstack]

theorem pushIfOrphan : Implied s (s.pushIfOrphan g) :=
  .of_frame size_pushIfOrphan fun _ => by rw [gate_pushIfOrphan]

theorem moveHandles (b : Nat) : Implied s (s.moveHandles g b) :=
  .of_frame (size_moveHandles _ _) fun x => children_moveHandles s x g b

theorem changed (b : Bool) : Implied s { s with changed := b } := .of_frame rfl fun _ => rfl

theorem setChildren_subset {chs : List Nat} (h : ∀ y ∈ chs, y ∈ (s.gate g).children) :
    Implied s (s.setChildren g chs) := by
  refine .of_subset (size_setChildren _) fun x y hy => ?_
  rw [children_setChildren] at hy
  split_ifs at hy with hx
  · exact hx.1 ▸ h y hy
  · exact hy

theorem modify_sub {f : Gate → Gate}
    (hf : ∀ y ∈ (f (s.gate g)).children, y ∈ (s.gate g).children) : Implied s (s.modify g f) := by
  refine .of_subset (size_modify _) fun x y hy => ?_
  rw [gate_modify] at hy
  split_ifs at hy with hx
  · obtain ⟨rfl, -⟩ := hx
    exact hf y hy
  · exact hy

theorem removeAllChildren : Implied s (s.removeAllChildren g) :=
  (setChildren_subset s g fun _ h => absurd h (List.not_mem_nil _)).of_circuit_eq rfl

theorem setChildren_reach {chs : List Nat}
    (h : ∀ y ∈ chs, TransGen s.circuit.Edge g y) : Implied s (s.setChildren g chs) := by
  refine ⟨size_setChildren _, fun x y hy => ?_⟩
  rw [edge_iff, children_setChildren] at hy
  split_ifs at hy with hx
  · exact hx.1 ▸ h y hy
  · exact .single hy

theorem redirectParents (keep : Option Nat) {a b : Nat} (hab : TransGen s.circuit.Edge a b) :
    Implied s (s.redirectParents keep a b) := by
  refine ⟨size_redirectParents _ _ _, fun x y hy => ?_⟩
  rw [edge_iff, gate_redirectParents] at hy
  split_ifs at hy
  · exact .single hy
  · obtain ⟨z, hz, rfl⟩ := List.mem_map.1 hy
    split_ifs with hza
    · exact .head (hza ▸ hz) hab
    · exact .single hz

theorem popChildren (chs : List Nat) :
    ∀ s : BC, (∀ y ∈ chs, y ∈ (s.gate g).children) → Implied s (BC.popChildren g chs s) := by
  induction chs with
  | nil => exact fun s _ => Implied.refl s
  | cons ch rest ih =>
    intro s hchs
    have hrest : ∀ y ∈ rest, y ∈ (s.gate g).children := fun y hy => hchs y (.tail _ hy)
    rw [BC.popChildren]
    have h₁ : Implied s ((s.setChildren g rest).setLinks g (s.linkTimes g).tail) :=
      (setChildren_subset s g hrest).of_circuit_eq rfl
    refine (h₁.trans (pushIfOrphan _ ch)).trans (ih _ fun y hy => ?_)
    rw [gate_pushIfOrphan, gate_setLinks, children_setChildren]
    split_ifs
    · exact hy
    · exact hrest y hy

theorem transformIntoConstant {v : Bool} {s' : BC} (h : s.transformIntoConstant g v = some s') :
    Implied s s' := by
  unfold BC.transformIntoConstant at h
  split at h
  · cases h
  · cases h
    let f := fun gt : Gate =>
      { gt with determined := true, value := v, type := if v then .true else .false }
    refine (modify (f := f) s g fun _ => rfl).trans
      ((popChildren g _ _ fun y hy => ?_).trans (changed _ true))
    rwa [children_modify_of (f := f) _ _ _ fun _ => rfl]

end Implied

theorem Implied.setChildren_of (h : Implied s s') {chs : List Nat}
    (hchs : ∀ y ∈ chs, y ∈ (s'.gate g).children ∨ TransGen s.circuit.Edge g y) :
    Implied s (s'.setChildren g chs) := by
  refine ⟨(size_setChildren _).trans h.size_eq, fun x y hy => ?_⟩
  rw [edge_iff, children_setChildren] at hy
  split_ifs at hy with hx
  · obtain ⟨rfl, -⟩ := hx
    rcases hchs y hy with hy | hy
    · exact h.edge _ _ hy
    · exact hy
  · exact h.edge _ _ hy

theorem Implied.addChild (h : Implied s s') {y : Nat} (hy : TransGen s.circuit.Edge g y) :
    Implied s (s'.addChild g y) :=
  (h.setChildren_of fun _ hz => (List.mem_cons.1 hz).elim (fun e => .inr (e ▸ hy)) .inl).of_circuit_eq
    rfl

theorem Implied.foldl_addChild {chs : List Nat} (hchs : ∀ y ∈ chs, TransGen s.circuit.Edge g y) :
    ∀ {s' : BC}, Implied s s' → Implied s (chs.foldl (fun s ch => s.addChild g ch) s') := by
  induction chs with
  | nil => exact id
  | cons y chs ih =>
    exact fun h => ih (fun z hz => hchs z (.tail _ hz)) (h.addChild (hchs y (.head _)))

section Embeds

variable (f lvl : Nat → Nat)

/-- An installed gate stands for the gate it is installed under (`f`) and sits on a level below it
(`lvl`): the edge from `x` to `y` goes down a path of `s` between the gates they stand for, or down a
level inside one of them. -/
def Descends (s : BC) (x y : Nat) : Prop :=
  TransGen s.circuit.Edge (f x) (f y) ∨ (f x = f y ∧ lvl y < lvl x)

/-- Every edge of `s'`, a closed store, descends from `s`. -/
structure Embeds (s s' : BC) : Prop where
  closed : s'.circuit.Closed
  edge : ∀ x y, s'.circuit.Edge x y → Descends f lvl s x y

/-- The gates installed from index `n` on stand for `g`. -/
def standFor (n g x : Nat) : Nat := if n ≤ x then g else x

/-- The gates installed from index `n` on sit one level below the others. -/
def levelBelow (n x : Nat) : Nat := if n ≤ x then 0 else 1

@[simp] theorem standFor_of_lt {n g x : Nat} (h : x < n) : standFor n g x = x := if_neg (by omega)

@[simp] theorem standFor_of_le {n g x : Nat} (h : n ≤ x) : standFor n g x = g := if_pos h

@[simp] theorem levelBelow_of_lt {n x : Nat} (h : x < n) : levelBelow n x = 1 := if_neg (by omega)

@[simp] theorem levelBelow_of_le {n x : Nat} (h : n ≤ x) : levelBelow n x = 0 := if_pos h

variable {f lvl}

theorem Descends.trans {y z : Nat} (h₁ : Descends f lvl s x y) (h₂ : Descends f lvl s y z) :
    Descends f lvl s x z := by
  rcases h₁ with h₁ | ⟨e₁, l₁⟩ <;> rcases h₂ with h₂ | ⟨e₂, l₂⟩
  · exact .inl (h₁.trans h₂)
  · exact .inl (e₂ ▸ h₁)
  · exact .inl (e₁ ▸ h₂)
  · exact .inr ⟨e₁.trans e₂, l₂.trans l₁⟩

theorem Embeds.transGen (h : Embeds f lvl s s') {y : Nat} (hxy : TransGen s'.circuit.Edge x y) :
    Descends f lvl s x y := by
  induction hxy with
  | single e => exact h.edge _ _ e
  | tail _ e ih => exact ih.trans (h.edge _ _ e)

theorem Embeds.reflTransGen (h : Embeds f lvl s s') {y : Nat}
    (hxy : ReflTransGen s'.circuit.Edge x y) : ReflTransGen s.circuit.Edge (f x) (f y) := by
  rcases hxy.cases_tail with rfl | ⟨w, hxw, hwy⟩
  · exact .refl
  · rcases h.transGen (TransGen.tail' hxw hwy) with hr | ⟨he, -⟩
    · exact hr.to_reflTransGen
    · exact he ▸ .refl

theorem Embeds.acyclic (h : Embeds f lvl s s') (ha : s.circuit.Acyclic) : s'.circuit.Acyclic := by
  rw [acyclic_iff] at ha ⊢
  refine ⟨h.closed, fun ⟨x, hx⟩ => ?_⟩
  rcases h.transGen hx with hc | ⟨-, hl⟩
  · exact ha.2 ⟨_, hc⟩
  · exact lt_irrefl _ hl

theorem Embeds.refl (f lvl : Nat → Nat) (ha : s.circuit.Acyclic) (hf : ∀ x < s.size, f x = x) : Embeds f lvl s s := by
  have hcl := (acyclic_iff.1 ha).1
  refine ⟨hcl, fun x y e => .inl ?_⟩
  have hx := s.circuit.lt_size_of_edge e
  rw [hf x hx, hf y (hcl x hx y e)]
  exact .single e

theorem Embeds.of_circuit_eq (h : Embeds f lvl s s') (e : s''.circuit = s'.circuit) :
    Embeds f lvl s s'' := ⟨e ▸ h.closed, fun x y hxy => h.edge x y (e ▸ hxy)⟩

theorem Embeds.setLinks (h : Embeds f lvl s s') (g : Nat) (l : List Nat) :
    Embeds f lvl s (s'.setLinks g l) := h.of_circuit_eq rfl

theorem Embeds.tick (h : Embeds f lvl s s') (n : Nat) : Embeds f lvl s (s'.tick n) := h.of_circuit_eq rfl

theorem Embeds.implied (h : Embeds f lvl s s') (h' : Implied s' s'') : Embeds f lvl s s'' := by
  refine ⟨fun x _ y hy => ?_, fun x y e => h.transGen (h'.edge x y e)⟩
  obtain ⟨b, -, hb⟩ := TransGen.tail'_iff.1 (h'.edge x y hy)
  rw [circuit_size, h'.size_eq]
  exact h.closed b (s'.circuit.lt_size_of_edge hb) y hb

theorem Embeds.setChildren (h : Embeds f lvl s s') {l : List Nat}
    (hchs : ∀ y ∈ l, y ∈ (s'.gate g).children ∨ (y < s'.size ∧ Descends f lvl s g y)) :
    Embeds f lvl s (s'.setChildren g l) := by
  refine ⟨fun x hx y hy => ?_, fun x y hy => ?_⟩
  · simp only [circuit_gate, circuit_size, size_setChildren, children_setChildren] at hx hy ⊢
    split_ifs at hy with hxg
    · rcases hchs y hy with hy | hy
      · exact h.closed g hxg.2 y hy
      · exact hy.1
    · exact h.closed x hx y hy
  · rw [edge_iff, children_setChildren] at hy
    split_ifs at hy with hxg
    · obtain ⟨rfl, -⟩ := hxg
      rcases hchs y hy with hy | hy
      · exact h.edge _ _ hy
      · exact hy.2
    · exact h.edge _ _ hy

theorem Embeds.addChild (h : Embeds f lvl s s') {y : Nat} (hy : y < s'.size)
    (hd : Descends f lvl s g y) : Embeds f lvl s (s'.addChild g y) :=
  (h.setChildren fun _ hz => (List.mem_cons.1 hz).elim (fun e => .inr (e ▸ ⟨hy, hd⟩)) .inl).of_circuit_eq
    rfl

theorem Embeds.foldl_addChild {l : List Nat}
    (hchs : ∀ y ∈ l, y < s'.size ∧ Descends f lvl s g y) :
    Embeds f lvl s s' → Embeds f lvl s (l.foldl (fun s ch => s.addChild g ch) s') := by
  induction l generalizing s' with
  | nil => exact id
  | cons y l ih =>
    refine fun h => ih (fun z hz => ?_) (h.addChild (hchs y (.head _)).1 (hchs y (.head _)).2)
    rw [size_addChild]; exact hchs z (.tail _ hz)

theorem Embeds.append (h : Embeds f lvl s s') (gt : Gate)
    (hgt : ∀ y ∈ gt.children, y < s'.size ∧ Descends f lvl s s'.size y) :
    Embeds f lvl s (s'.append gt) := by
  refine ⟨fun x hx y hy => ?_, fun x y hy => ?_⟩
  · simp only [circuit_gate, circuit_size, size_append, gate_append] at hx hy ⊢
    split_ifs at hy with hxs
    · exact Nat.lt_succ_of_lt (hgt y hy).1
    · exact Nat.lt_succ_of_lt (h.closed x (by rw [circuit_size]; omega) y hy)
  · rw [edge_iff, gate_append] at hy
    split_ifs at hy with hxs
    · exact hxs ▸ (hgt y hy).2
    · exact h.edge _ _ hy

end Embeds

end BC

end BcSat
