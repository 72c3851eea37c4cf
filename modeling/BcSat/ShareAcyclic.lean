import BcSat.SortChildren
import BcSat.AcyclicEdits
import BcSat.SimplifyMoves
import BcSat.NormalizeAcyclic

set_option autoImplicit false

/-!
# `Gate::share` keeps the store acyclic

`sort_children` only permutes children. A merge of `g` into the gate `e` the table returns moves
the parents of `g` to `e`, and `e` compares equal to `g`: it has the children of `g`, or it is a
constant and, in a store whose inputs and constants have no children, has none. Then `e` reaches
`g` only through a child of `g`, which would close a cycle, so the redirection is safe.

The last section puts the three calls together: `Gate::simplify`, `Gate::cnf_normalize` and
`Gate::share` keep an acyclic store acyclic when its inputs and constants have no children (and,
for `Gate::simplify`, no gate carries the mark `temp = 1`). An input over a child breaks the
`EQUIV = T` input unification.
-/

namespace BcSat

namespace BC

open Relation Circuit

variable {s s' : BC} {g e : Nat}

theorem leavesBare_of (hb : s.circuit.LeavesBare) (hsize : s'.size = s.size)
    (h : ∀ x, (s'.gate x).children ≠ [] →
      (s'.gate x).type = (s.gate x).type ∧ (s.gate x).children ≠ []) :
    s'.circuit.LeavesBare := by
  intro x hx ht
  by_contra hne
  obtain ⟨hty, hne'⟩ := h x hne
  exact hne' (hb x (by simpa [hsize] using hx) (by simpa [hty] using ht))

theorem sortChildren_implied (s : BC) (g : Nat) : Implied s (s.sortChildren g) := by
  by_cases hc : (s.gate g).type.isCommutative
  · exact (Implied.setChildren_subset s g fun _ hy => (sortIndices_perm _).subset hy).of_circuit_eq
      (by rw [circuit_sortChildren, if_pos hc])
  · exact (Implied.refl s).of_circuit_eq (by rw [circuit_sortChildren, if_neg hc])

theorem sortChildren_leavesBare (hb : s.circuit.LeavesBare) : (s.sortChildren g).circuit.LeavesBare := by
  rw [circuit_sortChildren]
  split_ifs
  · refine leavesBare_of hb (by simp) fun x hx => ?_
    rw [children_setChildren] at hx
    refine ⟨by simp [setChildren, gate_modify]; split_ifs <;> rfl, fun h => hx ?_⟩
    split_ifs with hxg
    · obtain ⟨rfl, -⟩ := hxg
      exact List.eq_nil_of_subset_nil fun y hy => h ▸ (sortIndices_perm _).subset hy
    · exact h
  · exact hb

theorem comp_eq_children (hb : s.circuit.LeavesBare) (hne : e ≠ g) (h : s.comp e g = some .eq) :
    e < s.size ∧ ((s.gate e).children = (s.gate g).children ∨ (s.gate e).children = []) := by
  have hch := (compChildren_eq_iff (s.gate e).children (s.gate g).children).1
  unfold comp at h
  dsimp only at h
  rw [if_neg hne] at h
  obtain ⟨-, h⟩ | ⟨-, h⟩ := ite_eq_iff.1 h
  · cases h
  obtain ⟨-, h⟩ | ⟨-, h⟩ := ite_eq_iff.1 h
  · cases h
  have hlt : (s.gate e).type ≠ .deleted → e < s.size := lt_size_of_type_ne_deleted
  cases ht : (s.gate e).type <;> simp only [ht] at h
  case false | true =>
    have hlt := hlt (by rw [ht]; decide)
    exact ⟨hlt, .inr (hb e hlt (by simp [ht]))⟩
  case var => split_ifs at h <;> cases h
  case threshold | atleast =>
    split_ifs at h
    all_goals first | cases h | exact ⟨hlt (by rw [ht]; decide), .inl (hch (Option.some.inj h))⟩
  case undef | deleted => cases h
  all_goals exact ⟨hlt (by rw [ht]; decide), .inl (hch (Option.some.inj h))⟩

theorem findEqual_comp : ∀ {table : List Nat}, s.findEqual g table = some (some e) →
    s.comp e g = some .eq
  | [], h => by cases h
  | h :: hs, hfind => by
    obtain ⟨o, ho, hfind⟩ := Option.bind_eq_some.1 hfind
    split_ifs at hfind with heq
    · cases hfind; rwa [← heq]
    · exact findEqual_comp hfind

theorem testAndSet_comp {table table' : List Nat} (h : s.testAndSet table g = some (e, table')) :
    e = g ∨ s.comp e g = some .eq := by
  obtain ⟨o, ho, h⟩ := Option.map_eq_some'.1 h
  cases o with
  | none => cases h; exact .inl rfl
  | some e' => cases h; exact .inr (findEqual_comp ho)

@[simp] theorem type_moveHandles (a b x : Nat) : ((s.moveHandles a b).gate x).type = (s.gate x).type := by
  simp only [moveHandles, gate_modify]; split_ifs <;> rfl

theorem mergeInto_spec (s : BC) (g e : Nat) : s.mergeInto g e = (false, s) ∨
    ∃ s₀ : BC, s₀.size = s.size ∧
      (∀ x, (s₀.gate x).children = (s.gate x).children ∧ (s₀.gate x).type = (s.gate x).type) ∧
      s.mergeInto g e = (true, { (((s₀.removeAllChildren g).redirectParents none g e).moveHandles
        g e).setType g .deleted with changed := true }) := by
  have hdet : ∀ v, ∀ x, ((s.determine e v).gate x).children = (s.gate x).children ∧
      ((s.determine e v).gate x).type = (s.gate x).type := fun v x => by
    simp only [determine, gate_modify]; split_ifs <;> exact ⟨rfl, rfl⟩
  unfold mergeInto
  dsimp only
  split_ifs
  · exact .inl rfl
  · exact .inr ⟨s, rfl, fun _ => ⟨rfl, rfl⟩, rfl⟩
  · exact .inr ⟨_, size_determine _, hdet _, rfl⟩
  · exact .inr ⟨s, rfl, fun _ => ⟨rfl, rfl⟩, rfl⟩

theorem not_reaches_of_children (ha : s.circuit.Acyclic) (hne : e ≠ g)
    (hch : (s.gate e).children = (s.gate g).children ∨ (s.gate e).children = []) :
    ¬ReflTransGen s.circuit.Edge e g := by
  intro h
  rcases h.cases_head with rfl | ⟨c, hc, hcg⟩
  · exact hne rfl
  rcases hch with hch | hch
  · rw [edge_iff, hch] at hc
    exact (acyclic_iff.1 ha).2 ⟨g, TransGen.head' hc hcg⟩
  · rw [edge_iff, hch] at hc
    exact List.not_mem_nil _ hc

theorem mergeInto_keeps (ha : s.circuit.Acyclic) (hb : s.circuit.LeavesBare) (hne : e ≠ g)
    (he : e < s.size) (hch : (s.gate e).children = (s.gate g).children ∨ (s.gate e).children = []) :
    (s.mergeInto g e).2.circuit.Acyclic ∧ (s.mergeInto g e).2.circuit.LeavesBare := by
  rcases mergeInto_spec s g e with h | ⟨s₀, hsize, hframe, h⟩
  · rw [h]; exact ⟨ha, hb⟩
  rw [h]
  have i₁ : Implied s (s₀.removeAllChildren g) :=
    (Implied.of_children_eq hsize fun x => (hframe x).1).trans (Implied.removeAllChildren _ _)
  have ha₂ := acyclic_redirectParents (i₁.acyclic ha) none (by simpa [hsize] using he)
    fun hr => not_reaches_of_children ha hne hch (i₁.reflTransGen hr)
  have hg₀ : ((s₀.removeAllChildren g).gate g).children = [] := by
    rw [removeAllChildren, gate_setLinks, children_setChildren]
    split_ifs with h'
    · rfl
    · rw [← circuit_gate, s₀.circuit.gate_of_size_le (by simp only [circuit_size]; omega)]; rfl
  refine ⟨(((Implied.moveHandles _ _ _).trans (Implied.setType _ _ _)).trans
    (Implied.changed _ _)).acyclic ha₂, leavesBare_of hb (by simp [hsize]) fun x hx => ?_⟩
  have hxg : x ≠ g := by
    rintro rfl
    simp only [gate_mk, circuit_gate, children_setType, children_moveHandles, gate_redirectParents,
      hg₀, List.map_nil, reduceCtorEq, if_false] at hx
    exact hx rfl
  have h₁ : (s₀.removeAllChildren g).gate x = s₀.gate x := gate_modify_of_ne _ (Ne.symm hxg)
  simp only [gate_mk, circuit_gate, children_setType, children_moveHandles, gate_redirectParents,
    h₁, reduceCtorEq, if_false, setType, gate_modify_of_ne _ (Ne.symm hxg), type_moveHandles,
    (hframe x).1, (hframe x).2, ne_eq, List.map_eq_nil_iff] at hx ⊢
  exact ⟨trivial, hx⟩

theorem foldlM_option_invariant {α β : Type} (P : β → Prop) {f : β → α → Option β}
    (hf : ∀ b a b', P b → f b a = some b' → P b') :
    ∀ (l : List α) {b b' : β}, P b → l.foldlM f b = some b' → P b'
  | [], _, _, hb, h => by cases h; exact hb
  | a :: l, b, _, hb, h => by
    rw [List.foldlM_cons] at h
    obtain ⟨c, hc, h⟩ := Option.bind_eq_some.1 h
    exact foldlM_option_invariant P hf l (hf b a c hb hc) h

theorem shareGate_invariant (P : BC → Prop) (hsort : ∀ s g, P s → P (s.sortChildren g))
    (hmerge : ∀ s g e, P s → e ≠ g → s.comp e g = some .eq → P (s.mergeInto g e).2) :
    ∀ (fuel g : Nat) {st : ShareState} {r : Bool × ShareState}, P st.bc →
      shareGate fuel g st = some r → P r.2.bc
  | 0, _, _, _, _, h => by cases h
  | fuel + 1, g, st, r, hst, h => by
    unfold shareGate at h
    dsimp only at h
    split_ifs at h
    · cases h; exact hst
    obtain ⟨st₁, hvisit, h⟩ := Option.bind_eq_some.1 h
    have h₁ := foldlM_option_invariant (fun st : ShareState => P st.bc)
      (fun st i st' hst hv => by
        split at hv
        · cases hv; exact hst
        · obtain ⟨r', hr', rfl⟩ := Option.map_eq_some'.1 hv
          exact shareGate_invariant P hsort hmerge fuel _ hst hr') _ hst hvisit
    obtain ⟨⟨e, table⟩, ht, h⟩ := Option.map_eq_some'.1 h
    dsimp only at h
    split_ifs at h with heg
    · cases h; exact hsort _ _ h₁
    · cases h
      exact hmerge _ _ _ (hsort _ _ h₁) heg ((testAndSet_comp ht).resolve_left heg)

/-- The same property after `BC::share`. -/
theorem share_invariant (P : BC → Prop) (hsort : ∀ s g, P s → P (s.sortChildren g))
    (hmerge : ∀ s g e, P s → e ≠ g → s.comp e g = some .eq → P (s.mergeInto g e).2) (s : BC) :
    ∀ (gs : List Nat) {st : ShareState} {r : Bool × BC}, P st.bc → share.go s gs st = some r →
      P r.2
  | [], _, _, hst, h => by cases h; exact hst
  | g :: gs, _, _, hst, h => by
    obtain ⟨⟨ok, st'⟩, hg, h⟩ := Option.bind_eq_some.1 h
    have hst' := shareGate_invariant P hsort hmerge _ g hst hg
    dsimp only at h
    split_ifs at h
    · exact share_invariant P hsort hmerge s gs hst' h
    · cases h; exact hst'

theorem shareGate_keeps : ∀ (fuel g : Nat) {st : ShareState} {r : Bool × ShareState},
    st.bc.circuit.Acyclic ∧ st.bc.circuit.LeavesBare → shareGate fuel g st = some r →
      r.2.bc.circuit.Acyclic ∧ r.2.bc.circuit.LeavesBare :=
  shareGate_invariant (fun s => s.circuit.Acyclic ∧ s.circuit.LeavesBare)
    (fun s g h => ⟨(sortChildren_implied s g).acyclic h.1, sortChildren_leavesBare h.2⟩)
    fun _ _ _ h heg hc =>
      let ⟨he, hch⟩ := comp_eq_children h.2 heg hc
      mergeInto_keeps h.1 h.2 heg he hch

theorem share_keeps (s : BC) : ∀ (gs : List Nat) {st : ShareState} {r : Bool × BC},
    st.bc.circuit.Acyclic ∧ st.bc.circuit.LeavesBare → share.go s gs st = some r →
      r.2.circuit.Acyclic ∧ r.2.circuit.LeavesBare :=
  share_invariant (fun s => s.circuit.Acyclic ∧ s.circuit.LeavesBare)
    (fun s g h => ⟨(sortChildren_implied s g).acyclic h.1, sortChildren_leavesBare h.2⟩)
    (fun _ _ _ h heg hc =>
      let ⟨he, hch⟩ := comp_eq_children h.2 heg hc
      mergeInto_keeps h.1 h.2 heg he hch) s

/-- `BC::share` keeps an acyclic store whose leaves are bare acyclic. -/
theorem share_acyclic (ha : s.circuit.Acyclic) (hb : s.circuit.LeavesBare) {r : Bool × BC}
    (h : s.share = some r) : r.2.circuit.Acyclic :=
  (share_keeps s _ ⟨ha, hb⟩ h).1

/-- One call of `Gate::simplify`, `Gate::cnf_normalize` or `Gate::share` on an acyclic store whose
inputs and constants have no children leaves it acyclic; `Gate::simplify` also needs every `temp`
off the mark `1`. `depends_on` is `BC.dependsOn`, which decides reachability (`dependsOn_iff`). -/
theorem gateCalls_keep_acyclic (ha : s.circuit.Acyclic) (hb : s.circuit.LeavesBare) :
    (NoMarks s → ∀ g preserve r, s.simplify g preserve = some r → r.2.circuit.Acyclic) ∧
    (∀ g r, s.cnfNormalize g = some r → r.2.circuit.Acyclic) ∧
    (∀ fuel g (st : ShareState) r, st.bc = s → shareGate fuel g st = some r →
      r.2.bc.circuit.Acyclic) :=
  ⟨fun hm _ _ _ h => simplify_acyclic ha hb hm h, fun _ _ h => cnfNormalize_acyclic ha h,
    fun fuel g _ _ hst h => (shareGate_keeps fuel g (hst ▸ ⟨ha, hb⟩) h).1⟩

/-- `OR(x, y)` over two inputs: acyclic, with bare leaves, and so kept acyclic by the calls. -/
theorem gateCalls_keep_acyclic_or :
    let s : BC := { circuit := ⟨[{ type := .var, children := [] }, { type := .var, children := [] },
      { type := .or, children := [0, 1] }]⟩ }
    s.circuit.Acyclic ∧ s.circuit.LeavesBare ∧
      (∀ g r, s.cnfNormalize g = some r → r.2.circuit.Acyclic) :=
  have ha : Circuit.Acyclic ⟨[{ type := .var, children := [] }, { type := .var, children := [] },
      { type := .or, children := [0, 1] }]⟩ := ⟨.ofCheck (fun g => if g = 2 then 1 else 0) (by decide)⟩
  ⟨ha, by decide, (gateCalls_keep_acyclic ha (by decide)).2.1⟩

end BC

end BcSat
