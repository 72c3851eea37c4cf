import Mathlib.Algebra.Order.BigOperators.Group.Finset
import BcSat.Store
import BcSat.Acyclicity

set_option autoImplicit false

/-!
# `BC::depends_on` decides reachability

`dependsOn a b` is a depth-first search from the children of `a` with a seen list and a bound on
its steps. It answers true exactly when `b` is reached from `a` over one or more child edges: a
search that finds `b` has followed edges to it, and every step of the search either drops a gate
seen before or trades a new gate for its children, so `2 * edgeCount + 1` steps are enough to
exhaust everything `a` reaches.
-/

namespace BcSat

namespace BC

variable (s : BC)

/-- The steps a search from `todo` can still take: one per gate in `todo`, and one per child
edge of every gate of the store not seen yet. -/
def searchBudget (todo seen : List Nat) : Nat :=
  todo.length + ∑ x ∈ (Finset.range s.size).filter (· ∉ seen), (s.gate x).children.length

variable {s}

theorem searchBudget_expand {x : Nat} (todo : List Nat) {seen : List Nat} (hx : x ∉ seen) :
    s.searchBudget (x :: todo) seen =
      s.searchBudget ((s.gate x).children ++ todo) (x :: seen) + 1 := by
  unfold searchBudget
  by_cases hxs : x < s.size
  · have hmem : x ∈ (Finset.range s.size).filter (· ∉ seen) := by simp [hxs, hx]
    have herase : (Finset.range s.size).filter (· ∉ x :: seen) =
        ((Finset.range s.size).filter (· ∉ seen)).erase x := by
      ext y; simp only [Finset.mem_filter, Finset.mem_erase, List.mem_cons, not_or]; tauto
    rw [herase, ← Finset.add_sum_erase _ _ hmem]
    simp only [List.length_cons, List.length_append]
    omega
  · have hnone : (s.gate x).children = [] := by
      rw [← circuit_gate, s.circuit.gate_of_size_le (by simpa using hxs)]; rfl
    have hfilter : (Finset.range s.size).filter (· ∉ x :: seen) =
        (Finset.range s.size).filter (· ∉ seen) := by
      ext y
      simp only [Finset.mem_filter, Finset.mem_range, List.mem_cons, not_or]
      constructor
      · exact fun h => ⟨h.1, h.2.2⟩
      · exact fun h => ⟨h.1, fun hy => hxs (hy ▸ h.1), h.2⟩
    rw [hfilter, hnone, List.nil_append, List.length_cons]
    omega

theorem not_reach_of_closed {S : List Nat} {b y : Nat}
    (hS : ∀ z ∈ S, ∀ w ∈ (s.gate z).children, w ∈ S) (hb : b ∉ S) (hy : y ∈ S) :
    ¬Relation.ReflTransGen s.circuit.Edge y b := by
  have hall : ∀ w, Relation.ReflTransGen s.circuit.Edge y w → w ∈ S := fun w h => by
    induction h with
    | refl => exact hy
    | tail _ hedge ih => exact hS _ ih _ hedge
  exact fun h => hb (hall b h)

theorem searchFor_sound {b : Nat} :
    ∀ {fuel : Nat} {todo seen : List Nat}, s.searchFor b fuel todo seen = true →
      ∃ y ∈ todo, Relation.ReflTransGen s.circuit.Edge y b
  | 0, _, _, h => by simp [searchFor] at h
  | _ + 1, [], _, h => by simp [searchFor] at h
  | fuel + 1, x :: todo, seen, h => by
    unfold searchFor at h
    split_ifs at h with hxb hxs
    · exact ⟨x, List.mem_cons_self _ _, hxb ▸ .refl⟩
    · obtain ⟨y, hy, hr⟩ := searchFor_sound h
      exact ⟨y, List.mem_cons_of_mem _ hy, hr⟩
    · obtain ⟨y, hy, hr⟩ := searchFor_sound h
      rcases List.mem_append.mp hy with hy | hy
      · exact ⟨x, List.mem_cons_self _ _, .head hy hr⟩
      · exact ⟨y, List.mem_cons_of_mem _ hy, hr⟩

theorem searchFor_complete {b : Nat} :
    ∀ {fuel : Nat} {todo seen : List Nat}, s.searchBudget todo seen < fuel → b ∉ seen →
      (∀ z ∈ seen, ∀ w ∈ (s.gate z).children, w ∈ seen ∨ w ∈ todo) →
      s.searchFor b fuel todo seen = false →
      ∀ y, y ∈ todo ∨ y ∈ seen → ¬Relation.ReflTransGen s.circuit.Edge y b
  | 0, _, _, hlt, _, _, _ => absurd hlt (Nat.not_lt_zero _)
  | _ + 1, [], _, _, hb, hcl, _ => fun _ hy =>
    not_reach_of_closed (fun z hz w hw => (hcl z hz w hw).resolve_right (List.not_mem_nil _)) hb
      (hy.resolve_left (List.not_mem_nil _))
  | fuel + 1, x :: todo, seen, hlt, hb, hcl, h => by
    unfold searchFor at h
    split_ifs at h with hxb hxs
    · -- `x` was seen: it is dropped
      have hlt' : s.searchBudget todo seen < fuel := by
        simp only [searchBudget, List.length_cons] at hlt ⊢; omega
      have hcl' : ∀ z ∈ seen, ∀ w ∈ (s.gate z).children, w ∈ seen ∨ w ∈ todo := by
        intro z hz w hw
        rcases hcl z hz w hw with hw | hw
        · exact .inl hw
        · rcases List.mem_cons.mp hw with rfl | hw
          · exact .inl hxs
          · exact .inr hw
      have ih := searchFor_complete hlt' hb hcl' h
      intro y hy
      rcases hy with hy | hy
      · rcases List.mem_cons.mp hy with rfl | hy
        · exact ih y (.inr hxs)
        · exact ih y (.inl hy)
      · exact ih y (.inr hy)
    · -- `x` is new: it is seen and its children are to do
      have hlt' : s.searchBudget ((s.gate x).children ++ todo) (x :: seen) < fuel := by
        rw [searchBudget_expand todo hxs] at hlt; omega
      have hcl' : ∀ z ∈ x :: seen, ∀ w ∈ (s.gate z).children,
          w ∈ x :: seen ∨ w ∈ (s.gate x).children ++ todo := by
        intro z hz w hw
        rcases List.mem_cons.mp hz with rfl | hz
        · exact .inr (List.mem_append_left _ hw)
        · rcases hcl z hz w hw with hw | hw
          · exact .inl (List.mem_cons_of_mem _ hw)
          · rcases List.mem_cons.mp hw with rfl | hw
            · exact .inl (List.mem_cons_self _ _)
            · exact .inr (List.mem_append_right _ hw)
      have ih := searchFor_complete hlt' (List.not_mem_cons_of_ne_of_not_mem (Ne.symm hxb) hb) hcl' h
      intro y hy
      rcases hy with hy | hy
      · rcases List.mem_cons.mp hy with rfl | hy
        · exact ih y (.inr (List.mem_cons_self _ _))
        · exact ih y (.inl (List.mem_append_right _ hy))
      · exact ih y (.inr (List.mem_cons_of_mem _ hy))

theorem foldr_children_length (l : List Gate) :
    l.foldr (fun gt n => gt.children.length + n) 0 =
      ∑ x ∈ Finset.range l.length, (l.getD x Gate.none).children.length := by
  induction l with
  | nil => rfl
  | cons gt l ih =>
    rw [List.foldr_cons, ih, List.length_cons, Finset.sum_range_succ', add_comm]
    rfl

theorem edgeCount_eq : s.edgeCount = ∑ x ∈ Finset.range s.size, (s.gate x).children.length :=
  foldr_children_length s.circuit.gates

theorem searchBudget_lt_dependsOn (a : Nat) :
    s.searchBudget (s.gate a).children [] < 2 * s.edgeCount + 1 := by
  have hle : (s.gate a).children.length ≤ s.edgeCount := by
    rw [edgeCount_eq]
    by_cases ha : a < s.size
    · exact Finset.single_le_sum (f := fun x => (s.gate x).children.length)
        (fun _ _ => Nat.zero_le _) (Finset.mem_range.mpr ha)
    · rw [← circuit_gate, s.circuit.gate_of_size_le (by simpa using ha)]; exact Nat.zero_le _
  simp only [searchBudget, List.not_mem_nil, not_false_eq_true, Finset.filter_True,
    ← edgeCount_eq]
  omega

/-- `BC::depends_on(a, b)` holds exactly when `b` is reached from `a` over one or more child
edges. -/
theorem dependsOn_iff (a b : Nat) :
    s.dependsOn a b = true ↔ Relation.TransGen s.circuit.Edge a b := by
  constructor
  · intro h
    obtain ⟨y, hy, hr⟩ := searchFor_sound h
    exact .head' hy hr
  · intro h
    by_contra hf
    obtain ⟨y, hy, hr⟩ := Relation.TransGen.head'_iff.mp h
    exact searchFor_complete (searchBudget_lt_dependsOn a) (List.not_mem_nil _)
      (fun _ hz => absurd hz (List.not_mem_nil _)) (Bool.eq_false_iff.mpr hf) y (.inl hy) hr

end BC

end BcSat
