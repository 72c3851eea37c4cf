import Mathlib.Data.List.ProdSigma
import Mathlib.Data.List.Perm.Subperm
import Mathlib.Data.List.Nodup
import BcSat.NormalizeCounting

set_option autoImplicit false

/-!
# The polynomial `ATLEAST` rewriting

`ATLEAST(L)` over `n` children with `2 ≤ L < n` becomes the array `array[i][j]`, "at least `i`
of the first `j` children": the gate itself is `array[L][n]`, and the todo loop creates the
other entries it reaches. The todo loop returns within its fuel and visits a closed set of
valid entries, `(L, n)` first; every entry a visit refers to then has a slot; the visits append
the entries and the `AND`s of the general case in order; and over the equations of the new gates
the slot of `(i, j)` holds `atLeastOf i j`. With the cases of the other gate types this gives
the switch of `Gate::cnf_normalize`.
-/

namespace BcSat

section Order

variable (L n : Nat)

/-- The entries the loop can reach from `(L, n)`: `1 ≤ i ≤ j ≤ n` and `i ≤ L`. -/
def AtleastValid (e : Nat × Nat) : Prop := 1 ≤ e.1 ∧ e.1 ≤ e.2 ∧ e.2 ≤ n ∧ e.1 ≤ L

theorem atleastNext_valid {e : Nat × Nat} (he : AtleastValid L n e) :
    ∀ f ∈ atleastNext e.1 e.2, AtleastValid L n f ∧ f.2 + 1 = e.2 := by
  obtain ⟨i, j⟩ := e
  simp only [AtleastValid] at he
  unfold atleastNext
  split_ifs <;> simp [AtleastValid] <;> omega

omit L n in
theorem atleastNext_length (i j : Nat) : (atleastNext i j).length ≤ 2 := by
  unfold atleastNext; split_ifs <;> simp

theorem length_le_of_valid {es : List (Nat × Nat)} (hnd : es.Nodup)
    (hv : ∀ e ∈ es, AtleastValid L n e) : es.length ≤ (L + 1) * (n + 1) := by
  have hsub : es ⊆ List.range (L + 1) ×ˢ List.range (n + 1) := fun ⟨i, j⟩ he => by
    obtain ⟨-, -, h₁, h₂⟩ := hv _ he
    exact List.mem_product.2 ⟨List.mem_range.2 (by omega), List.mem_range.2 (by omega)⟩
  simpa [List.length_product] using (hnd.subperm hsub).length_le

theorem atleastOrder_spec : ∀ (fuel : Nat) (todo seen : List (Nat × Nat)),
    (∀ e ∈ todo, AtleastValid L n e) → (∀ e ∈ seen, AtleastValid L n e) → seen.Nodup →
    (∀ e ∈ seen, ∀ f ∈ atleastNext e.1 e.2, f ∈ seen ∨ f ∈ todo) →
    todo.length + 2 * ((L + 1) * (n + 1) - seen.length) ≤ fuel →
    ∃ new, atleastOrder fuel todo seen = some (new ++ seen).reverse ∧ (new ++ seen).Nodup ∧
      (∀ e ∈ new ++ seen, AtleastValid L n e) ∧ (∀ e ∈ todo, e ∈ new ++ seen) ∧
      ∀ e ∈ new ++ seen, ∀ f ∈ atleastNext e.1 e.2, f ∈ new ++ seen
  | _, [], seen, _, hseen, hnd, hcl, _ =>
    ⟨[], by simp [atleastOrder], hnd, hseen, by simp, fun e he f hf => by simpa using hcl e he f hf⟩
  | 0, _ :: _, _, _, _, _, _, hfuel => absurd hfuel (by simp)
  | fuel + 1, e :: todo, seen, htodo, hseen, hnd, hcl, hfuel => by
    by_cases he : e ∈ seen
    · obtain ⟨new, hrun, hnd', hv', hall, hcl'⟩ := atleastOrder_spec fuel todo seen
        (fun f hf => htodo f (List.mem_cons_of_mem _ hf)) hseen hnd
        (fun e' he' f hf => by
          rcases hcl e' he' f hf with h | h
          · exact .inl h
          · rcases List.mem_cons.1 h with rfl | h
            · exact .inl he
            · exact .inr h) (by simp only [List.length_cons] at hfuel; omega)
      refine ⟨new, by simp [atleastOrder, he, hrun], hnd', hv', fun f hf => ?_, hcl'⟩
      rcases List.mem_cons.1 hf with rfl | hf
      · exact List.mem_append_right _ he
      · exact hall f hf
    · have hv : AtleastValid L n e := htodo e (List.mem_cons_self _ _)
      have hnd₁ : (e :: seen).Nodup := List.nodup_cons.2 ⟨he, hnd⟩
      have hseen₁ : ∀ f ∈ e :: seen, AtleastValid L n f := fun f hf => by
        rcases List.mem_cons.1 hf with rfl | hf
        · exact hv
        · exact hseen f hf
      have hB := length_le_of_valid L n hnd₁ hseen₁
      have hlen := atleastNext_length e.1 e.2
      obtain ⟨new, hrun, hnd', hv', hall, hcl'⟩ := atleastOrder_spec fuel
        (atleastNext e.1 e.2 ++ todo) (e :: seen)
        (fun f hf => by
          rcases List.mem_append.1 hf with hf | hf
          · exact (atleastNext_valid L n hv f hf).1
          · exact htodo f (List.mem_cons_of_mem _ hf))
        hseen₁ hnd₁
        (fun e' he' f hf => by
          rcases List.mem_cons.1 he' with rfl | he'
          · exact .inr (List.mem_append_left _ hf)
          · rcases hcl e' he' f hf with h | h
            · exact .inl (List.mem_cons_of_mem _ h)
            · rcases List.mem_cons.1 h with rfl | h
              · exact .inl (List.mem_cons_self _ _)
              · exact .inr (List.mem_append_right _ h))
        (by simp only [List.length_append, List.length_cons] at hfuel hB ⊢; omega)
      refine ⟨new ++ [e], by simpa [atleastOrder, he] using hrun, by simpa using hnd',
        by simpa using hv', fun f hf => ?_, by simpa using hcl'⟩
      rcases List.mem_cons.1 hf with rfl | hf
      · simp
      · simpa using hall f (List.mem_append_right _ hf)

theorem atleastOrder_top (hL : 1 ≤ L) (hLn : L ≤ n) :
    ∃ rest, atleastOrder (2 * (L + 1) * (n + 1) + 1) [(L, n)] [] = some ((L, n) :: rest) ∧
      ((L, n) :: rest).Nodup ∧ (∀ e ∈ (L, n) :: rest, AtleastValid L n e) ∧
      ∀ e ∈ (L, n) :: rest, ∀ f ∈ atleastNext e.1 e.2, f ∈ (L, n) :: rest := by
  have hv : AtleastValid L n (L, n) := ⟨hL, hLn, le_rfl, le_rfl⟩
  have hlen := atleastNext_length L n
  have hB : 0 < (L + 1) * (n + 1) := Nat.mul_pos (Nat.succ_pos L) (Nat.succ_pos n)
  obtain ⟨new, hrun, hnd, hval, -, hcl⟩ := atleastOrder_spec L n (2 * (L + 1) * (n + 1))
    (atleastNext L n ++ []) [(L, n)]
    (fun f hf => (atleastNext_valid L n hv f (by simpa using hf)).1) (by simpa using hv)
    (List.nodup_singleton _) (fun e he f hf => .inr (by
      obtain rfl := List.mem_singleton.1 he; simpa using hf))
    (by rw [Nat.mul_assoc]; simp only [List.length_append, List.length_nil,
      List.length_singleton]; omega)
  refine ⟨new.reverse, ?_, ?_, fun e he => hval e (by simpa [or_comm] using he),
    fun e he f hf => by simpa [or_comm] using hcl e (by simpa [or_comm] using he) f hf⟩
  · rw [atleastOrder, if_neg (List.not_mem_nil _), hrun]; simp
  · have := List.nodup_reverse.2 hnd
    simpa using this

end Order

/-- The function of `array[i][j]`: at least `i` of the first `j` values are true. -/
def atLeastOf (vs : List Bool) (i j : Nat) : Bool := decide (i ≤ (vs.take j).count Bool.true)

theorem atLeastOf_length (vs : List Bool) (i hi : Nat) :
    atLeastOf vs i vs.length = GateType.atleast.eval i hi vs := by
  simp [atLeastOf, GateType.eval]

theorem atLeastOf_zero (vs : List Bool) (j : Nat) : atLeastOf vs 0 j = Bool.true := by
  simp [atLeastOf]

theorem atLeastOf_pred (vs : List Bool) {i : Nat} (hi : 1 ≤ i) :
    atLeastOf vs i (i - 1) = Bool.false := by
  have := (List.count_le_length Bool.true (vs.take (i - 1))).trans (List.length_take_le _ _)
  simp only [atLeastOf, decide_eq_false_iff_not, Nat.not_le]; omega

theorem atLeastOf_step (vs : List Bool) {i j : Nat} (hj : 1 ≤ j) (hjn : j ≤ vs.length) :
    atLeastOf vs i j =
      (atLeastOf vs i (j - 1) || (vs.getD (j - 1) Bool.false && atLeastOf vs (i - 1) (j - 1))) := by
  obtain ⟨k, rfl⟩ : ∃ k, j = k + 1 := ⟨j - 1, by omega⟩
  simp only [atLeastOf, Nat.add_sub_cancel, List.take_succ, List.count_append,
    List.getD_eq_getElem?_getD, List.getElem?_eq_getElem (show k < vs.length by omega),
    Option.toList_some, Option.getD_some]
  cases vs[k] <;> simp
  omega

section Layout

variable (top : Nat × Nat)

/-- The gates the visits of `es` append, in index order: the entry itself unless it is the top
entry (which is `g`), then the `AND` of the general case. -/
def atleastCells : List (Nat × Nat) → List ((Nat × Nat) × Bool)
  | [] => []
  | e :: es => ((if e = top then [] else [(e, Bool.false)]) ++
      (if atleastGeneral e.1 e.2 then [(e, Bool.true)] else [])) ++ atleastCells es

theorem atleastCells_cons (e : Nat × Nat) (es : List (Nat × Nat)) :
    atleastCells top (e :: es) = ((if e = top then [] else [(e, Bool.false)]) ++
      (if atleastGeneral e.1 e.2 then [(e, Bool.true)] else [])) ++ atleastCells top es := rfl

theorem mem_of_atleastCells {es : List (Nat × Nat)} {k : Nat} {c : (Nat × Nat) × Bool}
    (h : (atleastCells top es)[k]? = some c) : c.1 ∈ es := by
  have hc := List.getElem?_mem h
  clear h
  induction es with
  | nil => simp [atleastCells] at hc
  | cons e es ih =>
    rw [atleastCells_cons] at hc
    rcases List.mem_append.1 hc with hc | hc
    · split_ifs at hc <;> simp at hc <;> rcases hc with rfl | rfl <;> simp
    · exact List.mem_cons_of_mem _ (ih hc)

theorem atleastCells_and : ∀ {es : List (Nat × Nat)} {k : Nat} {e : Nat × Nat},
    (atleastCells top es)[k]? = some (e, Bool.false) → atleastGeneral e.1 e.2 →
      (atleastCells top es)[k + 1]? = some (e, Bool.true)
  | [], _, _, h, _ => by simp [atleastCells] at h
  | e' :: es, k, e, h, hgen => by
    rw [atleastCells_cons] at h ⊢
    by_cases htop : e' = top
    · rw [if_pos htop] at h ⊢
      by_cases hgen' : atleastGeneral e'.1 e'.2
      · rw [if_pos hgen'] at h ⊢
        rcases k with _ | k
        · simp at h
        · rw [List.nil_append, List.singleton_append, List.getElem?_cons_succ] at h
          rw [List.nil_append, List.singleton_append, List.getElem?_cons_succ]
          exact atleastCells_and h hgen
      · rw [if_neg hgen', List.append_nil, List.nil_append] at h ⊢
        exact atleastCells_and h hgen
    · rw [if_neg htop] at h ⊢
      by_cases hgen' : atleastGeneral e'.1 e'.2
      · rw [if_pos hgen'] at h ⊢
        rcases k with _ | _ | k
        · simp only [List.singleton_append, List.cons_append, List.getElem?_cons_zero,
            Option.some.injEq, Prod.mk.injEq] at h
          obtain ⟨rfl, -⟩ := h
          simp
        · simp at h
        · simp only [List.singleton_append, List.cons_append, List.nil_append, List.getElem?_cons_succ] at h ⊢
          exact atleastCells_and h hgen
      · rw [if_neg hgen'] at h ⊢
        rcases k with _ | k
        · simp only [List.append_nil, List.singleton_append, List.getElem?_cons_zero,
            Option.some.injEq, Prod.mk.injEq] at h
          obtain ⟨rfl, -⟩ := h
          exact absurd hgen hgen'
        · simp only [List.append_nil, List.singleton_append, List.getElem?_cons_succ] at h ⊢
          exact atleastCells_and h hgen

theorem atleastCells_general {es : List (Nat × Nat)} {m : Nat} {e : Nat × Nat}
    (h : (atleastCells top es)[m]? = some (e, Bool.true)) : atleastGeneral e.1 e.2 := by
  have hc := List.getElem?_mem h
  clear h
  induction es with
  | nil => simp [atleastCells] at hc
  | cons e' es ih =>
    rw [atleastCells_cons] at hc
    rcases List.mem_append.1 hc with hc | hc
    · have hmem : (e, Bool.true) ∈ (if atleastGeneral e'.1 e'.2 then [(e', Bool.true)] else []) := by
        rcases List.mem_append.1 hc with h | h
        · split_ifs at h <;> simp at h
        · exact h
      split_ifs at hmem with hgen
      · obtain rfl : e = e' := by simpa using hmem
        exact hgen
      · simp at hmem
    · exact ih hc

variable (g : Nat)

theorem atleastSlots_mem : ∀ {es : List (Nat × Nat)} {next : Nat} {p : (Nat × Nat) × Nat},
    p ∈ atleastSlots top g next es → (p.1 = top ∧ p.2 = g) ∨
      (p.1 ≠ top ∧ ∃ m, p.2 = next + m ∧ (atleastCells top es)[m]? = some (p.1, Bool.false))
  | [], _, _, h => by simp [atleastSlots] at h
  | e :: es, next, p, h => by
    unfold atleastSlots at h
    dsimp only at h
    rw [atleastCells_cons]
    by_cases htop : e = top
    · rw [if_pos htop] at h ⊢
      rcases List.mem_cons.1 h with rfl | h
      · exact .inl ⟨htop, rfl⟩
      rcases atleastSlots_mem h with h | ⟨h₁, m, h₂, h₃⟩
      · exact .inl h
      by_cases hgen : atleastGeneral e.1 e.2
      · rw [if_pos hgen] at h₂ ⊢
        exact .inr ⟨h₁, m + 1, by omega, by simpa using h₃⟩
      · rw [if_neg hgen] at h₂ ⊢
        exact .inr ⟨h₁, m, by omega, by simpa using h₃⟩
    · rw [if_neg htop] at h ⊢
      rcases List.mem_cons.1 h with rfl | h
      · exact .inr ⟨htop, 0, rfl, by simp⟩
      rcases atleastSlots_mem h with h | ⟨h₁, m, h₂, h₃⟩
      · exact .inl h
      by_cases hgen : atleastGeneral e.1 e.2
      · rw [if_pos hgen] at h₂ ⊢
        exact .inr ⟨h₁, m + 2, by omega, by simpa using h₃⟩
      · rw [if_neg hgen] at h₂ ⊢
        exact .inr ⟨h₁, m + 1, by omega, by simpa using h₃⟩

theorem atleastSlots_some : ∀ {es : List (Nat × Nat)} {next : Nat} {e : Nat × Nat},
    e ∈ es → ∃ p ∈ atleastSlots top g next es, p.1 = e
  | [], _, _, h => absurd h (List.not_mem_nil _)
  | e' :: es, next, e, h => by
    unfold atleastSlots
    dsimp only
    rcases List.mem_cons.1 h with rfl | h
    · split_ifs <;> exact ⟨_, List.mem_cons_self _ _, rfl⟩
    · split_ifs <;> obtain ⟨p, hp, hpe⟩ := atleastSlots_some h <;>
        exact ⟨p, List.mem_cons_of_mem _ hp, hpe⟩

/-- The slot lookup of `atleastRewrite`: the slot the layout gives an entry. -/
def atleastSlot (next : Nat) (es : List (Nat × Nat)) (e : Nat × Nat) : Option Nat :=
  ((atleastSlots top g next es).find? fun q => q.1 = e).map Prod.snd

theorem atleastSlot_spec (next : Nat) {es : List (Nat × Nat)} {e : Nat × Nat} (he : e ∈ es) :
    ∃ p, atleastSlot top g next es e = some p ∧
      ((e = top ∧ p = g) ∨
        (e ≠ top ∧ ∃ m, p = next + m ∧ (atleastCells top es)[m]? = some (e, Bool.false))) := by
  unfold atleastSlot
  cases hfind : (atleastSlots top g next es).find? fun q => q.1 = e with
  | none =>
    obtain ⟨p, hp, hpe⟩ := @atleastSlots_some top g es next e he
    exact absurd hpe (by simpa using List.find?_eq_none.1 hfind p hp)
  | some q =>
    have hq := List.mem_of_find?_eq_some hfind
    have hqe : q.1 = e := by simpa using List.find?_some hfind
    refine ⟨q.2, rfl, ?_⟩
    rw [← hqe]
    exact atleastSlots_mem top g hq

end Layout

theorem atleastEntry_isSome {slot : Nat × Nat → Option Nat} {i j : Nat} (x a : Nat)
    (h : ∀ f ∈ atleastNext i j, (slot f).isSome) : (atleastEntry slot i j x a).isSome := by
  unfold atleastEntry
  unfold atleastNext at h
  split_ifs at h ⊢ <;> simp_all

theorem mem_atleastNext_of_general {i j : Nat} (h : atleastGeneral i j) :
    (i - 1, j - 1) ∈ atleastNext i j := by
  simp only [atleastGeneral, Bool.and_eq_true, decide_eq_true_eq] at h
  simp [atleastNext, h.1, h.2]

/-- The gate a cell holds once installed at index `idx`: an entry has the type and children of
`atleastEntry`, with its `AND` at `idx + 1`; the `AND` of the general case is
`AND(xⱼ, array[i-1][j-1])`. -/
def atleastCellGate (chs : List Nat) (slot : Nat × Nat → Option Nat) (idx : Nat) :
    (Nat × Nat) × Bool → Option Gate
  | ((i, j), Bool.false) => (atleastEntry slot i j (chs.getD (j - 1) 0) (idx + 1)).map
      fun (t, kids) => { type := t, children := kids, temp := 1 }
  | ((i, j), Bool.true) => (slot (i - 1, j - 1)).map
      fun p => { type := .and, children := [chs.getD (j - 1) 0, p] }

namespace BC

theorem atleastBuild_spec (chs : List Nat) (top : Nat × Nat) (g : Nat)
    (slot : Nat × Nat → Option Nat) : ∀ (es : List (Nat × Nat)) (t : BC), top ∉ es →
    (∀ e ∈ es, 1 ≤ e.2 ∧ e.2 ≤ chs.length) →
    (∀ e ∈ es, ∀ f ∈ atleastNext e.1 e.2, (slot f).isSome) →
    ∃ t', t.atleastBuild chs top g slot es = some t' ∧
      t'.size = t.size + (atleastCells top es).length ∧ (∀ x < t.size, t'.gate x = t.gate x) ∧
      ∀ k c, (atleastCells top es)[k]? = some c →
        atleastCellGate chs slot (t.size + k) c = some (t'.gate (t.size + k))
  | [], t, _, _, _ =>
    ⟨t, rfl, by simp [atleastCells], fun _ _ => rfl, fun k c h => by simp [atleastCells] at h⟩
  | (i, j) :: es, t, htop, hj, hslot => by
    have hne : (i, j) ≠ top := fun h => htop (h ▸ List.mem_cons_self _ _)
    have htop' : top ∉ es := fun h => htop (List.mem_cons_of_mem _ h)
    obtain ⟨hj₁, hj₂⟩ := hj (i, j) (List.mem_cons_self _ _)
    have hx : chs[j - 1]? = some (chs.getD (j - 1) 0) := by
      rw [List.getD_eq_getElem?_getD, List.getElem?_eq_getElem (by omega)]; rfl
    obtain ⟨⟨ty, kids⟩, hentry⟩ := Option.isSome_iff_exists.1
      (atleastEntry_isSome (chs.getD (j - 1) 0) (t.size + 1) (hslot _ (List.mem_cons_self _ _)))
    dsimp only at hentry hj₁ hj₂
    have hj' : ∀ e ∈ es, 1 ≤ e.2 ∧ e.2 ≤ chs.length := fun e he => hj e (List.mem_cons_of_mem _ he)
    have hslot' : ∀ e ∈ es, ∀ f ∈ atleastNext e.1 e.2, (slot f).isSome :=
      fun e he => hslot e (List.mem_cons_of_mem _ he)
    have hentry' : atleastCellGate chs slot (t.size + 0) ((i, j), Bool.false) =
        some { type := ty, children := kids, temp := 1 } := by
      simp only [atleastCellGate, Nat.add_zero, hentry, Option.map_some']
    by_cases hgen : atleastGeneral i j
    · obtain ⟨p, hp⟩ := Option.isSome_iff_exists.1
        (hslot _ (List.mem_cons_self _ _) _ (mem_atleastNext_of_general hgen))
      obtain ⟨t', hrun, hsize, hframe, hcells⟩ := atleastBuild_spec chs top g slot es
        ((((((t.append { type := ty, children := kids, temp := 1 }).addInPstack t.size).append
          { type := .and, children := [chs.getD (j - 1) 0, p] }).addInPstack (t.size + 1)).setLinks
          t.size [t.clock + 4, t.clock + 3]).setLinks (t.size + 1) [t.clock + 2, t.clock + 1])
        htop' hj' hslot'
      simp only [size_setLinks, size_addInPstack, size_append, gate_setLinks] at hsize hframe hcells
      refine ⟨t', ?_, ?_, fun x hx => ?_, fun k c hc => ?_⟩
      · simp only [atleastBuild, hx, Option.some_bind, if_neg hne, hentry, installGate_eq,
          if_pos hgen, hp, Option.map_some', size_addInPstack, size_append]
        exact hrun
      · simp [hsize, atleastCells_cons, hne, hgen]; omega
      · rw [hframe x (by omega)]; simp [gate_append, show x ≠ t.size by omega,
          show x ≠ t.size + 1 by omega]
      · simp only [atleastCells_cons, if_neg hne, if_pos hgen, List.singleton_append,
          List.cons_append, List.nil_append] at hc
        rcases k with _ | _ | k
        · simp only [List.getElem?_cons_zero, Option.some.injEq] at hc
          subst hc
          rw [hentry', hframe _ (by omega)]; simp
        · simp only [List.getElem?_cons_succ, List.getElem?_cons_zero, Option.some.injEq] at hc
          subst hc
          rw [hframe _ (by omega)]; simp [atleastCellGate, hp, gate_append]
        · have := hcells k c (by simpa using hc)
          rwa [show t.size + 1 + 1 + k = t.size + (k + 1 + 1) by omega] at this
    · obtain ⟨t', hrun, hsize, hframe, hcells⟩ := atleastBuild_spec chs top g slot es
        ((t.append { type := ty, children := kids, temp := 1 }).addInPstack t.size)
        htop' hj' hslot'
      simp only [size_addInPstack, size_append] at hsize hframe hcells
      refine ⟨t', ?_, ?_, fun x hx => ?_, fun k c hc => ?_⟩
      · simp only [atleastBuild, hx, Option.some_bind, if_neg hne, hentry, installGate_eq,
          if_neg hgen, size_addInPstack, size_append]
        exact hrun
      · simp [hsize, atleastCells_cons, hne, hgen]; omega
      · rw [hframe x (by omega)]; simp [gate_append, show x ≠ t.size by omega]
      · simp only [atleastCells_cons, if_neg hne, if_neg hgen, List.append_nil,
          List.singleton_append] at hc
        rcases k with _ | k
        · simp only [List.getElem?_cons_zero, Option.some.injEq] at hc
          subst hc
          rw [hentry', hframe _ (by omega)]; simp
        · have := hcells k c (by simpa using hc)
          rwa [show t.size + 1 + k = t.size + (k + 1) by omega] at this

variable {s : BC} {g : Nat}

/-- The store the polynomial rewriting of `ATLEAST(L)` over `chs` leaves: the loop visits
`(L, n)` first, `g` becomes `OR(array[L][n-1], a)` with `a` the `AND` at the first new index, the
other cells of the layout follow, and no other gate changes. -/
theorem atleastRewrite_layout {chs : List Nat} {L : Nat} (hg : g < s.size)
    (hchs : (s.gate g).children = chs) (hL : (s.gate g).tmin = L) (h2 : 2 ≤ L)
    (hlt : L < chs.length) :
    ∃ rest s', s.atleastRewrite g = some (true, s') ∧
      ((L, chs.length) :: rest).Nodup ∧
      (∀ e ∈ (L, chs.length) :: rest, AtleastValid L chs.length e) ∧
      (∀ e ∈ (L, chs.length) :: rest, ∀ f ∈ atleastNext e.1 e.2, f ∈ (L, chs.length) :: rest) ∧
      s'.size = s.size + (atleastCells (L, chs.length) ((L, chs.length) :: rest)).length ∧
      (∀ x < s.size, x ≠ g → s'.gate x = s.gate x) ∧
      (∃ p, atleastSlot (L, chs.length) g s.size ((L, chs.length) :: rest)
          (L, chs.length - 1) = some p ∧
        s'.gate g = { s.gate g with type := .or, children := [p, s.size], temp := 1 }) ∧
      ∀ m c, (atleastCells (L, chs.length) ((L, chs.length) :: rest))[m]? = some c →
        atleastCellGate chs (atleastSlot (L, chs.length) g s.size ((L, chs.length) :: rest))
          (s.size + m) c = some (s'.gate (s.size + m)) := by
  obtain ⟨rest, horder, hnd, hvalid, hclosed⟩ := atleastOrder_top L chs.length (by omega) hlt.le
  have hgen : atleastGeneral L chs.length := by simp [atleastGeneral]; omega
  have hslot : ∀ e ∈ (L, chs.length) :: rest, ∃ p,
      atleastSlot (L, chs.length) g s.size ((L, chs.length) :: rest) e = some p :=
    fun e he => (atleastSlot_spec _ g _ he).imp fun _ h => h.1
  obtain ⟨pL, hpL⟩ := hslot (L, chs.length - 1) (hclosed _ (List.mem_cons_self _ _) _
    (by simp [atleastNext, show L ≠ chs.length by omega, show L ≠ 1 by omega]))
  obtain ⟨pA, hpA⟩ := hslot _ (hclosed _ (List.mem_cons_self _ _) _
    (mem_atleastNext_of_general hgen))
  have htop : (L, chs.length) ∉ rest := (List.nodup_cons.1 hnd).1
  have hx : chs[chs.length - 1]? = some (chs.getD (chs.length - 1) 0) := by
    rw [List.getD_eq_getElem?_getD, List.getElem?_eq_getElem (by omega)]; rfl
  obtain ⟨s', hrun, hsize, hframe, hcells⟩ := atleastBuild_spec chs (L, chs.length) g
    (atleastSlot (L, chs.length) g s.size ((L, chs.length) :: rest)) rest
    ((((((((s.removeAllChildren g).modify g
      fun gt => { gt with type := .or, children := [pL, s.size], temp := 1 }).setLinks g
        [s.clock + 2, s.clock + 1]).tick 2).append
        { type := .and, children := [chs.getD (chs.length - 1) 0, pA] }).addInPstack s.size).setLinks
        g [s.clock + 4, s.clock + 3]).setLinks s.size [s.clock + 2, s.clock + 1]) htop
    (fun e he => by
      obtain ⟨h₁, h₂, h₃, -⟩ := hvalid e (List.mem_cons_of_mem _ he); omega)
    (fun e he f hf => Option.isSome_iff_exists.2
      (hslot f (hclosed e (List.mem_cons_of_mem _ he) f hf)))
  simp only [size_setLinks, size_tick, size_addInPstack, size_append, size_modify,
    size_removeAllChildren] at *
  have hgN : g ≠ s.size := Nat.ne_of_lt hg
  refine ⟨rest, s', ?_, hnd, hvalid, hclosed, ?_, fun x hx hxg => ?_, ⟨pL, hpL, ?_⟩,
    fun m c hc => ?_⟩
  · unfold atleastRewrite
    simp only [hchs, hL]
    rw [horder, Option.some_bind, atleastBuild]
    unfold atleastSlot at hpL hpA hrun
    simp only [hx, Option.some_bind, if_true, size_removeAllChildren, atleastEntry,
      if_neg (show L ≠ chs.length by omega), if_neg (show L ≠ 1 by omega), hpL, hpA, hgen,
      Option.map_some', installGate_eq, size_modify, size_setLinks, size_tick]
    exact congrArg (Option.map fun s => (true, s)) hrun
  · simp [hsize, atleastCells_cons, hgen]; omega
  · rw [hframe x (by omega)]
    simp [gate_append, hx.ne, removeAllChildren, setChildren, Ne.symm hxg]
  · rw [hframe g (by omega)]
    simp [gate_append, hgN, removeAllChildren, setChildren, hg]
  · rw [atleastCells_cons, if_pos rfl, if_pos hgen, List.nil_append, List.singleton_append] at hc
    rcases m with _ | m
    · simp only [List.getElem?_cons_zero, Option.some.injEq] at hc
      subst hc
      rw [hframe _ (by omega)]
      simp [atleastCellGate, hpA, gate_append]
    · have := hcells m c (by simpa using hc)
      rwa [show s.size + 1 + m = s.size + (m + 1) by omega] at this

end BC

theorem getD_map_of_lt {σ : Nat → Bool} {chs : List Nat} {k : Nat} (hk : k < chs.length) :
    (chs.map σ).getD k Bool.false = σ (chs.getD k 0) := by
  rw [List.getD_eq_getElem _ _ (by simpa using hk), List.getD_eq_getElem _ _ hk, List.getElem_map]

section Forced

variable {s' : BC} {chs : List Nat} {L : Nat} {rest : List (Nat × Nat)} {g base : Nat}
  {σ : Nat → Bool}
  (hvalid : ∀ e ∈ (L, chs.length) :: rest, AtleastValid L chs.length e)
  (hclosed : ∀ e ∈ (L, chs.length) :: rest, ∀ f ∈ atleastNext e.1 e.2,
    f ∈ (L, chs.length) :: rest)
  (hcells : ∀ m c, (atleastCells (L, chs.length) ((L, chs.length) :: rest))[m]? = some c →
    atleastCellGate chs (atleastSlot (L, chs.length) g base ((L, chs.length) :: rest))
      (base + m) c = some (s'.gate (base + m)))
  (hsize : base + (atleastCells (L, chs.length) ((L, chs.length) :: rest)).length ≤ s'.size)
  (hσ : ∀ y, base ≤ y → y < s'.size → s'.circuit.GateOk σ y)

include hcells hsize hσ in
theorem atleast_forced_and {m : Nat} {e : Nat × Nat}
    (hm : (atleastCells (L, chs.length) ((L, chs.length) :: rest))[m]? = some (e, Bool.true))
    {p : Nat} (hp : atleastSlot (L, chs.length) g base ((L, chs.length) :: rest)
      (e.1 - 1, e.2 - 1) = some p) :
    σ (base + m) = (σ (chs.getD (e.2 - 1) 0) && σ p) := by
  have hlt := (List.getElem?_eq_some_iff.1 hm).1
  have hgate := hcells m _ hm
  obtain ⟨i, j⟩ := e
  simp only [atleastCellGate, hp, Option.map_some', Option.some.injEq] at hgate
  have h := (hσ (base + m) (Nat.le_add_right _ _) (by omega)).eval
    (by simp [← hgate, GateType.Live]) (by simp [← hgate])
  simpa [← hgate, Bool.and_comm] using h

include hvalid hclosed hcells hsize hσ in
theorem atleast_forced : ∀ (j : Nat) (f : Nat × Nat), f ∈ (L, chs.length) :: rest → f.2 = j →
    f ≠ (L, chs.length) → ∀ p, atleastSlot (L, chs.length) g base ((L, chs.length) :: rest) f =
      some p → σ p = atLeastOf (chs.map σ) f.1 f.2 := by
  intro j
  induction j using Nat.strong_induction_on with
  | _ j ih =>
  intro f hf hfj hftop p hp
  obtain ⟨i, j'⟩ := f
  simp only at hfj
  subst j'
  obtain ⟨hi₁, hij, hjn, -⟩ := hvalid _ hf
  -- the referenced entries are visited, of the previous column, and not the top
  have hprev : ∀ f' ∈ atleastNext i j, ∀ p', atleastSlot (L, chs.length) g base
      ((L, chs.length) :: rest) f' = some p' → σ p' = atLeastOf (chs.map σ) f'.1 f'.2 :=
    fun f' hf' p' hp' => by
      have h₁ := (atleastNext_valid L chs.length (hvalid _ hf) f' hf').2
      exact ih f'.2 (by simp at h₁; omega) f' (hclosed _ hf f' hf') rfl
        (fun h => by rw [h] at h₁; simp at h₁; omega) p' hp'
  obtain ⟨p', hp', hspec⟩ := atleastSlot_spec (L, chs.length) g base hf
  obtain rfl : p = p' := Option.some.inj (hp.symm.trans hp')
  rcases hspec with ⟨h, -⟩ | ⟨-, m, rfl, hm⟩
  · exact absurd h hftop
  have hlt := (List.getElem?_eq_some_iff.1 hm).1
  obtain ⟨⟨ty, kids⟩, hentry, hgate⟩ := Option.map_eq_some'.1 (hcells m _ hm)
  have hx : (chs.map σ).getD (j - 1) Bool.false = σ (chs.getD (j - 1) 0) :=
    getD_map_of_lt (by omega)
  have hstep := atLeastOf_step (chs.map σ) (i := i) (show 1 ≤ j by omega)
    (by simpa using hjn)
  rw [hx] at hstep
  have heval : ty.Live → ty ≠ .var →
      σ (base + m) = ty.eval 0 0 (kids.map σ) := fun hl hv => by
    have h := (hσ (base + m) (Nat.le_add_right _ _) (by omega)).eval
      (by simp [← hgate, hl]) (by simp [← hgate, hv])
    simpa [← hgate] using h
  simp only [atleastEntry] at hentry
  split_ifs at hentry with h₁ h₂ h₃
  · -- `(1,1)`: `REF(x₁)`
    cases hentry
    subst h₁; subst h₂
    rw [heval (by decide) (by decide), hstep, atLeastOf_pred _ le_rfl, atLeastOf_zero]
    simp
  · -- `(i,i)`: `AND(array[i-1][i-1], xᵢ)`
    obtain ⟨q, hq, hq'⟩ := Option.map_eq_some'.1 hentry
    cases hq'
    subst h₁
    rw [heval (by decide) (by decide), hstep, atLeastOf_pred _ hi₁]
    simp only [List.map_cons, List.map_nil, GateType.eval_and_two]
    rw [hprev _ (by simp [atleastNext, h₂]) q hq]
    simp [Bool.and_comm]
  · -- `(1,j)`: `OR(array[1][j-1], xⱼ)`
    obtain ⟨q, hq, hq'⟩ := Option.map_eq_some'.1 hentry
    cases hq'
    subst h₃
    rw [heval (by decide) (by decide), hstep, atLeastOf_zero]
    simp only [List.map_cons, List.map_nil, GateType.eval_or_two]
    rw [hprev _ (by simp [atleastNext, h₁]) q hq]
    simp
  · -- general: `OR(array[i][j-1], AND(xⱼ, array[i-1][j-1]))`
    obtain ⟨q, hq, hq'⟩ := Option.map_eq_some'.1 hentry
    cases hq'
    have hgen : atleastGeneral i j := by simp [atleastGeneral, h₁, h₃]
    obtain ⟨q', hq'⟩ := Option.isSome_iff_exists.1 (show (atleastSlot (L, chs.length) g base
      ((L, chs.length) :: rest) (i - 1, j - 1)).isSome by
        obtain ⟨r, hr, -⟩ := atleastSlot_spec (L, chs.length) g base
          (hclosed _ hf _ (mem_atleastNext_of_general hgen))
        simp [hr])
    have hand := atleast_forced_and hcells hsize hσ (atleastCells_and _ hm hgen) hq'
    rw [heval (by decide) (by decide), hstep]
    simp only [List.map_cons, List.map_nil, GateType.eval_or_two]
    rw [hprev _ (by simp [atleastNext, h₁, h₃]) q hq, show base + m + 1 = base + (m + 1) by omega,
      hand, hprev _ (mem_atleastNext_of_general hgen) q' hq']

end Forced

namespace BC

variable {s : BC} {g : Nat}

/-- The rank of a cell: an entry of column `j` ranks `2j`, its `AND` `2j - 1`, so that every
child of a new gate ranks lower. -/
def atleastCellRank : (Nat × Nat) × Bool → Nat
  | ((_, j), b) => if b then 2 * j - 1 else 2 * j

@[simp] theorem atleastCellRank_entry (i j : Nat) : atleastCellRank ((i, j), false) = 2 * j := rfl

@[simp] theorem atleastCellRank_and (i j : Nat) : atleastCellRank ((i, j), true) = 2 * j - 1 := rfl

/-- The rank of index `y` in the cells appended at `base`; the gates before them rank `0`. -/
def atleastRank (cells : List ((Nat × Nat) × Bool)) (base y : Nat) : Nat :=
  if y < base then 0 else atleastCellRank (cells.getD (y - base) ((0, 0), false))

theorem atleastRank_old {cells : List ((Nat × Nat) × Bool)} {base y : Nat} (hy : y < base) :
    atleastRank cells base y = 0 := if_pos hy

theorem atleastRank_cell {cells : List ((Nat × Nat) × Bool)} {base m : Nat}
    {c : (Nat × Nat) × Bool} (hc : cells[m]? = some c) :
    atleastRank cells base (base + m) = atleastCellRank c := by
  simp [atleastRank, List.getD_eq_getElem?_getD, hc]

section Rank

variable {s' : BC} {chs : List Nat} {L : Nat} {rest : List (Nat × Nat)} {base : Nat}
  (hvalid : ∀ e ∈ (L, chs.length) :: rest, AtleastValid L chs.length e)
  (hclosed : ∀ e ∈ (L, chs.length) :: rest, ∀ f ∈ atleastNext e.1 e.2,
    f ∈ (L, chs.length) :: rest)
  (hcells : ∀ m c, (atleastCells (L, chs.length) ((L, chs.length) :: rest))[m]? = some c →
    atleastCellGate chs (atleastSlot (L, chs.length) g base ((L, chs.length) :: rest))
      (base + m) c = some (s'.gate (base + m)))

include hvalid in
theorem atleastCellRank_pos {m : Nat} {c : (Nat × Nat) × Bool}
    (hc : (atleastCells (L, chs.length) ((L, chs.length) :: rest))[m]? = some c) :
    0 < atleastCellRank c := by
  obtain ⟨⟨i, j⟩, b⟩ := c
  have hv := hvalid _ (mem_of_atleastCells _ hc)
  simp only [AtleastValid] at hv
  cases b <;> simp only [atleastCellRank_entry, atleastCellRank_and] <;> omega

include hvalid hclosed in
theorem atleastSlot_pushed {e f : Nat × Nat} (he : e ∈ (L, chs.length) :: rest)
    (hf : f ∈ atleastNext e.1 e.2) {p : Nat}
    (hp : atleastSlot (L, chs.length) g base ((L, chs.length) :: rest) f = some p) :
    base ≤ p ∧ p < base + (atleastCells (L, chs.length) ((L, chs.length) :: rest)).length ∧
      atleastRank (atleastCells (L, chs.length) ((L, chs.length) :: rest)) base p + 2 =
        2 * e.2 := by
  have hfe := (atleastNext_valid L chs.length (hvalid e he) f hf).2
  have hen := (hvalid e he).2.2.1
  obtain ⟨p', hp', hspec⟩ := atleastSlot_spec (L, chs.length) g base (hclosed e he f hf)
  obtain rfl : p = p' := Option.some.inj (hp.symm.trans hp')
  rcases hspec with ⟨rfl, -⟩ | ⟨-, m, rfl, hm⟩
  · simp only at hfe; omega
  · obtain ⟨fi, fj⟩ := f
    refine ⟨Nat.le_add_right _ _, by have := (List.getElem?_eq_some_iff.1 hm).1; omega, ?_⟩
    rw [atleastRank_cell hm, atleastCellRank_entry]
    simp only at hfe; omega

include hvalid hclosed hcells in
theorem atleastCell_children {m : Nat} {c : (Nat × Nat) × Bool}
    (hc : (atleastCells (L, chs.length) ((L, chs.length) :: rest))[m]? = some c) {ch : Nat}
    (hch : ch ∈ (s'.gate (base + m)).children) :
    ch ∈ chs ∨ (base ≤ ch ∧
      ch < base + (atleastCells (L, chs.length) ((L, chs.length) :: rest)).length ∧
      atleastRank (atleastCells (L, chs.length) ((L, chs.length) :: rest)) base ch <
        atleastCellRank c) := by
  have hgate := hcells m c hc
  obtain ⟨⟨i, j⟩, b⟩ := c
  have he : (i, j) ∈ (L, chs.length) :: rest := mem_of_atleastCells _ hc
  have hv := hvalid _ he
  simp only [AtleastValid] at hv
  obtain ⟨hi₁, hij, hjn, -⟩ := hv
  have hx : chs.getD (j - 1) 0 ∈ chs := by
    rw [List.getD_eq_getElem _ _ (by omega)]; exact List.getElem_mem _
  -- a slot read from the previous column ranks below both cells of column `j`
  have hprev : ∀ f ∈ atleastNext i j, ∀ q, atleastSlot (L, chs.length) g base
      ((L, chs.length) :: rest) f = some q → base ≤ q ∧
        q < base + (atleastCells (L, chs.length) ((L, chs.length) :: rest)).length ∧
        atleastRank (atleastCells (L, chs.length) ((L, chs.length) :: rest)) base q <
          atleastCellRank ((i, j), b) := fun f hf q hq => by
    obtain ⟨h₁, h₂, h₃⟩ := atleastSlot_pushed hvalid hclosed he hf hq
    refine ⟨h₁, h₂, ?_⟩
    dsimp only at h₃
    cases b <;> simp only [atleastCellRank_entry, atleastCellRank_and] <;> omega
  cases b
  · obtain ⟨⟨ty, kids⟩, hentry, hg'⟩ := Option.map_eq_some'.1 hgate
    rw [← hg'] at hch
    simp only [atleastEntry] at hentry
    split_ifs at hentry with h₁ h₂ h₃
    · -- `(1,1)`: `REF(x₁)`
      cases hentry
      exact .inl (List.mem_singleton.1 hch ▸ hx)
    · -- `(i,i)`: `AND(array[i-1][i-1], xᵢ)`
      obtain ⟨q, hq, hq'⟩ := Option.map_eq_some'.1 hentry
      cases hq'
      rcases List.mem_pair.1 hch with rfl | rfl
      · exact .inr (hprev _ (by rw [atleastNext, if_pos h₁, if_neg h₂]; simp) _ hq)
      · exact .inl hx
    · -- `(1,j)`: `OR(array[1][j-1], xⱼ)`
      obtain ⟨q, hq, hq'⟩ := Option.map_eq_some'.1 hentry
      cases hq'
      rcases List.mem_pair.1 hch with rfl | rfl
      · exact .inr (hprev _ (by rw [atleastNext, if_neg h₁, if_pos h₃]; simp) _ hq)
      · exact .inl hx
    · -- general: `OR(array[i][j-1], AND(xⱼ, array[i-1][j-1]))`
      obtain ⟨q, hq, hq'⟩ := Option.map_eq_some'.1 hentry
      cases hq'
      rcases List.mem_pair.1 hch with rfl | rfl
      · exact .inr (hprev _ (by rw [atleastNext, if_neg h₁, if_neg h₃]; simp) _ hq)
      · have hand := atleastCells_and _ hc (by simp [atleastGeneral, h₁, h₃])
        refine .inr ⟨by omega, by have := (List.getElem?_eq_some_iff.1 hand).1; omega, ?_⟩
        rw [show base + m + 1 = base + (m + 1) by omega, atleastRank_cell hand]
        simp only [atleastCellRank_entry, atleastCellRank_and]; omega
  · -- the `AND` of the general case: `AND(xⱼ, array[i-1][j-1])`
    have hgen := atleastCells_general _ hc
    obtain ⟨q, hq, hg'⟩ := Option.map_eq_some'.1 hgate
    rw [← hg'] at hch
    rcases List.mem_pair.1 hch with rfl | rfl
    · exact .inl hx
    · exact .inr (hprev _ (mem_atleastNext_of_general hgen) _ hq)

end Rank

/-- The polynomial rewriting of `ATLEAST(L)` over `n` children, `2 ≤ L < n`, returns and keeps
the evaluations: the new gates take their values in the order of their ranks, and over their
equations `g = OR(array[L][n-1], AND(xₙ, array[L-1][n-1]))` is `ATLEAST(L)`. -/
theorem atleastRewrite_ok (hcl : s.circuit.Closed) (hg : g < s.size)
    (ht : (s.gate g).type = .atleast) (h2 : 2 ≤ (s.gate g).tmin)
    (hlt : (s.gate g).tmin < (s.gate g).children.length) :
    ∃ s', s.atleastRewrite g = some (true, s') ∧ s.circuit.SameEvaluations s'.circuit id := by
  obtain ⟨chs, hchs⟩ : ∃ chs, (s.gate g).children = chs := ⟨_, rfl⟩
  obtain ⟨L, hL⟩ : ∃ L, (s.gate g).tmin = L := ⟨_, rfl⟩
  rw [hchs, hL] at hlt
  rw [hL] at h2
  obtain ⟨rest, s', hrun, -, hvalid, hclosed, hsize, hframe, ⟨pL, hpL, hG⟩, hcells⟩ :=
    atleastRewrite_layout hg hchs hL h2 hlt
  refine ⟨s', hrun, ?_⟩
  have hchs' : ∀ x ∈ chs, x < s.size := fun x hx => hcl g hg x (hchs ▸ hx)
  -- every new gate is a cell
  have hnewcell : ∀ y, s.size ≤ y → y < s'.size → ∃ m c, y = s.size + m ∧
      (atleastCells (L, chs.length) ((L, chs.length) :: rest))[m]? = some c := fun y hy hy' => by
    refine ⟨y - s.size, _, by omega, List.getElem?_eq_getElem (by omega)⟩
  refine Circuit.SameEvaluations.expand g hg hcl (by simp only [BC.circuit_size, hsize]; omega)
    (fun x hx hxg => hframe x hx hxg) (by simp [hG])
    (atleastRank (atleastCells (L, chs.length) ((L, chs.length) :: rest)) s.size)
    (fun y hy hy' ch hch => ?_) (fun y hy hy' => ?_) fun σ hσ => ?_
  · obtain ⟨m, c, rfl, hc⟩ := hnewcell y hy hy'
    rw [atleastRank_cell hc]
    rcases atleastCell_children hvalid hclosed hcells hc hch with hch | ⟨-, -, hlt⟩
    · rw [atleastRank_old (hchs' ch hch)]
      exact atleastCellRank_pos hvalid hc
    · exact hlt
  · obtain ⟨m, ⟨⟨i, j⟩, b⟩, rfl, hc⟩ := hnewcell y hy hy'
    have hgate := hcells m _ hc
    simp only [BC.circuit_gate]
    cases b
    · obtain ⟨_, -, hg'⟩ := Option.map_eq_some'.1 hgate
      rw [← hg']
    · obtain ⟨_, -, hg'⟩ := Option.map_eq_some'.1 hgate
      rw [← hg']
  · -- over the new equations `g = OR(array[L][n-1], AND(xₙ, array[L-1][n-1]))` is `ATLEAST(L)`
    have hgen : atleastGeneral L chs.length := by simp [atleastGeneral]; omega
    have hc0 : (atleastCells (L, chs.length) ((L, chs.length) :: rest))[0]? =
        some ((L, chs.length), Bool.true) := by
      rw [atleastCells_cons, if_pos rfl, if_pos hgen]; simp
    have hmemL := hclosed _ (List.mem_cons_self _ _) (L, chs.length - 1)
      (by rw [atleastNext, if_neg (by omega), if_neg (by omega)]; simp)
    have hmemA := hclosed _ (List.mem_cons_self _ _) _ (mem_atleastNext_of_general hgen)
    obtain ⟨pA, hpA, -⟩ := atleastSlot_spec (L, chs.length) g s.size hmemA
    have hσ' : ∀ y, s.size ≤ y → y < s'.size → s'.circuit.GateOk σ y := hσ
    have hne : ∀ i, (i, chs.length - 1) ≠ (L, chs.length) := fun i h => by
      simp only [Prod.mk.injEq] at h; omega
    have hand := atleast_forced_and hcells hsize.ge hσ' hc0 hpA
    have hfL := atleast_forced hvalid hclosed hcells hsize.ge hσ' _ _ hmemL rfl (hne L) pL hpL
    have hfA := atleast_forced hvalid hclosed hcells hsize.ge hσ' _ _ hmemA rfl (hne (L - 1)) pA hpA
    simp only [BC.circuit_gate, hG, hchs]
    refine Gate.holds_iff_of_eval (by simp [GateType.Live]) (by simp [ht, GateType.Live])
      (by simp) (by simp [ht]) (by rfl) (by rfl) ?_
    rw [Nat.add_zero] at hand
    simp only [List.map_cons, List.map_nil, GateType.eval_or_two, hfL, hfA, hand, ht, hL]
    rw [← atLeastOf_length _ _ (s.gate g).tmax, atLeastOf_step _ (i := L) (by simp; omega) le_rfl,
      List.length_map, getD_map_of_lt (by omega)]

theorem atleastRetype_ok (hg : g < s.size) (ht : (s.gate g).type = .atleast) {t : GateType}
    (hl : t.Live) (hv : t ≠ .var)
    (heval : ∀ vs : List Bool, vs.length = (s.gate g).children.length →
      t.eval 0 (s.gate g).tmax vs = GateType.atleast.eval (s.gate g).tmin (s.gate g).tmax vs) :
    NormalizeOk s.circuit (true, ((s.setType g t).setTmin g 0).addInPstack g) := by
  have hgate : ∀ x, ((s.setType g t).setTmin g 0).gate x =
      if x = g then { s.gate g with type := t, tmin := 0 } else s.gate x := fun x => by
    by_cases hx : x = g
    · subst hx; simp [setType, setTmin, hg]
    · simp [setType, setTmin, hx, Ne.symm hx]
  refine normalizeOk_true (ρ := id) ?_
  rw [circuit_addInPstack]
  refine sameEvaluations_retype g (by simp [setType, setTmin]) (fun x hx => by simp [hgate, hx])
    (by simp [hgate]) (by simp [hgate]) (by simp [hgate]) (by simp [hgate]) (by simpa [hgate])
    (by rw [ht]; decide) (by simpa [hgate]) (by rw [ht]; decide) fun vs hvs => ?_
  simpa [hgate, ht] using heval vs hvs

theorem normalizeAtleast_ok (hcl : s.circuit.Closed) (hg : g < s.size)
    (ht : (s.gate g).type = .atleast) {res : Bool × BC} (h : s.normalizeAtleast g = some res) :
    NormalizeOk s.circuit res := by
  have hl : (s.gate g).type.Live := by rw [ht]; decide
  have hv : (s.gate g).type ≠ .var := by rw [ht]; decide
  have hreset : ∀ s' : BC, g < s'.size → (s'.gate g).type ≠ .threshold →
      (s'.gate g).type ≠ .atleast → s'.circuit.SameEvaluations (s'.setTmin g 0).circuit id :=
    fun _ hg' h₁ h₂ => sameEvaluations_setTmin hg' h₁ h₂ 0
  have hcount := fun σ : Nat → Bool =>
    (List.count_le_length Bool.true ((s.gate g).children.map σ)).trans_eq (List.length_map _ _)
  dsimp only [normalizeAtleast] at h
  split_ifs at h with h0 h1 h2 h3
  · obtain ⟨⟨ok, s'⟩, h', rfl⟩ := Option.map_eq_some'.1 h
    exact normalizeToConstant_reset_ok hcl hg hl hv (fun σ => by simp [ht, GateType.eval, h0])
      _ hreset h'
  · obtain ⟨⟨ok, s'⟩, h', rfl⟩ := Option.map_eq_some'.1 h
    exact normalizeToConstant_reset_ok hcl hg hl hv (fun σ => by
      have := hcount σ; simp only [ht, GateType.eval, decide_eq_false_iff_not]; omega) _ hreset h'
  · cases h
    exact atleastRetype_ok hg ht (by decide) (by decide) fun vs _ => by
      simp [GateType.eval, h2, Nat.one_le_iff_ne_zero, Nat.pos_iff_ne_zero]
  · cases h
    exact atleastRetype_ok hg ht (by decide) (by decide) fun vs hvs => by
      have := count_true_add_count_false vs
      simp only [GateType.eval, h3, ← hvs]
      exact Bool.eq_iff_iff.2 (by simp only [beq_iff_eq, decide_eq_true_eq]; omega)
  · obtain ⟨s', hrun, hsame⟩ := atleastRewrite_ok hcl hg ht (by omega) (by omega)
    rw [hrun] at h
    cases h
    exact normalizeOk_true hsame

end BC

end BcSat
