import BcSat.SimplifyKeepsParity
import Mathlib.Data.Bool.Count

set_option autoImplicit false

/-!
# One call of `Gate::simplify` loses no solution

The `EQUIV` case reads the value of a determined child, or, when the gate is determined true,
makes its children one: an input child becomes a `REF` to a sibling and the other parents of
every child move to the least one. The `ATLEAST` case drops the determined children, lowering
the bound for each true one. With the cases of the other modules this covers every call but
that on a `THRESHOLD` gate, whose duplicate counting loses solutions
(`simplify_threshold_duplicate_child`).
-/

namespace BcSat

theorem GateType.eval_equiv_of_true_mem {vs : List Bool} (h : Bool.true ∈ vs) (lo hi lo' hi' : Nat) :
    GateType.equiv.eval lo hi vs = GateType.and.eval lo' hi' vs := by
  by_cases hf : Bool.false ∈ vs
  · simp [GateType.eval, List.count_pos_iff.2 h, hf, (List.count_pos_iff.2 hf).ne']
  · simp [GateType.eval, List.count_eq_zero.2 hf]

theorem GateType.eval_equiv_of_false_mem {vs : List Bool} (h : Bool.false ∈ vs) (lo hi lo' hi' : Nat) :
    GateType.equiv.eval lo hi vs = !GateType.or.eval lo' hi' vs := by
  simp [GateType.eval, List.count_pos_iff.2 h]

theorem GateType.eq_of_eval_equiv {lo hi : Nat} {vs : List Bool}
    (h : GateType.equiv.eval lo hi vs = Bool.true) {a b : Bool} (ha : a ∈ vs) (hb : b ∈ vs) : a = b := by
  cases a <;> cases b <;> first | rfl | (exfalso; simp [GateType.eval, List.count_pos_iff, ha, hb] at h)

namespace Circuit.Consistent

open BC

variable {s s' : BC} {g : Nat} {σ : Nat → Bool}

theorem install (hσ : s.circuit.Consistent σ) (hs : s.circuit.Shaped) (hg : g < s.size) {σ' : Nat → Bool}
    (hag : ∀ x < s.size, σ' x = σ x) (hframe : ∀ x < s.size, x ≠ g → s'.gate x = s.gate x)
    (hdet : (s'.gate g).determined = (s.gate g).determined) (hval : (s'.gate g).value = (s.gate g).value)
    (hlive : (s'.gate g).type.Live → (s.gate g).type.Live)
    (heval : (s'.gate g).type.Live → (s'.gate g).type ≠ .var →
      σ g = (s'.gate g).type.eval (s'.gate g).tmin (s'.gate g).tmax ((s'.gate g).children.map σ'))
    (hnew : ∀ x < s'.size, s.size ≤ x → s'.circuit.GateOk σ' x) : s'.circuit.Consistent σ' := by
  intro x hx
  by_cases hxn : s.size ≤ x
  · exact hnew x hx hxn
  push_neg at hxn
  rw [gateOk_iff, circuit_gate]
  by_cases hxg : x = g
  · subst hxg
    refine fun hl => ⟨fun hv => by rw [hag x hg]; exact heval hl hv, fun hd => ?_⟩
    rw [hag x hg, hval]
    exact (hσ x hg (hlive hl)).2 (hdet ▸ hd)
  · rw [hframe x hxn hxg]
    intro hl
    have hmap : (s.gate x).children.map σ' = (s.gate x).children.map σ := List.map_congr_left
      fun ch hch => hag ch (lt_size_of_live (c := s.circuit) ((hs x hxn hl).1 ch hch))
    rw [hmap, hag x hxn]
    exact hσ x hxn hl

theorem foldl_redirectParents (keep : Option Nat) {b : Nat} :
    ∀ (xs : List Nat) (s : BC), (∀ x ∈ xs, σ x = σ b) → s.circuit.Consistent σ →
      (xs.foldl (fun t x => t.redirectParents keep x b) s).circuit.Consistent σ
  | [], _, _, hσ => hσ
  | x :: xs, _, hx, hσ => foldl_redirectParents keep xs _ (fun y hy => hx y (.tail _ hy))
    (hσ.redirectParents keep (hx x (.head _)))

end Circuit.Consistent

namespace BC

open Circuit

variable {s : BC} {g : Nat}

@[simp] theorem size_foldl_redirectParents (keep : Option Nat) (b : Nat) :
    ∀ (xs : List Nat) (s : BC), (xs.foldl (fun t x => t.redirectParents keep x b) s).size = s.size
  | [], _ => rfl
  | x :: xs, s => by rw [List.foldl_cons, size_foldl_redirectParents keep b xs]; simp

theorem firstDetermined_eq_some : ∀ {chs : List Nat} {ch : Nat}, s.firstDetermined chs = some ch →
    ch ∈ chs ∧ (s.gate ch).determined = true
  | [], _, h => nomatch h
  | c :: chs, ch, h => by
    unfold firstDetermined at h
    split_ifs at h with hd
    · cases h; exact ⟨.head _, hd⟩
    · exact ⟨.tail _ (firstDetermined_eq_some h).1, (firstDetermined_eq_some h).2⟩

theorem leastChild_mem : ∀ (chs : List Nat) (cand : Nat), s.leastChild cand chs ∈ cand :: chs
  | [], _ => .head _
  | ch :: chs, cand => by
    unfold leastChild
    split_ifs
    · exact .tail _ (leastChild_mem chs ch)
    · rcases List.mem_cons.1 (leastChild_mem chs cand) with e | e
      · rw [e]; exact .head _
      · exact .tail _ (.tail _ e)

theorem gate_notOverOr (hg : g < s.size) (chs l : List Nat) (x : Nat) :
    ((((((((((s.append { type := .or, children := [] }).setChildren s.size chs.reverse).setChildren g
      []).setLinks s.size l).setLinks g []).setType g .not).addChild g s.size).addParentsInPstack
      g).addInPstack g).addInPstack s.size).gate x =
      if x = g then { s.gate g with type := .not, children := [s.size] }
      else if x = s.size then { type := .or, children := chs.reverse } else s.gate x := by
  have hg₁ : g < s.size + 1 := by omega
  by_cases hx : x = g
  · subst hx; simp [hg, hg₁, Nat.ne_of_lt hg, (Nat.ne_of_lt hg).symm]
  · simp only [gate_addInPstack, gate_addParentsInPstack, gate_addChild_of_ne _ (Ne.symm hx),
      gate_setType_of_ne _ (Ne.symm hx), gate_setLinks, gate_setChildren_of_ne _ (Ne.symm hx), if_neg hx]
    by_cases hxn : x = s.size
    · subst hxn; simp
    · simp [hxn, Ne.symm hxn, gate_append]

theorem equivDetermined_keeps (hs : s.circuit.Shaped) (hg : g < s.size) (ht : (s.gate g).type = .equiv)
    {ch : Nat} (hch : ch ∈ (s.gate g).children) (hd : (s.gate ch).determined = true) :
    Keeps s (true, if (s.gate ch).value then ((s.setType g .and).addParentsInPstack g).addInPstack g
      else (((((((((s.append { type := .or, children := [] }).setChildren s.size
        (s.gate g).children.reverse).setChildren g []).setLinks s.size
        ((s.append { type := .or, children := [] }).linkTimes g).reverse).setLinks g []).setType g
        .not).addChild g s.size).addParentsInPstack g).addInPstack g).addInPstack s.size) := by
  have hl : (s.gate g).type.Live := by rw [ht]; decide
  have hcl : (s.gate ch).type.Live := (hs g hg hl).1 ch hch
  have hlt : ∀ x ∈ (s.gate g).children, x < s.size := fun x hx =>
    lt_size_of_live (c := s.circuit) ((hs g hg hl).1 x hx)
  have hmem : ∀ σ, s.circuit.Consistent σ → (s.gate ch).value ∈ (s.gate g).children.map σ :=
    fun σ hσ => consistent_det hσ (hlt ch hch) hcl hd ▸ List.mem_map_of_mem σ hch
  have hval : ∀ σ, s.circuit.Consistent σ →
      σ g = GateType.equiv.eval (s.gate g).tmin (s.gate g).tmax ((s.gate g).children.map σ) :=
    fun σ hσ => by rw [consistent_eval hσ hg hl (by rw [ht]; decide), ht]
  split_ifs with hv
  · -- a true child: `EQUIV(T,x,y,z) = AND(T,x,y,z)`
    refine .of_consistent (by simp) fun σ hσ => ⟨rfl, ?_⟩
    rw [circuit_addInPstack, circuit_addParentsInPstack]
    refine hσ.gateAt (.setType .and) (fun _ => hl) fun _ _ _ => ?_
    rw [hval σ hσ, gate_setType_self _ hg, GateType.eval_equiv_of_true_mem (hv ▸ hmem σ hσ)]
  · -- a false child: `EQUIV(F,x,y,z) = NOT(OR(F,x,y,z))`
    have hgate := gate_notOverOr hg (s.gate g).children
      ((s.append { type := .or, children := [] }).linkTimes g).reverse
    refine ⟨by simp, fun σ hσ => ⟨rfl, Function.update σ s.size
      (GateType.or.eval 0 0 ((s.gate g).children.map σ)), ?_, fun x hx => Function.update_noteq hx.ne _ _⟩⟩
    have hmap : ((s.gate g).children.map fun x =>
        Function.update σ s.size (GateType.or.eval 0 0 ((s.gate g).children.map σ)) x) =
        (s.gate g).children.map σ := List.map_congr_left fun x hx => Function.update_noteq (hlt x hx).ne _ _
    refine hσ.install hs hg (fun x hx => Function.update_noteq hx.ne _ _)
      (fun x hx hxg => by rw [hgate, if_neg hxg, if_neg hx.ne]) (by rw [hgate, if_pos rfl]) (by rw [hgate, if_pos rfl])
      (fun _ => hl) (fun _ _ => ?_) fun x hx hxn => ?_
    · rw [hgate, if_pos rfl]
      simp only [List.map_cons, List.map_nil, Function.update_same, GateType.eval_not_one]
      rw [hval σ hσ, GateType.eval_equiv_of_false_mem (by simpa [hv] using hmem σ hσ)]
    · obtain rfl : x = s.size := by dsimp only at hx; simp at hx; omega
      rw [gateOk_iff, circuit_gate, hgate, if_neg (Nat.ne_of_lt hg).symm, if_pos rfl]
      refine fun _ => ⟨fun _ => ?_, nofun⟩
      rw [Function.update_same, List.map_reverse, hmap,
        GateType.eval_reverse (show GateType.or ≠ .ite by decide)]

theorem unifyInputs_spec (g : Nat) {L : List Nat} : ∀ (rest : List Nat) (s : BC) (prev first : Option Nat)
    (unified : Bool), (∀ x ∈ rest, x ∈ L) → (∀ p ∈ prev, p ∈ L) → (∀ f ∈ first, f ∈ L) →
    (∀ x ∈ L, (s.gate x).type.Live) → (s.gate g).type ≠ .var → s.circuit.LeavesBare →
    s.circuit.Shaped →
    (∀ r, unifyInputs g prev first unified rest s = .inl (some r) →
      r.1 = true ∧ r.2.size = s.size ∧ r.2.circuit.Shaped ∧
      ∀ σ : Nat → Bool, (∀ x ∈ L, ∀ y ∈ L, σ x = σ y) → s.circuit.Consistent σ → r.2.circuit.Consistent σ) ∧
    ∀ o, unifyInputs g prev first unified rest s = .inr o →
      o.2.2.size = s.size ∧ o.2.2.circuit.Shaped ∧ o.2.2.circuit.LeavesBare ∧ o.2.2.gate g = s.gate g ∧
      ∀ σ : Nat → Bool, (∀ x ∈ L, ∀ y ∈ L, σ x = σ y) → s.circuit.Consistent σ → o.2.2.circuit.Consistent σ
  | [], s, _, first, unified, _, _, _, _, _, hb, hs =>
    ⟨fun _ h => Sum.noConfusion h, fun _ h => by cases h; exact ⟨rfl, hs, hb, rfl, fun _ _ => id⟩⟩
  | ch :: rest, s, prev, first, unified, hrest, hprev, hfirst, hlive, hgv, hb, hs => by
    have hchL : ch ∈ L := hrest ch (.head _)
    have hchl := hlive ch hchL
    have hch : ch < s.size := lt_size_of_live (c := s.circuit) hchl
    have hrest' : ∀ x ∈ rest, x ∈ L := fun x hx => hrest x (.tail _ hx)
    -- the input `ch` made a `REF` to a child `o`
    have retype : ∀ o ∈ L, (s.gate ch).type = .var →
        ((s.setType ch .ref).addChild ch o).circuit.Shaped ∧
        ((s.setType ch .ref).addChild ch o).circuit.LeavesBare ∧
        (((s.setType ch .ref).addChild ch o).gate ch).type = .ref ∧
        (∀ x ≠ ch, ((s.setType ch .ref).addChild ch o).gate x = s.gate x) ∧
        ∀ σ : Nat → Bool, (∀ x ∈ L, ∀ y ∈ L, σ x = σ y) → s.circuit.Consistent σ →
          ((s.setType ch .ref).addChild ch o).circuit.Consistent σ :=
      fun o ho hv => by
        have hc : (s.gate ch).children = [] := hb ch hch (.inl hv)
        have hgate := gate_retypeLeaf hch hc .ref o
        exact ⟨shaped_retypeLeaf hs hch hc (by decide) (hlive o ho),
          (OnlyAt.of_gate (g := ch) fun x hx => by rw [hgate, if_neg hx]).leavesBare hb
            (by simp [hgate]), by simp [hgate], fun x hx => by rw [hgate, if_neg hx],
          fun σ hL hσ => hσ.retypeLeaf hch hc hchl fun _ _ => by simp [hL ch hchL o ho]⟩
    unfold unifyInputs
    split_ifs with hv hp
    · exact unifyInputs_spec g rest s _ first unified hrest' (fun p hp => by cases hp; exact hchL)
        hfirst hlive hgv hb hs
    · -- an input with a single parent becomes a `REF` to its neighbour
      refine ⟨fun r h => ?_, fun _ h => by simp at h⟩
      obtain ⟨o, hother, h⟩ := Option.bind_eq_some.1 (Sum.inl.inj h)
      split_ifs at h with hoc
      cases h
      have hoL : o ∈ L := by
        split at hother
        · cases hother; exact hrest _ (.tail _ (.head _))
        · exact hprev o hother
      obtain ⟨h₁, -, -, -, h₂⟩ := retype o hoL (not_not.1 hv)
      exact ⟨rfl, by simp, by simpa using h₁, fun σ hL hσ => by simpa using h₂ σ hL hσ⟩
    · -- a shared input: the first is kept, the others become `REF`s to it
      split
      · exact unifyInputs_spec g rest s _ _ unified hrest' (fun p hp => by cases hp; exact hchL)
          (fun f hf => by cases hf; exact hchL) hlive hgv hb hs
      next f =>
        obtain ⟨h₁, h₂, h₃, h₄, h₅⟩ := retype f (hfirst f rfl) (not_not.1 hv)
        have hg : ((s.setType ch .ref).addChild ch f).gate g = s.gate g :=
          h₄ g fun e => hgv (e ▸ not_not.1 hv)
        have hlive' : ∀ x ∈ L, (((s.setType ch .ref).addChild ch f).gate x).type.Live := fun x hx => by
          by_cases hxc : x = ch
          · rw [hxc, h₃]; decide
          · rw [h₄ x hxc]; exact hlive x hx
        obtain ⟨k₁, k₂⟩ := unifyInputs_spec g rest (((s.setType ch .ref).addChild ch f).addInPstack ch)
          (some ch) (some f) true hrest' (fun p hp => by cases hp; exact hchL) hfirst (by simpa using hlive')
          (by simpa [hg] using hgv) (by simpa using h₂) (by simpa using h₁)
        refine ⟨fun r h => ?_, fun o h => ?_⟩
        · obtain ⟨e₁, e₂, e₃, e₄⟩ := k₁ r h
          exact ⟨e₁, by simpa using e₂, e₃, fun σ hL hσ => e₄ σ hL (by simpa using h₅ σ hL hσ)⟩
        · obtain ⟨e₁, e₂, e₃, e₄, e₅⟩ := k₂ o h
          exact ⟨by simpa using e₁, e₂, e₃, by simpa [hg] using e₄,
            fun σ hL hσ => e₅ σ hL (by simpa using h₅ σ hL hσ)⟩

theorem equivTrue_eq (hg : g < s.size) (ht : (s.gate g).type = .equiv)
    (hd : ((s.gate g).determined && (s.gate g).value) = true) {σ : Nat → Bool}
    (hσ : s.circuit.Consistent σ) : ∀ x ∈ (s.gate g).children, ∀ y ∈ (s.gate g).children, σ x = σ y := by
  have hl : (s.gate g).type.Live := by rw [ht]; decide
  simp only [Bool.and_eq_true] at hd
  have hv := (consistent_det hσ hg hl hd.1).symm.trans (consistent_eval hσ hg hl (by rw [ht]; decide))
  rw [hd.2, ht] at hv
  exact fun x hx y hy => GateType.eq_of_eval_equiv hv.symm (List.mem_map_of_mem σ hx)
    (List.mem_map_of_mem σ hy)

theorem moveToLeast_keeps (hg : g < s.size) (ht : (s.gate g).type = .equiv)
    (hd : ((s.gate g).determined && (s.gate g).value) = true) {c : Nat} {cs : List Nat}
    (hcs : (s.gate g).children = c :: cs) (moved : Bool) :
    Keeps s (true, if moved then (((c :: cs).filter (· ≠ s.leastChild c cs)).foldl
        (fun t x => t.redirectParents (some g) x (s.leastChild c cs)) s).addParentsInPstack
        (s.leastChild c cs)
      else ((c :: cs).filter (· ≠ s.leastChild c cs)).foldl
        (fun t x => t.redirectParents (some g) x (s.leastChild c cs)) s) := by
  refine .of_consistent (by split_ifs <;> simp) fun σ hσ => ⟨rfl, ?_⟩
  have heq := equivTrue_eq hg ht hd hσ
  rw [hcs] at heq
  have hf := Circuit.Consistent.foldl_redirectParents (some g) (b := s.leastChild c cs)
    ((c :: cs).filter (· ≠ s.leastChild c cs)) s
    (fun x hx => heq x (List.mem_filter.1 hx).1 _ (s.leastChild_mem cs c)) hσ
  split_ifs
  · simpa using hf
  · exact hf

theorem simplifyEquiv_keeps (hs : s.circuit.Shaped) (hm : NoMarks s) (hb : s.circuit.LeavesBare)
    (ht : (s.gate g).type = .equiv) {r : Bool × BC} (h : s.simplifyEquiv g = some r) : Keeps s r := by
  have hl : (s.gate g).type.Live := by rw [ht]; decide
  have hg : g < s.size := lt_size_of_live (c := s.circuit) hl
  unfold simplifyEquiv at h
  split at h
  · cases h
  · -- one child: the gate is true
    rename_i c hc
    exact becomeConstant_keeps hl h fun σ hσ => by
      rw [consistent_eval hσ hg hl (by rw [ht]; decide), ht, hc, List.map_singleton]
      cases σ c <;> rfl
  split at h
  next ch hfd =>
    obtain ⟨hch, hd⟩ := firstDetermined_eq_some hfd
    have k := equivDetermined_keeps hs hg ht hch hd
    simp only [installGate_eq] at h
    split_ifs at h with hv <;> cases h <;> simpa [hv] using k
  next hfd =>
    obtain ⟨⟨ok, s₁⟩, h₁, h⟩ := Option.bind_eq_some.1 h
    have k₁ := removeGNotGAndDuplicateChildren_keeps hm hs (.inr (.inr ht)) h₁
    dsimp only at h
    obtain ⟨hok, h₂⟩ | ⟨hok, h₂⟩ := ite_eq_iff.1 h
    · cases h₂; rwa [show ok = false by simpa using hok] at k₁
    obtain rfl : ok = true := by simpa using hok
    clear h
    obtain ⟨-, h₃⟩ | ⟨-, h⟩ := ite_eq_iff.1 h₂
    · cases h₃; exact k₁
    obtain ⟨-, h₄⟩ | ⟨ht₁, h⟩ := ite_eq_iff.1 h
    · cases h₄; exact k₁
    -- `g` is still an `EQUIV`: only the order and repetitions of its children changed
    replace ht₁ : (s₁.gate g).type = .equiv := not_not.1 ht₁
    have e₁ : SameSetAt g s s₁ := by
      rcases removeGNotGAndDuplicateChildren_spec hm (.inr (.inr ht)) h₁ with ⟨-, e⟩ | ⟨-, s₃, e, h₃⟩
      · exact e
      · rcases becomeConstant_type (e.size_eq ▸ hg) h₃ with e | e <;> rw [e] at ht₁ <;> cases ht₁
    have hs₁ : s₁.circuit.Shaped := e₁.shaped hs (.inr (.inr ht))
    have hb₁ : s₁.circuit.LeavesBare :=
      (GateAt.of_childrenAt e₁.toChildrenAt).toOnlyAt.leavesBare hb (by rw [ht₁]; decide)
    have hg₁ : g < s₁.size := e₁.size_eq ▸ hg
    have hl₁ : (s₁.gate g).type.Live := by rw [ht₁]; decide
    obtain ⟨hdv, h⟩ | ⟨-, h⟩ := ite_eq_iff.1 h
    · -- `EQUIV(...) = T`: input unification, then the moves to the least child
      have moves : ∀ s₂ : BC, s₂.gate g = s₁.gate g → s₂.size = s₁.size →
          (match (s₂.gate g).children with
            | [] => none
            | c :: cs =>
              some (true, if (((c :: cs).filter (· ≠ s₂.leastChild c cs)).any
                  fun x => (s₂.parents x).any (· ≠ g))
                then (((c :: cs).filter (· ≠ s₂.leastChild c cs)).foldl
                  (fun t x => t.redirectParents (some g) x (s₂.leastChild c cs)) s₂).addParentsInPstack
                  (s₂.leastChild c cs)
                else ((c :: cs).filter (· ≠ s₂.leastChild c cs)).foldl
                  (fun t x => t.redirectParents (some g) x (s₂.leastChild c cs)) s₂)) = some r →
          Keeps s₂ r := fun s₂ hgate hsize h => by
        split at h
        · cases h
        next c cs hcs =>
          cases h
          exact moveToLeast_keeps (hsize ▸ hg₁) (by rw [hgate, ht₁]) (by rw [hgate]; exact hdv) hcs _
      have hL : ∀ x ∈ (s₁.gate g).children, (s₁.gate x).type.Live := fun x hx => (hs₁ g hg₁ hl₁).1 x hx
      by_cases hmay : s₁.mayTransformInputGates = true
      · rw [if_pos hmay] at h
        obtain ⟨hu₁, hu₂⟩ := unifyInputs_spec g (L := (s₁.gate g).children) _ s₁ none none false
          (fun _ => id) (fun _ h => nomatch h) (fun _ h => nomatch h) hL (by rw [ht₁]; decide) hb₁ hs₁
        split at h
        next r' heq =>
          subst h
          split at heq
          next _ hr =>
            cases heq
            obtain ⟨e₁, e₂, -, e₄⟩ := hu₁ _ hr
            exact k₁.trans ⟨e₂.ge, fun σ hσ => ⟨e₁, σ, e₄ σ (equivTrue_eq hg₁ ht₁ hdv hσ) hσ,
              fun _ _ => rfl⟩⟩
          next _ f s₂ hr =>
            cases heq
            obtain ⟨e₁, -, -, -, e₅⟩ := hu₂ _ hr
            exact k₁.trans (.of_consistent (by simp [e₁]) fun σ hσ =>
              ⟨rfl, by simpa using e₅ σ (equivTrue_eq hg₁ ht₁ hdv hσ) hσ⟩)
          next => cases heq
        next s₂ heq =>
          split at heq
          next => cases heq
          next => cases heq
          next _ _ _ _ hr =>
            cases heq
            obtain ⟨e₁, -, -, e₄, e₅⟩ := hu₂ _ hr
            exact (k₁.trans (Keeps.of_consistent (r := (true, _)) e₁.ge fun σ hσ =>
              ⟨rfl, e₅ σ (equivTrue_eq hg₁ ht₁ hdv hσ) hσ⟩)).trans (moves _ e₄ e₁ h)
      · rw [if_neg hmay] at h
        exact k₁.trans (moves s₁ rfl rfl h)
    obtain ⟨hdf, h⟩ | ⟨-, h⟩ := ite_eq_iff.1 h
    · -- `EQUIV(x,y) = F` is `EVEN(x,y)`: both say the two children are equal
      cases h
      obtain ⟨a, b, hab⟩ := List.length_eq_two.1
        (show (s₁.gate g).children.length = 2 by revert hdf; simp only [Bool.and_eq_true, decide_eq_true_eq]; exact And.right)
      refine k₁.trans (.of_consistent (by simp) fun σ hσ => ⟨rfl, ?_⟩)
      rw [circuit_addInPstack, circuit_addParentsInPstack]
      refine hσ.gateAt (.setType .even) (fun _ => hl₁) fun _ _ _ => ?_
      rw [gate_setType_self _ hg₁, consistent_eval hσ hg₁ hl₁ (by rw [ht₁]; decide), ht₁, hab]
      simp
    · cases h; exact k₁

theorem atleastScan_spec (c : Circuit) {σ : Nat → Bool} (hi hi' : Nat) : ∀ (rest kept : List Nat) (t : Nat),
    (∀ ch ∈ rest, (c.gate ch).determined → σ ch = (c.gate ch).value) →
    GateType.atleast.eval (atleastScan c kept rest t).2 hi ((atleastScan c kept rest t).1.map σ) =
      GateType.atleast.eval t hi' ((kept ++ rest).map σ)
  | [], kept, t, _ => by simp [atleastScan, GateType.eval]
  | ch :: rest, kept, t, hd => by
    have hd' : ∀ ch ∈ rest, (c.gate ch).determined → σ ch = (c.gate ch).value :=
      fun x hx => hd x (.tail _ hx)
    unfold atleastScan
    split_ifs with hu hv
    · rw [atleastScan_spec c hi hi' rest _ t hd']; simp
    · rw [atleastScan_spec c hi hi' rest kept _ hd']
      have hσ : σ ch = true := (hd ch (.head _) (by simpa using hu)).trans hv
      simp only [GateType.eval, count_map_mid, hσ, if_true, decide_eq_decide]
      omega
    · rw [atleastScan_spec c hi hi' rest kept _ hd']
      have hσ : σ ch = false := (hd ch (.head _) (by simpa using hu)).trans (by simpa using hv)
      simp only [GateType.eval, count_map_mid, hσ]
      rfl

theorem simplifyAtleast_keeps (hs : s.circuit.Shaped) (ht : (s.gate g).type = .atleast) {r : Bool × BC}
    (h : s.simplifyAtleast g = some r) : Keeps s r := by
  have hl : (s.gate g).type.Live := by rw [ht]; decide
  have hg : g < s.size := lt_size_of_live (c := s.circuit) hl
  unfold simplifyAtleast at h
  generalize hsc : atleastScan s.circuit [] (s.gate g).children (s.gate g).tmin = p at h
  obtain ⟨chs, t⟩ := p
  dsimp only at h
  -- the gate over the children left and the lowered bound
  set s₁ := (s.modify g fun gt => { gt with children := chs, tmin := t }).setLinks g
    ((((s.gate g).children.zip (s.linkTimes g)).filter fun e => !(s.gate e.1).determined).map Prod.snd)
  have hg₁ : g < s₁.size := by simpa [s₁] using hg
  have hgate₁ : s₁.gate g = { s.gate g with children := chs, tmin := t } := by simp [s₁, hg]
  have hl₁ : (s₁.gate g).type.Live := by rw [hgate₁]; exact hl
  have heval : ∀ σ, s.circuit.Consistent σ →
      σ g = GateType.atleast.eval t (s.gate g).tmax (chs.map σ) := fun σ hσ => by
    have := atleastScan_spec s.circuit (σ := σ) (s.gate g).tmax (s.gate g).tmax (s.gate g).children []
      (s.gate g).tmin fun ch hch hd => consistent_det hσ
        (lt_size_of_live (c := s.circuit) ((hs g hg hl).1 ch hch)) ((hs g hg hl).1 ch hch) hd
    rw [hsc] at this
    rw [this, consistent_eval hσ hg hl (by rw [ht]; decide), ht]
    rfl
  have k₁ : Keeps s (true, s₁) := .of_consistent (by simp [s₁]) fun σ hσ => ⟨rfl,
    hσ.rebuilt (g := g) (by simp [s₁]) (fun x hx => by simp [s₁, Ne.symm hx]) (by rw [hgate₁])
      (by rw [hgate₁]) (fun _ => hl) fun _ _ _ => by rw [hgate₁, ht]; exact heval σ hσ⟩
  have hσ₁ : ∀ σ, s₁.circuit.Consistent σ → σ g = GateType.atleast.eval t (s.gate g).tmax (chs.map σ) :=
    fun σ hσ => by
      rw [consistent_eval hσ hg₁ hl₁ (by rw [hgate₁, ht]; decide), hgate₁, ht]
  have hcount : ∀ σ : Nat → Bool, (chs.map σ).count Bool.true ≤ chs.length := fun σ => by
    simpa using List.count_le_length Bool.true (chs.map σ)
  split_ifs at h with h₀ hlt heq
  · -- a bound of zero: the gate is true
    exact k₁.trans (becomeConstant_keeps hl₁ h fun σ hσ => by rw [hσ₁ σ hσ, h₀]; simp [GateType.eval])
  · -- fewer children than the bound: the gate is false
    refine k₁.trans (becomeConstant_keeps hl₁ h fun σ hσ => ?_)
    have := hcount σ
    rw [hσ₁ σ hσ]; simp only [GateType.eval, decide_eq_false_iff_not]; omega
  · -- as many children as the bound: the gate is an `AND`
    cases h
    refine k₁.trans (.of_consistent (by simp) fun σ hσ => ⟨rfl, ?_⟩)
    rw [circuit_addInPstack]
    refine hσ.rebuilt (g := g) (by simp) (fun x hx => by simp [Ne.symm hx]) (by simp [hg₁])
      (by simp [hg₁]) (fun _ => hl₁) fun _ _ _ => ?_
    have h₁ := hcount σ
    have h₂ := List.count_true_add_count_false (chs.map σ)
    rw [List.length_map] at h₂
    rw [hσ₁ σ hσ, gate_modify_self _ hg₁, hgate₁]
    simp only [GateType.eval]
    rw [Bool.eq_iff_iff, decide_eq_true_eq, beq_iff_eq]
    omega
  · cases h; exact k₁

/-- The dispatch of `Gate::simplify` over the per-type cases. -/
theorem Keeps.of_simplify (hs : s.circuit.Shaped) (hm : NoMarks s) (hb : s.circuit.LeavesBare)
    (ht : (s.gate g).type ≠ .threshold) {preserve : Bool} {r : Bool × BC}
    (h : s.simplify g preserve = some r) : Keeps s r := by
  unfold simplify at h
  dsimp only at h
  split_ifs at h with hdel hgc
  · cases h; exact .refl s
  · -- a gate that nothing reads is deleted
    cases h
    refine .of_consistent (by simp) fun σ hσ => ⟨rfl, ?_⟩
    exact (show (s.addChildrenInPstack g).circuit.Consistent σ by simpa using hσ).delete _
  split at h <;> rename_i hty
  · exact simplifyConstant_keeps (v := false) hty h
  · exact simplifyConstant_keeps (v := true) hty h
  · exact simplifyVar_keeps hty h
  · exact simplifyRef_keeps hty hs h
  · exact simplifyNot_keeps hty hs h
  · exact simplifyIte_keeps hty hs h
  · exact simplifyOrAnd_keeps (a := true) rfl hs hm hty h
  · exact simplifyOrAnd_keeps (a := false) rfl hs hm hty h
  · exact simplifyParity_keeps hs hb (lt_size_of_live (c := s.circuit) (by rw [circuit_gate, hty]; decide))
      (.inl hty) h
  · exact simplifyParity_keeps hs hb (lt_size_of_live (c := s.circuit) (by rw [circuit_gate, hty]; decide))
      (.inr hty) h
  · exact simplifyEquiv_keeps hs hm hb hty h
  · exact absurd hty ht
  · exact simplifyAtleast_keeps hs hty h
  · cases h
  · cases h

/-- One call of `Gate::simplify` on a gate that is no `THRESHOLD` loses no solution, on a shaped
store whose leaves are bare and which carries no mark `temp = 1`: when the store has a consistent
evaluation the call returns true, and it leaves a store with a consistent evaluation that agrees
with the first on every old gate. -/
theorem simplify_keeps (hs : s.circuit.Shaped) (hm : NoMarks s) (hb : s.circuit.LeavesBare)
    (ht : (s.gate g).type ≠ .threshold) {preserve : Bool} {r : Bool × BC}
    (h : s.simplify g preserve = some r) : Keeps s r :=
  Keeps.of_simplify hs hm hb ht h

/-- `EQUIV(x, y) = T` over two inputs: the call unifies them and loses no solution. -/
theorem simplify_keeps_equiv :
    let s : BC := { circuit := ⟨[{ type := .var, children := [] }, { type := .var, children := [] },
      { type := .equiv, children := [0, 1], handles := [.name "e"], determined := true, value := true }]⟩ }
    s.circuit.Shaped ∧ NoMarks s ∧ s.circuit.LeavesBare ∧ (s.gate 2).type ≠ .threshold ∧
      ∃ r, s.simplify 2 false = some r ∧ Keeps s r :=
  have hm : NoMarks { circuit := ⟨[{ type := .var, children := [] }, { type := .var, children := [] },
      { type := .equiv, children := [0, 1], handles := [.name "e"], determined := true,
        value := true }]⟩ } := fun x => by
    unfold BC.gate Circuit.gate
    rcases x with _ | _ | _ | x <;> simp [List.getD, Gate.none]
  ⟨by decide, hm, by decide, by decide, _, rfl,
    simplify_keeps (by decide) hm (by decide) (by decide) (show BC.simplify _ 2 false = _ from rfl)⟩

end BC

end BcSat
