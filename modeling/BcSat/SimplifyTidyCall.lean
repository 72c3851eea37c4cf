import BcSat.SimplifyTidyParity

set_option autoImplicit false

/-!
# Every call of `Gate::simplify` keeps the invariant

The `EQUIV` and `ATLEAST` cases, the deletion of a gate nothing reads, and the dispatch over the
gate's type: a call on an acyclic tidy store that returns true leaves a tidy store. With the
acyclicity the calls keep (`simplify_acyclic`) this is what the loop of `BC::simplify` needs from
one call to the next.
-/

namespace BcSat

namespace BC

open Circuit

variable {s s' : BC} {g : Nat}

theorem unifyInputs_tidy (g : Nat) {L : List Nat} : ∀ (rest : List Nat) (s : BC) (prev first : Option Nat)
    (unified : Bool), (∀ x ∈ rest, x ∈ L) → (∀ p ∈ prev, p ∈ L) → (∀ f ∈ first, f ∈ L) →
    (∀ x ∈ L, (s.gate x).type.Live) → (s.gate g).type ≠ .var → Tidy s →
    (∀ r, unifyInputs g prev first unified rest s = .inl (some r) → Tidy r.2) ∧
      ∀ o, unifyInputs g prev first unified rest s = .inr o → Tidy o.2.2 ∧ o.2.2.gate g = s.gate g
  | [], s, _, _, _, _, _, _, _, _, ht => ⟨fun _ h => Sum.noConfusion h, fun _ h => by cases h; exact ⟨ht, rfl⟩⟩
  | ch :: rest, s, prev, first, unified, hrest, hprev, hfirst, hlive, hgv, ht => by
    have hchL : ch ∈ L := hrest ch (.head _)
    have hch : ch < s.size := lt_size_of_live (c := s.circuit) (hlive ch hchL)
    have hrest' : ∀ x ∈ rest, x ∈ L := fun x hx => hrest x (.tail _ hx)
    -- the input `ch` made a `REF` to a child `o`
    have retype : ∀ o ∈ L, (s.gate ch).type = .var →
        Tidy ((s.setType ch .ref).addChild ch o) ∧
        ∀ x, ((s.setType ch .ref).addChild ch o).gate x =
          if x = ch then { s.gate ch with type := .ref, children := [o] } else s.gate x :=
      fun o ho hv =>
        have hc : (s.gate ch).children = [] := ht.leavesBare ch hch (.inl hv)
        ⟨ht.retypeLeaf hch hc (.inl rfl) (hlive o ho), gate_retypeLeaf hch hc .ref o⟩
    unfold unifyInputs
    split_ifs with hv hp
    · exact unifyInputs_tidy g rest s _ first unified hrest' (fun p hp => by cases hp; exact hchL)
        hfirst hlive hgv ht
    · -- an input with a single parent becomes a `REF` to its neighbour
      refine ⟨fun r h => ?_, fun _ h => by simp at h⟩
      obtain ⟨o, hother, h⟩ := Option.bind_eq_some.1 (Sum.inl.inj h)
      split_ifs at h with hoc
      cases h
      have hoL : o ∈ L := by
        split at hother
        · cases hother; exact hrest _ (.tail _ (.head _))
        · exact hprev o hother
      exact ((retype o hoL (not_not.1 hv)).1.addInPstack g).addInPstack ch
    · -- a shared input: the first is kept, the others become `REF`s to it
      split
      · exact unifyInputs_tidy g rest s _ _ unified hrest' (fun p hp => by cases hp; exact hchL)
          (fun f hf => by cases hf; exact hchL) hlive hgv ht
      next f =>
        obtain ⟨h₁, h₂⟩ := retype f (hfirst f rfl) (not_not.1 hv)
        have hg : ((s.setType ch .ref).addChild ch f).gate g = s.gate g := by
          rw [h₂, if_neg fun (e : g = ch) => hgv (e ▸ not_not.1 hv)]
        have hlive' : ∀ x ∈ L, (((s.setType ch .ref).addChild ch f).gate x).type.Live := fun x hx => by
          rw [h₂]
          split_ifs
          exacts [(by decide : GateType.ref.Live), hlive x hx]
        obtain ⟨k₁, k₂⟩ := unifyInputs_tidy g rest (((s.setType ch .ref).addChild ch f).addInPstack ch)
          (some ch) (some f) true hrest' (fun p hp => by cases hp; exact hchL) hfirst (by simpa using hlive')
          (by simpa [hg] using hgv) (h₁.addInPstack ch)
        exact ⟨k₁, fun o h => let ⟨e₁, e₂⟩ := k₂ o h; ⟨e₁, by simpa [hg] using e₂⟩⟩

theorem simplifyEquiv_tidy (ht : Tidy s) (hty : (s.gate g).type = .equiv) {r : Bool × BC}
    (h : s.simplifyEquiv g = some r) : r.1 = true → Tidy r.2 := by
  have hl : (s.gate g).type.Live := by rw [hty]; decide
  have hg : g < s.size := lt_size_of_live (c := s.circuit) hl
  unfold simplifyEquiv at h
  split at h
  · cases h
  · exact fun _ => ht.becomeConstant hg h
  split at h
  next ch hfd =>
    -- a determined child: `AND`, or `NOT` over a new `OR` of the children
    simp only [installGate_eq] at h
    split_ifs at h with hv <;> cases h <;> intro _
    · exact ((ht.setType_inner hl (.inr (.inl rfl)) (by simp)).addParentsInPstack g).addInPstack g
    · have hgate := gate_notOverOr hg (s.gate g).children
      have h₁ : Tidy (s.append { type := .or, children := (s.gate g).children.reverse }) :=
        ht.append (.of_inner (.inl rfl) (fun y hy => ht.live_children hl y (List.mem_reverse.1 hy)) (by simp)) rfl
      refine h₁.rewrite (g := g) (.of_gate fun x hx => by rw [hgate, if_neg hx, gate_append]) ?_ fun x => ?_
      · rw [hgate, if_pos rfl]
        exact .of_unary (.inr rfl) (by rw [gate_append_self]; exact (by decide : GateType.or.Live))
      · rw [hgate]
        split_ifs
        exacts [ht.noMarks g, (by decide : (0 : Int) ≠ 1), ht.noMarks x]
  next hfd =>
    obtain ⟨⟨ok, s₁⟩, h₁, h⟩ := Option.bind_eq_some.1 h
    have ht₁ := removeGNotGAndDuplicateChildren_tidy ht (.inr (.inr hty)) h₁
    dsimp only at h
    obtain ⟨hok, h₂⟩ | ⟨hok, h₂⟩ := ite_eq_iff.1 h
    · cases h₂; nofun
    obtain rfl : ok = true := by simpa using hok
    clear h
    obtain ⟨-, h₃⟩ | ⟨-, h⟩ := ite_eq_iff.1 h₂
    · cases h₃; exact fun _ => ht₁
    obtain ⟨-, h₄⟩ | ⟨ht₁', h⟩ := ite_eq_iff.1 h
    · cases h₄; exact fun _ => ht₁
    replace ht₁' : (s₁.gate g).type = .equiv := not_not.1 ht₁'
    have hl₁ : (s₁.gate g).type.Live := by rw [ht₁']; decide
    obtain ⟨-, h⟩ | ⟨-, h⟩ := ite_eq_iff.1 h
    · -- `EQUIV(...) = T`: input unification, then the moves to the least child
      have moves : ∀ s₂ : BC, Tidy s₂ → s₂.gate g = s₁.gate g →
          (match (s₂.gate g).children with
            | [] => none
            | c :: cs =>
              some (true, if (((c :: cs).filter (· ≠ s₂.leastChild c cs)).any
                  fun x => (s₂.parents x).any (· ≠ g))
                then (((c :: cs).filter (· ≠ s₂.leastChild c cs)).foldl
                  (fun t x => t.redirectParents (some g) x (s₂.leastChild c cs)) s₂).addParentsInPstack
                  (s₂.leastChild c cs)
                else ((c :: cs).filter (· ≠ s₂.leastChild c cs)).foldl
                  (fun t x => t.redirectParents (some g) x (s₂.leastChild c cs)) s₂)) = some r →
          r.1 = true → Tidy r.2 := fun s₂ ht₂ hgate h _ => by
        split at h
        · cases h
        next c cs hcs =>
          cases h
          have hleast := ht₂.live_children (by rw [hgate]; exact hl₁) _
            (hcs ▸ s₂.leastChild_mem cs c)
          split_ifs
          · exact (Tidy.foldl_redirectParents (some g) _ s₂ ht₂ hleast).addParentsInPstack _
          · exact Tidy.foldl_redirectParents (some g) _ s₂ ht₂ hleast
      by_cases hmay : s₁.mayTransformInputGates = true
      · rw [if_pos hmay] at h
        obtain ⟨hu₁, hu₂⟩ := unifyInputs_tidy g (L := (s₁.gate g).children) _ s₁ none none false
          (fun _ => id) (fun _ h => nomatch h) (fun _ h => nomatch h) (ht₁.live_children hl₁)
          (by rw [ht₁']; decide) ht₁
        split at h
        next r' heq =>
          subst h
          split at heq
          next _ hr => cases heq; exact fun _ => hu₁ _ hr
          next _ f s₂ hr => cases heq; exact fun _ => (hu₂ _ hr).1.addParentsInPstack f
          next => cases heq
        next s₂ heq =>
          split at heq
          next => cases heq
          next => cases heq
          next _ _ _ _ hr =>
            cases heq
            obtain ⟨e₁, e₂⟩ := hu₂ _ hr
            exact moves _ e₁ e₂ h
      · rw [if_neg hmay] at h
        exact moves s₁ ht₁ rfl h
    obtain ⟨hdf, h⟩ | ⟨-, h⟩ := ite_eq_iff.1 h
    · -- `EQUIV(x,y) = F` is `EVEN(x,y)`
      cases h
      have hlen : (s₁.gate g).children.length = 2 := by
        revert hdf; simp only [Bool.and_eq_true, decide_eq_true_eq]; exact And.right
      exact fun _ => ((ht₁.setType_inner hl₁ (.inr (.inr (.inr (.inr (.inr rfl)))))
        fun _ => by rw [hlen]; decide).addParentsInPstack g).addInPstack g
    · cases h; exact fun _ => ht₁

theorem simplifyAtleast_tidy (ht : Tidy s) (hty : (s.gate g).type = .atleast) {r : Bool × BC}
    (h : s.simplifyAtleast g = some r) : Tidy r.2 := by
  have hl : (s.gate g).type.Live := by rw [hty]; decide
  have hg : g < s.size := lt_size_of_live (c := s.circuit) hl
  have hsub := atleastScan_sub s.circuit (s.gate g).children [] (s.gate g).tmin
  unfold simplifyAtleast at h
  generalize hsc : atleastScan s.circuit [] (s.gate g).children (s.gate g).tmin = p at h hsub
  obtain ⟨chs, t⟩ := p
  dsimp only at h hsub
  set s₁ := (s.modify g fun gt => { gt with children := chs, tmin := t }).setLinks g
    ((((s.gate g).children.zip (s.linkTimes g)).filter fun e => !(s.gate e.1).determined).map Prod.snd)
  have hgate₁ : s₁.gate g = { s.gate g with children := chs, tmin := t } := by simp [s₁, hg]
  have hl₁ : (s₁.gate g).type.Live := by rw [hgate₁]; exact hl
  have hchs : ∀ y ∈ chs, (s.gate y).type.Live := fun y hy => ht.live_children hl y
    ((hsub y hy).resolve_left (List.not_mem_nil y))
  have ht₁ : Tidy s₁ := ht.rewrite ((OnlyAt.modify _).setLinks g _)
    (by rw [hgate₁]; exact .of_inner (by simp [hty]) hchs (by simp [hty]))
    (ht.noMarks.of_temp fun x => temp_modify_of s g x fun _ => rfl)
  split_ifs at h
  · exact ht₁.becomeConstant (by simpa [s₁] using hg) h
  · exact ht₁.becomeConstant (by simpa [s₁] using hg) h
  · cases h
    refine (ht₁.rewrite (OnlyAt.modify fun gt => { gt with type := .and, tmin := 0, tmax := 0 }) ?_
      (ht₁.noMarks.of_temp fun x => temp_modify_of s₁ g x fun _ => rfl)).addInPstack g
    rw [gate_modify_self _ (by simpa [s₁] using hg), hgate₁]
    exact .of_inner (by simp) (fun y hy => by
      have := hchs y hy
      by_cases hyg : y = g
      · subst hyg; exact hl₁
      · rwa [show s₁.gate y = s.gate y by simp [s₁, Ne.symm hyg]]) (by simp)
  · cases h; exact ht₁

theorem Tidy.garbage (ht : Tidy s) (hp : s.parents g = []) :
    Tidy { ((s.addChildrenInPstack g).removeAllChildren g).setType g .deleted with changed := true } :=
  ht.deleted (Tidy.not_mem_children_of_parents_nil hp) (by simp)
    (fun x hx => by simp [Ne.symm hx]) (fun hg => by simp [hg]) (by by_cases hg : g < s.size <;> simp [hg])

/-- One call of `Gate::simplify` on an acyclic tidy store that returns true leaves a tidy store. -/
theorem simplify_tidy (ha : s.circuit.Acyclic) (ht : Tidy s) {preserve : Bool} {r : Bool × BC}
    (h : s.simplify g preserve = some r) : r.1 = true → Tidy r.2 := by
  unfold simplify at h
  dsimp only at h
  split_ifs at h with hdel hgc
  · cases h; exact fun _ => ht
  · cases h; exact fun _ => ht.garbage hgc.1
  have hlive : ∀ t : GateType, (s.gate g).type = t → t.Live → g < s.size := fun t e hl =>
    lt_size_of_live (c := s.circuit) (by rw [circuit_gate, e]; exact hl)
  split at h <;> rename_i hty <;> intro _
  · exact simplifyConstant_tidy ht h
  · exact simplifyConstant_tidy ht h
  · exact simplifyVar_tidy ht (hlive _ hty (by decide)) h
  · exact simplifyRef_tidy ha ht hty h
  · exact simplifyNot_tidy ht hty h
  · exact simplifyIte_tidy ht hty h
  · exact simplifyOrAnd_tidy (a := true) rfl ht hty h
  · exact simplifyOrAnd_tidy (a := false) rfl ht hty h
  · exact simplifyParity_tidy ht (.inl hty) h ‹_›
  · exact simplifyParity_tidy ht (.inr hty) h ‹_›
  · exact simplifyEquiv_tidy ht hty h ‹_›
  · exact absurd hty (ht.type_ne_threshold g)
  · exact simplifyAtleast_tidy ht hty h
  · cases h
  · cases h

end BC

end BcSat
