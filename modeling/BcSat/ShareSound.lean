import BcSat.ShareAcyclic

set_option autoImplicit false

/-!
# `Gate::share` keeps the consistent evaluations

`Gate::comp` finds two distinct gates equal only when they have one type, the bounds that type
reads, and one list of children (the constants apart, which read none): every consistent
evaluation gives them one value. The merge of `g` into the gate `e` the table returns is then the
replacement of `g` by `e`, once the determined value of `g` has moved to `e`, and `sort_children`
only permutes the children of a gate whose function counts them.

So every call of `Gate::share`, and `BC::share`, keeps the consistent evaluations of the store,
read through the map that sends a merged gate to the gate it was merged into, and it returns
false only on a store without consistent evaluation. The results of the calls on the children
are dropped, but a merge that fails leaves the store as it was, so the drop loses no soundness:
nothing is assumed of the store, not even acyclicity.
-/

namespace BcSat

theorem GateType.eval_perm {t : GateType} (ht : t.isCommutative) (lo hi : Nat) {vs vs' : List Bool}
    (h : vs.Perm vs') : t.eval lo hi vs = t.eval lo hi vs' := by
  cases t <;> simp [GateType.isCommutative] at ht <;> simp only [GateType.eval, h.count_eq]

theorem GateType.rank_injective : Function.Injective GateType.rank := by
  intro a b h
  cases a <;> cases b <;> first | rfl | exact absurd h (by decide)

namespace Circuit

theorem ext_gate {c c' : Circuit} (hsize : c.size = c'.size) (h : ∀ x, c.gate x = c'.gate x) :
    c = c' := by
  cases c; cases c'
  congr
  refine List.ext_getElem hsize fun n h₁ h₂ => ?_
  simpa [gate, List.getD_eq_getElem?_getD, h₁, h₂] using h n

namespace SameEvaluations

variable {c c' : Circuit}

theorem of_gateOk (hsize : c'.size = c.size) (hhandles : ∀ x, (c'.gate x).handles = (c.gate x).handles)
    (hok : ∀ σ x, c'.GateOk σ x ↔ c.GateOk σ x) : c.SameEvaluations c' id where
  lt x hx := hsize ▸ hx
  handles x _ hd hmem := by rw [id, hhandles]; exact hmem
  extend σ hσ := ⟨σ, fun x hx => (hok σ x).2 (hσ x (hsize ▸ hx)), fun _ _ => rfl⟩
  restrict σ' hσ' x hx := (hok σ' x).1 (hσ' x (hsize ▸ hx))

theorem satisfiable {ρ : Nat → Nat} (h : c.SameEvaluations c' ρ) (hc : c.Satisfiable) :
    c'.Satisfiable :=
  let ⟨σ, hσ⟩ := hc
  let ⟨σ', hσ', _⟩ := h.extend σ hσ
  ⟨σ', hσ'⟩

end SameEvaluations

end Circuit

namespace BC

variable {s : BC} {g e : Nat}

/-- What a call of `Gate::share` may do: keep the consistent evaluations of the store, read
through a map of the gates, and return false only on a store without consistent evaluation. -/
def ShareOk (c : Circuit) (r : Bool × BC) : Prop :=
  (r.1 = false → ¬c.Satisfiable) ∧ ∃ ρ, c.SameEvaluations r.2.circuit ρ

theorem ShareOk.of_sameEvaluations {c c₁ : Circuit} {ρ : Nat → Nat} {r : Bool × BC}
    (h₁ : c.SameEvaluations c₁ ρ) (h₂ : ShareOk c₁ r) : ShareOk c r :=
  ⟨fun hok hc => h₂.1 hok (h₁.satisfiable hc), let ⟨_, h⟩ := h₂.2; ⟨_, h₁.trans h⟩⟩

theorem ShareOk.normalizeOk {c : Circuit} {r : Bool × BC} (h : ShareOk c r) : NormalizeOk c r :=
  match r, h with
  | (_, _), h => ⟨h.1, fun _ => h.2⟩

theorem sameEvaluations_sortChildren (s : BC) (g : Nat) :
    s.circuit.SameEvaluations (s.sortChildren g).circuit id := by
  rw [circuit_sortChildren]
  split_ifs with hc
  · refine Circuit.SameEvaluations.of_gateOk (by simp) (fun x => ?_) fun σ x => ?_
    · simp only [circuit_gate, setChildren, gate_modify]; split_ifs <;> rfl
    · simp only [Circuit.gateOk_iff, circuit_gate, setChildren, gate_modify]
      split_ifs with hx
      · obtain ⟨rfl, -⟩ := hx
        simp only [Gate.Holds, GateType.eval_perm hc _ _ ((sortIndices_perm _).map σ)]
      · rfl
  · exact .refl _

/-- Two distinct gates `Gate::comp` finds equal have one live non-`VAR` type and one function. -/
theorem comp_eq_spec (hne : e ≠ g) (h : s.comp e g = some .eq) :
    (s.gate e).type = (s.gate g).type ∧ (s.gate g).type.Live ∧ (s.gate g).type ≠ .var ∧
      ∀ σ : Nat → Bool,
        (s.gate e).type.eval (s.gate e).tmin (s.gate e).tmax ((s.gate e).children.map σ) =
          (s.gate g).type.eval (s.gate g).tmin (s.gate g).tmax ((s.gate g).children.map σ) := by
  have hch := (compChildren_eq_iff (s.gate e).children (s.gate g).children).1
  unfold comp at h
  dsimp only at h
  rw [if_neg hne] at h
  obtain ⟨-, h⟩ | ⟨h₁, h⟩ := ite_eq_iff.1 h
  · cases h
  obtain ⟨-, h⟩ | ⟨h₂, h⟩ := ite_eq_iff.1 h
  · cases h
  have hty : (s.gate e).type = (s.gate g).type := GateType.rank_injective (by omega)
  refine ⟨hty, ?_⟩
  rw [← hty]
  cases ht : (s.gate e).type <;> simp only [ht] at h
  case var => split_ifs at h <;> cases h
  case undef | deleted => cases h
  case threshold =>
    split_ifs at h with h₃ h₄ h₅ h₆
    all_goals first | cases h | skip
    refine ⟨by decide, by decide, fun σ => ?_⟩
    rw [hch (Option.some.inj h), show (s.gate e).tmin = (s.gate g).tmin by omega,
      show (s.gate e).tmax = (s.gate g).tmax by omega]
  case atleast =>
    split_ifs at h with h₃ h₄
    all_goals first | cases h | skip
    refine ⟨by decide, by decide, fun σ => ?_⟩
    rw [hch (Option.some.inj h), show (s.gate e).tmin = (s.gate g).tmin by omega]
    rfl
  case false | true => exact ⟨by decide, by decide, fun σ => rfl⟩
  all_goals exact ⟨by decide, by decide, fun σ => by rw [hch (Option.some.inj h)]; rfl⟩

theorem circuit_merge (s₀ : BC) (g e : Nat) :
    ({ (((s₀.removeAllChildren g).redirectParents none g e).moveHandles g e).setType g .deleted
      with changed := true } : BC).circuit = (s₀.replaceBy g e).circuit := by
  refine Circuit.ext_gate (by simp [replaceBy, moveHandles, setType]) fun x => ?_
  simp only [replaceBy, circuit_gate, gate_mk, setType, removeAllChildren, setChildren, gate_setLinks,
    moveHandles, gate_modify, gate_redirectParents, size_modify, size_setLinks, size_redirectParents]
  by_cases hx : x = g
  · subst hx
    by_cases he : e = x <;> by_cases hx : x < s₀.size <;> simp [he, hx]
  · simp only [hx, Ne.symm hx, false_and, if_false]
    split_ifs <;> rfl

theorem sameEvaluations_merge {s₀ : BC} (hne : e ≠ g) (hg : g < s₀.size) (he : e < s₀.size)
    (hl : (s₀.gate e).type.Live) (hv : (s₀.gate e).type ≠ .var)
    (heval : ∀ σ : Nat → Bool,
      (s₀.gate e).type.eval (s₀.gate e).tmin (s₀.gate e).tmax ((s₀.gate e).children.map σ) =
        (s₀.gate g).type.eval (s₀.gate g).tmin (s₀.gate g).tmax ((s₀.gate g).children.map σ))
    (hsame : ∀ σ, s₀.circuit.Consistent σ → σ g = σ e)
    (hdet : (s₀.gate g).determined → (s₀.gate e).determined ∧ (s₀.gate e).value = (s₀.gate g).value) :
    s₀.circuit.SameEvaluations
      ({ (((s₀.removeAllChildren g).redirectParents none g e).moveHandles g e).setType g .deleted
        with changed := true } : BC).circuit (fun y => if y = g then e else y) := by
  rw [circuit_merge]
  refine sameEvaluations_replaceBy hg he hne hsame fun σ' hσ' => ?_
  rw [Circuit.gateOk_iff, show (σ' ∘ fun y => if y = g then e else y) g = σ' e by simp]
  have hge : (s₀.replaceBy g e).gate e =
      { s₀.gate e with children := (s₀.gate e).children.map fun z => if z = g then e else z,
                       handles := (s₀.gate g).handles ++ (s₀.gate e).handles } := by
    rw [gate_replaceBy hg he hne, if_neg hne, if_pos rfl]
  have hok := hσ' e (by simpa using he)
  rw [Circuit.gateOk_iff, circuit_gate, hge] at hok
  obtain ⟨hoke, hokd⟩ := hok hl
  refine fun _ => ⟨fun _ => ?_, fun hd => (hokd (hdet hd).1).trans (hdet hd).2⟩
  rw [hoke hv, List.map_map, heval]
  rfl

/-- `mergeInto` of `g` into a distinct gate `Gate::comp` finds equal to it: a conflict of
determined values only on a store without consistent evaluation, else the evaluations kept. -/
theorem mergeInto_sound (hne : e ≠ g) (h : s.comp e g = some .eq) :
    ShareOk s.circuit (s.mergeInto g e) := by
  obtain ⟨hty, hl, hv, heval⟩ := comp_eq_spec hne h
  have hg : g < s.size := lt_size_of_type_ne_deleted hl.1
  have he : e < s.size := lt_size_of_type_ne_deleted (hty ▸ hl.1)
  have hsame : ∀ σ, s.circuit.Consistent σ → σ g = σ e := fun σ hσ => by
    rw [consistent_eval hσ he (hty ▸ hl) (hty ▸ hv), consistent_eval hσ hg hl hv, heval]
  unfold mergeInto
  dsimp only
  split_ifs with h₁ h₂ h₃
  · exact ⟨fun _ ⟨σ, hσ⟩ => h₃ (by rw [← consistent_det hσ he (hty ▸ hl) h₂,
      ← consistent_det hσ hg hl h₁, hsame σ hσ]), id, .refl _⟩
  · exact ⟨(fun h => nomatch h), _, sameEvaluations_merge hne hg he (hty ▸ hl) (hty ▸ hv) heval hsame
      fun _ => ⟨h₂, by simpa using h₃⟩⟩
  · -- the value of `g` moves to `e` first
    have hforced : ∀ σ, s.circuit.Consistent σ → σ e = (s.gate g).value := fun σ hσ =>
      (hsame σ hσ).symm.trans (consistent_det hσ hg hl h₁)
    have h₀ := Circuit.SameEvaluations.setValue (fun hd => absurd hd h₂) hforced
    have hde : (s.determine e (s.gate g).value).gate e =
        { s.gate e with determined := true, value := (s.gate g).value } := gate_modify_self _ he
    have hdg : (s.determine e (s.gate g).value).gate g = s.gate g := gate_modify_of_ne _ hne
    refine ⟨(fun h => nomatch h), _, h₀.trans (@sameEvaluations_merge g e
      (s.determine e (s.gate g).value) hne (by simpa using hg) (by simpa using he) ?_ ?_ ?_
      (fun σ hσ => hsame σ (h₀.restrict σ hσ)) ?_)⟩
    all_goals rw [hde]
    · exact hty ▸ hl
    · exact hty ▸ hv
    · intro σ; rw [hdg]; exact heval σ
    · rw [hdg]; exact fun _ => ⟨rfl, rfl⟩
  · exact ⟨(fun h => nomatch h), _, sameEvaluations_merge hne hg he (hty ▸ hl) (hty ▸ hv) heval hsame
      fun hd => absurd hd h₁⟩

theorem shareGate_sound : ∀ (fuel g : Nat) {st : ShareState} {r : Bool × ShareState},
    shareGate fuel g st = some r → ShareOk st.bc.circuit (r.1, r.2.bc)
  | 0, _, _, _, h => by cases h
  | fuel + 1, g, st, r, h => by
    unfold shareGate at h
    dsimp only at h
    split_ifs at h
    · cases h; exact ⟨(fun h => nomatch h), id, .refl _⟩
    obtain ⟨st₁, hvisit, h⟩ := Option.bind_eq_some.1 h
    obtain ⟨ρ₁, hρ₁⟩ := foldlM_option_invariant
      (fun st' : ShareState => ∃ ρ, st.bc.circuit.SameEvaluations st'.bc.circuit ρ)
      (fun st' i st'' ⟨ρ, hρ⟩ hv => by
        split at hv
        · cases hv; exact ⟨ρ, hρ⟩
        · obtain ⟨r', hr', rfl⟩ := Option.map_eq_some'.1 hv
          obtain ⟨-, ρ', hρ'⟩ := shareGate_sound fuel _ hr'
          exact ⟨_, hρ.trans hρ'⟩) _ ⟨id, .refl _⟩ hvisit
    have h₂ := hρ₁.trans (sameEvaluations_sortChildren st₁.bc g)
    obtain ⟨⟨e, table⟩, ht, h⟩ := Option.map_eq_some'.1 h
    dsimp only at h
    split_ifs at h with heg
    · cases h; exact ⟨(fun h => nomatch h), _, h₂⟩
    · cases h
      exact .of_sameEvaluations h₂ (mergeInto_sound heg ((testAndSet_comp ht).resolve_left heg))

theorem share_go_sound (s : BC) : ∀ (gs : List Nat) {st : ShareState} {r : Bool × BC},
    share.go s gs st = some r → ShareOk st.bc.circuit r
  | [], _, _, h => by cases h; exact ⟨(fun h => nomatch h), id, .refl _⟩
  | g :: gs, _, _, h => by
    obtain ⟨⟨ok, st'⟩, hg, h⟩ := Option.bind_eq_some.1 h
    have h₁ := shareGate_sound _ g hg
    dsimp only at h
    split_ifs at h with hok
    · exact .of_sameEvaluations h₁.2.choose_spec (share_go_sound s gs h)
    · cases h
      rw [Bool.not_eq_true] at hok
      exact hok ▸ h₁

/-- `BC::share` keeps the consistent evaluations of any store, read through the map that sends
each merged gate to the gate it was merged into, and returns false only on a store without
consistent evaluation. -/
theorem share_sound {r : Bool × BC} (h : s.share = some r) :
    (r.1 = false → ¬s.circuit.Satisfiable) ∧ ∃ ρ, s.circuit.SameEvaluations r.2.circuit ρ :=
  share_go_sound s _ h

/-- The store of `share_drops_child_conflict`: `BC::share` succeeds on it, and soundly. -/
theorem share_sound_two_nots :
    let s : BC := { circuit := ⟨[{ type := .var, children := [] },
      { type := .not, children := [0], determined := true, value := true },
      { type := .not, children := [3] },
      { type := .not, children := [0], determined := true, value := false }]⟩ }
    ∃ r, s.share = some r ∧ (r.1 = false → ¬s.circuit.Satisfiable) ∧
      ∃ ρ, s.circuit.SameEvaluations r.2.circuit ρ :=
  ⟨_, rfl, share_sound rfl⟩

end BC

end BcSat
