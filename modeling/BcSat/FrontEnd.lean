import BcSat.Main
import BcSat.ShareSound
import BcSat.NormalizePass

set_option autoImplicit false

/-!
# The front end without simplification

Under `-nosimplify`, `main` of `bc2cnf.cc` drains the queues of forced gates, drops the names
that begin with an underscore, shares, normalizes and shares again. Each stage is sound: forcing
a live gate keeps exactly the consistent evaluations that give it its value, dropping names
changes no equation, `BC::share` keeps the evaluations of any store, and the loop of
`BC::cnf_normalize` keeps those of an acyclic shaped store, which is what sharing leaves of an
acyclic shaped store whose leaves are bare. So the front end returns false only for a problem
without solution, and otherwise a store whose consistent evaluations are the problem's
solutions, read through a map of the gates. With simplification this fails
(`main_unsat_exit_satisfiable`).
-/

namespace BcSat

/-- A solution of the problem: a consistent evaluation of its circuit that makes the gates of
`assigned_to_true` true and those of `assigned_to_false` false. -/
def Problem.Solution (p : Problem) (σ : Nat → Bool) : Prop :=
  p.circuit.Consistent σ ∧ (∀ g ∈ p.assignedToTrue, σ g = true) ∧
    ∀ g ∈ p.assignedToFalse, σ g = false

namespace Circuit

variable {c : Circuit} {g : Nat} {v : Bool}

theorem consistent_setValue (hg : g < c.size) (hl : (c.gate g).type.Live)
    (hdet : (c.gate g).determined → (c.gate g).value = v) (σ : Nat → Bool) :
    (c.setValue g v).Consistent σ ↔ c.Consistent σ ∧ σ g = v := by
  have hgate : ∀ x, (c.setValue g v).gate x =
      if x = g then { c.gate g with determined := true, value := v } else c.gate x := fun x => by
    by_cases hx : x = g
    · subst hx; simp [setValue, hg]
    · simp [setValue, gate_modify, Ne.symm hx, hx]
  have hsize : (c.setValue g v).size = c.size := by simp [setValue]
  constructor
  · intro h
    have hv : σ g = v := by
      have := h g (hsize ▸ hg)
      rw [gateOk_iff, hgate, if_pos rfl] at this
      exact (this hl).2 rfl
    refine ⟨fun x hx => ?_, hv⟩
    have := h x (hsize ▸ hx)
    rw [gateOk_iff, hgate] at this
    rw [gateOk_iff]
    by_cases hxg : x = g
    · subst hxg
      rw [if_pos rfl] at this
      exact fun hl => ⟨(this hl).1, fun hd => hv.trans (hdet hd).symm⟩
    · rwa [if_neg hxg] at this
  · rintro ⟨h, hv⟩ x hx
    have := h x (hsize ▸ hx)
    rw [gateOk_iff] at this
    rw [gateOk_iff, hgate]
    by_cases hxg : x = g
    · subst hxg
      rw [if_pos rfl]
      exact fun hl => ⟨(this hl).1, fun _ => hv⟩
    · rwa [if_neg hxg]

end Circuit

namespace BC

open Circuit

variable {s s' : BC} {g : Nat} {v : Bool}

theorem frame_keeps (hsize : s'.size = s.size) (hty : ∀ x, (s'.gate x).type = (s.gate x).type)
    (hch : ∀ x, (s'.gate x).children = (s.gate x).children)
    (h : s.circuit.Acyclic ∧ s.circuit.LeavesBare ∧ s.circuit.Shaped) :
    s'.circuit.Acyclic ∧ s'.circuit.LeavesBare ∧ s'.circuit.Shaped :=
  ⟨(Implied.of_children_eq hsize hch).acyclic h.1,
    leavesBare_of h.2.1 hsize fun x hx => ⟨hty x, by rwa [← hch x]⟩, h.2.2.of_fields hty hch⟩

theorem force_frame (s : BC) (g : Nat) (v : Bool) : (s.force g v).2.size = s.size ∧
    ∀ x, ((s.force g v).2.gate x).type = (s.gate x).type ∧
      ((s.force g v).2.gate x).children = (s.gate x).children := by
  unfold force
  split_ifs
  · exact ⟨rfl, fun _ => ⟨rfl, rfl⟩⟩
  · exact ⟨by simp, fun _ => ⟨by simp, by simp⟩⟩

theorem force_consistent (hl : (s.gate g).type.Live) :
    ((s.force g v).1 = false → ∀ σ, s.circuit.Consistent σ → σ g ≠ v) ∧
    ((s.force g v).1 = true →
      ∀ σ, (s.force g v).2.circuit.Consistent σ ↔ s.circuit.Consistent σ ∧ σ g = v) := by
  have hg : g < s.size := lt_size_of_live (c := s.circuit) hl
  unfold force
  split_ifs with hc
  · refine ⟨fun _ σ hσ hσv => ?_, fun h => nomatch h⟩
    simp only [Bool.and_eq_true, bne_iff_ne, ne_eq] at hc
    exact hc.2 ((consistent_det hσ hg hl hc.1).symm.trans hσv)
  · refine ⟨(fun h => nomatch h), fun _ σ => ?_⟩
    simp only [Bool.and_eq_true, bne_iff_ne, ne_eq, not_and, not_not] at hc
    rw [circuit_addInPstack, circuit_determine]
    exact consistent_setValue hg hl hc σ

theorem forceAll_frame (v : Bool) : ∀ (gs : List Nat) (s : BC), (forceAll v gs s).2.size = s.size ∧
    ∀ x, ((forceAll v gs s).2.gate x).type = (s.gate x).type ∧
      ((forceAll v gs s).2.gate x).children = (s.gate x).children
  | [], _ => ⟨rfl, fun _ => ⟨rfl, rfl⟩⟩
  | g :: gs, s => by
    rw [forceAll]
    split
    · obtain ⟨h₁, h₂⟩ := forceAll_frame v gs (s.force g v).2
      obtain ⟨h₃, h₄⟩ := force_frame s g v
      exact ⟨h₁.trans h₃, fun x => ⟨(h₂ x).1.trans (h₄ x).1, (h₂ x).2.trans (h₄ x).2⟩⟩
    · exact ⟨rfl, fun _ => ⟨rfl, rfl⟩⟩

/-- The loop of `main` that drains a queue of live gates keeps exactly the consistent evaluations
that give all of them `v`, and reports a conflict only when none does. -/
theorem forceAll_consistent (v : Bool) : ∀ (gs : List Nat) (s : BC), (∀ g ∈ gs, (s.gate g).type.Live) →
    ((forceAll v gs s).1 = false → ¬∃ σ, s.circuit.Consistent σ ∧ ∀ g ∈ gs, σ g = v) ∧
    ((forceAll v gs s).1 = true → ∀ σ, (forceAll v gs s).2.circuit.Consistent σ ↔
      s.circuit.Consistent σ ∧ ∀ g ∈ gs, σ g = v)
  | [], _, _ => ⟨(fun h => nomatch h), fun _ σ => by simp [forceAll]⟩
  | g :: gs, s, hl => by
    obtain ⟨hf₁, hf₂⟩ := force_consistent (v := v) (hl g (List.mem_cons_self _ _))
    rw [forceAll]
    split_ifs with hok
    · have hl' : ∀ x ∈ gs, ((s.force g v).2.gate x).type.Live := fun x hx => by
        rw [((force_frame s g v).2 x).1]; exact hl x (List.mem_cons_of_mem _ hx)
      obtain ⟨ih₁, ih₂⟩ := forceAll_consistent v gs _ hl'
      refine ⟨fun hf ⟨σ, hσ, hall⟩ => ih₁ hf ⟨σ, (hf₂ hok σ).2 ⟨hσ, hall g (List.mem_cons_self _ _)⟩,
        fun x hx => hall x (List.mem_cons_of_mem _ hx)⟩, fun ht σ => ?_⟩
      rw [ih₂ ht σ, hf₂ hok σ]
      simp only [List.mem_cons, forall_eq_or_imp, and_assoc]
    · exact ⟨fun _ ⟨σ, hσ, hall⟩ => hf₁ (by simpa using hok) σ hσ (hall g (List.mem_cons_self _ _)),
        fun h => nomatch h⟩

/-- The loops of `main` in `bc2cnf.cc` and `bcminisat.cc` that drain `assigned_to_true` and
`assigned_to_false`: over live gates, `unsat_exit` is taken only when no consistent evaluation
gives every gate of the queue `v`, and otherwise the consistent evaluations left are exactly
those that do. -/
theorem forceAll_sound (v : Bool) (gs : List Nat) (s : BC) (hl : ∀ g ∈ gs, (s.gate g).type.Live) :
    ((forceAll v gs s).1 = false → ¬∃ σ, s.circuit.Consistent σ ∧ ∀ g ∈ gs, σ g = v) ∧
    ((forceAll v gs s).1 = true → ∀ σ, (forceAll v gs s).2.circuit.Consistent σ ↔
      s.circuit.Consistent σ ∧ ∀ g ∈ gs, σ g = v) :=
  forceAll_consistent v gs s hl

/-- An input determined false and queued in `assigned_to_true`: the conflict is real. -/
theorem forceAll_sound_conflict :
    let s : BC := { circuit := ⟨[{ type := .var, children := [], determined := true }]⟩ }
    (forceAll true [0] s).1 = false ∧
      ¬∃ σ, s.circuit.Consistent σ ∧ ∀ g ∈ [0], σ g = true :=
  ⟨rfl, (forceAll_sound true [0] { circuit := ⟨[{ type := .var, children := [], determined := true }]⟩ }
    (by decide)).1 rfl⟩

theorem gate_removeUnderscoreNames (x : Nat) :
    ∃ hs, s.removeUnderscoreNames.gate x = { s.gate x with handles := hs } := by
  simp only [removeUnderscoreNames, gate, Circuit.gate, List.getD_eq_getElem?_getD,
    List.getElem?_map]
  cases s.circuit.gates[x]? <;> exact ⟨_, rfl⟩

theorem size_removeUnderscoreNames : s.removeUnderscoreNames.size = s.size := by
  simp [removeUnderscoreNames, size, Circuit.size]

theorem consistent_removeUnderscoreNames (σ : Nat → Bool) :
    s.removeUnderscoreNames.circuit.Consistent σ ↔ s.circuit.Consistent σ := by
  have hok : ∀ x, s.removeUnderscoreNames.circuit.GateOk σ x ↔ s.circuit.GateOk σ x := fun x => by
    obtain ⟨hs, h⟩ := gate_removeUnderscoreNames (s := s) x
    rw [gateOk_iff, gateOk_iff, circuit_gate, circuit_gate, h]
    rfl
  simp only [Consistent, circuit_size, size_removeUnderscoreNames, hok]

theorem removeUnderscoreNames_keeps (h : s.circuit.Acyclic ∧ s.circuit.LeavesBare ∧ s.circuit.Shaped) :
    s.removeUnderscoreNames.circuit.Acyclic ∧ s.removeUnderscoreNames.circuit.LeavesBare ∧
      s.removeUnderscoreNames.circuit.Shaped :=
  frame_keeps size_removeUnderscoreNames
    (fun x => by obtain ⟨_, h⟩ := gate_removeUnderscoreNames (s := s) x; rw [h])
    (fun x => by obtain ⟨_, h⟩ := gate_removeUnderscoreNames (s := s) x; rw [h]) h

theorem sortChildren_shaped (hs : s.circuit.Shaped) (g : Nat) : (s.sortChildren g).circuit.Shaped := by
  rw [circuit_sortChildren]
  split_ifs
  · have hp := sortIndices_perm (s.gate g).children
    refine shaped_modify hs _ id fun hg hl => ?_
    obtain ⟨h₁, h₂, h₃⟩ := hs g hg hl
    exact ⟨fun c hc => live_modify id (h₁ c (hp.subset hc)), by simpa [hp.length_eq] using h₂,
      by simpa [hp.length_eq] using h₃⟩
  · exact hs

theorem mergeInto_shaped (hs : s.circuit.Shaped) {e : Nat} (hne : e ≠ g)
    (h : s.comp e g = some .eq) : (s.mergeInto g e).2.circuit.Shaped := by
  obtain ⟨hty, hl, -, -⟩ := comp_eq_spec hne h
  have hg : g < s.size := lt_size_of_type_ne_deleted hl.1
  have he : e < s.size := lt_size_of_type_ne_deleted (hty ▸ hl.1)
  unfold mergeInto
  dsimp only
  split_ifs
  · exact hs
  all_goals rw [circuit_merge]
  · exact shaped_replaceBy hs hg he hne (hty ▸ hl)
  · exact shaped_replaceBy (shaped_determine hs _) (by simpa using hg) (by simpa using he) hne
      (by simpa using hty ▸ hl)
  · exact shaped_replaceBy hs hg he hne (hty ▸ hl)

theorem share_shaped (hs : s.circuit.Shaped) {r : Bool × BC} (h : s.share = some r) :
    r.2.circuit.Shaped :=
  share_invariant (fun s => s.circuit.Shaped) (fun _ g h => sortChildren_shaped h g)
    (fun _ _ _ h hne hc => mergeInto_shaped h hne hc) s _ hs h

theorem andThen_some (x : Bool × BC) (k : BC → Option (Bool × BC)) :
    andThen (some x) k = if x.1 then k x.2 else some (false, x.2) := rfl

theorem andThen_normalizeOk {c : Circuit} {r : Option (Bool × BC)} {k : BC → Option (Bool × BC)}
    {res : Bool × BC} (P : BC → Prop)
    (hr : ∀ x, r = some x → NormalizeOk c x ∧ (x.1 = true → P x.2))
    (hk : ∀ s x, P s → k s = some x → NormalizeOk s.circuit x) (h : andThen r k = some res) :
    NormalizeOk c res := by
  obtain ⟨⟨ok, s⟩, hx, h⟩ := Option.bind_eq_some.1 h
  obtain ⟨h₁, h₂⟩ := hr _ hx
  dsimp only at h
  split at h
  · obtain ⟨ρ, hρ⟩ := h₁.2 ‹_›
    exact normalizeOk_of_sameEvaluations hρ (hk s res (h₂ ‹_›) h)
  · rename_i hno
    rw [Bool.not_eq_true] at hno
    subst hno
    cases h
    exact h₁

theorem shareNormalizeShare_sound (ha : s.circuit.Acyclic) (hb : s.circuit.LeavesBare)
    (hs : s.circuit.Shaped) {fuel : Nat} {r : Bool × BC}
    (h : andThen s.share (fun s => andThen (s.cnfNormalizePass fuel) BC.share) = some r) :
    NormalizeOk s.circuit r :=
  andThen_normalizeOk (fun s => s.circuit.Acyclic ∧ s.circuit.Shaped)
    (fun _ hx => ⟨(share_go_sound _ _ hx).normalizeOk, fun _ => ⟨share_acyclic ha hb hx, share_shaped hs hx⟩⟩)
    (fun _ _ hP hx => andThen_normalizeOk (fun _ => True)
      (fun _ hy => ⟨normalizeOk_cnfNormalizePass hP.1 hP.2 hy, fun _ => trivial⟩)
      (fun _ _ _ hz => (share_go_sound _ _ hz).normalizeOk) hx) h

end BC

/-- The stages of the front end under `-nosimplify`, composed. -/
theorem frontEnd_nosimplify_solutions {fuel : Nat} {opts : Options}
    (hopt : opts.performSimplifications = false) {p : Problem} (ha : p.circuit.Acyclic)
    (hb : p.circuit.LeavesBare) (hs : p.circuit.Shaped)
    (hT : ∀ g ∈ p.assignedToTrue, (p.circuit.gate g).type.Live)
    (hF : ∀ g ∈ p.assignedToFalse, (p.circuit.gate g).type.Live) {r : Bool × BC}
    (h : frontEnd fuel opts p = some r) :
    (r.1 = false → ¬p.Satisfiable) ∧
    (r.1 = true → ∃ ρ, (∀ σ, p.Solution σ → ∃ σ', r.2.circuit.Consistent σ' ∧
        ∀ x < p.circuit.size, σ' (ρ x) = σ x) ∧
      ∀ σ', r.2.circuit.Consistent σ' → p.Solution (σ' ∘ ρ)) := by
  unfold frontEnd at h
  simp only [hopt, Bool.false_eq_true, if_false] at h
  generalize hF₁ : BC.forceAll true p.assignedToTrue { circuit := p.circuit } = F₁ at h
  obtain ⟨hT₁, hT₂⟩ := hF₁ ▸ BC.forceAll_consistent true p.assignedToTrue { circuit := p.circuit } hT
  have fr₁ := hF₁ ▸ BC.forceAll_frame true p.assignedToTrue { circuit := p.circuit }
  rw [BC.andThen_some] at h
  split_ifs at h with hok₁
  swap
  · cases h
    exact ⟨fun _ ⟨σ, hσ, hσT, _⟩ => hT₁ (by simpa using hok₁) ⟨σ, hσ, hσT⟩, fun h => nomatch h⟩
  generalize hF₂ : BC.forceAll false p.assignedToFalse F₁.2 = F₂ at h
  have hF' : ∀ g ∈ p.assignedToFalse, (F₁.2.gate g).type.Live := fun g hg => by
    rw [(fr₁.2 g).1]; exact hF g hg
  obtain ⟨hF₁', hF₂'⟩ := hF₂ ▸ BC.forceAll_consistent false p.assignedToFalse F₁.2 hF'
  have fr₂ := hF₂ ▸ BC.forceAll_frame false p.assignedToFalse F₁.2
  rw [BC.andThen_some] at h
  split_ifs at h with hok₂
  swap
  · cases h
    exact ⟨fun _ ⟨σ, hσ, hσT, hσF⟩ => hF₁' (by simpa using hok₂) ⟨σ, (hT₂ hok₁ σ).2 ⟨hσ, hσT⟩, hσF⟩,
      fun h => nomatch h⟩
  -- the store the stages start from: its consistent evaluations are the solutions
  have hsol : ∀ σ, F₂.2.removeUnderscoreNames.circuit.Consistent σ ↔ p.Solution σ := fun σ => by
    rw [BC.consistent_removeUnderscoreNames, hF₂' hok₂ σ, hT₂ hok₁ σ, Problem.Solution, and_assoc]
  have hkeep := BC.removeUnderscoreNames_keeps (BC.frame_keeps (fr₂.1.trans fr₁.1)
    (fun x => ((fr₂.2 x).1.trans (fr₁.2 x).1)) (fun x => ((fr₂.2 x).2.trans (fr₁.2 x).2)) ⟨ha, hb, hs⟩)
  have hsize : F₂.2.removeUnderscoreNames.size = p.circuit.size := by
    rw [BC.size_removeUnderscoreNames, fr₂.1, fr₁.1]; rfl
  have hN : BC.NormalizeOk F₂.2.removeUnderscoreNames.circuit r := BC.shareNormalizeShare_sound
    (s := { F₂.2.removeUnderscoreNames with mayTransformInputGates := !opts.preserveAllSolutions })
    hkeep.1 hkeep.2.1 hkeep.2.2 h
  refine ⟨fun hr ⟨σ, hσ⟩ => hN.1 hr ⟨σ, (hsol σ).2 hσ⟩, fun hr => ?_⟩
  obtain ⟨ρ, hρ⟩ := hN.2 hr
  refine ⟨ρ, fun σ hσ => ?_, fun σ' hσ' => (hsol _).1 (hρ.restrict σ' hσ')⟩
  obtain ⟨σ', hσ', hag⟩ := hρ.extend σ ((hsol σ).2 hσ)
  exact ⟨σ', hσ', fun x hx => hag x (by rw [BC.circuit_size, hsize]; exact hx)⟩

/-- Under `-nosimplify`, the front end of `bc2cnf` is sound on an acyclic problem in the shape
`cnf_normalize` relies on, whose inputs and constants have no children and whose forced gates
are live: it returns false only for a problem without solution, and otherwise a store whose
consistent evaluations are the problem's solutions, read through a map of the gates. -/
theorem frontEnd_nosimplify_sound {fuel : Nat} {opts : Options}
    (hopt : opts.performSimplifications = false) {p : Problem} (ha : p.circuit.Acyclic)
    (hb : p.circuit.LeavesBare) (hs : p.circuit.Shaped)
    (hT : ∀ g ∈ p.assignedToTrue, (p.circuit.gate g).type.Live)
    (hF : ∀ g ∈ p.assignedToFalse, (p.circuit.gate g).type.Live) {r : Bool × BC}
    (h : frontEnd fuel opts p = some r) :
    (r.1 = false → ¬p.Satisfiable) ∧
    (r.1 = true → ∃ ρ, (∀ σ, p.Solution σ → ∃ σ', r.2.circuit.Consistent σ' ∧
        ∀ x < p.circuit.size, σ' (ρ x) = σ x) ∧
      ∀ σ', r.2.circuit.Consistent σ' → p.Solution (σ' ∘ ρ)) :=
  frontEnd_nosimplify_solutions hopt ha hb hs hT hF h

/-- `a = OR(x, y)` forced true and `x` forced false: the front end keeps the one solution. -/
theorem frontEnd_nosimplify_sound_or :
    let p : Problem :=
      { circuit := ⟨[{ type := .var, children := [] }, { type := .var, children := [] },
          { type := .or, children := [0, 1] }]⟩
        assignedToTrue := [2]
        assignedToFalse := [0] }
    let opts : Options := { performSimplifications := false }
    p.circuit.Acyclic ∧ ∃ r, frontEnd 20 opts p = some r ∧ r.1 = true ∧
      ∃ ρ, (∀ σ, p.Solution σ → ∃ σ', r.2.circuit.Consistent σ' ∧
        ∀ x < p.circuit.size, σ' (ρ x) = σ x) ∧
      ∀ σ', r.2.circuit.Consistent σ' → p.Solution (σ' ∘ ρ) :=
  have ha : Circuit.Acyclic ⟨[{ type := .var, children := [] }, { type := .var, children := [] },
      { type := .or, children := [0, 1] }]⟩ :=
    ⟨.ofCheck (fun g => if g = 2 then 1 else 0) (by decide)⟩
  ⟨ha, _, rfl, rfl, (@frontEnd_nosimplify_sound 20 { performSimplifications := false } rfl
    { circuit := _, assignedToTrue := [2], assignedToFalse := [0] } ha (by decide) (by decide)
    (by decide) (by decide) _ rfl).2 rfl⟩

/-- Under `-nosimplify`, `bc2cnf` reaches `unsat_exit` only for a problem without solution. -/
theorem main_nosimplify_unsat_sound {fuel : Nat} {opts : Options}
    (hopt : opts.performSimplifications = false) {p : Problem} (ha : p.circuit.Acyclic)
    (hb : p.circuit.LeavesBare) (hs : p.circuit.Shaped)
    (hT : ∀ g ∈ p.assignedToTrue, (p.circuit.gate g).type.Live)
    (hF : ∀ g ∈ p.assignedToFalse, (p.circuit.gate g).type.Live)
    (h : main fuel opts p = some .unsat) : ¬p.Satisfiable := by
  obtain ⟨⟨ok, s⟩, hr, h⟩ := Option.bind_eq_some.1 h
  cases ok
  · exact (frontEnd_nosimplify_solutions hopt ha hb hs hT hF hr).1 rfl
  · obtain ⟨_, -, h⟩ := Option.map_eq_some'.1 h
    cases h

/-- A gate forced both ways: `main` reaches `unsat_exit`, rightly. -/
theorem main_nosimplify_unsat_sound_conflict :
    let p : Problem :=
      { circuit := ⟨[{ type := .var, children := [] }]⟩, assignedToTrue := [0], assignedToFalse := [0] }
    main 20 { performSimplifications := false } p = some .unsat ∧ ¬p.Satisfiable :=
  ⟨rfl, @main_nosimplify_unsat_sound 20 { performSimplifications := false } rfl
    { circuit := ⟨[{ type := .var, children := [] }]⟩, assignedToTrue := [0], assignedToFalse := [0] }
    ⟨.ofCheck (fun _ => 0) (by decide)⟩ (by decide) (by decide) (by decide) (by decide) rfl⟩

end BcSat
