import BcSat.Justify

set_option autoImplicit false

/-!
# Cone of influence and numbering

The part of `bc2cnf`'s `main` between rewriting and emission. The temp fields are reset to
`-1`, `Gate::mark_coi` is called from every gate that is determined but not justified (from
every gate under `-nocoi`) and gives each gate of the cone a mark `0, 1, ...` in depth-first
preorder; the numbering loop then gives the CNF variables `1, 2, ...` to the marked gates in
store order, except that in NOT-less mode a `NOT` is left unnumbered (its parents use the
negated variable of its child).

The marking leaves a cone closed under children that holds every root; the numbering is a
bijection from the numbered gates onto `1..max_var`.
-/

namespace BcSat

/-- Gate `g` is marked: its `temp` is not the `-1` of `reset_temp_fields`. -/
def Circuit.Marked (c : Circuit) (g : Nat) : Prop := 0 ≤ (c.gate g).temp

instance (c : Circuit) (g : Nat) : Decidable (c.Marked g) := inferInstanceAs (Decidable (_ ≤ _))

/-- `c'` differs from `c` in the `temp` fields at most. -/
structure TempsOnly (c c' : Circuit) : Prop where
  size_eq : c'.size = c.size
  gate_eq : ∀ g, c'.gate g = { c.gate g with temp := (c'.gate g).temp }

namespace TempsOnly

variable {c c' c'' : Circuit}

theorem refl (c : Circuit) : TempsOnly c c := ⟨rfl, fun _ => rfl⟩

theorem trans (h₁ : TempsOnly c c') (h₂ : TempsOnly c' c'') : TempsOnly c c'' where
  size_eq := h₂.size_eq.trans h₁.size_eq
  gate_eq g := by rw [h₂.gate_eq g, h₁.gate_eq g]

theorem setTemp (c : Circuit) (g : Nat) (t : Int) : TempsOnly c (c.setTemp g t) where
  size_eq := Circuit.size_setTemp c g t
  gate_eq h := by
    simp only [Circuit.setTemp, Circuit.gate_modify]
    split <;> rfl

theorem resetTempFields (c : Circuit) (t : Int) : TempsOnly c (c.resetTempFields t) where
  size_eq := Circuit.size_resetTempFields c t
  gate_eq g := by
    by_cases hg : g < c.size
    · rw [Circuit.gate_resetTempFields c t hg]
    · rw [Circuit.gate_of_size_le _ (by simpa using Nat.le_of_not_lt hg),
        Circuit.gate_of_size_le _ (Nat.le_of_not_lt hg)]

theorem logic (h : TempsOnly c c') : SameLogic c c' :=
  ⟨h.size_eq, fun g => by rw [h.gate_eq g], fun g => by rw [h.gate_eq g],
    fun g => by rw [h.gate_eq g], fun g => by rw [h.gate_eq g], fun g => by rw [h.gate_eq g],
    fun g => by rw [h.gate_eq g]⟩

theorem type_eq (h : TempsOnly c c') (g : Nat) : (c'.gate g).type = (c.gate g).type :=
  h.logic.type_eq g

theorem children_eq (h : TempsOnly c c') (g : Nat) :
    (c'.gate g).children = (c.gate g).children :=
  h.logic.children_eq g

theorem determined_eq (h : TempsOnly c c') (g : Nat) :
    (c'.gate g).determined = (c.gate g).determined :=
  h.logic.determined_eq g

theorem isJustified_eq (h : TempsOnly c c') (g : Nat) : c'.isJustified g = c.isJustified g :=
  h.logic.isJustified_eq g

end TempsOnly

/-- The child loop of `Gate::mark_coi`. -/
def markChildren (mark : Circuit × Nat → Nat → Option (Circuit × Nat)) :
    Circuit × Nat → List Nat → Option (Circuit × Nat)
  | s, [] => some s
  | s, ch :: chs => (mark s ch).bind fun s => markChildren mark s chs

/-- `Gate::mark_coi`: an unmarked gate gets the counter as its mark, then its children are
marked in order. `none` only when the fuel, a bound on the depth, runs out. -/
def markCoi : Nat → Circuit × Nat → Nat → Option (Circuit × Nat)
  | 0, _, _ => none
  | fuel + 1, (c, counter), g =>
    if 0 ≤ (c.gate g).temp then some (c, counter)
    else markChildren (markCoi fuel) (c.setTemp g counter, counter + 1) (c.gate g).children

/-- Whether `main` calls `mark_coi` from `g`: always under `-nocoi`, and otherwise when `g`
is determined and `is_justified` rejects it; `none` is an `internal_error` of
`is_justified`. -/
def Circuit.isCoiRoot (c : Circuit) (coi : Bool) (g : Nat) : Option Bool :=
  if !coi then some true
  else if (c.gate g).determined then (c.isJustified g).map (!·) else some false

/-- The COI loop of `main`. -/
def markRoots (coi : Bool) : Circuit × Nat → List Nat → Option (Circuit × Nat)
  | s, [] => some s
  | (c, n), g :: gs => do
    let root ← c.isCoiRoot coi g
    let s ← if root then markCoi c.size (c, n) g else some (c, n)
    markRoots coi s gs

/-- Every temp is `-1` or a mark below the counter. -/
def MarksBelow (c : Circuit) (n : Nat) : Prop :=
  ∀ g < c.size, (c.gate g).temp = -1 ∨ (0 ≤ (c.gate g).temp ∧ (c.gate g).temp < n)

/-- What a stretch of marking does: it changes temps only, never lowers the counter, keeps
every mark, keeps the temps in range, marks only gates of `L`, and leaves every gate it marks
with marked children. -/
structure MarkStep (L : Nat → Prop) (s s' : Circuit × Nat) : Prop where
  temps : TempsOnly s.1 s'.1
  counter_le : s.2 ≤ s'.2
  keep : ∀ x, s.1.Marked x → (s'.1.gate x).temp = (s.1.gate x).temp
  below : MarksBelow s.1 s.2 → MarksBelow s'.1 s'.2
  within : ∀ x, s'.1.Marked x → ¬s.1.Marked x → L x
  closed : ∀ x < s.1.size, s'.1.Marked x → ¬s.1.Marked x →
    ∀ ch ∈ (s.1.gate x).children, s'.1.Marked ch
  grows : s.2 < s'.2 → ∃ x < s.1.size, s'.1.Marked x ∧ ¬s.1.Marked x

namespace MarkStep

variable {L : Nat → Prop} {s s' s'' : Circuit × Nat}

theorem refl (s : Circuit × Nat) : MarkStep L s s :=
  ⟨TempsOnly.refl _, Nat.le_refl _, fun _ _ => rfl, id, fun _ h h' => absurd h h',
    fun _ _ h h' => absurd h h', fun h => absurd h (Nat.lt_irrefl _)⟩

theorem marked (h : MarkStep L s s') {x : Nat} (hx : s.1.Marked x) : s'.1.Marked x := by
  unfold Circuit.Marked at hx ⊢
  rw [h.keep x hx]; exact hx

theorem trans (h₁ : MarkStep L s s') (h₂ : MarkStep L s' s'') : MarkStep L s s'' where
  temps := h₁.temps.trans h₂.temps
  counter_le := Nat.le_trans h₁.counter_le h₂.counter_le
  keep x hx := (h₂.keep x (h₁.marked hx)).trans (h₁.keep x hx)
  below := h₂.below ∘ h₁.below
  within x h'' hn := by
    by_cases h' : s'.1.Marked x
    · exact h₁.within x h' hn
    · exact h₂.within x h'' h'
  closed x hx h'' hn ch hch := by
    by_cases h' : s'.1.Marked x
    · exact h₂.marked (h₁.closed x hx h' hn ch hch)
    · exact h₂.closed x (h₁.temps.size_eq ▸ hx) h'' h' ch (by rwa [h₁.temps.children_eq])
  grows hlt := by
    by_cases h' : s.2 < s'.2
    · obtain ⟨x, hx, hm, hn⟩ := h₁.grows h'
      exact ⟨x, hx, h₂.marked hm, hn⟩
    · obtain ⟨x, hx, hm, hn⟩ := h₂.grows (by have := h₁.counter_le; omega)
      exact ⟨x, h₁.temps.size_eq ▸ hx, hm, fun h => hn (h₁.marked h)⟩

end MarkStep

section Marking

variable {c₀ : Circuit} (r : Ranking c₀) {L : Nat → Prop}
  (hL : ∀ g < c₀.size, L g → ∀ ch ∈ (c₀.gate g).children, L ch)
include r

/-- What `mark_coi` from `g` achieves: `g` ends marked, and either it was marked already and
nothing changed or the counter grew. -/
def MarkCoiOk (L : Nat → Prop) (fuel g : Nat) (s : Circuit × Nat) : Prop :=
  ∃ s', markCoi fuel s g = some s' ∧ MarkStep L s s' ∧ s'.1.Marked g ∧
    ((s.1.Marked g ∧ s' = s) ∨ s.2 < s'.2)

theorem markChildren_ok (fuel : Nat)
    (ih : ∀ ch < c₀.size, r.rank ch < fuel → L ch → ∀ s : Circuit × Nat, TempsOnly c₀ s.1 →
      MarkCoiOk L fuel ch s) :
    ∀ (chs : List Nat) (s : Circuit × Nat), (∀ ch ∈ chs, ch < c₀.size ∧ r.rank ch < fuel ∧ L ch) →
      TempsOnly c₀ s.1 → ∃ s', markChildren (markCoi fuel) s chs = some s' ∧ MarkStep L s s' ∧
        ∀ ch ∈ chs, s'.1.Marked ch
  | [], s, _, _ => ⟨s, rfl, MarkStep.refl s, by simp⟩
  | ch :: chs, s, hchs, ht => by
    obtain ⟨hs, hf, hl⟩ := hchs ch (List.mem_cons_self ch chs)
    obtain ⟨s₁, h₁, m₁, d₁, -⟩ := ih ch hs hf hl s ht
    obtain ⟨s₂, h₂, m₂, d₂⟩ := markChildren_ok fuel ih chs s₁
      (fun x hx => hchs x (List.mem_cons_of_mem ch hx)) (ht.trans m₁.temps)
    refine ⟨s₂, by simp [markChildren, h₁, h₂], m₁.trans m₂, ?_⟩
    simp only [List.mem_cons, forall_eq_or_imp]
    exact ⟨m₂.marked d₁, d₂⟩

include hL in
theorem markCoi_ok : ∀ (fuel : Nat) {g : Nat} (s : Circuit × Nat), g < c₀.size →
    r.rank g < fuel → L g → TempsOnly c₀ s.1 → MarkCoiOk L fuel g s
  | 0, _, _, _, hf, _, _ => absurd hf (Nat.not_lt_zero _)
  | fuel + 1, g, (c, n), hg, hf, hl, ht => by
    by_cases hm : c.Marked g
    · exact ⟨(c, n), by simp [markCoi, show 0 ≤ (c.gate g).temp from hm], MarkStep.refl _, hm,
        Or.inl ⟨hm, rfl⟩⟩
    have hgs : g < c.size := ht.size_eq ▸ hg
    have hchs : ∀ ch ∈ (c.gate g).children, ch < c₀.size ∧ r.rank ch < fuel ∧ L ch := by
      intro ch hm
      rw [ht.children_eq] at hm
      obtain ⟨hs, hr⟩ := r.child_lt g hg ch hm
      exact ⟨hs, by omega, hL g hg hl ch hm⟩
    have ht₁ := TempsOnly.setTemp c g n
    obtain ⟨s', h', m', d'⟩ := markChildren_ok r fuel
      (fun ch hs hr hl s ht => markCoi_ok fuel s hs hr hl ht) (c.gate g).children
      (c.setTemp g n, n + 1) hchs (ht.trans ht₁)
    have hself : ((c.setTemp g n).gate g).temp = n := by
      simp [Circuit.setTemp, Circuit.gate_modify, hgs]
    have hother : ∀ x, x ≠ g → (c.setTemp g n).gate x = c.gate x := fun x hx =>
      Circuit.gate_modify_of_ne _ _ (Ne.symm hx)
    have hgm : s'.1.Marked g := m'.marked (by
      show 0 ≤ ((c.setTemp g n).gate g).temp; rw [hself]; omega)
    refine ⟨s', by simp [markCoi, show ¬0 ≤ (c.gate g).temp from hm, h'], ⟨ht₁.trans m'.temps,
      by have := m'.counter_le; simp at this ⊢; omega, ?_, ?_, ?_, ?_, fun _ => ⟨g, hgs, hgm, hm⟩⟩,
      hgm, Or.inr (by have := m'.counter_le; simp at this ⊢; omega)⟩
    · intro x hx
      have hxg : x ≠ g := fun h => hm (h ▸ hx)
      rw [m'.keep x (by unfold Circuit.Marked; rw [hother x hxg]; exact hx), hother x hxg]
    · intro hb
      dsimp only at hb
      apply m'.below
      intro x hx
      by_cases hxg : x = g
      · subst hxg; right; rw [hself]; omega
      · rw [hother x hxg]
        rcases hb x (by simpa using hx) with h | h
        · exact Or.inl h
        · right; omega
    · intro x hx' hn
      by_cases hxg : x = g
      · exact hxg ▸ hl
      · refine m'.within x hx' ?_
        unfold Circuit.Marked; rw [hother x hxg]; exact hn
    · intro x hx hx' hn ch hch
      by_cases hxg : x = g
      · subst hxg; exact d' ch hch
      · have hn' : ¬(c.setTemp g n).Marked x := by
          unfold Circuit.Marked; rw [hother x hxg]; exact hn
        exact m'.closed x (by simpa using hx) hx' hn' ch (by rw [hother x hxg]; exact hch)

/-- A gate `mark_coi` starts from: every gate under `-nocoi`, otherwise a determined gate
that `is_justified` does not accept. -/
def IsRoot (c : Circuit) (coi : Bool) (g : Nat) : Prop :=
  coi = false ∨ ((c.gate g).determined ∧ c.isJustified g = some false)

instance (c : Circuit) (coi : Bool) (g : Nat) : Decidable (IsRoot c coi g) :=
  inferInstanceAs (Decidable (_ ∨ _))

include hL in
theorem markRoots_ok (coi : Bool) :
    ∀ (gs : List Nat) (s : Circuit × Nat),
      (∀ g ∈ gs, g < c₀.size ∧ (c₀.isJustified g).isSome ∧ L g) →
      TempsOnly c₀ s.1 → ∃ s', markRoots coi s gs = some s' ∧ MarkStep L s s' ∧
        (∀ g ∈ gs, IsRoot c₀ coi g → s'.1.Marked g) ∧ (s' = s ∨ s.2 < s'.2)
  | [], s, _, _ => ⟨s, rfl, MarkStep.refl s, by simp, Or.inl rfl⟩
  | g :: gs, (c, n), hgs, ht => by
    obtain ⟨hg, hj, hl⟩ := hgs g (List.mem_cons_self g gs)
    have hrest := fun x hx => hgs x (List.mem_cons_of_mem g hx)
    obtain ⟨j, hjs⟩ := Option.isSome_iff_exists.mp hj
    have hroot : c.isCoiRoot coi g = some (decide (IsRoot c₀ coi g)) := by
      rw [Circuit.isCoiRoot, ht.isJustified_eq, hjs, ht.determined_eq]
      cases coi <;> cases hd : (c₀.gate g).determined <;> cases j <;> simp [IsRoot, hjs, hd]
    by_cases hr : IsRoot c₀ coi g
    · obtain ⟨s₁, h₁, m₁, d₁, g₁⟩ := markCoi_ok r hL c.size (c, n) hg
        (by rw [ht.size_eq]; exact r.rank_lt g hg) hl ht
      obtain ⟨s₂, h₂, m₂, d₂, g₂⟩ := markRoots_ok coi gs s₁ hrest (ht.trans m₁.temps)
      refine ⟨s₂, by simp [markRoots, hroot, hr, h₁, h₂], m₁.trans m₂, ?_, ?_⟩
      · simp only [List.mem_cons, forall_eq_or_imp]
        exact ⟨fun _ => m₂.marked d₁, d₂⟩
      · rcases g₁ with ⟨-, rfl⟩ | g₁
        · exact g₂
        · right; rcases g₂ with rfl | g₂ <;> omega
    · obtain ⟨s₂, h₂, m₂, d₂, g₂⟩ := markRoots_ok coi gs (c, n) hrest ht
      refine ⟨s₂, by simp [markRoots, hroot, hr, h₂], m₂, ?_, g₂⟩
      simp only [List.mem_cons, forall_eq_or_imp]
      exact ⟨fun h => absurd h hr, d₂⟩

end Marking

theorem not_marked_reset (c : Circuit) {g : Nat} (hg : g < c.size) :
    ¬(c.resetTempFields (-1)).Marked g := by
  simp [Circuit.Marked, Circuit.gate_resetTempFields c _ hg]

/-- The COI stage of `main` ends, and leaves a cone of marked live gates closed under children
that holds every root; a counter of `0` means nothing was marked. -/
theorem markRoots_cone (c : Circuit) (r : Ranking c) (coi : Bool)
    (hj : ∀ g < c.size, (c.gate g).type ≠ .deleted → (c.isJustified g).isSome)
    (hL : ∀ g < c.size, (c.gate g).type ≠ .deleted →
      ∀ ch ∈ (c.gate g).children, (c.gate ch).type ≠ .deleted) :
    ∃ c₁ n, markRoots coi (c.resetTempFields (-1), 0) c.liveGates = some (c₁, n) ∧
      TempsOnly c c₁ ∧ (∀ g < c.size, (c₁.gate g).temp = -1 ∨ 0 ≤ (c₁.gate g).temp) ∧
      (∀ g < c.size, c₁.Marked g → (c.gate g).type ≠ .deleted) ∧
      (∀ g < c.size, c₁.Marked g → ∀ ch ∈ (c.gate g).children, c₁.Marked ch) ∧
      (∀ g < c.size, (c.gate g).type ≠ .deleted → IsRoot c coi g → c₁.Marked g) ∧
      (n = 0 → c₁ = c.resetTempFields (-1)) ∧ (0 < n → ∃ g < c.size, c₁.Marked g) := by
  have ht := TempsOnly.resetTempFields c (-1)
  obtain ⟨⟨c₁, n⟩, h, m, hroot, hn⟩ := markRoots_ok r hL coi c.liveGates
    (c.resetTempFields (-1), 0) (fun g hg => by
      obtain ⟨hg, hl⟩ := Circuit.mem_liveGates.mp hg
      exact ⟨hg, hj g hg hl, hl⟩) ht
  have hbelow := m.below fun g hg => Or.inl (by
    simp [Circuit.gate_resetTempFields c _ (by simpa using hg)])
  refine ⟨c₁, n, h, ht.trans m.temps, fun g hg => ?_, fun g hg hm => ?_,
    fun g hg hm ch hch => ?_, fun g hg hl hr => hroot g (Circuit.mem_liveGates.mpr ⟨hg, hl⟩) hr,
    fun h0 => ?_, fun hpos => ?_⟩
  · rcases hbelow g (by rw [m.temps.size_eq]; simpa using hg) with h' | h'
    · exact Or.inl h'
    · exact Or.inr h'.1
  · exact m.within g hm (not_marked_reset c hg)
  · exact m.closed g (by simpa using hg) hm (not_marked_reset c hg) ch (by rwa [ht.children_eq])
  · rcases hn with h' | h'
    · exact congrArg Prod.fst h'
    · simp at h'; omega
  · obtain ⟨x, hx, hm, -⟩ := m.grows hpos
    exact ⟨x, by simpa using hx, hm⟩

/-- The numbering loop of `main`: the marked gates get the variables `1, 2, ...` in store
order, except that in NOT-less mode a `NOT` is unmarked again after the assertions that it
is undetermined and its child is not a `NOT`; `none` is a failed assertion. -/
def numberGates (notless : Bool) : Circuit × Nat → List Nat → Option (Circuit × Nat)
  | s, [] => some s
  | (c, n), g :: gs =>
    if (c.gate g).temp = -1 then numberGates notless (c, n) gs
    else if notless ∧ (c.gate g).type = .not then
      if (c.gate g).determined then none
      else match (c.gate g).children.head? with
        | some ch => if (c.gate ch).type = .not then none
          else numberGates notless (c.setTemp g (-1), n) gs
        | none => none
    else numberGates notless (c.setTemp g (n + 1), n + 1) gs

/-- A gate the numbering gives a variable: marked, and not a NOT-less `NOT`. -/
def Numbered (c : Circuit) (notless : Bool) (g : Nat) : Prop :=
  c.Marked g ∧ ¬(notless = true ∧ (c.gate g).type = .not)

instance (c : Circuit) (notless : Bool) (g : Nat) : Decidable (Numbered c notless g) :=
  inferInstanceAs (Decidable (_ ∧ _))

/-- The numbering of the gates `done` of the marked circuit `c₁` in `c`: numbered gates get
variables in `1..n`, the others `-1`, no variable twice and every variable in `1..n` used. -/
structure NumberedBy (c₁ : Circuit) (notless : Bool) (done : Nat → Prop) (c : Circuit)
    (n : Nat) : Prop where
  temps : TempsOnly c₁ c
  numbered : ∀ g < c₁.size, done g → Numbered c₁ notless g →
    1 ≤ (c.gate g).temp ∧ (c.gate g).temp ≤ n
  unnumbered : ∀ g < c₁.size, done g → ¬Numbered c₁ notless g → (c.gate g).temp = -1
  inj : ∀ g < c₁.size, ∀ h < c₁.size, done g → done h → 0 < (c.gate g).temp →
    (c.gate g).temp = (c.gate h).temp → g = h
  onto : ∀ v : Nat, 1 ≤ v → v ≤ n → ∃ g < c₁.size, done g ∧ (c.gate g).temp = v

theorem NumberedBy.step {c₁ : Circuit} {notless : Bool} {done : Nat → Prop} {c c' : Circuit}
    {n n' g : Nat} (h : NumberedBy c₁ notless done c n) (hgs : g < c₁.size) (hfresh : ¬done g)
    (ht : TempsOnly c c') (hother : ∀ x, x ≠ g → (c'.gate x).temp = (c.gate x).temp)
    (hg : if Numbered c₁ notless g then (c'.gate g).temp = n + 1 ∧ n' = n + 1
      else (c'.gate g).temp = -1 ∧ n' = n) :
    NumberedBy c₁ notless (fun x => x = g ∨ done x) c' n' := by
  have hne : ∀ x, done x → x ≠ g := fun x hx hxg => hfresh (hxg ▸ hx)
  have hold : ∀ x < c₁.size, done x → (c'.gate x).temp = -1 ∨
      (1 ≤ (c'.gate x).temp ∧ (c'.gate x).temp ≤ n) := fun x hx hd => by
    rw [hother x (hne x hd)]
    by_cases hN : Numbered c₁ notless x
    · exact Or.inr (h.numbered x hx hd hN)
    · exact Or.inl (h.unnumbered x hx hd hN)
  have honto : ∀ v : Nat, 1 ≤ v → v ≤ n → ∃ x < c₁.size, (x = g ∨ done x) ∧ (c'.gate x).temp = v :=
    fun v hv hvo => by
      obtain ⟨x, hx, hd, hxv⟩ := h.onto v hv hvo
      exact ⟨x, hx, Or.inr hd, by rw [hother x (hne x hd)]; exact hxv⟩
  have hinj : ∀ x < c₁.size, ∀ y < c₁.size, done x → done y → 0 < (c'.gate x).temp →
      (c'.gate x).temp = (c'.gate y).temp → x = y := fun x hx y hy hdx hdy hpos heq => by
    rw [hother x (hne x hdx), hother y (hne y hdy)] at heq
    rw [hother x (hne x hdx)] at hpos
    exact h.inj x hx y hy hdx hdy hpos heq
  by_cases hN : Numbered c₁ notless g
  · obtain ⟨hgt, rfl⟩ := if_pos hN ▸ hg
    refine ⟨h.temps.trans ht, ?_, ?_, ?_, ?_⟩
    · rintro x hx (rfl | hd) hN'
      · omega
      · have := h.numbered x hx hd hN'; rw [hother x (hne x hd)]; omega
    · rintro x hx (rfl | hd) hN'
      · exact absurd hN hN'
      · rw [hother x (hne x hd)]; exact h.unnumbered x hx hd hN'
    · rintro x hx y hy (rfl | hdx) (rfl | hdy) hpos heq
      · rfl
      · rcases hold y hy hdy with h' | h' <;> omega
      · rcases hold x hx hdx with h' | h' <;> omega
      · exact hinj x hx y hy hdx hdy hpos heq
    · intro v hv hvn
      by_cases hvo : v ≤ n
      · exact honto v hv hvo
      · exact ⟨g, hgs, Or.inl rfl, by omega⟩
  · obtain ⟨hgt, rfl⟩ := if_neg hN ▸ hg
    refine ⟨h.temps.trans ht, ?_, ?_, ?_, honto⟩
    · rintro x hx (rfl | hd) hN'
      · exact absurd hN' hN
      · have := h.numbered x hx hd hN'; rw [hother x (hne x hd)]; omega
    · rintro x hx (rfl | hd) hN'
      · exact hgt
      · rw [hother x (hne x hd)]; exact h.unnumbered x hx hd hN'
    · rintro x hx y hy (rfl | hdx) (rfl | hdy) hpos heq
      · rfl
      · omega
      · omega
      · exact hinj x hx y hy hdx hdy hpos heq

section Numbering

variable {c₁ : Circuit} {notless : Bool}
  (htemp : ∀ g < c₁.size, (c₁.gate g).temp = -1 ∨ 0 ≤ (c₁.gate g).temp)
  (hnot : ∀ g < c₁.size, c₁.Marked g → notless = true → (c₁.gate g).type = .not →
    (c₁.gate g).determined = false ∧ ∃ ch, (c₁.gate g).children.head? = some ch ∧
      (c₁.gate ch).type ≠ .not)
include htemp hnot

theorem numberGates_ok : ∀ (gs : List Nat) (c : Circuit) (n : Nat), gs.Nodup →
    (∀ g ∈ gs, g < c₁.size ∧ (c.gate g).temp = (c₁.gate g).temp) →
    NumberedBy c₁ notless (· ∉ gs) c n →
    ∃ c' n', numberGates notless (c, n) gs = some (c', n') ∧ NumberedBy c₁ notless (fun _ => True) c' n'
  | [], c, n, _, _, h => ⟨c, n, rfl, by simpa using h⟩
  | g :: gs, c, n, hnd, hgs, h => by
    obtain ⟨hg, hgt⟩ := hgs g (List.mem_cons_self g gs)
    have hrest := fun x hx => hgs x (List.mem_cons_of_mem g hx)
    have hg_nmem : g ∉ gs := (List.nodup_cons.mp hnd).1
    have hnd' := (List.nodup_cons.mp hnd).2
    have hdone : (fun x => x = g ∨ x ∉ g :: gs) = fun x => x ∉ gs := by
      funext x; apply propext; by_cases hx : x = g <;> simp [hx, hg_nmem]
    have hframe : ∀ (t : Int) (x : Nat), x ≠ g → ((c.setTemp g t).gate x).temp = (c.gate x).temp :=
      fun t x hx => by rw [Circuit.gate_setTemp_of_ne c t hx]
    have hrest' : ∀ t : Int, ∀ x ∈ gs, x < c₁.size ∧ ((c.setTemp g t).gate x).temp =
        (c₁.gate x).temp := fun t x hx =>
      ⟨(hrest x hx).1, by rw [hframe t x fun h => hg_nmem (h ▸ hx)]; exact (hrest x hx).2⟩
    have hgc : g < c.size := h.temps.size_eq ▸ hg
    by_cases h1 : (c.gate g).temp = -1
    · have hN : ¬Numbered c₁ notless g := fun hN => by
        have := hN.1; unfold Circuit.Marked at this; omega
      have h' := h.step hg (by simp) (TempsOnly.refl c) (fun _ _ => rfl)
        (by rw [if_neg hN]; exact ⟨h1, rfl⟩)
      rw [hdone] at h'
      obtain ⟨c', n', e', d'⟩ := numberGates_ok gs c n hnd' hrest h'
      exact ⟨c', n', by simp [numberGates, h1, e'], d'⟩
    have hM : c₁.Marked g := by
      rcases htemp g hg with h2 | h2
      · omega
      · exact h2
    by_cases h2 : notless = true ∧ (c.gate g).type = .not
    · have hty : (c₁.gate g).type = .not := by rw [← h.temps.type_eq]; exact h2.2
      obtain ⟨hdet, ch, hch, hcht⟩ := hnot g hg hM h2.1 hty
      have hN : ¬Numbered c₁ notless g := fun hN => hN.2 ⟨h2.1, hty⟩
      have h' := h.step hg (by simp) (TempsOnly.setTemp c g (-1)) (hframe (-1))
        (by rw [if_neg hN]; exact ⟨Circuit.temp_setTemp_self c _ hgc, rfl⟩)
      rw [hdone] at h'
      obtain ⟨c', n', e', d'⟩ := numberGates_ok gs _ n hnd' (hrest' (-1)) h'
      refine ⟨c', n', ?_, d'⟩
      rw [← h.temps.children_eq] at hch
      rw [← h.temps.type_eq] at hcht
      rw [← h.temps.determined_eq] at hdet
      rw [numberGates, if_neg h1, if_pos h2]
      simp [hdet, hch, hcht, e']
    · have hN : Numbered c₁ notless g :=
        ⟨hM, fun h' => h2 ⟨h'.1, by rw [h.temps.type_eq]; exact h'.2⟩⟩
      have h' := h.step hg (by simp) (TempsOnly.setTemp c g (n + 1)) (hframe _)
        (by rw [if_pos hN]; exact ⟨Circuit.temp_setTemp_self c _ hgc, rfl⟩)
      rw [hdone] at h'
      obtain ⟨c', n', e', d'⟩ := numberGates_ok gs _ _ hnd' (hrest' _) h'
      refine ⟨c', n', ?_, d'⟩
      simp only [numberGates, h1, h2, if_false]
      exact_mod_cast e'

end Numbering

/-- The numbering stage of `main` ends without a failed assertion on a marked circuit of the
emitter's shape whose marked gates are live, and numbers the marked gates bijectively. -/
theorem numberGates_bijective {c₁ : Circuit} {notless : Bool} (hshape : c₁.CnfShaped notless)
    (htemp : ∀ g < c₁.size, (c₁.gate g).temp = -1 ∨ 0 ≤ (c₁.gate g).temp)
    (hlive : ∀ g < c₁.size, c₁.Marked g → (c₁.gate g).type ≠ .deleted) :
    ∃ c₂ m, numberGates notless (c₁, 0) c₁.liveGates = some (c₂, m) ∧
      NumberedBy c₁ notless (fun _ => True) c₂ m := by
  have hnot : ∀ g < c₁.size, c₁.Marked g → notless = true → (c₁.gate g).type = .not →
      (c₁.gate g).determined = false ∧ ∃ ch, (c₁.gate g).children.head? = some ch ∧
        (c₁.gate ch).type ≠ .not := by
    intro g hg hm hn ht
    subst hn
    obtain ⟨hd, ch, hch, hcht⟩ := cnfGateOk_notless_not (hshape.gateOk hg (hlive g hg hm)) ht
    exact ⟨hd, ch, by simp [hch], hcht⟩
  -- a deleted gate is unmarked, so it starts out done with `temp = -1`
  have hdel : ∀ g < c₁.size, g ∉ c₁.liveGates → ¬c₁.Marked g := fun g hg hn hm =>
    hn (Circuit.mem_liveGates.mpr ⟨hg, hlive g hg hm⟩)
  refine numberGates_ok htemp hnot c₁.liveGates c₁ 0 c₁.nodup_liveGates
    (fun g hg => ⟨(Circuit.mem_liveGates.mp hg).1, rfl⟩) ⟨TempsOnly.refl c₁, ?_, ?_, ?_, ?_⟩
  · intro g hg hd hN; exact absurd hN.1 (hdel g hg hd)
  · intro g hg hd _
    have := hdel g hg hd
    rcases htemp g hg with h | h
    · exact h
    · exact absurd h this
  · intro g hg _ _ hd _ hpos; exact absurd (Int.le_of_lt hpos) (hdel g hg hd)
  · intro v hv hv0; omega

end BcSat
