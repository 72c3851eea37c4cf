import BcSat.SimplifyKeepsOrAnd

set_option autoImplicit false

/-!
# The `ODD` and `EVEN` case of `Gate::simplify` loses no solution

A parity gate reads only the parity of the number of its true children. Dropping a determined
child and flipping the type for a true one, replacing `NOT(x)` by `x` and flipping the type, and
dropping a child twice all keep that parity, so a consistent evaluation stays consistent. The
two-child rules read the value the gate is determined to: equal children are unified, opposite
ones joined by a `NOT`, and `ODD(x, OR(x,...))` is rewritten as an `AND`.
-/

namespace BcSat

theorem GateType.eval_or_split {σ : Nat → Bool} {c : Nat} {chs : List Nat} (hc : c ∈ chs)
    (lo hi : Nat) : GateType.or.eval lo hi (chs.map σ) =
      (σ c || GateType.or.eval 0 0 ((chs.filter (· ≠ c)).map σ)) := by
  rw [GateType.eval_orAnd (show GateType.or = if Bool.true then .or else .and from rfl),
    GateType.eval_orAnd (show GateType.or = if Bool.true then .or else .and from rfl)]
  by_cases h : σ c = Bool.true
  · simp [h, List.mem_map]
    exact ⟨c, hc, h⟩
  · simp [h, List.mem_map, List.mem_filter]
    constructor
    · rintro ⟨x, hx, hσx⟩
      exact ⟨x, ⟨hx, fun e => h (e ▸ hσx)⟩, hσx⟩
    · rintro ⟨x, ⟨hx, -⟩, hσx⟩
      exact ⟨x, hx, hσx⟩

theorem GateType.eval_parity {t : GateType} (ht : t = .odd ∨ t = .even) (lo hi : Nat)
    (vs : List Bool) :
    t.eval lo hi vs = decide ((vs.count Bool.true + if t = .odd then 1 else 0) % 2 = 0) := by
  rcases ht with rfl | rfl <;> rcases Nat.mod_two_eq_zero_or_one (vs.count Bool.true) with h | h <;>
    simp [GateType.eval, h, Nat.add_mod]

theorem GateType.parity_live {t : GateType} (ht : t = .odd ∨ t = .even) : t.Live ∧ t ≠ .var := by
  rcases ht with rfl | rfl <;> decide

theorem GateType.flipParity_parity {t : GateType} (ht : t = .odd ∨ t = .even) :
    t.flipParity = .odd ∨ t.flipParity = .even := by
  rcases ht with rfl | rfl <;> simp [GateType.flipParity]

theorem GateType.flipParity_offset {t : GateType} (ht : t = .odd ∨ t = .even) :
    (if t.flipParity = .odd then 1 else 0) + (if t = .odd then 1 else 0) = 1 := by
  rcases ht with rfl | rfl <;> rfl

theorem count_map_erase {σ : Nat → Bool} (b : Bool) {kept : List Nat} (rest : List Nat) {ch : Nat}
    (hk : ch ∈ kept) : ((kept ++ ch :: rest).map σ).count b =
      ((kept.erase ch ++ rest).map σ).count b + 2 * if σ ch = b then 1 else 0 := by
  have hp : List.Perm ((kept ++ ch :: rest).map σ) (σ ch :: σ ch :: (kept.erase ch ++ rest).map σ) := by
    have := ((List.perm_cons_erase hk).append_right (ch :: rest)).trans
      (List.Perm.cons ch List.perm_middle)
    simpa using this.map σ
  rw [hp.count_eq]
  simp only [List.count_cons]
  cases σ ch <;> cases b <;> simp

theorem count_map_mid {σ : Nat → Bool} (b : Bool) (kept rest : List Nat) (ch : Nat) :
    ((kept ++ ch :: rest).map σ).count b = ((kept ++ rest).map σ).count b + if σ ch = b then 1 else 0 := by
  simp only [List.map_append, List.map_cons, List.count_append, List.count_cons]
  cases σ ch <;> cases b <;> simp <;> omega

theorem GateType.eq_of_equate {t : GateType} {lo hi : Nat} {v a b : Bool} (h : v = t.eval lo hi [a, b])
    (ht : t = .even ∧ v = Bool.true ∨ t = .odd ∧ (!v) = Bool.true) : a = b := by
  rcases ht with ⟨rfl, rfl⟩ | ⟨rfl, hv⟩
  · cases a <;> cases b <;> revert h <;> simp [GateType.eval]
  · obtain rfl : v = Bool.false := by simpa using hv
    cases a <;> cases b <;> revert h <;> simp [GateType.eval]

theorem GateType.eq_not_of_antiEquate {t : GateType} {lo hi : Nat} {v a b : Bool}
    (h : v = t.eval lo hi [a, b]) (ht : t = .even ∧ (!v) = Bool.true ∨ t = .odd ∧ v = Bool.true) :
    a = !b := by
  rcases ht with ⟨rfl, hv⟩ | ⟨rfl, rfl⟩
  · obtain rfl : v = Bool.false := by simpa using hv
    cases a <;> cases b <;> revert h <;> simp [GateType.eval]
  · cases a <;> cases b <;> revert h <;> simp [GateType.eval]

namespace BC

open Circuit

/-- `s'` differs from `s` in the marks, the stack, and the type and the children of `g` at most. -/
structure GateAt (g : Nat) (s s' : BC) extends OnlyAt g s s' : Prop where
  size_eq : s'.size = s.size
  fields : ∀ x, (s'.gate x).tmin = (s.gate x).tmin ∧ (s'.gate x).tmax = (s.gate x).tmax ∧
    (s'.gate x).determined = (s.gate x).determined ∧ (s'.gate x).value = (s.gate x).value

namespace GateAt

variable {s s' s'' : BC} {g : Nat}

theorem refl (g : Nat) (s : BC) : GateAt g s s := ⟨.refl g s, rfl, fun _ => ⟨rfl, rfl, rfl, rfl⟩⟩

theorem trans (h₁ : GateAt g s s') (h₂ : GateAt g s' s'') : GateAt g s s'' where
  toOnlyAt := h₁.toOnlyAt.trans h₂.toOnlyAt
  size_eq := h₂.size_eq.trans h₁.size_eq
  fields x :=
    let ⟨a₁, b₁, c₁, d₁⟩ := h₁.fields x
    let ⟨a₂, b₂, c₂, d₂⟩ := h₂.fields x
    ⟨a₂.trans a₁, b₂.trans b₁, c₂.trans c₁, d₂.trans d₁⟩

theorem of_childrenAt (h : ChildrenAt g s s') : GateAt g s s' :=
  ⟨⟨fun x hx => ⟨h.type_eq x, h.children_eq x hx⟩⟩, h.size_eq,
    fun x => let ⟨_, b, c, d, e⟩ := h.logic x; ⟨b, c, d, e⟩⟩

theorem modify (f : Gate → Gate) (hf : ∀ gt, (f gt).tmin = gt.tmin ∧ (f gt).tmax = gt.tmax ∧
    (f gt).determined = gt.determined ∧ (f gt).value = gt.value) : GateAt g s (s.modify g f) :=
  ⟨OnlyAt.modify f, by simp, fun x => by
    rw [gate_modify]; split_ifs; exacts [hf _, ⟨rfl, rfl, rfl, rfl⟩]⟩

theorem setChildren (chs : List Nat) : GateAt g s (s.setChildren g chs) :=
  modify _ fun _ => ⟨rfl, rfl, rfl, rfl⟩

theorem setType (t : GateType) : GateAt g s (s.setType g t) := modify _ fun _ => ⟨rfl, rfl, rfl, rfl⟩

theorem setLinks (h : GateAt g s s') (p : Nat) (l : List Nat) : GateAt g s (s'.setLinks p l) :=
  ⟨h.toOnlyAt.setLinks p l, h.size_eq, h.fields⟩

theorem tick (h : GateAt g s s') (n : Nat) : GateAt g s (s'.tick n) := ⟨h.toOnlyAt.tick n, h.size_eq, h.fields⟩

theorem of_gate (hsize : s'.size = s.size) (h : ∀ x, s'.gate x = s.gate x) : GateAt g s s' :=
  of_childrenAt (.of_gate hsize h)

theorem pushIfOrphan (y : Nat) : GateAt g s (s.pushIfOrphan y) := of_gate (by simp) fun _ => by simp

theorem addInPstack (y : Nat) : GateAt g s (s.addInPstack y) := of_gate (by simp) fun _ => by simp

theorem addParentsInPstack (y : Nat) : GateAt g s (s.addParentsInPstack y) :=
  of_gate (by simp) fun _ => by simp

theorem type_eq (h : GateAt g s s') {x : Nat} (hx : x ≠ g) : (s'.gate x).type = (s.gate x).type :=
  (h.frame x hx).1

theorem shaped (h : GateAt g s s') (hs : s.circuit.Shaped)
    (hl : (s'.gate g).type.Live ↔ (s.gate g).type.Live) (hg : s'.circuit.GateShaped (s'.gate g)) :
    s'.circuit.Shaped :=
  hs.of_frame (fun x hx => by
    by_cases hxg : x = g
    · subst hxg; exact hl.2 hx
    · rw [circuit_gate, h.type_eq hxg]; exact hx) fun x _ => by
    by_cases hxg : x = g
    · subst hxg; exact .inr hg
    · exact .inl (h.frame x hxg)

theorem gateOk_iff {σ : Nat → Bool} {x : Nat} (h : GateAt g s s') (hx : x ≠ g) :
    s'.circuit.GateOk σ x ↔ s.circuit.GateOk σ x := by
  obtain ⟨h₂, h₃, h₄, h₅⟩ := h.fields x
  obtain ⟨h₁, h₆⟩ := h.frame x hx
  rw [Circuit.gateOk_iff, Circuit.gateOk_iff, circuit_gate, circuit_gate, Gate.holds_congr h₁ h₂ h₃ h₄ h₅,
    h₆]

end GateAt

theorem gate_retypeLeaf {s : BC} {x : Nat} (hx : x < s.size) (hc : (s.gate x).children = [])
    (t : GateType) (y z : Nat) : ((s.setType x t).addChild x y).gate z =
      if z = x then { s.gate x with type := t, children := [y] } else s.gate z := by
  by_cases hz : z = x
  · subst hz; simp [hx, hc]
  · simp [hz, Ne.symm hz]

end BC

namespace Circuit.ConsistentBut

open BC

variable {s s' : BC} {g : Nat} {σ : Nat → Bool}

theorem of_gateAt (hb : s'.circuit.ConsistentBut σ g) (h : GateAt g s s') : s.circuit.ConsistentBut σ g :=
  fun x hx hxg => (h.gateOk_iff hxg).1 (hb x (by simpa [h.size_eq] using hx) hxg)

theorem gateAt (hb : s.circuit.ConsistentBut σ g) (h : GateAt g s s') : s'.circuit.ConsistentBut σ g :=
  fun x hx hxg => (h.gateOk_iff hxg).2 (hb x (by simpa [h.size_eq] using hx) hxg)

end Circuit.ConsistentBut

namespace Circuit.Consistent

open BC

variable {s s' : BC} {g : Nat} {σ : Nat → Bool}

theorem gateAt (hσ : s.circuit.Consistent σ) (h : GateAt g s s')
    (hlive : (s'.gate g).type.Live → (s.gate g).type.Live)
    (heval : g < s.size → (s'.gate g).type.Live → (s'.gate g).type ≠ .var →
      σ g = (s'.gate g).type.eval (s'.gate g).tmin (s'.gate g).tmax ((s'.gate g).children.map σ)) :
    s'.circuit.Consistent σ := by
  intro x hx
  have hx' : x < s.size := by simpa [h.size_eq] using hx
  obtain ⟨h₂, h₃, h₄, h₅⟩ := h.fields x
  rw [gateOk_iff, circuit_gate]
  by_cases hxg : x = g
  · subst hxg
    exact fun hl => ⟨heval hx' hl, fun hd => by
      rw [h₅]; exact (hσ x hx' (hlive hl)).2 (h₄ ▸ hd)⟩
  · obtain ⟨h₁, h₆⟩ := h.frame x hxg
    rw [Gate.holds_congr h₁ h₂ h₃ h₄ h₅, h₆]
    exact hσ x hx'

/-- A change at a parity gate `g` that keeps what it reads keeps a consistent evaluation. -/
theorem gateAt_parity (hσ : s.circuit.Consistent σ) (h : GateAt g s s')
    (ht : (s.gate g).type = .odd ∨ (s.gate g).type = .even)
    (heq : ∀ lo hi, (s'.gate g).type.eval lo hi ((s'.gate g).children.map σ) =
      (s.gate g).type.eval lo hi ((s.gate g).children.map σ)) : s'.circuit.Consistent σ :=
  hσ.gateAt h (fun _ => (GateType.parity_live ht).1) fun hg _ _ => by
    rw [heq, (h.fields g).1, (h.fields g).2.1]
    exact consistent_eval hσ hg (GateType.parity_live ht).1 (GateType.parity_live ht).2

theorem retypeLeaf (hσ : s.circuit.Consistent σ) {x y : Nat} (hx : x < s.size)
    (hc : (s.gate x).children = []) (hl : (s.gate x).type.Live) {t : GateType}
    (hv : t.Live → t ≠ .var → σ x = t.eval (s.gate x).tmin (s.gate x).tmax [σ y]) :
    ((s.setType x t).addChild x y).circuit.Consistent σ := by
  have hgate := gate_retypeLeaf hx hc t y
  refine hσ.rebuilt (g := x) (by simp) (fun z hz => by rw [hgate, if_neg hz])
    (by rw [hgate, if_pos rfl]) (by rw [hgate, if_pos rfl]) (fun _ => hl) fun _ hl' hv' => ?_
  rw [hgate, if_pos rfl] at hl' hv' ⊢
  simpa using hv hl' hv'

end Circuit.Consistent

namespace BC

open Circuit

variable {s : BC} {g : Nat} {σ : Nat → Bool}

/-- The determined children of a parity gate go, a true one flipping its type; read under any
evaluation that gives them their values, the gate reads the same. -/
theorem parityDetScan_spec : ∀ (rest kept : List Nat) (s : BC), g < s.size →
    ((s.gate g).type = .odd ∨ (s.gate g).type = .even) → (s.gate g).children = kept ++ rest →
    GateAt g s (parityDetScan g kept rest s).2 ∧
      (((parityDetScan g kept rest s).2.gate g).type = .odd ∨
        ((parityDetScan g kept rest s).2.gate g).type = .even) ∧
      ((parityDetScan g kept rest s).2.gate g).children.length = (parityDetScan g kept rest s).1 ∧
      (∀ y ∈ ((parityDetScan g kept rest s).2.gate g).children, y ∈ kept ++ rest) ∧
      ∀ σ, (∀ x ∈ rest, (s.gate x).determined → σ x = (s.gate x).value) → ∀ lo hi,
        ((parityDetScan g kept rest s).2.gate g).type.eval lo hi
          (((parityDetScan g kept rest s).2.gate g).children.map σ) =
          (s.gate g).type.eval lo hi ((s.gate g).children.map σ)
  | [], kept, s, _, ht, hch => ⟨.refl g s, ht, by simp [parityDetScan, hch],
      by simp [parityDetScan, hch], fun _ _ _ _ => rfl⟩
  | ch :: rest, kept, s, hg, ht, hch => by
    -- one step, then the rest of the scan
    have step : ∀ t : BC, GateAt g s t → ((t.gate g).type = .odd ∨ (t.gate g).type = .even) →
        (t.gate g).children = kept ++ rest →
        (∀ σ, (∀ x ∈ ch :: rest, (s.gate x).determined → σ x = (s.gate x).value) → ∀ lo hi,
          (t.gate g).type.eval lo hi ((t.gate g).children.map σ) =
            (s.gate g).type.eval lo hi ((s.gate g).children.map σ)) →
        GateAt g s (parityDetScan g kept rest t).2 ∧
          (((parityDetScan g kept rest t).2.gate g).type = .odd ∨
            ((parityDetScan g kept rest t).2.gate g).type = .even) ∧
          ((parityDetScan g kept rest t).2.gate g).children.length = (parityDetScan g kept rest t).1 ∧
          (∀ y ∈ ((parityDetScan g kept rest t).2.gate g).children, y ∈ kept ++ ch :: rest) ∧
          ∀ σ, (∀ x ∈ ch :: rest, (s.gate x).determined → σ x = (s.gate x).value) → ∀ lo hi,
            ((parityDetScan g kept rest t).2.gate g).type.eval lo hi
              (((parityDetScan g kept rest t).2.gate g).children.map σ) =
              (s.gate g).type.eval lo hi ((s.gate g).children.map σ) :=
      fun t e ht' hch' heq => by
        obtain ⟨e₁, h₁, h₂, h₃, h₄⟩ := parityDetScan_spec rest kept t (e.size_eq ▸ hg) ht' hch'
        refine ⟨e.trans e₁, h₁, h₂, fun y hy => ?_, fun σ hv lo hi =>
          (h₄ σ (fun x hx hd => ?_) lo hi).trans (heq σ hv lo hi)⟩
        · have := h₃ y hy
          simp only [List.mem_append, List.mem_cons] at this ⊢
          tauto
        · obtain ⟨-, -, hd', hv'⟩ := e.fields x
          rw [hv']; exact hv x (.tail _ hx) (hd' ▸ hd)
    unfold parityDetScan
    split_ifs with hd hv
    · -- a true child: it goes and the type flips
      have e : ∀ l, GateAt g s ((((s.modify g fun gt => { gt with type := gt.type.flipParity }).setChildren
          g (kept ++ rest)).setLinks g l).pushIfOrphan ch) := fun l =>
        (((GateAt.modify (fun gt => { gt with type := gt.type.flipParity })
          fun _ => ⟨rfl, rfl, rfl, rfl⟩).trans (.setChildren (kept ++ rest))).setLinks g l).trans
          (.pushIfOrphan ch)
      have hty : ∀ l, (((((s.modify g fun gt => { gt with type := gt.type.flipParity }).setChildren
          g (kept ++ rest)).setLinks g l).pushIfOrphan ch).gate g).type = (s.gate g).type.flipParity :=
        fun _ => by simp [hg]
      refine step _ (e _) (hty _ ▸ GateType.flipParity_parity ht) (by simp [children_setChildren, hg])
        fun σ hv' lo hi => ?_
      have hσc : σ ch = true := (hv' ch (.head _) hd).trans hv
      rw [hty, GateType.eval_parity ht, GateType.eval_parity (GateType.flipParity_parity ht), hch]
      have := GateType.flipParity_offset ht
      simp only [gate_pushIfOrphan, gate_setLinks, children_setChildren, size_modify, hg, and_self,
        true_and, if_true, count_map_mid Bool.true kept rest ch, hσc, decide_eq_decide]
      omega
    · -- a false child: it goes
      have e : ∀ l, GateAt g s (((s.setChildren g (kept ++ rest)).setLinks g l).pushIfOrphan ch) :=
        fun l => ((GateAt.setChildren (kept ++ rest)).setLinks g l).trans (.pushIfOrphan ch)
      have hty : ∀ l, ((((s.setChildren g (kept ++ rest)).setLinks g l).pushIfOrphan ch).gate g).type =
          (s.gate g).type := fun _ => by simp
      refine step _ (e _) (hty _ ▸ ht) (by simp [children_setChildren, hg]) fun σ hv' lo hi => ?_
      have hσc : σ ch = false := by rw [hv' ch (.head _) hd]; simpa using hv
      rw [hty, GateType.eval_parity ht, GateType.eval_parity ht, hch]
      simp only [gate_pushIfOrphan, gate_setLinks, children_setChildren, hg, and_self, if_true,
        count_map_mid Bool.true kept rest ch, hσc]
      rfl
    · -- an undetermined child stays
      obtain ⟨e₁, h₁, h₂, h₃, h₄⟩ := parityDetScan_spec rest (kept ++ [ch]) s hg ht (by simp [hch])
      exact ⟨e₁, h₁, h₂, fun y hy => by simpa using h₃ y hy, fun σ hv => h₄ σ fun x hx => hv x (.tail _ hx)⟩

theorem absorbNots_spec : ∀ (rest kept : List Nat) (s : BC) (det : Bool) {r : Bool × BC}, g < s.size →
    ((s.gate g).type = .odd ∨ (s.gate g).type = .even) → (s.gate g).children = kept ++ rest →
    s.circuit.Shaped → absorbNots g kept rest s det = some r →
    GateAt g s r.2 ∧ ((r.2.gate g).type = .odd ∨ (r.2.gate g).type = .even) ∧ r.2.circuit.Shaped ∧
      ∀ σ, s.circuit.ConsistentBut σ g → ∀ lo hi,
        (r.2.gate g).type.eval lo hi ((r.2.gate g).children.map σ) =
          (s.gate g).type.eval lo hi ((s.gate g).children.map σ)
  | [], _, s, _, _, _, ht, _, hs, h => by cases h; exact ⟨.refl g s, ht, hs, fun _ _ _ _ => rfl⟩
  | ch :: rest, kept, s, det, r, hg, ht, hch, hs, h => by
    have hl : (s.gate g).type.Live := by rcases ht with e | e <;> rw [e] <;> decide
    have hchm : ch ∈ (s.gate g).children := by rw [hch]; simp
    have hcl : (s.gate ch).type.Live := (hs g hg hl).1 ch hchm
    have hc : ch < s.size := lt_size_of_live (c := s.circuit) hcl
    unfold absorbNots at h
    split_ifs at h with hn
    · obtain ⟨gc, hgc, h⟩ := Option.bind_eq_some.1 h
      obtain ⟨gc', hgc'⟩ : ∃ gc', (s.gate ch).children = [gc'] :=
        List.length_eq_one.1 ((hs ch hc hcl).2.1 (.inr hn))
      obtain rfl : gc' = gc := by simpa [headChild, hgc'] using hgc
      have hgcl : (s.gate gc').type.Live := (hs ch hc hcl).1 gc' (by simp [hgc'])
      set s₁ := ((((s.setChildren g (kept ++ gc' :: rest)).setLinks g
        ((s.linkTimes g).set kept.length (s.clock + 1))).tick 1).pushIfOrphan ch).modify g
        fun gt => { gt with type := gt.type.flipParity }
      have e : GateAt g s s₁ := ((((GateAt.setChildren (kept ++ gc' :: rest)).setLinks g _).tick 1).trans
        (.pushIfOrphan ch)).trans
        (.modify (fun gt => { gt with type := gt.type.flipParity }) fun _ => ⟨rfl, rfl, rfl, rfl⟩)
      have hty : (s₁.gate g).type = (s.gate g).type.flipParity := by simp [s₁, hg]
      have hch₁ : (s₁.gate g).children = kept ++ gc' :: rest := by simp [s₁, children_setChildren, hg]
      have ht₁ := hty ▸ GateType.flipParity_parity ht
      have hl₁ : (s₁.gate g).type.Live := by rcases ht₁ with e | e <;> rw [e] <;> decide
      have hs₁ : s₁.circuit.Shaped := e.shaped hs ⟨fun _ => hl, fun _ => hl₁⟩ fun _ => by
        refine ⟨fun y hy => ?_, fun hr => ?_, fun _ => by simp [hch₁]⟩
        · by_cases hyg : y = g
          · subst hyg; exact hl₁
          · rw [circuit_gate, e.type_eq hyg]
            rw [hch₁, List.mem_append, List.mem_cons] at hy
            rcases hy with hy | rfl | hy
            · exact (hs g hg hl).1 y (by rw [circuit_gate, hch]; simp [hy])
            · exact hgcl
            · exact (hs g hg hl).1 y (by rw [circuit_gate, hch]; simp [hy])
        · rcases ht₁ with e | e <;> rw [e] at hr <;> simp at hr
      obtain ⟨e₁, h₁, h₂, h₃⟩ := absorbNots_spec rest (kept ++ [gc']) s₁ _ (e.size_eq ▸ hg) ht₁
        (by simp [hch₁]) hs₁ h
      refine ⟨e.trans e₁, h₁, h₂, fun σ hb lo hi => (h₃ σ (hb.gateAt e) lo hi).trans ?_⟩
      -- the `NOT` child is not `g`, so the other gates give its value
      have hcg : ch ≠ g := by rintro rfl; rcases ht with e | e <;> rw [e] at hn <;> cases hn
      have hσc : σ ch = !σ gc' := by
        rw [hb.eval hc hcg hcl (by rw [circuit_gate, hn]; decide), circuit_gate, hn, hgc']; simp
      rw [GateType.eval_parity ht₁, GateType.eval_parity ht, hch, hch₁, hty]
      have := GateType.flipParity_offset ht
      simp only [count_map_mid Bool.true kept rest, hσc, decide_eq_decide]
      cases σ gc' <;> simp <;> omega
    · exact absorbNots_spec rest (kept ++ [ch]) s det hg ht (by simp [hch]) hs h

/-- The duplicate scan drops an undetermined child read twice, which a parity gate reads as
not read at all. -/
theorem parityScan_spec : ∀ (rest kept : List Nat) (s : BC) {s' : BC}, g < s.size →
    ((s.gate g).type = .odd ∨ (s.gate g).type = .even) → (s.gate g).children = kept ++ rest →
    parityScan g kept rest s = some s' →
    ChildrenAt g s s' ∧ (∀ y ∈ (s'.gate g).children, y ∈ kept ++ rest) ∧
      ∀ σ lo hi, (s.gate g).type.eval lo hi ((s'.gate g).children.map σ) =
        (s.gate g).type.eval lo hi ((s.gate g).children.map σ)
  | [], kept, s, s', _, _, hch, h => by
    cases h; exact ⟨.refl g s, by simp [hch], fun _ _ _ => rfl⟩
  | ch :: rest, kept, s, s', hg, ht, hch, h => by
    unfold parityScan at h
    split_ifs at h with hd h1 hk
    · obtain ⟨e₁, h₁, h₂⟩ := parityScan_spec rest (kept ++ [ch]) s hg ht (by simp [hch]) h
      exact ⟨e₁, fun y hy => by simpa using h₁ y hy, h₂⟩
    · -- a second occurrence: both go
      set s₁ := (((s.setTemp ch 0).setChildren g (kept.erase ch ++ rest)).setLinks g
        ((((s.setTemp ch 0).linkTimes g).eraseIdx kept.length).eraseIdx (kept.indexOf ch))).pushIfOrphan ch
      have e : ChildrenAt g s s₁ := (((ChildrenAt.setTemp ch 0).trans (.setChildren _)).setLinks g _).trans
        (.pushIfOrphan ch)
      have hch₁ : (s₁.gate g).children = kept.erase ch ++ rest := by
        simp [s₁, children_setChildren, hg]
      obtain ⟨e₁, h₁, h₂⟩ := parityScan_spec rest (kept.erase ch) s₁ (e.size_eq ▸ hg)
        (by rwa [e.type_eq]) hch₁ h
      refine ⟨e.trans e₁, fun y hy => ?_, fun σ lo hi => ?_⟩
      · have := h₁ y hy
        simp only [List.mem_append, List.mem_cons] at this ⊢
        exact this.elim (fun h => .inl (List.mem_of_mem_erase h)) fun h => .inr (.inr h)
      · rw [← e.type_eq g, h₂, e.type_eq g, GateType.eval_parity ht, GateType.eval_parity ht, hch,
          hch₁, count_map_erase _ rest hk]
        simp only [decide_eq_decide]
        omega
    · -- a first occurrence is marked
      obtain ⟨e₁, h₁, h₂⟩ := parityScan_spec rest (kept ++ [ch]) (s.setTemp ch 1) (by simpa using hg)
        (by simpa using ht) (by simp [hch]) h
      exact ⟨(ChildrenAt.setTemp ch 1).trans e₁, fun y hy => by simpa using h₁ y hy,
        fun σ lo hi => by simpa using h₂ σ lo hi⟩

theorem shaped_redirectParents (hs : s.circuit.Shaped) (keep : Option Nat) {a b : Nat}
    (hb : (s.gate b).type.Live) : (s.redirectParents keep a b).circuit.Shaped := by
  intro y hy hl
  simp only [circuit_size, size_redirectParents, circuit_gate] at hy hl ⊢
  rw [gate_redirectParents] at hl ⊢
  split_ifs at hl ⊢
  · obtain ⟨h₁, h₂, h₃⟩ := hs y hy hl
    exact ⟨fun c hc => by rw [gate_redirectParents]; split_ifs <;> simpa using h₁ c hc, h₂, h₃⟩
  · obtain ⟨h₁, h₂, h₃⟩ := hs y hy hl
    refine ⟨fun ch hch => ?_, by simpa using h₂, by simpa using h₃⟩
    obtain ⟨c, hc, rfl⟩ := List.mem_map.1 hch
    rw [gate_redirectParents]
    split_ifs <;> (by_cases hca : c = a) <;> simp_all

theorem shaped_retypeLeaf (hs : s.circuit.Shaped) {x y : Nat} (hx : x < s.size)
    (hc : (s.gate x).children = []) {t : GateType} (ht : t.Live) (hy : (s.gate y).type.Live) :
    ((s.setType x t).addChild x y).circuit.Shaped := by
  have hgate := gate_retypeLeaf hx hc t y
  have hlive : ∀ z, (s.gate z).type.Live → (((s.setType x t).addChild x y).gate z).type.Live :=
    fun z hz => by rw [hgate]; split_ifs; exacts [ht, hz]
  intro z hz hl
  simp only [circuit_size, size_addChild, size_setType, circuit_gate] at hz hl ⊢
  rw [hgate] at hl ⊢
  split_ifs at hl ⊢ with hzx
  · exact ⟨fun c hc => by rw [List.mem_singleton.1 hc]; exact hlive y hy, fun _ => rfl, fun _ => by simp⟩
  · obtain ⟨h₁, h₂, h₃⟩ := hs z hz hl
    exact ⟨fun c hc => hlive c (h₁ c hc), h₂, h₃⟩

theorem GateAt.shaped_parity {s' : BC} (h : GateAt g s s') (hs : s.circuit.Shaped) (hg : g < s.size)
    (ht : (s.gate g).type = .odd ∨ (s.gate g).type = .even)
    (ht' : (s'.gate g).type = .odd ∨ (s'.gate g).type = .even)
    (hsub : ∀ y ∈ (s'.gate g).children, y ∈ (s.gate g).children) (hne : (s'.gate g).children ≠ []) :
    s'.circuit.Shaped := by
  have hl : (s.gate g).type.Live := by rcases ht with e | e <;> rw [e] <;> decide
  have hl' : (s'.gate g).type.Live := by rcases ht' with e | e <;> rw [e] <;> decide
  refine h.shaped hs ⟨fun _ => hl, fun _ => hl'⟩ fun _ => ⟨fun y hy => ?_, fun hr => ?_,
    fun _ => List.length_pos.2 hne⟩
  · by_cases hyg : y = g
    · subst hyg; exact hl'
    · rw [circuit_gate, h.type_eq hyg]; exact (hs g hg hl).1 y (hsub y hy)
  · rcases ht' with e | e <;> rw [e] at hr <;> simp at hr

/-- `remove_parity_duplicate_children` keeps what the gate reads, then makes it the constant of
no child, pushes it, or leaves it. -/
theorem removeParityDuplicateChildren_cases (hg : g < s.size)
    (ht : (s.gate g).type = .odd ∨ (s.gate g).type = .even) {r : Bool × BC}
    (h : s.removeParityDuplicateChildren g = some r) :
    ∃ s₁, parityScan g [] (s.gate g).children (s.setTemps (s.gate g).children 0) = some s₁ ∧
      ChildrenAt g s (s₁.setTemps (s₁.gate g).children 0) ∧
      (∀ y ∈ (s₁.gate g).children, y ∈ (s.gate g).children) ∧
      (∀ σ lo hi, (s.gate g).type.eval lo hi ((s₁.gate g).children.map σ) =
        (s.gate g).type.eval lo hi ((s.gate g).children.map σ)) ∧
      (((s₁.gate g).children = [] ∧
          (s₁.setTemps (s₁.gate g).children 0).becomeConstant g ((s.gate g).type = .even) = some r) ∨
        ((s₁.gate g).children ≠ [] ∧ (r = (true, (s₁.setTemps (s₁.gate g).children 0).addInPstack g) ∨
          r = (true, s₁.setTemps (s₁.gate g).children 0)))) := by
  unfold removeParityDuplicateChildren at h
  dsimp only at h
  rw [if_neg (by rcases ht with e | e <;> simp [e])] at h
  obtain ⟨s₁, h₁, h⟩ := Option.bind_eq_some.1 h
  have e₀ : ChildrenAt g s (s.setTemps (s.gate g).children 0) := .setTemps _ _
  obtain ⟨e₁, hsub, hev⟩ := parityScan_spec _ [] _ (e₀.size_eq ▸ hg) (by rwa [e₀.type_eq]) (by simp) h₁
  refine ⟨s₁, h₁, (e₀.trans e₁).trans (.setTemps _ _), fun y hy => by simpa using hsub y hy,
    fun σ lo hi => by simpa [e₀.type_eq] using hev σ lo hi, ?_⟩
  simp only [children_setTemps] at h
  split_ifs at h with hnil
  · exact .inl ⟨hnil, h⟩
  · cases h; exact .inr ⟨hnil, .inl rfl⟩
  · cases h; exact .inr ⟨hnil, .inr rfl⟩

theorem removeParityDuplicateChildren_spec (hs : s.circuit.Shaped) (hg : g < s.size)
    (ht : (s.gate g).type = .odd ∨ (s.gate g).type = .even) {r : Bool × BC}
    (h : s.removeParityDuplicateChildren g = some r) :
    Keeps s r ∧ (r.1 = true → ((r.2.gate g).type = .odd ∨ (r.2.gate g).type = .even) →
      ChildrenAt g s r.2 ∧ r.2.circuit.Shaped) := by
  have hl := (GateType.parity_live ht).1
  obtain ⟨s₁, -, e, hsub, hev, hr⟩ := removeParityDuplicateChildren_cases hg ht h
  set s₂ := s₁.setTemps (s₁.gate g).children 0
  have hch₂ : (s₂.gate g).children = (s₁.gate g).children := by simp [s₂]
  have hk : Keeps s (true, s₂) := .of_consistent e.size_eq.ge fun σ hσ => ⟨rfl,
    hσ.childrenAt e fun hg' hl' hv' => by rw [hch₂, hev]; exact consistent_eval hσ hg' hl' hv'⟩
  have hshape : (s₁.gate g).children ≠ [] → s₂.circuit.Shaped := fun hne =>
    (GateAt.of_childrenAt e).shaped_parity hs hg ht (e.type_eq g ▸ ht)
      (fun y hy => hsub y (hch₂ ▸ hy)) (hch₂ ▸ hne)
  rcases hr with ⟨hnil, h⟩ | ⟨hne, rfl | rfl⟩
  · -- no child left: `g` is the parity of nothing
    refine ⟨hk.trans (becomeConstant_keeps (e.type_eq g ▸ hl) h fun σ hσ => ?_), fun hr ht' => ?_⟩
    · rw [consistent_eval hσ (e.size_eq ▸ hg) (e.type_eq g ▸ hl) (by
        rw [e.type_eq g]; exact (GateType.parity_live ht).2), hch₂, hnil, e.type_eq g]
      rcases ht with e | e <;> rw [e] <;> rfl
    · obtain ⟨b, s'⟩ := r
      cases hr
      rcases becomeConstant_type (e.size_eq ▸ hg) h with e | e <;> rw [e] at ht' <;> simp at ht'
  · exact ⟨hk.trans (.of_consistent (by simp) fun σ hσ => ⟨rfl, by simpa using hσ⟩),
      fun _ _ => ⟨e.trans (.addInPstack g), by simpa using hshape hne⟩⟩
  · exact ⟨hk, fun _ _ => ⟨e, hshape hne⟩⟩

section Pair

variable {c₁ c₂ : Nat} (hs : s.circuit.Shaped) (hg : g < s.size)
  (ht : (s.gate g).type = .odd ∨ (s.gate g).type = .even) (hch : (s.gate g).children = [c₁, c₂])
include hs hg ht hch

theorem pair_live : (s.gate c₁).type.Live ∧ (s.gate c₂).type.Live := by
  have hl : (s.gate g).type.Live := by rcases ht with e | e <;> rw [e] <;> decide
  exact ⟨(hs g hg hl).1 c₁ (by rw [circuit_gate, hch]; simp),
    (hs g hg hl).1 c₂ (by rw [circuit_gate, hch]; simp)⟩

omit hs in
theorem pair_value {σ : Nat → Bool} (hσ : s.circuit.Consistent σ) :
    σ g = (s.gate g).type.eval (s.gate g).tmin (s.gate g).tmax [σ c₁, σ c₂] := by
  have hl : (s.gate g).type.Live := by rcases ht with e | e <;> rw [e] <;> decide
  rw [consistent_eval hσ hg hl (by rcases ht with e | e <;> rw [e] <;> decide), hch]; rfl

omit hs hch in
theorem unifyChild_keeps (hb : s.circuit.LeavesBare) (hd : (s.gate g).determined) {x y : Nat}
    {t : GateType} (hx : (s.gate x).type = .var) (hxs : x < s.size)
    (hxy : ∀ σ, s.circuit.Consistent σ → t ≠ .var → σ x = t.eval (s.gate x).tmin (s.gate x).tmax [σ y])
    {s₁ : BC} (h₁ : s.transformIntoConstant g (s.gate g).value = some s₁) :
    Keeps s (true, ((s₁.addParentsInPstack g).setType x t).addChild x y) := by
  have hl : (s.gate g).type.Live := by rcases ht with e | e <;> rw [e] <;> decide
  have hxg : x ≠ g := fun e => by subst e; rw [hx] at ht; rcases ht with e | e <;> cases e
  obtain ⟨hsize₁, hgate₁⟩ := transformIntoConstant_gate hg h₁
  refine .of_consistent (by simp [hsize₁]) fun σ hσ => ⟨rfl, ?_⟩
  have hσ₁ : (s₁.addParentsInPstack g).circuit.Consistent σ := by
    simpa using hσ.transformIntoConstant hg h₁ (consistent_det hσ hg hl hd)
  have hxc : (s.gate x).children = [] := hb x hxs (.inl hx)
  refine hσ₁.retypeLeaf (by simp [hsize₁, hxs]) (by simp [hgate₁, hxg, hxc])
    (by simp [hgate₁, hxg, hx]; decide) fun _ hv => ?_
  simpa [hgate₁, hxg] using hxy σ hσ hv

theorem equateRule_keeps (hb : s.circuit.LeavesBare) (hd : (s.gate g).determined)
    (hv : (s.gate g).type = .even ∧ (s.gate g).value = true ∨
      (s.gate g).type = .odd ∧ (!(s.gate g).value) = true) :
    (∀ r, s.equateRule g c₁ c₂ = .inl (some r) → Keeps s r) ∧
      ∀ s', s.equateRule g c₁ c₂ = .inr s' → Keeps s (true, s') ∧ s'.circuit.Shaped ∧
        (s'.gate g).type = (s.gate g).type ∧ (s'.gate g).children = (s.gate g).children := by
  have hl : (s.gate g).type.Live := by rcases ht with e | e <;> rw [e] <;> decide
  obtain ⟨hl₁, hl₂⟩ := pair_live hs hg ht hch
  have heq : ∀ σ, s.circuit.Consistent σ → σ c₁ = σ c₂ := fun σ hσ =>
    GateType.eq_of_equate ((consistent_det hσ hg hl hd).symm.trans (pair_value hg ht hch hσ)) hv
  have hsame : ∀ {a b : Nat}, (∀ σ, s.circuit.Consistent σ → σ a = σ b) → (s.gate b).type.Live →
      Keeps s (true, (s.redirectParents (some g) a b).addParentsInPstack b) ∧
        ((s.redirectParents (some g) a b).addParentsInPstack b).circuit.Shaped ∧
        (((s.redirectParents (some g) a b).addParentsInPstack b).gate g).type = (s.gate g).type ∧
        (((s.redirectParents (some g) a b).addParentsInPstack b).gate g).children =
          (s.gate g).children := fun hab hbl =>
    ⟨.of_consistent (by simp) fun σ hσ => ⟨rfl, by simpa using hσ.redirectParents (some g) (hab σ hσ)⟩,
      by simpa using shaped_redirectParents hs (some g) hbl, by simp [gate_redirectParents],
      by simp [gate_redirectParents]⟩
  unfold equateRule
  dsimp only
  split_ifs with hne hv₁ hv₂ hp hdep
  · refine ⟨fun r h => ?_, nofun⟩
    obtain ⟨s₁, h₁, rfl⟩ := Option.map_eq_some'.1 (Sum.inl.inj h)
    exact .of_consistent (by simp [(transformIntoConstant_gate hg h₁).1]) fun σ hσ =>
      ⟨rfl, by simpa using hσ.transformIntoConstant hg h₁ (consistent_det hσ hg hl hd)⟩
  · refine ⟨fun r h => ?_, nofun⟩
    obtain ⟨s₁, h₁, rfl⟩ := Option.map_eq_some'.1 (Sum.inl.inj h)
    exact (unifyChild_keeps hg ht hb hd (t := .ref) (y := c₂) hv₁.2.1 (lt_size_of_live (c := s.circuit) hl₁)
      (fun σ hσ _ => by simp [heq σ hσ]) h₁).trans (.of_consistent (by simp) fun σ hσ => ⟨rfl, by simpa using hσ⟩)
  · refine ⟨fun r h => ?_, nofun⟩
    obtain ⟨s₁, h₁, rfl⟩ := Option.map_eq_some'.1 (Sum.inl.inj h)
    exact (unifyChild_keeps hg ht hb hd (t := .ref) (y := c₁) hv₂.2.1 (lt_size_of_live (c := s.circuit) hl₂)
      (fun σ hσ _ => by simp [heq σ hσ]) h₁).trans (.of_consistent (by simp) fun σ hσ => ⟨rfl, by simpa using hσ⟩)
  · exact ⟨nofun, fun s' h => by cases h; exact hsame (fun σ hσ => (heq σ hσ).symm) hl₁⟩
  · exact ⟨nofun, fun s' h => by cases h; exact hsame heq hl₂⟩
  · exact ⟨nofun, fun s' h => by cases h; exact ⟨.of_consistent le_rfl fun σ hσ => ⟨rfl, hσ⟩, hs, rfl, rfl⟩⟩

omit ht hch in
theorem redirectToNot_keeps {x y : Nat} (hxl : (s.gate x).type.Live) (hyl : (s.gate y).type.Live)
    (hxy : ∀ σ, s.circuit.Consistent σ → σ y = !σ x) :
    Keeps s (true, (((s.append { type := .not, children := [x] }).redirectParents (some g) y
      s.size).addParentsInPstack s.size).addInPstack s.size) ∧
    ((((s.append { type := .not, children := [x] }).redirectParents (some g) y
      s.size).addParentsInPstack s.size).addInPstack s.size).circuit.Shaped ∧
    (((((s.append { type := .not, children := [x] }).redirectParents (some g) y
      s.size).addParentsInPstack s.size).addInPstack s.size).gate g) = s.gate g := by
  have hx : x < s.size := lt_size_of_live (c := s.circuit) hxl
  have hy : y < s.size := lt_size_of_live (c := s.circuit) hyl
  have hs₁ : (s.append { type := .not, children := [x] }).circuit.Shaped :=
    shaped_append hs fun _ => ⟨fun c hc => by
      rw [List.mem_singleton.1 hc]; simpa [hx] using hxl, fun _ => rfl, by simp⟩
  refine ⟨⟨by simp, fun σ hσ => ⟨rfl, Function.update σ s.size (!σ x), ?_,
    fun z hz => Function.update_noteq hz.ne _ _⟩⟩,
    by simpa using shaped_redirectParents hs₁ (some g) (by simp; decide),
    by simp [gate_redirectParents, hg]⟩
  have hσ₁ := (hσ.updateShaped hs le_rfl (!σ x)).append
    (show Gate.Holds { type := .not, children := [x] } _ _ from
      fun _ => ⟨fun _ => by simp [Function.update_noteq hx.ne], nofun⟩)
  simpa using hσ₁.redirectParents (some g) (by simp [Function.update_noteq hy.ne, hxy σ hσ])

theorem antiEquateRule_keeps (hb : s.circuit.LeavesBare) (hd : (s.gate g).determined)
    (hv : (s.gate g).type = .even ∧ (!(s.gate g).value) = true ∨
      (s.gate g).type = .odd ∧ (s.gate g).value = true) :
    (∀ r, s.antiEquateRule g c₁ c₂ = .inl (some r) → Keeps s r) ∧
      ∀ s', s.antiEquateRule g c₁ c₂ = .inr s' → Keeps s (true, s') ∧ s'.circuit.Shaped ∧
        (s'.gate g).type = (s.gate g).type ∧ (s'.gate g).children = (s.gate g).children := by
  have hl : (s.gate g).type.Live := by rcases ht with e | e <;> rw [e] <;> decide
  obtain ⟨hl₁, hl₂⟩ := pair_live hs hg ht hch
  have hopp : ∀ σ, s.circuit.Consistent σ → σ c₁ = !σ c₂ := fun σ hσ =>
    GateType.eq_not_of_antiEquate ((consistent_det hσ hg hl hd).symm.trans (pair_value hg ht hch hσ)) hv
  have hend : ∀ {x y : Nat}, (s.gate x).type.Live → (s.gate y).type.Live →
      (∀ σ, s.circuit.Consistent σ → σ y = !σ x) → ∀ s', (((s.append { type := .not, children := [x] }).redirectParents
        (some g) y s.size).addParentsInPstack s.size).addInPstack s.size = s' →
      Keeps s (true, s') ∧ s'.circuit.Shaped ∧
        (s'.gate g).type = (s.gate g).type ∧ (s'.gate g).children = (s.gate g).children :=
    fun hxl hyl hxy s' h => by
      subst h
      obtain ⟨k, hs', hgate⟩ := redirectToNot_keeps hs hg hxl hyl hxy
      exact ⟨k, hs', by rw [hgate], by rw [hgate]⟩
  unfold antiEquateRule
  dsimp only
  simp only [installGate_eq]
  split_ifs with hne hv₁ hv₂ hp hx
  · refine ⟨fun r h => ?_, nofun⟩
    cases Option.some.inj (Sum.inl.inj h)
    refine .of_unsat le_rfl fun ⟨σ, hσ⟩ => ?_
    have := hopp σ hσ
    rw [hne] at this; cases h : σ c₂ <;> simp [h] at this
  · refine ⟨fun r h => ?_, nofun⟩
    obtain ⟨s₁, h₁, rfl⟩ := Option.map_eq_some'.1 (Sum.inl.inj h)
    exact (unifyChild_keeps hg ht hb hd (t := .not) (y := c₂) hv₁.2.1
      (lt_size_of_live (c := s.circuit) hl₁) (fun σ hσ _ => by simp [hopp σ hσ]) h₁).trans
      (.of_consistent (by simp) fun σ hσ => ⟨rfl, by simpa using hσ⟩)
  · refine ⟨fun r h => ?_, nofun⟩
    obtain ⟨s₁, h₁, rfl⟩ := Option.map_eq_some'.1 (Sum.inl.inj h)
    exact (unifyChild_keeps hg ht hb hd (t := .not) (y := c₁) hv₂.2.1
      (lt_size_of_live (c := s.circuit) hl₂) (fun σ hσ _ => by simp [hopp σ hσ]) h₁).trans
      (.of_consistent (by simp) fun σ hσ => ⟨rfl, by simpa using hσ⟩)
  · exact ⟨nofun, fun s' h => hend hl₁ hl₂ (fun σ hσ => by simp [hopp σ hσ]) s' (Sum.inr.inj h)⟩
  · exact ⟨nofun, fun s' h => hend hl₂ hl₁ hopp s' (Sum.inr.inj h)⟩
  · exact ⟨nofun, fun s' h => by cases h; exact ⟨.of_consistent le_rfl fun σ hσ => ⟨rfl, hσ⟩, hs, rfl, rfl⟩⟩

end Pair

theorem gate_oddOfOr (hg : g < s.size) {c o : Nat} (ho : o < s.size) (x : Nat) :
    (s.oddOfOr g c o).gate x =
      if x = g then { s.gate g with type := .and, children := [s.size, s.size + 1] }
      else if x = s.size then { type := .or, children := ((s.gate o).children.filter (· ≠ c)).reverse }
      else if x = s.size + 1 then { type := .not, children := [c] } else s.gate x := by
  have hg₁ : g < s.size + 1 := by omega
  have hg₂ : g < s.size + 1 + 1 := by omega
  unfold oddOfOr
  simp only [installGate_eq, gate_addInPstack]
  by_cases hx : x = g
  · subst hx
    simp [hg, hg₁, hg₂, Nat.ne_of_lt hg, gate_foldl_addChild, gate_append, ho.ne]
  · simp [hx, Ne.symm hx, gate_foldl_addChild, gate_append, ho.ne]
    split_ifs <;> simp_all

@[simp] theorem size_oddOfOr (c o : Nat) : (s.oddOfOr g c o).size = s.size + 2 := by
  unfold oddOfOr; simp

theorem oddOfOr_keeps (hs : s.circuit.Shaped) (hg : g < s.size) {c o : Nat}
    (ht : (s.gate g).type = .odd) (hch : (s.gate g).children = [c, o] ∨ (s.gate g).children = [o, c])
    (hto : (s.gate o).type = .or) (hco : c ∈ (s.gate o).children) :
    Keeps s (true, s.oddOfOr g c o) := by
  have hl : (s.gate g).type.Live := by rw [ht]; decide
  have hmem : c ∈ (s.gate g).children ∧ o ∈ (s.gate g).children := by rcases hch with e | e <;> simp [e]
  have hol : (s.gate o).type.Live := (hs g hg hl).1 o hmem.2
  have ho : o < s.size := lt_size_of_live (c := s.circuit) hol
  refine ⟨by simp, fun σ hσ => ⟨rfl, ?_⟩⟩
  set L := (s.gate o).children.filter (· ≠ c)
  set σ' := Function.update (Function.update σ s.size (GateType.or.eval 0 0 (L.map σ))) (s.size + 1)
    (!σ c)
  have hσ' : s.circuit.Consistent σ' := (hσ.updateShaped hs le_rfl _).updateShaped hs (by omega) _
  have hag : ∀ x < s.size, σ' x = σ x := fun x hx => by
    simp only [σ', Function.update_noteq (by omega : x ≠ s.size + 1), Function.update_noteq hx.ne]
  have hlive : ∀ x ∈ (s.gate o).children, x < s.size := fun x hx =>
    lt_size_of_live (c := s.circuit) ((hs o ho hol).1 x hx)
  have hvg : σ g = (σ c != σ o) := by
    rw [consistent_eval hσ hg hl (by rw [ht]; decide), ht]
    rcases hch with e | e <;> rw [e] <;> simp only [List.map] <;> cases σ c <;> cases σ o <;> rfl
  have hvo : σ o = (σ c || GateType.or.eval 0 0 (L.map σ)) := by
    rw [consistent_eval hσ ho hol (by rw [hto]; decide), hto, GateType.eval_or_split hco]
  have hn₁ : σ' s.size = GateType.or.eval 0 0 (L.map σ) := by simp [σ']
  have hn₂ : σ' (s.size + 1) = !σ c := by simp [σ']
  refine ⟨σ', fun x hx => ?_, hag⟩
  rw [gateOk_iff, circuit_gate, gate_oddOfOr hg ho]
  simp only [circuit_size, size_oddOfOr] at hx
  split_ifs with h₁ h₂ h₃
  · subst h₁
    refine fun _ => ⟨fun _ => ?_, fun hd => (hσ' x hg hl).2 hd⟩
    simp only [List.map, hn₁, hn₂, hag x hg, hvg, hvo]
    generalize GateType.or.eval 0 0 (L.map σ) = v
    cases σ c <;> cases v <;> rfl
  · subst h₂
    refine fun _ => ⟨fun _ => ?_, nofun⟩
    rw [List.map_reverse, GateType.eval_reverse (show GateType.or ≠ .ite by decide),
      List.map_congr_left fun x hx => hag x (hlive x (List.mem_of_mem_filter hx))]
    exact hn₁
  · subst h₃
    refine fun _ => ⟨fun _ => ?_, nofun⟩
    simp only [List.map, hn₂, hag c (lt_size_of_live (c := s.circuit) ((hs g hg hl).1 c hmem.1))]
    cases σ c <;> rfl
  · exact hσ' x (by simp; omega)

theorem oddOrRule_keeps (hs : s.circuit.Shaped) (hg : g < s.size) {c₁ c₂ : Nat}
    (ht : (s.gate g).type = .odd) (hch : (s.gate g).children = [c₁, c₂]) {r : Bool × BC}
    (h : s.oddOrRule g c₁ c₂ = some r) : Keeps s r := by
  unfold oddOrRule at h
  split_ifs at h with h₁ h₂ h₃ h₄ h₅ <;> cases h
  · exact oddOfOr_keeps hs hg ht (.inl hch) h₂.1 h₃
  · exact .refl s
  · exact oddOfOr_keeps hs hg ht (.inr hch) h₄.1 h₅
  · exact .refl s
  · exact .refl s

theorem parityPairRules_keeps (hs : s.circuit.Shaped) (hb : s.circuit.LeavesBare) (hg : g < s.size)
    (ht : (s.gate g).type = .odd ∨ (s.gate g).type = .even) {c₁ c₂ : Nat} {rest : List Nat}
    (hch : (s.gate g).children = c₁ :: c₂ :: rest) {r : Bool × BC}
    (h : s.parityPairRules g c₁ c₂ rest = some r) : Keeps s r := by
  have hend : ∀ s', Keeps s (true, s') → s'.circuit.Shaped → (s'.gate g).type = (s.gate g).type →
      (s'.gate g).children = (s.gate g).children →
      (if (s'.gate g).type = .odd ∧ rest = [] then s'.oddOrRule g c₁ c₂ else some (true, s')) =
        some r → Keeps s r := fun s' hk hs' hty hch' h => by
    split_ifs at h with ho
    · have hch₂ : (s'.gate g).children = [c₁, c₂] := by rw [hch', hch, ho.2]
      exact hk.trans (oddOrRule_keeps hs' (lt_of_lt_of_le hg hk.1) ho.1 hch₂ h)
    · cases h; exact hk
  have hpair : rest = [] → (s.gate g).children = [c₁, c₂] := fun e => by rw [hch, e]
  unfold parityPairRules at h
  dsimp only at h
  split at h
  next r₁ heq =>
    split_ifs at heq with b₁
    obtain ⟨⟨hr, hd⟩, hv⟩ := of_decide_eq_true b₁
    exact (equateRule_keeps hs hg ht (hpair hr) hb hd hv).1 r (heq.trans (congrArg Sum.inl h))
  next s₁ heq =>
    split at h
    next r₂ heq₂ =>
      split_ifs at heq heq₂ with b₁ b₂ b₃
      · exact (not_equate_and_antiEquate (of_decide_eq_true b₁).2 (of_decide_eq_true b₂).2).elim
      · cases heq
        obtain ⟨⟨hr, hd⟩, hv⟩ := of_decide_eq_true b₃
        exact (antiEquateRule_keeps hs hg ht (hpair hr) hb hd hv).1 r (heq₂.trans (congrArg Sum.inl h))
    next s₂ heq₂ =>
      split_ifs at heq heq₂ with b₁ b₂ b₃
      · exact (not_equate_and_antiEquate (of_decide_eq_true b₁).2 (of_decide_eq_true b₂).2).elim
      · cases heq₂
        obtain ⟨⟨hr, hd⟩, hv⟩ := of_decide_eq_true b₁
        obtain ⟨hk, hs', hty, hch'⟩ := (equateRule_keeps hs hg ht (hpair hr) hb hd hv).2 _ heq
        exact hend _ hk hs' hty hch' h
      · cases heq
        obtain ⟨⟨hr, hd⟩, hv⟩ := of_decide_eq_true b₃
        obtain ⟨hk, hs', hty, hch'⟩ := (antiEquateRule_keeps hs hg ht (hpair hr) hb hd hv).2 _ heq₂
        exact hend _ hk hs' hty hch' h
      · cases heq; cases heq₂; exact hend _ (.refl s) hs rfl rfl h

theorem OnlyAt.leavesBare {s' : BC} (h : OnlyAt g s s') (hb : s.circuit.LeavesBare)
    (hg : ¬((s'.gate g).type = .var ∨ (s'.gate g).type = .true ∨ (s'.gate g).type = .false)) :
    s'.circuit.LeavesBare := fun x _ hx => by
  by_cases hxg : x = g
  · subst hxg; exact absurd hx hg
  · rw [circuit_gate, (h.frame x hxg).2]
    by_cases hxs : x < s.size
    · exact hb x hxs (by simpa only [circuit_gate, (h.frame x hxg).1] using hx)
    · rw [← circuit_gate, s.circuit.gate_of_size_le (by simpa using hxs)]; rfl

theorem simplifyParity_keeps (hs : s.circuit.Shaped) (hb : s.circuit.LeavesBare) (hg : g < s.size)
    (ht : (s.gate g).type = .odd ∨ (s.gate g).type = .even) {r : Bool × BC}
    (h : s.simplifyParity g = some r) : Keeps s r := by
  have hl : (s.gate g).type.Live := by rcases ht with e | e <;> rw [e] <;> decide
  have notLeaf : ∀ {t : GateType}, t = .odd ∨ t = .even → ¬(t = .var ∨ t = .true ∨ t = .false) := by
    rintro t (rfl | rfl) <;> decide
  obtain ⟨e₁, ht₁, hlen₁, hsub₁, hev₁⟩ := parityDetScan_spec (s.gate g).children [] s hg ht rfl
  have hk₁ := Keeps.of_consistent (r := (true, (parityDetScan g [] (s.gate g).children s).2))
    e₁.size_eq.ge fun σ hσ => ⟨rfl, hσ.gateAt_parity e₁ ht (hev₁ σ fun x hx hd =>
      consistent_det hσ (lt_size_of_live (c := s.circuit) ((hs g hg hl).1 x hx)) ((hs g hg hl).1 x hx) hd)⟩
  unfold simplifyParity at h
  split at h
  next s₁ heq =>
    -- no undetermined child: `g` is the parity of its flipped type alone
    rw [heq] at e₁ ht₁ hlen₁ hk₁
    have hl₁ : (s₁.gate g).type.Live := by rcases ht₁ with e | e <;> rw [e] <;> decide
    refine hk₁.trans (becomeConstant_keeps hl₁ h fun σ hσ => ?_)
    rw [consistent_eval hσ (e₁.size_eq ▸ hg) hl₁ (by rcases ht₁ with e | e <;> rw [e] <;> decide),
      GateType.eval_parity ht₁, List.length_eq_zero.1 hlen₁]
    rcases ht₁ with e | e <;> simp [e]
  next s₁ heq =>
    -- one undetermined child `y`: `ODD(y)` is `REF(y)` and `EVEN(y)` is `NOT(y)`
    rw [heq] at e₁ ht₁ hlen₁ hk₁
    obtain ⟨y, hy⟩ := List.length_eq_one.1 hlen₁
    have hg₁ : g < s₁.size := e₁.size_eq ▸ hg
    have hl₁ : (s₁.gate g).type.Live := by rcases ht₁ with e | e <;> rw [e] <;> decide
    cases h
    refine hk₁.trans (.of_consistent (by split_ifs <;> simp) fun σ hσ => ⟨rfl, ?_⟩)
    have hσg := consistent_eval hσ hg₁ hl₁ (by rcases ht₁ with e | e <;> rw [e] <;> decide)
    rw [hy] at hσg
    split_ifs with ho
    · rw [circuit_addInPstack]
      refine hσ.gateAt (.setType .ref) (fun _ => hl₁) fun _ _ _ => ?_
      simp only [gate_setType_self _ hg₁, hy, List.map, hσg, ho]
      cases σ y <;> rfl
    · rw [circuit_addInPstack, circuit_addParentsInPstack]
      refine hσ.gateAt (.setType .not) (fun _ => hl₁) fun _ _ _ => ?_
      simp only [gate_setType_self _ hg₁, hy, List.map, hσg, ht₁.resolve_left ho]
      cases σ y <;> rfl
  next s₁ _ _ heq =>
    rw [heq] at e₁ ht₁ hlen₁ hsub₁ hk₁
    have hg₁ : g < s₁.size := e₁.size_eq ▸ hg
    obtain ⟨⟨det, s₂⟩, h₂, h⟩ := Option.bind_eq_some.1 h
    have hs₁ : s₁.circuit.Shaped := e₁.shaped_parity hs hg ht ht₁ (fun y hy => by simpa using hsub₁ y hy)
      (fun hnil => by simp_all)
    obtain ⟨e₂, ht₂, hs₂, hσ₂⟩ := absorbNots_spec _ [] s₁ false hg₁ ht₁ rfl hs₁ h₂
    have hg₂ : g < s₂.size := e₂.size_eq ▸ hg₁
    have hk₂ : Keeps s (true, s₂) := hk₁.trans (.of_consistent e₂.size_eq.ge fun σ hσ =>
      ⟨rfl, hσ.gateAt_parity e₂ ht₁ (hσ₂ σ (hσ.but g))⟩)
    have hb₂ : s₂.circuit.LeavesBare := (e₁.trans e₂).toOnlyAt.leavesBare hb (notLeaf ht₂)
    dsimp only at h
    split_ifs at h with hdet
    · cases h; exact hk₂.trans (.of_consistent (by simp) fun σ hσ => ⟨rfl, by simpa using hσ⟩)
    · obtain ⟨⟨ok, s₃⟩, h₃, h⟩ := Option.bind_eq_some.1 h
      obtain ⟨hk₃, hrest⟩ := removeParityDuplicateChildren_spec hs₂ hg₂ ht₂ h₃
      dsimp only at h
      split_ifs at h with hok hin hpar
      · cases h; simp only [Bool.not_eq_true', Bool.not_eq_eq_eq_not, Bool.not_true] at hok
        subst hok; exact hk₂.trans hk₃
      all_goals
        simp only [Bool.not_eq_true', Bool.not_eq_false, Bool.not_eq_eq_eq_not, Bool.not_true] at hok
        subst hok
      · cases h; exact hk₂.trans hk₃
      · cases h; exact hk₂.trans hk₃
      · have hpar' : (s₃.gate g).type = .odd ∨ (s₃.gate g).type = .even := or_iff_not_imp_left.2 (by simpa using hpar)
        obtain ⟨e₃, hs₃⟩ := hrest rfl hpar'
        have hb₃ : s₃.circuit.LeavesBare :=
          (GateAt.of_childrenAt e₃).toOnlyAt.leavesBare hb₂ (notLeaf hpar')
        split at h
        next c₁ c₂ rest hch =>
          exact (hk₂.trans hk₃).trans (parityPairRules_keeps hs₃ hb₃ (e₃.size_eq ▸ hg₂) hpar' hch h)
        next => cases h

end BC

end BcSat
