import BcSat.SimplifyKeeps

set_option autoImplicit false

/-!
# The `OR` and `AND` case of `Gate::simplify` loses no solution

An `OR` takes the value true, and an `AND` the value false, exactly when one of its children
does; which values occur among the children is all the gate reads, and `EQUIV` reads no more.
Every rewrite of the case keeps that set of values: a forced gate forces its children, a child
with the dual value is dropped, duplicates are dropped, a child `x` beside `NOT(x)` makes the
gate constant, a shared subset `p` stands for its children, and a collapsed child is replaced by
its own children.
-/

namespace BcSat

theorem GateType.eval_orAnd {a : Bool} {ty : GateType} (hty : ty = if a then .or else .and)
    (lo hi : Nat) (vs : List Bool) : ty.eval lo hi vs = if a ∈ vs then a else !a := by
  subst hty
  cases a
  · by_cases hm : Bool.false ∈ vs
    · simp [GateType.eval, hm, List.count_eq_zero]
    · simp [GateType.eval, hm, List.count_eq_zero.2 hm]
  · simp [GateType.eval, List.count_pos_iff]

theorem GateType.eval_congr_mem {t : GateType} (ht : t = .or ∨ t = .and ∨ t = .equiv)
    (lo hi : Nat) {vs vs' : List Bool} (h : ∀ b, b ∈ vs ↔ b ∈ vs') :
    t.eval lo hi vs = t.eval lo hi vs' := by
  rcases ht with rfl | rfl | rfl <;> simp [GateType.eval, List.count_eq_zero, List.count_pos_iff, h]

theorem map_mem_iff {σ : Nat → Bool} {xs ys : List Nat} (h : ∀ x, x ∈ xs ↔ x ∈ ys) (b : Bool) :
    b ∈ xs.map σ ↔ b ∈ ys.map σ := by
  simp only [List.mem_map, h]

theorem GateType.eval_complement {t : GateType} (ht : t = .or ∨ t = .and ∨ t = .equiv)
    (lo hi : Nat) {vs : List Bool} (h₁ : Bool.true ∈ vs) (h₂ : Bool.false ∈ vs) :
    t.eval lo hi vs = decide (t = .or) := by
  rcases ht with rfl | rfl | rfl <;>
    simp [GateType.eval, List.count_pos_iff, List.count_eq_zero, h₁, h₂]

theorem mem_map_complement {σ : Nat → Bool} {x y : Nat} {xs : List Nat} (hx : x ∈ xs) (hy : y ∈ xs)
    (hxy : σ y = !σ x) : Bool.true ∈ xs.map σ ∧ Bool.false ∈ xs.map σ := by
  have hx' := List.mem_map_of_mem σ hx
  have hy' := List.mem_map_of_mem σ hy
  cases h : σ x <;> rw [h] at hx' <;> rw [hxy, h] at hy' <;> exact ⟨‹_›, ‹_›⟩

namespace BC

open Circuit

/-- `s'` differs from `s` in the marks, the stack and the children of `g` at most. -/
structure ChildrenAt (g : Nat) (s s' : BC) : Prop where
  size_eq : s'.size = s.size
  logic : ∀ x, (s'.gate x).type = (s.gate x).type ∧ (s'.gate x).tmin = (s.gate x).tmin ∧
    (s'.gate x).tmax = (s.gate x).tmax ∧ (s'.gate x).determined = (s.gate x).determined ∧
    (s'.gate x).value = (s.gate x).value
  children_eq : ∀ x ≠ g, (s'.gate x).children = (s.gate x).children

/-- A change that also keeps the set of children of `g`, only their order and repetitions: an
`OR`, `AND` or `EQUIV` at `g` reads the same. -/
structure SameSetAt (g : Nat) (s s' : BC) extends ChildrenAt g s s' : Prop where
  mem_iff : ∀ y, y ∈ (s'.gate g).children ↔ y ∈ (s.gate g).children

namespace ChildrenAt

variable {s s' s'' : BC} {g : Nat}

theorem refl (g : Nat) (s : BC) : ChildrenAt g s s :=
  ⟨rfl, fun _ => ⟨rfl, rfl, rfl, rfl, rfl⟩, fun _ _ => rfl⟩

theorem trans (h₁ : ChildrenAt g s s') (h₂ : ChildrenAt g s' s'') : ChildrenAt g s s'' where
  size_eq := h₂.size_eq.trans h₁.size_eq
  logic x :=
    let ⟨a₁, b₁, c₁, d₁, e₁⟩ := h₁.logic x
    let ⟨a₂, b₂, c₂, d₂, e₂⟩ := h₂.logic x
    ⟨a₂.trans a₁, b₂.trans b₁, c₂.trans c₁, d₂.trans d₁, e₂.trans e₁⟩
  children_eq x hx := (h₂.children_eq x hx).trans (h₁.children_eq x hx)

theorem of_gate (hsize : s'.size = s.size) (h : ∀ x, s'.gate x = s.gate x) : ChildrenAt g s s' :=
  ⟨hsize, fun x => by rw [h x]; exact ⟨rfl, rfl, rfl, rfl, rfl⟩, fun x _ => by rw [h x]⟩

theorem modify (y : Nat) (f : Gate → Gate) (hf : ∀ gt, (f gt).type = gt.type ∧ (f gt).tmin = gt.tmin ∧
    (f gt).tmax = gt.tmax ∧ (f gt).determined = gt.determined ∧ (f gt).value = gt.value)
    (hc : y ≠ g → ∀ gt, (f gt).children = gt.children) : ChildrenAt g s (s.modify y f) :=
  ⟨by simp, fun x => by rw [gate_modify]; split_ifs; exacts [hf _, ⟨rfl, rfl, rfl, rfl, rfl⟩],
    fun x hx => by
      rw [gate_modify]
      split_ifs with hy
      · exact hc (by rw [hy.1]; exact hx) _
      · rfl⟩

theorem setTemp (y : Nat) (t : Int) : ChildrenAt g s (s.setTemp y t) :=
  modify y _ (fun _ => ⟨rfl, rfl, rfl, rfl, rfl⟩) fun _ _ => rfl

theorem setTemps (xs : List Nat) (t : Int) : ChildrenAt g s (s.setTemps xs t) := by
  induction xs generalizing s with
  | nil => exact refl g s
  | cons y xs ih => exact (setTemp y t).trans ih

theorem setChildren (chs : List Nat) : ChildrenAt g s (s.setChildren g chs) :=
  modify g _ (fun _ => ⟨rfl, rfl, rfl, rfl, rfl⟩) fun h => absurd rfl h

theorem pushIfOrphan (y : Nat) : ChildrenAt g s (s.pushIfOrphan y) := of_gate (by simp) fun _ => by simp

theorem addInPstack (y : Nat) : ChildrenAt g s (s.addInPstack y) := of_gate (by simp) fun _ => by simp

theorem setLinks (h : ChildrenAt g s s') (p : Nat) (l : List Nat) : ChildrenAt g s (s'.setLinks p l) :=
  ⟨h.size_eq, h.logic, h.children_eq⟩

theorem tick (h : ChildrenAt g s s') (n : Nat) : ChildrenAt g s (s'.tick n) :=
  ⟨h.size_eq, h.logic, h.children_eq⟩

theorem addChild (ch : Nat) : ChildrenAt g s (s.addChild g ch) := ((setChildren _).setLinks g _).tick 1

theorem type_eq (h : ChildrenAt g s s') (x : Nat) : (s'.gate x).type = (s.gate x).type := (h.logic x).1

theorem headChild_eq (h : ChildrenAt g s s') {y : Nat} (hy : y ≠ g) :
    s'.headChild y = s.headChild y := by
  rw [headChild, headChild, h.children_eq y hy]

theorem notOver_iff (h : ChildrenAt g s s') (hgt : (s.gate g).type ≠ .not) {y x : Nat} :
    ((s'.gate y).type = .not ∧ s'.headChild y = some x) ↔
      ((s.gate y).type = .not ∧ s.headChild y = some x) := by
  by_cases hy : y = g
  · subst hy; simp [h.type_eq, hgt]
  · rw [h.type_eq, h.headChild_eq hy]

theorem shaped (h : ChildrenAt g s s') (hs : s.circuit.Shaped)
    (ht : (s.gate g).type = .or ∨ (s.gate g).type = .and ∨ (s.gate g).type = .equiv)
    (hlive : ∀ y ∈ (s'.gate g).children, (s.gate y).type.Live) : s'.circuit.Shaped := by
  intro x hx hl
  have hx' : x < s.size := by simpa [h.size_eq] using hx
  simp only [circuit_gate, h.type_eq] at hl ⊢
  obtain ⟨h₁, h₂, h₃⟩ := hs x hx' hl
  by_cases hxg : x = g
  · subst hxg
    refine ⟨hlive, fun hr => by rcases ht with e | e | e <;> rw [e] at hr <;> simp at hr,
      fun hr => by rcases ht with e | e | e <;> rw [e] at hr <;> simp at hr⟩
  · rw [h.children_eq x hxg]
    exact ⟨h₁, h₂, h₃⟩

end ChildrenAt

namespace SameSetAt

variable {s s' s'' : BC} {g : Nat}

theorem refl (g : Nat) (s : BC) : SameSetAt g s s := ⟨.refl g s, fun _ => .rfl⟩

theorem trans (h₁ : SameSetAt g s s') (h₂ : SameSetAt g s' s'') : SameSetAt g s s'' :=
  ⟨h₁.toChildrenAt.trans h₂.toChildrenAt, fun y => (h₂.mem_iff y).trans (h₁.mem_iff y)⟩

theorem of_gate (hsize : s'.size = s.size) (h : ∀ x, s'.gate x = s.gate x) : SameSetAt g s s' :=
  ⟨.of_gate hsize h, fun _ => by rw [h g]⟩

theorem setTemp (y : Nat) (t : Int) : SameSetAt g s (s.setTemp y t) :=
  ⟨.setTemp y t, fun _ => by simp⟩

theorem addInPstack (y : Nat) : SameSetAt g s (s.addInPstack y) := of_gate (by simp) fun _ => by simp

theorem setLinks (h : SameSetAt g s s') (p : Nat) (l : List Nat) : SameSetAt g s (s'.setLinks p l) :=
  ⟨h.toChildrenAt.setLinks p l, h.mem_iff⟩

theorem setChildren {chs : List Nat} (h : ∀ y, y ∈ chs ↔ y ∈ (s.gate g).children) :
    SameSetAt g s (s.setChildren g chs) :=
  ⟨.setChildren chs, fun y => by rw [children_setChildren]; split_ifs <;> simp [h]⟩

theorem shaped (h : SameSetAt g s s') (hs : s.circuit.Shaped)
    (ht : (s.gate g).type = .or ∨ (s.gate g).type = .and ∨ (s.gate g).type = .equiv) :
    s'.circuit.Shaped := by
  have hl : (s.gate g).type.Live := by rcases ht with e | e | e <;> rw [e] <;> decide
  exact h.toChildrenAt.shaped hs ht fun y hy =>
    (hs g (lt_size_of_live (c := s.circuit) hl) hl).1 y ((h.mem_iff y).1 hy)

end SameSetAt

/-- A `NOT` child of `g` over another child of `g`. -/
def ComplementPair (g : Nat) (s : BC) : Prop :=
  ∃ y ∈ (s.gate g).children, ∃ x ∈ (s.gate g).children, (s.gate y).type = .not ∧ s.headChild y = some x

theorem SameSetAt.complementPair_iff {s s' : BC} {g : Nat} (h : SameSetAt g s s')
    (hgt : (s.gate g).type ≠ .not) : ComplementPair g s' ↔ ComplementPair g s := by
  simp only [ComplementPair, h.mem_iff, h.notOver_iff hgt]

end BC

namespace Circuit.Consistent

open BC

variable {s s' : BC} {g : Nat} {σ : Nat → Bool}

theorem childrenAt (hσ : s.circuit.Consistent σ) (h : ChildrenAt g s s')
    (hg : g < s.size → (s.gate g).type.Live → (s.gate g).type ≠ .var →
      σ g = (s.gate g).type.eval (s.gate g).tmin (s.gate g).tmax ((s'.gate g).children.map σ)) :
    s'.circuit.Consistent σ := by
  intro x hx
  have hx' : x < s.size := by simpa [h.size_eq] using hx
  obtain ⟨h₁, h₂, h₃, h₄, h₅⟩ := h.logic x
  rw [gateOk_iff, circuit_gate, Gate.holds_congr h₁ h₂ h₃ h₄ h₅]
  by_cases hxg : x = g
  · subst hxg
    exact fun hl => ⟨hg hx' hl, ((hσ x hx') hl).2⟩
  · rw [h.children_eq x hxg]; exact hσ x hx'

theorem sameSetAt (hσ : s.circuit.Consistent σ) (h : SameSetAt g s s')
    (ht : (s.gate g).type = .or ∨ (s.gate g).type = .and ∨ (s.gate g).type = .equiv) :
    s'.circuit.Consistent σ :=
  hσ.childrenAt h.toChildrenAt fun hg hl hv => by
    rw [consistent_eval hσ hg hl hv]
    exact GateType.eval_congr_mem ht _ _ (map_mem_iff fun y => (h.mem_iff y).symm)

end Circuit.Consistent

namespace BC

open Circuit

variable {s : BC} {g : Nat} {σ : Nat → Bool}

theorem temp_setTemps (xs : List Nat) (t : Int) (x : Nat) : ∀ s : BC,
    ((s.setTemps xs t).gate x).temp = if x ∈ xs ∧ x < s.size then t else (s.gate x).temp := by
  induction xs with
  | nil => intro s; simp [setTemps]
  | cons y xs ih =>
    intro s
    show (((s.setTemp y t).setTemps xs t).gate x).temp = _
    rw [ih, temp_setTemp_eq, size_setTemp]
    rcases eq_or_ne y x with rfl | hxy
    · by_cases hx : y < s.size <;> simp [hx]
    · simp [hxy, Ne.symm hxy]

theorem temp_setTemp_zero {x y : Nat} (h : y = x ∨ (s.gate y).temp = 0) :
    ((s.setTemp x 0).gate y).temp = 0 := by
  rw [temp_setTemp_eq]
  split_ifs with hy
  · rfl
  · rcases h with rfl | h
    · rw [← circuit_gate, s.circuit.gate_of_size_le (by simp only [circuit_size]; omega)]; rfl
    · exact h

theorem clearTemps_sameSetAt : ∀ (xs : List Nat) (s : BC) {s' : BC}, clearTemps xs s = some s' →
    SameSetAt g s s' ∧ ∀ y, (y ∈ xs ∨ (s.gate y).temp = 0) → (s'.gate y).temp = 0
  | [], s, _, h => by
    cases h; exact ⟨.refl g s, fun y hy => hy.resolve_left (List.not_mem_nil _)⟩
  | x :: xs, s, s', h => by
    simp only [clearTemps] at h
    split_ifs at h
    · obtain ⟨gc, -, h⟩ := Option.bind_eq_some.1 h
      obtain ⟨h₁, h₂⟩ := clearTemps_sameSetAt xs _ h
      refine ⟨((SameSetAt.setTemp x 0).trans (SameSetAt.setTemp gc 0)).trans h₁, fun y hy => h₂ y ?_⟩
      rcases hy with hy | hy
      · rcases List.mem_cons.1 hy with rfl | hy
        · exact .inr (temp_setTemp_zero (.inr (temp_setTemp_zero (.inl rfl))))
        · exact .inl hy
      · exact .inr (temp_setTemp_zero (.inr (temp_setTemp_zero (.inr hy))))
    · obtain ⟨h₁, h₂⟩ := clearTemps_sameSetAt xs _ h
      refine ⟨(SameSetAt.setTemp x 0).trans h₁, fun y hy => h₂ y ?_⟩
      rcases hy with hy | hy
      · rcases List.mem_cons.1 hy with rfl | hy
        · exact .inr (temp_setTemp_zero (.inl rfl))
        · exact .inl hy
      · exact .inr (temp_setTemp_zero (.inr hy))

theorem gNotGScan_sameSetAt : ∀ (rest kept : List Nat) (s : BC) {r : Bool × BC},
    (s.gate g).type ≠ .not → (s.gate g).children = kept ++ rest →
    (∀ x, (s.gate x).temp = 1 → x ∈ kept) →
    (∀ x ∈ rest, (s.gate x).temp = 2 → ∃ y ∈ kept, (s.gate y).type = .not ∧ s.headChild y = some x) →
    gNotGScan g kept rest s = some r → SameSetAt g s r.2 ∧ (r.1 = true → ComplementPair g s)
  | [], _, s, _, _, _, _, _, h => by cases h; exact ⟨.refl g s, nofun⟩
  | ch :: rest, kept, s, r, hgt, hch, hm, h2, h => by
    have hkept : ∀ y ∈ kept, y ∈ (s.gate g).children := fun y hy => by
      rw [hch]; exact List.mem_append_left _ hy
    have hchm : ch ∈ (s.gate g).children := by rw [hch]; simp
    have h2' : ∀ x ∈ rest, (s.gate x).temp = 2 →
        ∃ y ∈ kept ++ [ch], (s.gate y).type = .not ∧ s.headChild y = some x := fun x hx ht =>
      let ⟨y, hy, hyt⟩ := h2 x (.tail _ hx) ht
      ⟨y, List.mem_append_left _ hy, hyt⟩
    have hm' : ∀ x, ((s.setTemp ch 1).gate x).temp = 1 → x ∈ kept ++ [ch] := fun x hx => by
      rcases temp_setTemp_eq_one hx with ⟨rfl, -⟩ | ⟨-, hx⟩
      · simp
      · exact List.mem_append_left _ (hm x hx)
    rcases gNotGScan_cons h with ⟨-, h⟩ | ⟨-, ht, rfl⟩ | ⟨-, ht, h⟩ |
      ⟨-, ht2, -, ⟨rfl, gc, hn, hgc, ht⟩ | ⟨gc, hn, hgc, -, h⟩ | h⟩
    · -- a determined child is kept
      exact gNotGScan_sameSetAt rest _ s hgt (by simp [hch])
        (fun x hx => List.mem_append_left _ (hm x hx)) h2' h
    · -- a child marked `2`: the negation of a kept child
      obtain ⟨y, hy, hyt⟩ := h2 ch (.head _) ht
      exact ⟨.refl g s, fun _ => ⟨y, hkept y hy, ch, hchm, hyt⟩⟩
    · -- a child marked `1` was kept: the repeat goes
      have hk := hm ch ht
      have e : SameSetAt g s ((s.setChildren g (kept ++ rest)).setLinks g
          ((s.linkTimes g).eraseIdx kept.length)) := SameSetAt.setLinks (SameSetAt.setChildren fun y => by
        rw [hch]
        simp only [List.mem_append, List.mem_cons]
        constructor
        · rintro (h | h) <;> simp [h]
        · rintro (h | rfl | h) <;> simp [h, hk]) _ _
      have h2'' : ∀ x ∈ rest, (((s.setChildren g (kept ++ rest)).setLinks g
          ((s.linkTimes g).eraseIdx kept.length)).gate x).temp = 2 → ∃ y ∈ kept,
          (((s.setChildren g (kept ++ rest)).setLinks g ((s.linkTimes g).eraseIdx kept.length)).gate y).type =
            .not ∧ ((s.setChildren g (kept ++ rest)).setLinks g
              ((s.linkTimes g).eraseIdx kept.length)).headChild y = some x := fun x hx ht =>
        let ⟨y, hy, hyt⟩ := h2 x (.tail _ hx) (by simpa using ht)
        ⟨y, hy, (e.notOver_iff hgt).2 hyt⟩
      obtain ⟨h₁, h₂⟩ := gNotGScan_sameSetAt rest kept _ (by rwa [e.type_eq])
        (by rw [gate_setLinks, children_setChildren, if_pos ⟨rfl, s.circuit.lt_size_of_edge hchm⟩])
        (fun x hx => hm x (by simpa using hx)) h2'' h
      exact ⟨e.trans h₁, fun hr => (e.complementPair_iff hgt).1 (h₂ hr)⟩
    · -- a `NOT` over a child marked `1`
      refine ⟨.setTemp ch 1, fun _ => ⟨ch, hchm, gc, ?_, hn, hgc⟩⟩
      rcases List.mem_append.1 (hm' gc ht) with h | h
      · exact hkept gc h
      · rw [List.mem_singleton.1 h]; exact hchm
    · -- a new `NOT` child: its child is marked `2`
      have e : SameSetAt g s ((s.setTemp ch 1).setTemp gc 2) :=
        (SameSetAt.setTemp ch 1).trans (.setTemp gc 2)
      have h2'' : ∀ x ∈ rest, (((s.setTemp ch 1).setTemp gc 2).gate x).temp = 2 →
          ∃ y ∈ kept ++ [ch], (((s.setTemp ch 1).setTemp gc 2).gate y).type = .not ∧
            ((s.setTemp ch 1).setTemp gc 2).headChild y = some x := fun x hx ht => by
        rw [temp_setTemp_eq] at ht
        split_ifs at ht with hxg
        · obtain ⟨rfl, -⟩ := hxg
          exact ⟨ch, by simp, (e.notOver_iff hgt).2 ⟨hn, hgc⟩⟩
        · rw [temp_setTemp_eq] at ht
          split_ifs at ht
          · exact absurd ht (by decide)
          obtain ⟨y, hy, hyt⟩ := h2' x hx ht
          exact ⟨y, hy, (e.notOver_iff hgt).2 hyt⟩
      obtain ⟨h₁, h₂⟩ := gNotGScan_sameSetAt rest _ _ (by rwa [e.type_eq]) (by simp [hch])
        (fun x hx => by
          rcases temp_setTemp_eq_one hx with ⟨-, h⟩ | ⟨-, hx⟩
          · exact absurd h (by decide)
          · exact hm' x hx) h2'' h
      exact ⟨e.trans h₁, fun hr => (e.complementPair_iff hgt).1 (h₂ hr)⟩
    · -- a new child is marked `1`
      have e : SameSetAt g s (s.setTemp ch 1) := .setTemp ch 1
      have h2'' : ∀ x ∈ rest, ((s.setTemp ch 1).gate x).temp = 2 → ∃ y ∈ kept ++ [ch],
          ((s.setTemp ch 1).gate y).type = .not ∧ (s.setTemp ch 1).headChild y = some x :=
        fun x hx ht => by
          rw [temp_setTemp_eq] at ht
          split_ifs at ht
          · exact absurd ht (by decide)
          obtain ⟨y, hy, hyt⟩ := h2' x hx ht
          exact ⟨y, hy, (e.notOver_iff hgt).2 hyt⟩
      obtain ⟨h₁, h₂⟩ := gNotGScan_sameSetAt rest _ _ (by rwa [e.type_eq]) (by simp [hch]) hm' h2'' h
      exact ⟨e.trans h₁, fun hr => (e.complementPair_iff hgt).1 (h₂ hr)⟩

/-- A gate over `x` and `NOT(x)` reads both values; the `NOT` is read off the gates but `g`. -/
theorem eval_of_complementPair (hs : s.circuit.Shaped) (hb : s.circuit.ConsistentBut σ g)
    (ht : (s.gate g).type = .or ∨ (s.gate g).type = .and ∨ (s.gate g).type = .equiv)
    (hp : ComplementPair g s) :
    (s.gate g).type.eval (s.gate g).tmin (s.gate g).tmax ((s.gate g).children.map σ) =
      decide ((s.gate g).type = .or) := by
  obtain ⟨y, hy, x, hx, hyn, hyx⟩ := hp
  have hl : (s.gate g).type.Live := by rcases ht with e | e | e <;> rw [e] <;> decide
  have hg : g < s.size := lt_size_of_live (c := s.circuit) hl
  have hyl : (s.gate y).type.Live := (hs g hg hl).1 y hy
  have hyc : y < s.size := lt_size_of_live (c := s.circuit) hyl
  have hyg : y ≠ g := by rintro rfl; rcases ht with e | e | e <;> rw [e] at hyn <;> cases hyn
  obtain ⟨x', hx'⟩ : ∃ x', (s.gate y).children = [x'] :=
    List.length_eq_one.1 ((hs y hyc hyl).2.1 (.inr hyn))
  obtain rfl : x' = x := by simpa [headChild, hx'] using hyx
  have hσy : σ y = !σ x' := by
    rw [hb.eval hyc hyg hyl (by rw [circuit_gate, hyn]; decide), circuit_gate, hyn, hx']; simp
  obtain ⟨h₁, h₂⟩ := mem_map_complement hx hy hσy
  exact GateType.eval_complement ht _ _ h₁ h₂

theorem value_of_complementPair (hs : s.circuit.Shaped) (hσ : s.circuit.Consistent σ)
    (ht : (s.gate g).type = .or ∨ (s.gate g).type = .and ∨ (s.gate g).type = .equiv)
    (hp : ComplementPair g s) : σ g = decide ((s.gate g).type = .or) := by
  have hl : (s.gate g).type.Live := by rcases ht with e | e | e <;> rw [e] <;> decide
  rw [consistent_eval hσ (lt_size_of_live (c := s.circuit) hl) hl
    (by rcases ht with e | e | e <;> rw [e] <;> decide)]
  exact eval_of_complementPair hs (hσ.but g) ht hp

theorem removeGNotGAndDuplicateChildren_spec (hm : NoMarks s)
    (ht : (s.gate g).type = .or ∨ (s.gate g).type = .and ∨ (s.gate g).type = .equiv)
    {r : Bool × BC} (h : s.removeGNotGAndDuplicateChildren g = some r) :
    (r.1 = true ∧ SameSetAt g s r.2) ∨ (ComplementPair g s ∧
      ∃ s₃, SameSetAt g s s₃ ∧ s₃.becomeConstant g (decide ((s.gate g).type = .or)) = some r) := by
  have hgt : (s.gate g).type ≠ .not := by rcases ht with e | e | e <;> rw [e] <;> decide
  unfold removeGNotGAndDuplicateChildren at h
  dsimp only at h
  rw [if_neg (by rcases ht with e | e | e <;> simp [e])] at h
  obtain ⟨s₁, h₁, h⟩ := Option.bind_eq_some.1 h
  obtain ⟨⟨found, s₂⟩, h₂, h⟩ := Option.bind_eq_some.1 h
  obtain ⟨s₃, h₃, h⟩ := Option.bind_eq_some.1 h
  obtain ⟨e₁, z₁⟩ := clearTemps_sameSetAt (g := g) _ _ h₁
  obtain ⟨e₂, p₂⟩ := gNotGScan_sameSetAt _ [] s₁ (by rwa [e₁.type_eq]) rfl
    (fun x hx => absurd (clearTemps_temp _ _ h₁ x hx).2 (hm x))
    (fun x hx ht => absurd (z₁ x (.inl ((e₁.mem_iff x).1 hx))) (by rw [ht]; decide)) h₂
  obtain ⟨e₃, -⟩ := clearTemps_sameSetAt (g := g) _ _ h₃
  have e := (e₁.trans e₂).trans e₃
  split_ifs at h with hf
  · exact .inr ⟨(e₁.complementPair_iff hgt).1 (p₂ hf), s₃, e, h⟩
  · cases h; exact .inl ⟨rfl, e.trans (.addInPstack g)⟩
  · cases h; exact .inl ⟨rfl, e⟩

theorem removeGNotGAndDuplicateChildren_keeps (hm : NoMarks s) (hs : s.circuit.Shaped)
    (ht : (s.gate g).type = .or ∨ (s.gate g).type = .and ∨ (s.gate g).type = .equiv)
    {r : Bool × BC} (h : s.removeGNotGAndDuplicateChildren g = some r) : Keeps s r := by
  rcases removeGNotGAndDuplicateChildren_spec hm ht h with ⟨hr, e⟩ | ⟨hp, s₃, e, h⟩
  · exact .of_consistent e.size_eq.ge fun σ hσ => ⟨hr, hσ.sameSetAt e ht⟩
  · have hgt : (s.gate g).type ≠ .not := by rcases ht with e | e | e <;> rw [e] <;> decide
    have ht₃ : (s₃.gate g).type = .or ∨ (s₃.gate g).type = .and ∨ (s₃.gate g).type = .equiv := by
      rwa [e.type_eq]
    refine Keeps.trans (.of_consistent e.size_eq.ge fun σ hσ => ⟨rfl, hσ.sameSetAt e ht⟩)
      (becomeConstant_keeps (by rcases ht₃ with e | e | e <;> rw [e] <;> decide) h fun σ hσ => ?_)
    rw [value_of_complementPair (e.shaped hs ht) hσ ht₃ ((e.complementPair_iff hgt).2 hp), e.type_eq]

section OrAnd

variable {a : Bool} {ty : GateType} (hty : ty = if a then .or else .and)
include hty

theorem orAnd_live : ty.Live ∧ ty ≠ .var := by subst hty; cases a <;> decide

theorem orAnd_value (hσ : s.circuit.Consistent σ) (hg : g < s.size) (ht : (s.gate g).type = ty) :
    σ g = if a ∈ (s.gate g).children.map σ then a else !a := by
  rw [consistent_eval hσ hg (ht ▸ (orAnd_live hty).1) (ht ▸ (orAnd_live hty).2), ht,
    GateType.eval_orAnd hty]

theorem orAnd_eval_dual {xs : List Nat} (hxs : a ∉ xs.map σ) (lo hi : Nat) :
    ty.eval lo hi (xs.map σ) = !a := by
  rw [GateType.eval_orAnd hty, if_neg hxs]

theorem orAnd_eval_congr {xs ys : List Nat} (h : a ∈ xs.map σ ↔ a ∈ ys.map σ) (lo hi : Nat) :
    ty.eval lo hi (xs.map σ) = ty.eval lo hi (ys.map σ) := by
  rw [GateType.eval_orAnd hty, GateType.eval_orAnd hty]
  exact if_congr h rfl rfl

theorem forceChildren_keeps (hgv : σ g = !a) :
    ∀ (rest : List Nat) (s : BC), s.circuit.Consistent σ → g < s.size → (s.gate g).type = ty →
      (s.gate g).children = rest → (∀ x ∈ rest, (s.gate x).type.Live) →
      (forceChildren a g rest s).1 = true ∧ (forceChildren a g rest s).2.circuit.Consistent σ ∧
        (forceChildren a g rest s).2.size = s.size
  | [], _, hσ, _, _, _, _ => ⟨rfl, hσ, rfl⟩
  | ch :: rest, s, hσ, hg, ht, hch, hlive => by
    have hv := orAnd_value hty hσ hg ht
    have hnone : a ∉ (ch :: rest).map σ := fun hm => by
      rw [hch, if_pos hm] at hv; cases a <;> simp_all
    have hchv : σ ch = !a := by
      have : σ ch ≠ a := fun he => hnone (by simp [he])
      cases a <;> simp_all
    have hrest : a ∉ rest.map σ := fun hm => hnone (List.mem_cons_of_mem _ hm)
    have hset : ∀ t : BC, t.circuit.Consistent σ → (t.gate g).type = ty →
        (t.setChildren g rest).circuit.Consistent σ := fun t ht' ht =>
      ht'.setChildren fun _ _ _ => by rw [ht, orAnd_eval_dual hty hrest, hgv]
    have hlive' : ∀ t : BC, (∀ x, (t.gate x).type = (s.gate x).type) →
        ∀ x ∈ rest, ((t.setChildren g rest).gate x).type.Live := fun t htt x hx => by
      rw [type_setChildren_eq, htt]; exact hlive x (.tail _ hx)
    have hc : ch < s.size := lt_size_of_live (c := s.circuit) (hlive ch (.head _))
    unfold forceChildren
    split_ifs with hd hval
    · exact absurd ((consistent_det hσ hc (hlive ch (.head _)) hd).symm.trans hchv)
        (by simpa using hval)
    · obtain ⟨h₁, h₂, h₃⟩ := forceChildren_keeps hgv rest
        ((s.setChildren g rest).setLinks g (s.linkTimes g).tail) (hset s hσ ht) (by simpa using hg)
        (by simp [ht]) (by simp [hg]) (hlive' s fun _ => rfl)
      exact ⟨h₁, h₂, by simpa using h₃⟩
    · have hσ₁ : ((s.determine ch (!a)).addInPstack ch).circuit.Consistent σ := by
        simpa using hσ.determine fun _ => hchv
      have ht₁ : (((s.determine ch (!a)).addInPstack ch).gate g).type = ty := by simp [ht]
      obtain ⟨h₁, h₂, h₃⟩ := forceChildren_keeps hgv rest
        ((((s.determine ch (!a)).addInPstack ch).setChildren g rest).setLinks g (s.linkTimes g).tail)
        (hset _ hσ₁ ht₁) (by simpa using hg)
        (by simp [ht]) (by simp [hg]) (hlive' _ fun _ => by simp)
      exact ⟨h₁, h₂, by simpa using h₃⟩

omit hty in
theorem absorbScan_childrenAt : ∀ (rest kept : List Nat) (s : BC), g < s.size →
    (s.gate g).children = kept ++ rest →
    ChildrenAt g s (absorbScan a g kept rest s).2.2 ∧
      (∀ y ∈ ((absorbScan a g kept rest s).2.2.gate g).children, y ∈ kept ++ rest) ∧
      ((absorbScan a g kept rest s).1 = false →
        ((absorbScan a g kept rest s).2.2.gate g).children.length = (absorbScan a g kept rest s).2.1)
  | [], kept, s, _, hch => ⟨.refl g s, by simp [absorbScan, hch], fun _ => by simp [absorbScan, hch]⟩
  | ch :: rest, kept, s, hg, hch => by
    unfold absorbScan
    split_ifs
    · exact ⟨.refl g s, by simp [hch], nofun⟩
    · obtain ⟨h₁, h₂, h₃⟩ := absorbScan_childrenAt rest kept
        (((s.setChildren g (kept ++ rest)).setLinks g ((s.linkTimes g).eraseIdx kept.length)).pushIfOrphan ch)
        (by simpa using hg) (by simp [hg])
      refine ⟨(((ChildrenAt.setChildren _).setLinks g _).trans (.pushIfOrphan ch)).trans h₁, fun y hy => ?_, h₃⟩
      have := h₂ y hy
      simp only [List.mem_append, List.mem_cons] at this ⊢
      tauto
    · obtain ⟨h₁, h₂, h₃⟩ := absorbScan_childrenAt rest (kept ++ [ch]) s hg (by simp [hch])
      exact ⟨h₁, fun y hy => by simpa using h₂ y hy, h₃⟩

theorem absorbScan_keeps : ∀ (rest kept : List Nat) (s : BC), s.circuit.Consistent σ → g < s.size →
    (s.gate g).type = ty → (s.gate g).children = kept ++ rest → (∀ x ∈ rest, (s.gate x).type.Live) →
    (absorbScan a g kept rest s).2.2.circuit.Consistent σ ∧
      ((absorbScan a g kept rest s).1 = true → σ g = a) ∧
      ((absorbScan a g kept rest s).1 = false →
        ((absorbScan a g kept rest s).2.2.gate g).children.length = (absorbScan a g kept rest s).2.1)
  | [], kept, s, hσ, _, _, hch, _ => ⟨hσ, nofun, fun _ => by simp [absorbScan, hch]⟩
  | ch :: rest, kept, s, hσ, hg, ht, hch, hlive => by
    have hc : ch < s.size := lt_size_of_live (c := s.circuit) (hlive ch (.head _))
    have hv := orAnd_value hty hσ hg ht
    rw [hch] at hv
    unfold absorbScan
    split_ifs with hd hva
    · refine ⟨hσ, fun _ => ?_, nofun⟩
      have hcv : σ ch = a := (consistent_det hσ hc (hlive ch (.head _)) hd).trans hva
      rw [hv, if_pos (by simp [hcv])]
    · have hcv : σ ch ≠ a := fun he => hva ((consistent_det hσ hc (hlive ch (.head _)) hd).symm.trans he)
      have hmem : (a ∈ (kept ++ ch :: rest).map σ) ↔ (a ∈ (kept ++ rest).map σ) := by
        simp only [List.map_append, List.map_cons, List.mem_append, List.mem_cons]
        constructor
        · rintro (h | h | h)
          · exact .inl h
          · exact absurd h.symm hcv
          · exact .inr h
        · rintro (h | h)
          · exact .inl h
          · exact .inr (.inr h)
      have hσ₁ : (((s.setChildren g (kept ++ rest)).setLinks g
          ((s.linkTimes g).eraseIdx kept.length)).pushIfOrphan ch).circuit.Consistent σ := by
        simpa using hσ.setChildren fun _ _ _ => by
          rw [ht, GateType.eval_orAnd hty, hv]; exact if_congr hmem rfl rfl
      exact absorbScan_keeps rest kept _ hσ₁ (by simpa using hg) (by simp [ht]) (by simp [hg])
        fun x hx => by simpa using hlive x (.tail _ hx)
    · exact absorbScan_keeps rest (kept ++ [ch]) s hσ hg ht (by simp [hch])
        fun x hx => hlive x (.tail _ hx)

omit hty in
theorem shareSubset_childrenAt : ChildrenAt g s (s.shareSubset ty g) := by
  unfold shareSubset
  dsimp only
  split
  · exact (ChildrenAt.setTemps _ _).trans (.setTemps _ _)
  · exact (((((ChildrenAt.setTemps _ _).trans (.setTemps _ _)).trans (.setChildren _)).setLinks g _).trans
      (.addChild _)).trans (.setTemps _ _)

omit hty in
theorem collapseScan_childrenAt : ∀ (rest kept : List Nat) (s : BC) (done : Bool),
    ChildrenAt g s (collapseScan ty g kept rest s done).2
  | [], _, s, _ => .refl g s
  | ch :: rest, kept, s, done => by
    unfold collapseScan
    split_ifs
    · exact ((((ChildrenAt.setChildren _).setLinks g _).tick _).trans (.addInPstack ch)).trans
        (collapseScan_childrenAt rest _ _ true)
    · exact collapseScan_childrenAt rest _ s done

omit hty in
/-- A gate `p` read in place of its children, which `g` also reads, leaves the values `g` reads. -/
theorem mem_map_shared {p : Nat} {ps chs chs' : List Nat} (hp : σ p = if a ∈ ps.map σ then a else !a)
    (hsub : ∀ x ∈ ps, x ∈ chs) (hmem : ∀ y, y ∈ chs' ↔ y = p ∨ (y ∈ chs ∧ y ∉ ps)) :
    a ∈ chs'.map σ ↔ a ∈ chs.map σ := by
  constructor
  · intro hin
    obtain ⟨y, hy, rfl⟩ := List.mem_map.1 hin
    rcases (hmem y).1 hy with rfl | ⟨hy, -⟩
    · by_cases hin' : σ y ∈ ps.map σ
      · obtain ⟨z, hz, hza⟩ := List.mem_map.1 hin'
        exact hza ▸ List.mem_map_of_mem σ (hsub z hz)
      · rw [if_neg hin'] at hp; simp at hp
    · exact List.mem_map_of_mem σ hy
  · intro hin
    obtain ⟨y, hy, rfl⟩ := List.mem_map.1 hin
    by_cases hyp : y ∈ ps
    · have : σ p = σ y := by rw [hp, if_pos (List.mem_map_of_mem σ hyp)]
      exact this ▸ List.mem_map_of_mem σ ((hmem p).2 (.inl rfl))
    · exact List.mem_map_of_mem σ ((hmem y).2 (.inr ⟨hy, hyp⟩))

omit hty in
/-- Subset sharing changes the children of `g` at most, and only by putting a gate `p ≠ g` of
the same type in place of its children, which are children of `g`. -/
theorem shareSubset_spec (hs : s.circuit.Shaped) (hm : NoMarks s) (hl : (s.gate g).type.Live) :
    ((s.shareSubset ty g).gate g).children = (s.gate g).children ∨
      ∃ p, p ≠ g ∧ p < s.size ∧ (s.gate p).type = ty ∧
        (∀ x ∈ (s.gate p).children, x ∈ (s.gate g).children) ∧
        ∀ y, y ∈ ((s.shareSubset ty g).gate g).children ↔
          y = p ∨ (y ∈ (s.gate g).children ∧ y ∉ (s.gate p).children) := by
  unfold shareSubset
  dsimp only
  split
  · exact .inl (by simp)
  next p hp =>
    obtain ⟨hpg, hps, hpt, hpty⟩ := sharedSubset_spec ty g hp
    simp only [children_setTemps, size_setTemps] at hpt hps
    have hpty' : (s.gate p).type = ty := by rwa [(ChildrenAt.setTemps (g := g) _ _).type_eq] at hpty
    have hsub : ∀ x ∈ (s.gate p).children, x ∈ (s.gate g).children := fun x hx =>
      (temp_setTemps_eq_one (hpt x hx)).resolve_right (hm x)
    have hg : g < s.size := lt_size_of_live (c := s.circuit) hl
    have hchs : ∀ x ∈ (s.gate g).children, x < s.size := fun x hx =>
      lt_size_of_live (c := s.circuit) ((hs g hg hl).1 x hx)
    set s₂ := (s.setTemps (s.gate g).children 1).setTemps
      ((s.setTemps (s.gate g).children 1).gate p).children 0
    set F := (s.gate g).children.filter fun x => (s₂.gate x).temp ≠ 0
    -- the children of `g` left are those outside `p`
    have hF : ∀ y, y ∈ F ↔ y ∈ (s.gate g).children ∧ y ∉ (s.gate p).children := fun y => by
      simp only [F, List.mem_filter, decide_eq_true_eq, s₂, temp_setTemps, children_setTemps,
        size_setTemps]
      constructor
      · rintro ⟨hy, h⟩
        exact ⟨hy, fun hp => h (by simp [hp, hchs y hy])⟩
      · rintro ⟨hy, hp⟩
        exact ⟨hy, by simp [hp, hy, hchs y hy]⟩
    refine .inr ⟨p, hpg, hps, hpty', hsub, fun y => ?_⟩
    have hch : (((((s₂.setChildren g F).setLinks g ((((s.gate g).children.zip (s₂.linkTimes g)).filter
        fun e => (s₂.gate e.1).temp ≠ 0).map Prod.snd)).addChild g p).setTemps
        ((((s₂.setChildren g F).setLinks g ((((s.gate g).children.zip (s₂.linkTimes g)).filter
        fun e => (s₂.gate e.1).temp ≠ 0).map Prod.snd)).addChild g p).gate g).children 0).gate g).children =
        p :: F := by
      simp [s₂, addChild, children_setChildren, hg]
    rw [hch, List.mem_cons, hF]

theorem shareSubset_consistent (hs : s.circuit.Shaped) (hm : NoMarks s) (ht : (s.gate g).type = ty)
    (hσ : s.circuit.Consistent σ) : (s.shareSubset ty g).circuit.Consistent σ := by
  have hl : (s.gate g).type.Live := ht ▸ (orAnd_live hty).1
  refine hσ.childrenAt shareSubset_childrenAt fun hg _ hv => ?_
  rw [consistent_eval hσ hg hl hv]
  rcases shareSubset_spec hs hm hl with hch | ⟨p, -, hps, hpty, hsub, hmem⟩
  · rw [hch]
  · rw [ht]
    exact orAnd_eval_congr hty (mem_map_shared (orAnd_value hty hσ hps hpty) hsub hmem).symm _ _

omit hty in
/-- A child `ch` of `g` replaced by its children `gcs` leaves the values `g` reads. -/
theorem mem_map_collapse {ch : Nat} {kept rest gcs : List Nat}
    (hv : σ ch = if a ∈ gcs.map σ then a else !a) :
    a ∈ (kept ++ ch :: rest).map σ ↔ a ∈ ((gcs.foldl (fun acc x => x :: acc) [] ++ kept) ++ rest).map σ := by
  have hchv : a = σ ch ↔ a ∈ gcs.map σ := by rw [hv]; split_ifs with h <;> simp [h]
  have hadd : a ∈ (gcs.foldl (fun acc x => x :: acc) []).map σ ↔ a ∈ gcs.map σ := by
    simp only [List.mem_map, mem_foldl_flip_cons, List.not_mem_nil, or_false]
  simp only [List.map_append, List.map_cons, List.mem_append, List.mem_cons, hadd, hchv]
  tauto

theorem collapseScan_consistent : ∀ (rest kept : List Nat) (s : BC) (done : Bool),
    s.circuit.Consistent σ → (s.gate g).type = ty → (s.gate g).children = kept ++ rest →
    (collapseScan ty g kept rest s done).2.circuit.Consistent σ
  | [], _, _, _, hσ, _, _ => hσ
  | ch :: rest, kept, s, done, hσ, ht, hch => by
    have hg : g < s.size := lt_size_of_live (c := s.circuit) (ht ▸ (orAnd_live hty).1)
    unfold collapseScan
    split_ifs with hc
    · have hcs : ch < s.size := lt_size_of_live (c := s.circuit) (hc.1 ▸ (orAnd_live hty).1)
      refine collapseScan_consistent rest _ _ true ?_ (by simp [ht]) (by simp [children_setChildren, hg])
      rw [circuit_addInPstack]
      exact hσ.setChildren fun _ _ _ => by
        rw [ht, GateType.eval_orAnd hty, orAnd_value hty hσ hg ht, hch]
        exact if_congr (mem_map_collapse (orAnd_value hty hσ hcs hc.1)) rfl rfl
    · exact collapseScan_consistent rest _ s done hσ ht (by simp [hch])

theorem simplifyOrAnd_keeps (hs : s.circuit.Shaped) (hm : NoMarks s) (ht : (s.gate g).type = ty)
    {r : Bool × BC} (h : s.simplifyOrAnd a ty g = some r) : Keeps s r := by
  have hl : (s.gate g).type.Live := ht ▸ (orAnd_live hty).1
  have hg : g < s.size := lt_size_of_live (c := s.circuit) hl
  have hlive : ∀ x ∈ (s.gate g).children, (s.gate x).type.Live := (hs g hg hl).1
  have hoa : ∀ t : BC, (t.gate g).type = ty →
      (t.gate g).type = .or ∨ (t.gate g).type = .and ∨ (t.gate g).type = .equiv := fun t h => by
    rw [h, hty]; cases a <;> simp
  unfold simplifyOrAnd at h
  dsimp only at h
  split at h
  · -- `g` is forced to `!a`: its children are forced and it becomes a constant
    rename_i hd
    simp only [Bool.and_eq_true, beq_iff_eq] at hd
    have hgv : ∀ σ, s.circuit.Consistent σ → σ g = !a := fun σ hσ =>
      (consistent_det hσ hg hl hd.1).trans hd.2
    have hf := fun σ hσ => forceChildren_keeps hty (hgv σ hσ) _ s hσ hg ht rfl hlive
    have hsize := (forceChildren_implied a g _ s (ScanOk.init s g)).size_eq
    split at h
    next s₁ heq =>
      cases h
      rw [heq] at hf hsize
      exact .of_unsat hsize.ge fun ⟨σ, hσ⟩ => Bool.false_ne_true (hf σ hσ).1
    next s₁ heq =>
      rw [heq] at hf hsize
      obtain ⟨s₂, h₂, rfl⟩ := Option.map_eq_some'.1 h
      have hg₁ : g < s₁.size := hsize ▸ hg
      refine .of_consistent (by simp [(transformIntoConstant_gate hg₁ h₂).1, hsize]) fun σ hσ =>
        ⟨rfl, by simpa using (hf σ hσ).2.1.transformIntoConstant hg₁ h₂ (hgv σ hσ)⟩
  · -- the children determined to `!a` go; one determined to `a` makes `g` the constant `a`
    have hk := fun σ hσ => absorbScan_keeps hty (σ := σ) _ [] s hσ hg ht rfl hlive
    obtain ⟨e₁, hsub₁, hlen₁⟩ := absorbScan_childrenAt (a := a) (s.gate g).children [] s hg rfl
    have hm₁ := hm.of_temp (absorbScan_temp a g (s.gate g).children [] s)
    split at h
    next _ s₁ heq =>
      rw [heq] at hk e₁
      dsimp only at hk e₁
      obtain ⟨s₂, h₂, rfl⟩ := Option.map_eq_some'.1 h
      have hg₁ : g < s₁.size := e₁.size_eq ▸ hg
      refine .of_consistent (by simp [(transformIntoConstant_gate hg₁ h₂).1, e₁.size_eq]) fun σ hσ =>
        ⟨rfl, by simpa using (hk σ hσ).1.transformIntoConstant hg₁ h₂ ((hk σ hσ).2.1 rfl)⟩
    next s₁ heq =>
      -- no child left: `g` is `!a`
      rw [heq] at hk e₁ hlen₁
      dsimp only at hk e₁ hlen₁
      have ht₁ : (s₁.gate g).type = ty := by rw [e₁.type_eq, ht]
      have hnil : (s₁.gate g).children = [] := List.length_eq_zero.1 (hlen₁ rfl)
      refine (Keeps.of_consistent e₁.size_eq.ge fun σ hσ => ⟨rfl, (hk σ hσ).1⟩).trans
        (becomeConstant_keeps (ht₁ ▸ (orAnd_live hty).1) h fun σ hσ => ?_)
      rw [orAnd_value hty hσ (e₁.size_eq ▸ hg) ht₁, hnil]; simp
    next s₁ heq =>
      -- one child left: `g` becomes a `REF` to it
      rw [heq] at hk e₁ hlen₁
      dsimp only at hk e₁ hlen₁
      cases h
      have ht₁ : (s₁.gate g).type = ty := by rw [e₁.type_eq, ht]
      obtain ⟨c, hc⟩ := List.length_eq_one.1 (hlen₁ rfl)
      refine .of_consistent (by simp [e₁.size_eq]) fun σ hσ => ⟨rfl, ?_⟩
      have hσ₁ := (hk σ hσ).1
      have hg₁ : g < s₁.size := e₁.size_eq ▸ hg
      rw [circuit_addInPstack]
      refine hσ₁.setType (fun _ _ _ => ?_) fun _ _ hd => consistent_det hσ₁ hg₁ (ht₁ ▸ (orAnd_live hty).1) hd
      rw [orAnd_value hty hσ₁ hg₁ ht₁, hc]
      cases a <;> cases h : σ c <;> simp [h]
    next _ s₁ _ _ heq =>
      -- duplicates and complements, then subset sharing and collapsing
      rw [heq] at hk e₁ hsub₁ hm₁
      dsimp only at hk e₁ hsub₁ hm₁
      have ht₁ : (s₁.gate g).type = ty := by rw [e₁.type_eq, ht]
      have hs₁ : s₁.circuit.Shaped := e₁.shaped hs (hoa s ht) fun y hy => hlive y (by simpa using hsub₁ y hy)
      have k₁ : Keeps s (true, s₁) := .of_consistent e₁.size_eq.ge fun σ hσ => ⟨rfl, (hk σ hσ).1⟩
      obtain ⟨⟨ok, s₂⟩, h₂, h⟩ := Option.bind_eq_some.1 h
      have k₂ := removeGNotGAndDuplicateChildren_keeps hm₁ hs₁ (hoa s₁ ht₁) h₂
      dsimp only at h
      by_cases hok : ok = true
      swap
      · rw [Bool.not_eq_true] at hok
        subst hok
        rw [if_pos (show (!false) = true from rfl)] at h
        cases h
        exact k₁.trans k₂
      subst hok
      rw [if_neg (show ¬(!true) = true from nofun)] at h
      by_cases ht₂ : (s₂.gate g).type = ty
      swap
      · rw [if_pos ht₂] at h
        cases h
        exact k₁.trans k₂
      rw [if_neg (not_not.2 ht₂)] at h
      -- `g` kept its type, so the duplicate scan kept the set of its children
      obtain ⟨-, e₂⟩ | ⟨-, s₃, e₃, hbc⟩ := removeGNotGAndDuplicateChildren_spec hm₁ (hoa s₁ ht₁) h₂
      swap
      · rcases becomeConstant_type (by rw [e₃.size_eq, e₁.size_eq]; exact hg) hbc with e | e <;>
          rw [e, hty] at ht₂ <;> cases a <;> cases ht₂
      have hs₂ : s₂.circuit.Shaped := e₂.shaped hs₁ (hoa s₁ ht₁)
      have hm₂ : NoMarks s₂ := removeGNotGAndDuplicateChildren_noMarks hm₁ h₂
      generalize hs₃ : (if 3 ≤ (s₂.gate g).children.length then s₂.shareSubset ty g else s₂) = s₃ at h
      have hσ₃ : ∀ σ, s₂.circuit.Consistent σ → s₃.circuit.Consistent σ := fun σ hσ => by
        rw [← hs₃]
        by_cases h3 : 3 ≤ (s₂.gate g).children.length
        · rw [if_pos h3]; exact shareSubset_consistent hty hs₂ hm₂ ht₂ hσ
        · rw [if_neg h3]; exact hσ
      have e₃ : ChildrenAt g s₂ s₃ := by
        rw [← hs₃]
        by_cases h3 : 3 ≤ (s₂.gate g).children.length
        · rw [if_pos h3]; exact shareSubset_childrenAt
        · rw [if_neg h3]; exact .refl g s₂
      have hc := fun σ hσ => collapseScan_consistent hty _ [] _ false (hσ₃ σ hσ)
        (by rw [e₃.type_eq, ht₂]) rfl
      have hsize : (collapseScan ty g [] (s₃.gate g).children s₃ false).2.size = s₃.size :=
        (collapseScan_childrenAt _ [] _ false).size_eq
      refine k₁.trans (k₂.trans ?_)
      split at h <;> cases h <;> rename_i heq <;> rw [heq] at hc hsize
      · exact .of_consistent (by simp [hsize, e₃.size_eq]) fun σ hσ => ⟨rfl, by simpa using hc σ hσ⟩
      · exact .of_consistent (by simp [hsize, e₃.size_eq]) fun σ hσ => ⟨rfl, hc σ hσ⟩

end OrAnd

end BC

end BcSat
