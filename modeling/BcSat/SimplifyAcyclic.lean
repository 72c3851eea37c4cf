import BcSat.AcyclicEdits
import BcSat.Simplify

set_option autoImplicit false

/-!
# `Gate::simplify` keeps the child graph acyclic

Rule by rule: the scans that delete children and mark gates change no edge but the deleted ones;
the rules that unify a gate with a child, absorb a `NOT` child or collapse a child into its
parent only follow edges further down; the rules that install gates rebuild `g` over them; and
the edge moves guarded by `depends_on` go to gates that do not reach their sources.
-/

namespace BcSat

namespace BC

open Relation Circuit

variable {s s' : BC} {g : Nat}

theorem clearTemps_implied : ∀ (xs : List Nat) (s : BC) {s' : BC}, clearTemps xs s = some s' →
    Implied s s'
  | [], s, s', h => by cases h; exact .refl s
  | x :: xs, s, s', h => by
    simp only [clearTemps] at h
    split_ifs at h
    · obtain ⟨gc, -, h⟩ := Option.bind_eq_some.1 h
      exact (Implied.setTemp s x 0).trans ((Implied.setTemp _ gc 0).trans (clearTemps_implied xs _ h))
    · exact (Implied.setTemp s x 0).trans (clearTemps_implied xs _ h)

@[simp] theorem children_setTemps (xs : List Nat) (t : Int) (x : Nat) :
    ∀ s : BC, ((s.setTemps xs t).gate x).children = (s.gate x).children := by
  induction xs with
  | nil => exact fun _ => rfl
  | cons y xs ih => exact fun s => (ih _).trans (children_setTemp s y x t)

@[simp] theorem size_setTemps (xs : List Nat) (t : Int) : ∀ s : BC, (s.setTemps xs t).size = s.size := by
  induction xs with
  | nil => exact fun _ => rfl
  | cons y xs ih => exact fun s => (ih _).trans (size_setTemp t)

theorem setTemps_implied (xs : List Nat) (t : Int) (s : BC) : Implied s (s.setTemps xs t) :=
  .of_frame (size_setTemps xs t s) fun x => children_setTemps xs t x s

/-- The children left in a scan that deletes children of `g`: those kept and those still to
visit are children of `g`. -/
def ScanOk (g : Nat) (kept rest : List Nat) (s : BC) : Prop :=
  ∀ y ∈ kept ++ rest, y ∈ (s.gate g).children

theorem ScanOk.keep {kept : List Nat} {ch : Nat} {rest : List Nat}
    (h : ScanOk g kept (ch :: rest) s) : ScanOk g (kept ++ [ch]) rest s := by
  intro y hy; exact h y (by simpa using hy)

theorem ScanOk.shrink {kept rest k r : List Nat} (l : List Nat) (h : ScanOk g kept rest s)
    (hk : ∀ y ∈ k, y ∈ kept) (hr : ∀ y ∈ r, y ∈ rest) :
    Implied s ((s.setChildren g (k ++ r)).setLinks g l) ∧
      ScanOk g k r ((s.setChildren g (k ++ r)).setLinks g l) := by
  have hsub : ∀ y ∈ k ++ r, y ∈ (s.gate g).children := fun y hy => by
    rcases List.mem_append.1 hy with hy | hy
    · exact h y (List.mem_append_left _ (hk y hy))
    · exact h y (List.mem_append_right _ (hr y hy))
  refine ⟨(Implied.setChildren_subset s g hsub).of_circuit_eq rfl, fun y hy => ?_⟩
  rw [gate_setLinks, children_setChildren]
  split_ifs
  · exact hy
  · exact hsub y hy

theorem ScanOk.delete {kept rest k : List Nat} {ch : Nat} (l : List Nat)
    (h : ScanOk g kept (ch :: rest) s) (hk : ∀ y ∈ k, y ∈ kept) :
    Implied s ((s.setChildren g (k ++ rest)).setLinks g l) ∧
      ScanOk g k rest ((s.setChildren g (k ++ rest)).setLinks g l) :=
  h.shrink l hk fun _ hy => .tail _ hy

theorem ScanOk.frame {kept rest : List Nat} {t : BC} (h : ScanOk g kept rest s)
    (ht : (t.gate g).children = (s.gate g).children) : ScanOk g kept rest t := by
  intro y hy; rw [ht]; exact h y hy

theorem ScanOk.init (s : BC) (g : Nat) : ScanOk g [] (s.gate g).children s := fun _ hy => by
  simpa using hy

theorem becomeConstant_implied {v : Bool} {r : Bool × BC} (h : s.becomeConstant g v = some r) :
    Implied s r.2 := by
  unfold becomeConstant at h
  split_ifs at h
  · cases h; exact .refl s
  · obtain ⟨s₁, h₁, rfl⟩ := Option.map_eq_some'.1 h
    exact (Implied.transformIntoConstant _ _ h₁).trans (Implied.addParentsInPstack _ _)

theorem gNotGScan_cons {g ch : Nat} {kept rest : List Nat} {s : BC} {r : Bool × BC}
    (h : gNotGScan g kept (ch :: rest) s = some r) :
    ((s.gate ch).determined ∧ gNotGScan g (kept ++ [ch]) rest s = some r) ∨
      (¬(s.gate ch).determined ∧ (s.gate ch).temp = 2 ∧ r = (true, s)) ∨
      (¬(s.gate ch).determined ∧ (s.gate ch).temp = 1 ∧
        gNotGScan g kept rest ((s.setChildren g (kept ++ rest)).setLinks g
          ((s.linkTimes g).eraseIdx kept.length)) = some r) ∨
      (¬(s.gate ch).determined ∧ (s.gate ch).temp ≠ 2 ∧ (s.gate ch).temp ≠ 1 ∧
        ((r = (true, s.setTemp ch 1) ∧ ∃ gc, (s.gate ch).type = .not ∧ s.headChild ch = some gc ∧
            ((s.setTemp ch 1).gate gc).temp = 1) ∨
          (∃ gc, (s.gate ch).type = .not ∧ s.headChild ch = some gc ∧
            ((s.setTemp ch 1).gate gc).temp ≠ 1 ∧
            gNotGScan g (kept ++ [ch]) rest ((s.setTemp ch 1).setTemp gc 2) = some r) ∨
          gNotGScan g (kept ++ [ch]) rest (s.setTemp ch 1) = some r)) := by
  unfold gNotGScan at h
  dsimp only at h
  split_ifs at h with h₁ h₂ h₃ h₄
  · exact .inl ⟨h₁, h⟩
  · exact .inr (.inl ⟨h₁, h₂, (Option.some.inj h).symm⟩)
  · exact .inr (.inr (.inl ⟨h₁, h₃, h⟩))
  · obtain ⟨gc, hgc, h⟩ := Option.bind_eq_some.1 h
    have hn : (s.gate ch).type = .not := by
      rw [BC.setTemp, gate_modify] at h₄; split_ifs at h₄ <;> exact h₄
    have hgc' : s.headChild ch = some gc := by simpa [headChild] using hgc
    split_ifs at h with h₅
    · exact .inr (.inr (.inr ⟨h₁, h₂, h₃, .inl ⟨(Option.some.inj h).symm, gc, hn, hgc', h₅⟩⟩))
    · exact .inr (.inr (.inr ⟨h₁, h₂, h₃, .inr (.inl ⟨gc, hn, hgc', h₅, h⟩)⟩))
  · exact .inr (.inr (.inr ⟨h₁, h₂, h₃, .inr (.inr h)⟩))

theorem gNotGScan_implied (g : Nat) : ∀ (rest kept : List Nat) (s : BC) {r : Bool × BC},
    ScanOk g kept rest s → gNotGScan g kept rest s = some r → Implied s r.2
  | [], _, s, _, _, h => by cases h; exact .refl s
  | ch :: rest, kept, s, r, hok, h => by
    rcases gNotGScan_cons h with ⟨-, h⟩ | ⟨-, -, rfl⟩ | ⟨-, -, h⟩ | ⟨-, -, -, ⟨rfl, -⟩ | ⟨gc, -, -, -, h⟩ | h⟩
    · exact gNotGScan_implied g rest _ s hok.keep h
    · exact .refl s
    · obtain ⟨hi, hok'⟩ := hok.delete ((s.linkTimes g).eraseIdx kept.length) fun _ h => h
      exact hi.trans (gNotGScan_implied g rest _ _ hok' h)
    · exact Implied.setTemp s ch 1
    · exact (Implied.setTemp s ch 1).trans ((Implied.setTemp _ gc 2).trans
        (gNotGScan_implied g rest _ _ (hok.keep.frame (by simp)) h))
    · exact (Implied.setTemp s ch 1).trans
        (gNotGScan_implied g rest _ _ (hok.keep.frame (by simp)) h)

theorem removeGNotGAndDuplicateChildren_implied {r : Bool × BC}
    (h : s.removeGNotGAndDuplicateChildren g = some r) : Implied s r.2 := by
  unfold removeGNotGAndDuplicateChildren at h
  dsimp only at h
  split_ifs at h
  · cases h; exact .refl s
  · obtain ⟨s₁, h₁, h⟩ := Option.bind_eq_some.1 h
    obtain ⟨⟨found, s₂⟩, h₂, h⟩ := Option.bind_eq_some.1 h
    obtain ⟨s₃, h₃, h⟩ := Option.bind_eq_some.1 h
    have i := (clearTemps_implied _ _ h₁).trans ((gNotGScan_implied g _ [] s₁ (.init s₁ g) h₂).trans
      (clearTemps_implied _ _ h₃))
    split_ifs at h
    · exact i.trans (becomeConstant_implied h)
    · cases h; exact i.trans (Implied.addInPstack _ _)
    · cases h; exact i

theorem parityScan_implied (g : Nat) : ∀ (rest kept : List Nat) (s : BC) {s' : BC},
    ScanOk g kept rest s → parityScan g kept rest s = some s' → Implied s s'
  | [], _, s, _, _, h => by cases h; exact .refl s
  | ch :: rest, kept, s, s', hok, h => by
    unfold parityScan at h
    dsimp only at h
    split_ifs at h with h₁ h₂ h₃
    · exact parityScan_implied g rest _ s hok.keep h
    · obtain ⟨hi, hok'⟩ := (hok.frame (t := s.setTemp ch 0) (by simp)).delete
        ((((s.setTemp ch 0).linkTimes g).eraseIdx kept.length).eraseIdx (kept.indexOf ch))
        fun _ h => List.mem_of_mem_erase h
      exact (Implied.setTemp s ch 0).trans (hi.trans ((Implied.pushIfOrphan _ ch).trans
        (parityScan_implied g rest _ _ (hok'.frame (by simp)) h)))
    · exact (Implied.setTemp s ch 1).trans
        (parityScan_implied g rest _ _ (hok.keep.frame (by simp)) h)

theorem removeParityDuplicateChildren_implied {r : Bool × BC}
    (h : s.removeParityDuplicateChildren g = some r) : Implied s r.2 := by
  unfold removeParityDuplicateChildren at h
  dsimp only at h
  split_ifs at h
  · cases h; exact .refl s
  · obtain ⟨s₁, h₁, h⟩ := Option.bind_eq_some.1 h
    have i := (setTemps_implied _ 0 s).trans (parityScan_implied g _ [] _
      ((ScanOk.init s g).frame (by simp)) h₁)
    have i' := i.trans (setTemps_implied (s₁.gate g).children 0 s₁)
    split_ifs at h
    · exact i'.trans (becomeConstant_implied h)
    · cases h; exact i'.trans (Implied.addInPstack _ _)
    · cases h; exact i'

/-- No gate is marked `1`. Subset sharing reads `temp = 1` as "child of `g`"; the scans before it
mark only the children they keep and clear those marks again. -/
def NoMarks (s : BC) : Prop := ∀ x, (s.gate x).temp ≠ 1

section Temps

variable (s) (g x)

theorem temp_modify_of {f : Gate → Gate} (hf : ∀ gt, (f gt).temp = gt.temp) :
    ((s.modify g f).gate x).temp = (s.gate x).temp := by
  rw [gate_modify]; split_ifs <;> simp [hf]

@[simp] theorem temp_setChildren (chs : List Nat) :
    ((s.setChildren g chs).gate x).temp = (s.gate x).temp := temp_modify_of s g x fun _ => rfl

@[simp] theorem temp_setType (t : GateType) :
    ((s.setType g t).gate x).temp = (s.gate x).temp := temp_modify_of s g x fun _ => rfl

@[simp] theorem temp_determine (v : Bool) :
    ((s.determine g v).gate x).temp = (s.gate x).temp := temp_modify_of s g x fun _ => rfl

theorem temp_setTemp_eq (y : Nat) (t : Int) :
    ((s.setTemp y t).gate x).temp = if y = x ∧ x < s.size then t else (s.gate x).temp := by
  rw [setTemp, gate_modify]; split_ifs <;> rfl

@[simp] theorem temp_popChildren :
    ∀ (chs : List Nat) (s : BC), ((popChildren g chs s).gate x).temp = (s.gate x).temp
  | [], _ => rfl
  | _ :: rest, s => by rw [popChildren, temp_popChildren rest]; simp

end Temps

theorem temp_setTemp_eq_one {y x : Nat} {t : Int} (h : ((s.setTemp y t).gate x).temp = 1) :
    (x = y ∧ t = 1) ∨ (x ≠ y ∧ (s.gate x).temp = 1) := by
  rw [setTemp, gate_modify] at h
  split_ifs at h with hc
  · exact .inl ⟨hc.1.symm, h⟩
  · refine .inr ⟨fun hxy => ?_, h⟩
    subst hxy
    rw [← circuit_gate, s.circuit.gate_of_size_le (by simp only [circuit_size]; omega)] at h
    exact absurd h (by decide)

theorem temp_setTemps_eq_one {xs : List Nat} {x : Nat} :
    ∀ {s : BC}, ((s.setTemps xs 1).gate x).temp = 1 → x ∈ xs ∨ (s.gate x).temp = 1 := by
  induction xs with
  | nil => exact .inr
  | cons y xs ih =>
    intro s h
    rcases ih h with hx | hx
    · exact .inl (.tail _ hx)
    · rcases temp_setTemp_eq_one hx with ⟨rfl, -⟩ | ⟨-, hx⟩
      · exact .inl (.head _)
      · exact .inr hx

theorem temp_transformIntoConstant {v : Bool} (h : s.transformIntoConstant g v = some s')
    (x : Nat) : (s'.gate x).temp = (s.gate x).temp := by
  unfold transformIntoConstant at h
  split at h
  · cases h
  · cases h
    exact (temp_popChildren _ _ _ _).trans (temp_modify_of _ _ _ fun _ => rfl)

theorem temp_becomeConstant {v : Bool} {r : Bool × BC} (h : s.becomeConstant g v = some r)
    (x : Nat) : (r.2.gate x).temp = (s.gate x).temp := by
  unfold becomeConstant at h
  split_ifs at h
  · cases h; rfl
  · obtain ⟨s₁, h₁, rfl⟩ := Option.map_eq_some'.1 h
    show ((s₁.addParentsInPstack g).gate x).temp = _
    rw [gate_addParentsInPstack]
    exact temp_transformIntoConstant h₁ x

theorem NoMarks.of_temp (h : NoMarks s) (ht : ∀ x, (s'.gate x).temp = (s.gate x).temp) :
    NoMarks s' := fun x hx => h x ((ht x).symm.trans hx)

theorem clearTemps_temp : ∀ (xs : List Nat) (s : BC) {s' : BC}, clearTemps xs s = some s' →
    ∀ x, (s'.gate x).temp = 1 → x ∉ xs ∧ (s.gate x).temp = 1
  | [], s, s', h => by cases h; exact fun _ hx => ⟨List.not_mem_nil _, hx⟩
  | y :: xs, s, s', h => by
    simp only [clearTemps] at h
    intro x hx
    have step : ∀ {t : BC} {z : Nat}, ((t.setTemp z 0).gate x).temp = 1 →
        x ≠ z ∧ (t.gate x).temp = 1 :=
      fun h => (temp_setTemp_eq_one h).resolve_left fun h => absurd h.2 (by decide)
    split_ifs at h
    · obtain ⟨gc, -, h⟩ := Option.bind_eq_some.1 h
      obtain ⟨hxs, hx⟩ := clearTemps_temp xs _ h x hx
      obtain ⟨hxy, hx⟩ := step (step hx).2
      exact ⟨List.not_mem_cons_of_ne_of_not_mem hxy hxs, hx⟩
    · obtain ⟨hxs, hx⟩ := clearTemps_temp xs _ h x hx
      obtain ⟨hxy, hx⟩ := step hx
      exact ⟨List.not_mem_cons_of_ne_of_not_mem hxy hxs, hx⟩

theorem gNotGScan_marks (g : Nat) : ∀ (rest kept : List Nat) (s : BC) {r : Bool × BC},
    (s.gate g).children = kept ++ rest → (∀ x, (s.gate x).temp = 1 → x ∈ kept) →
    gNotGScan g kept rest s = some r → ∀ x, (r.2.gate x).temp = 1 → x ∈ (r.2.gate g).children
  | [], kept, s, r, hch, hm, h => by
    cases h; intro x hx; rw [hch]; simpa using hm x hx
  | ch :: rest, kept, s, r, hch, hm, h => by
    have hch' : ((s.setTemp ch 1).gate g).children = (kept ++ [ch]) ++ rest := by simp [hch]
    have hm₁ : ∀ x, ((s.setTemp ch 1).gate x).temp = 1 → x ∈ kept ++ [ch] := fun x hx => by
      rcases temp_setTemp_eq_one hx with ⟨rfl, -⟩ | ⟨-, hx⟩
      · simp
      · exact List.mem_append_left _ (hm x hx)
    rcases gNotGScan_cons h with ⟨-, h⟩ | ⟨-, -, rfl⟩ | ⟨-, -, h⟩ | ⟨-, -, -, ⟨rfl, -⟩ | ⟨gc, -, -, -, h⟩ | h⟩
    · exact gNotGScan_marks g rest _ s (by simp [hch]) (fun x hx => List.mem_append_left _ (hm x hx)) h
    · intro x hx; rw [hch]; exact List.mem_append_left _ (hm x hx)
    · have hg : g < s.size := s.circuit.lt_size_of_edge (show ch ∈ (s.gate g).children by simp [hch])
      refine gNotGScan_marks g rest _ _ ?_ (fun x hx => hm x (by simpa using hx)) h
      rw [gate_setLinks, children_setChildren, if_pos ⟨rfl, hg⟩]
    · intro x hx; rw [hch']; exact List.mem_append_left _ (hm₁ x hx)
    · refine gNotGScan_marks g rest _ _ (by simpa using hch') (fun x hx => ?_) h
      rcases temp_setTemp_eq_one hx with ⟨-, h2⟩ | ⟨-, hx⟩
      · exact absurd h2 (by decide)
      · exact hm₁ x hx
    · exact gNotGScan_marks g rest _ _ hch' hm₁ h

theorem removeGNotGAndDuplicateChildren_noMarks (hm : NoMarks s) {r : Bool × BC}
    (h : s.removeGNotGAndDuplicateChildren g = some r) : NoMarks r.2 := by
  unfold removeGNotGAndDuplicateChildren at h
  dsimp only at h
  split_ifs at h
  · cases h; exact hm
  · obtain ⟨s₁, h₁, h⟩ := Option.bind_eq_some.1 h
    obtain ⟨⟨found, s₂⟩, h₂, h⟩ := Option.bind_eq_some.1 h
    obtain ⟨s₃, h₃, h⟩ := Option.bind_eq_some.1 h
    have hm₂ := gNotGScan_marks g _ [] s₁ rfl
      (fun x hx => absurd (clearTemps_temp _ _ h₁ x hx).2 (hm x)) h₂
    have hm₃ : NoMarks s₃ := fun x hx => (clearTemps_temp _ _ h₃ x hx).1 (hm₂ x (clearTemps_temp _ _ h₃ x hx).2)
    split_ifs at h
    · exact hm₃.of_temp (temp_becomeConstant h)
    · cases h; exact hm₃.of_temp fun x => by simp
    · cases h; exact hm₃

theorem simplifyConstant_implied {v : Bool} {r : Bool × BC} (h : s.simplifyConstant g v = some r) :
    Implied s r.2 := by
  unfold simplifyConstant at h
  dsimp only at h
  split_ifs at h <;> cases h <;> exact .of_frame (by simp) fun _ => by simp

theorem simplifyVar_implied {r : Bool × BC} (h : s.simplifyVar g = some r) : Implied s r.2 := by
  unfold simplifyVar at h
  split_ifs at h
  · obtain ⟨s₁, h₁, rfl⟩ := Option.map_eq_some'.1 h
    exact Implied.transformIntoConstant _ _ h₁
  · cases h; exact .refl s

theorem simplifyUnaryDetermined_implied {ch : Nat} {neg : Bool} {r : Bool × BC}
    (h : s.simplifyUnaryDetermined g ch neg = some (some r)) : Implied s r.2 := by
  unfold simplifyUnaryDetermined at h
  dsimp only at h
  split_ifs at h
  · obtain ⟨s₁, h₁, rfl⟩ := Option.map_eq_some'.1 (Option.some.inj h)
    exact (Implied.transformIntoConstant _ _ h₁).trans (Implied.addParentsInPstack _ _)
  · cases h; exact .refl s
  · obtain ⟨s₁, h₁, rfl⟩ := Option.map_eq_some'.1 (Option.some.inj h)
    exact (((Implied.determine _ _ _).trans (Implied.addInPstack _ _)).trans
      (Implied.transformIntoConstant _ _ h₁)).trans (Implied.addParentsInPstack _ _)
  · obtain ⟨s₁, h₁, rfl⟩ := Option.map_eq_some'.1 (Option.some.inj h)
    exact (Implied.transformIntoConstant _ _ h₁).trans (Implied.addParentsInPstack _ _)

theorem simplifyRef_implied {r : Bool × BC} (h : s.simplifyRef g = some r) : Implied s r.2 := by
  obtain ⟨ch, hch, h⟩ := Option.bind_eq_some.1 h
  split at h
  next _ heq => exact simplifyUnaryDetermined_implied (h ▸ heq)
  · cases h
    have hgc : TransGen s.circuit.Edge g ch := .single (List.mem_of_mem_head? hch)
    exact ((((Implied.addParentsInPstack s g).trans (Implied.redirectParents _ _ (by simpa using hgc))).trans
      (Implied.moveHandles _ _ _)).trans (Implied.removeAllChildren _ _)).trans
      ((Implied.setType _ _ _).trans (Implied.changed _ _))

theorem simplifyNot_implied {r : Bool × BC} (h : s.simplifyNot g = some r) : Implied s r.2 := by
  obtain ⟨ch, hch, h⟩ := Option.bind_eq_some.1 h
  split at h
  next _ heq => exact simplifyUnaryDetermined_implied (h ▸ heq)
  · split_ifs at h
    · obtain ⟨gc, hgc, rfl⟩ := Option.map_eq_some'.1 h
      have hpath : TransGen s.circuit.Edge g gc :=
        .head (List.mem_of_mem_head? hch) (.single (List.mem_of_mem_head? hgc))
      exact ((((((Implied.setType s g _).trans (Implied.removeAllChildren _ _)).trans
        (Implied.pushIfOrphan _ _)).addChild hpath).trans (Implied.addInPstack _ _)).trans
        (Implied.changed _ _))
    · cases h; exact .refl s

theorem rebuild_implied {t : GateType} {chs : List Nat}
    (hchs : ∀ y ∈ chs, y ∈ (s.gate g).children) : Implied s (s.rebuild g t chs) :=
  (((((Implied.addChildrenInPstack s g).trans (Implied.removeAllChildren _ _)).trans
    (Implied.setType _ _ _)).foldl_addChild fun y hy => .single (hchs y hy)).trans
    (Implied.addInPstack _ _)).trans (Implied.changed _ _)

theorem acyclic_iteNot (ha : s.circuit.Acyclic) (t : GateType) {i x : Nat}
    (hi : i ∈ (s.gate g).children) (hx : x ∈ (s.gate g).children) :
    let s₁ := ((s.addChildrenInPstack g).removeAllChildren g).setType g t
    ({ ((((s₁.newNOT i).1.addChild g (s₁.newNOT i).2).addChild g x).addInPstack g).addParentsInPstack g
      with changed := true } : BC).circuit.Acyclic := by
  intro s₁
  have hcl := (acyclic_iff.1 ha).1
  have hg : g < s.size := s.circuit.lt_size_of_edge hi
  have hi' : i < s.size := hcl g hg i hi
  have hx' : x < s.size := hcl g hg x hx
  have hs₁ : s₁.size = s.size := by simp [s₁]
  have i₁ : Implied s s₁ :=
    ((Implied.addChildrenInPstack s g).trans (Implied.removeAllChildren _ _)).trans (Implied.setType _ _ _)
  have E := ((((Embeds.refl (standFor s.size g) (levelBelow s.size) ha
    fun _ hy => standFor_of_lt hy).implied i₁).append { type := .not, children := [i] }
    fun y hy => ?_).addChild (g := g) (y := s₁.size) (by simp) ?_).addChild (g := g) (y := x) (by simp; omega) ?_
  · exact (E.implied (((Implied.addInPstack _ _).trans (Implied.addParentsInPstack _ _)).trans
      (Implied.changed _ _))).acyclic ha
  · obtain rfl : y = i := List.mem_singleton.1 hy
    refine ⟨by omega, .inl ?_⟩
    rw [standFor_of_le (by omega), standFor_of_lt hi']
    exact .single hi
  · refine .inr ⟨?_, ?_⟩ <;> simp [hs₁, hg]
  · refine .inl ?_
    rw [standFor_of_lt hg, standFor_of_lt hx']
    exact .single hx

theorem simplifyIte_acyclic (ha : s.circuit.Acyclic) {r : Bool × BC}
    (h : s.simplifyIte g = some r) : r.2.circuit.Acyclic := by
  unfold simplifyIte at h
  split at h
  next i t e rest hch =>
    have hmem : ∀ y ∈ [i, t, e], y ∈ (s.gate g).children := by simp [hch]
    have hreb : ∀ ty chs, (∀ y ∈ chs, y ∈ [i, t, e]) → Implied s (s.rebuild g ty chs) :=
      fun _ _ hchs => rebuild_implied fun y hy => hmem y (hchs y hy)
    rcases ite_eq_iff.1 h with ⟨-, h⟩ | ⟨-, h⟩
    · rw [← Option.some.inj h]; dsimp only; exact (hreb _ _ (by simp)).acyclic ha
    rcases ite_eq_iff.1 h with ⟨-, h⟩ | ⟨-, h⟩
    · rw [← Option.some.inj h]; dsimp only; exact (hreb _ _ (by simp)).acyclic ha
    rcases ite_eq_iff.1 h with ⟨-, h⟩ | ⟨-, h⟩
    · rw [← Option.some.inj h]; dsimp only; exact ((hreb _ _ (by simp)).trans (Implied.addParentsInPstack _ _)).acyclic ha
    rcases ite_eq_iff.1 h with ⟨-, h⟩ | ⟨-, h⟩
    · rw [← Option.some.inj h]; exact acyclic_iteNot ha _ (hmem i (by simp)) (hmem e (by simp))
    rcases ite_eq_iff.1 h with ⟨-, h⟩ | ⟨-, h⟩
    · rw [← Option.some.inj h]; exact acyclic_iteNot ha _ (hmem i (by simp)) (hmem t (by simp))
    rcases ite_eq_iff.1 h with ⟨-, h⟩ | ⟨-, h⟩
    · rw [← Option.some.inj h]; dsimp only; exact ((hreb _ _ (by simp)).trans (Implied.addParentsInPstack _ _)).acyclic ha
    rcases ite_eq_iff.1 h with ⟨-, h⟩ | ⟨-, h⟩
    · rw [← Option.some.inj h]; dsimp only; exact (hreb _ _ (by simp)).acyclic ha
    rcases ite_eq_iff.1 h with ⟨-, h⟩ | ⟨-, h⟩
    · rw [← Option.some.inj h]; dsimp only; exact ((hreb _ _ (by simp)).trans (Implied.addParentsInPstack _ _)).acyclic ha
    rcases ite_eq_iff.1 h with ⟨-, h⟩ | ⟨-, h⟩
    · rw [← Option.some.inj h]; dsimp only; exact ((hreb _ _ (by simp)).trans (Implied.addParentsInPstack _ _)).acyclic ha
    rcases ite_eq_iff.1 h with ⟨-, h⟩ | ⟨-, h⟩
    · rw [← Option.some.inj h]
      exact ((((((((Implied.removeAllChildren s g).trans (Implied.pushIfOrphan _ _)).trans
        (Implied.setType _ _ _)).addChild (.single (hmem i (by simp)))).addChild
        (.single (hmem t (by simp)))).trans (Implied.addInPstack _ _)).trans
        (Implied.changed _ _))).acyclic ha
    rcases ite_eq_iff.1 h with ⟨-, h⟩ | ⟨-, h⟩
    · rw [← Option.some.inj h]
      exact ((((((((Implied.removeAllChildren s g).trans (Implied.pushIfOrphan _ _)).trans
        (Implied.setType _ _ _)).addChild (.single (hmem i (by simp)))).addChild
        (.single (hmem e (by simp)))).trans (Implied.addInPstack _ _)).trans
        (Implied.changed _ _))).acyclic ha
    · rw [← Option.some.inj h]; dsimp only; exact ha
  next => cases h

section OrAnd

variable (a : Bool) (ty : GateType)

theorem forceChildren_implied (g : Nat) : ∀ (rest : List Nat) (s : BC),
    ScanOk g [] rest s → Implied s (forceChildren a g rest s).2
  | [], s, _ => .refl s
  | ch :: rest, s, hok => by
    unfold forceChildren
    split_ifs
    · exact .refl s
    · obtain ⟨hi, hok'⟩ := hok.delete (k := []) (s.linkTimes g).tail fun _ h => h
      exact hi.trans (forceChildren_implied g rest _ hok')
    · obtain ⟨hi, hok'⟩ := (hok.frame (t := (s.determine ch (!a)).addInPstack ch) (by simp)).delete
        (k := []) (s.linkTimes g).tail fun _ h => h
      exact (((Implied.determine s ch _).trans (Implied.addInPstack _ _)).trans hi).trans
        (forceChildren_implied g rest _ hok')

theorem absorbScan_implied (g : Nat) : ∀ (rest kept : List Nat) (s : BC),
    ScanOk g kept rest s → Implied s (absorbScan a g kept rest s).2.2
  | [], _, s, _ => .refl s
  | ch :: rest, kept, s, hok => by
    unfold absorbScan
    split_ifs
    · exact .refl s
    · obtain ⟨hi, hok'⟩ := hok.delete ((s.linkTimes g).eraseIdx kept.length) fun _ h => h
      exact (hi.trans (Implied.pushIfOrphan _ ch)).trans
        (absorbScan_implied g rest kept _ (hok'.frame (by simp)))
    · exact absorbScan_implied g rest _ s hok.keep

theorem absorbScan_temp (g : Nat) : ∀ (rest kept : List Nat) (s : BC) (x : Nat),
    ((absorbScan a g kept rest s).2.2.gate x).temp = (s.gate x).temp
  | [], _, _, _ => rfl
  | ch :: rest, kept, s, x => by
    unfold absorbScan
    split_ifs
    · rfl
    · rw [absorbScan_temp g rest]; simp
    · exact absorbScan_temp g rest _ s x

theorem sharedSubset_spec (g : Nat) : ∀ {chs : List Nat} {p : Nat},
    s.sharedSubset ty g chs = some p →
      p ≠ g ∧ p < s.size ∧ (∀ x ∈ (s.gate p).children, (s.gate x).temp = 1) ∧ (s.gate p).type = ty
  | [], _, h => by cases h
  | ch :: chs, p, h => by
    unfold sharedSubset at h
    split at h
    next q hq =>
      cases h
      have hp := List.find?_some hq
      simp only [List.all_eq_true, decide_eq_true_eq] at hp
      have hmem := mem_parents_iff.1 (List.mem_of_find?_eq_some hq)
      exact ⟨hp.1, hmem.1, hp.2.2.2.1, hp.2.1⟩
    next => exact sharedSubset_spec g h

theorem shareSubset_acyclic (ha : s.circuit.Acyclic) (hm : NoMarks s) (g : Nat) :
    (s.shareSubset ty g).circuit.Acyclic := by
  unfold shareSubset
  dsimp only
  split
  · exact ((setTemps_implied _ _ _).trans (setTemps_implied _ _ _)).acyclic ha
  next p hp =>
    obtain ⟨hpg, hps, hpt, -⟩ := sharedSubset_spec ty g hp
    simp only [children_setTemps, size_setTemps] at hpt hps
    have hsub : ∀ x ∈ (s.gate p).children, x ∈ (s.gate g).children := fun x hx =>
      (temp_setTemps_eq_one (hpt x hx)).resolve_right (hm x)
    let s₂ := (s.setTemps (s.gate g).children 1).setTemps
      ((s.setTemps (s.gate g).children 1).gate p).children 0
    let s₃ := s₂.setChildren g ((s.gate g).children.filter fun x => (s₂.gate x).temp ≠ 0)
    have i₃ : Implied s s₃ := ((setTemps_implied _ _ _).trans (setTemps_implied _ _ _)).trans
      (Implied.setChildren_subset _ _ fun y hy => by simpa using (List.mem_filter.1 hy).1)
    have hpg' : ¬ReflTransGen s₃.circuit.Edge p g := fun hr => by
      rcases (i₃.reflTransGen hr).cases_head with rfl | ⟨y, hpy, hyg⟩
      · exact hpg rfl
      · exact (acyclic_iff.1 ha).2 ⟨g, .head' (hsub y hpy) hyg⟩
    have ha₄ : (s₃.addChild g p).circuit.Acyclic := acyclic_setChildren (i₃.acyclic ha) fun y hy => by
      rcases List.mem_cons.1 hy with rfl | hy
      · exact .inr ⟨by simpa [s₃, s₂] using hps, hpg'⟩
      · exact .inl hy
    exact (setTemps_implied _ _ _).acyclic ha₄

theorem mem_foldl_flip_cons {y : Nat} : ∀ (l acc : List Nat),
    y ∈ l.foldl (fun acc x => x :: acc) acc ↔ y ∈ l ∨ y ∈ acc
  | [], _ => by simp
  | x :: l, acc => by rw [List.foldl_cons, mem_foldl_flip_cons l]; simp; tauto

theorem collapseScan_implied (s₀ : BC) (g : Nat) : ∀ (rest kept : List Nat) (s : BC) (done : Bool),
    Implied s₀ s → (∀ y ∈ kept ++ rest, TransGen s₀.circuit.Edge g y) →
    Implied s₀ (collapseScan ty g kept rest s done).2
  | [], _, _, _, hi, _ => hi
  | ch :: rest, kept, s, done, hi, hreach => by
    unfold collapseScan
    split_ifs
    · have hch : TransGen s₀.circuit.Edge g ch := hreach ch (by simp)
      have hreach' : ∀ y ∈ ((s.gate ch).children.foldl (fun acc x => x :: acc) [] ++ kept) ++ rest,
          TransGen s₀.circuit.Edge g y := fun y hy => by
        simp only [List.mem_append, mem_foldl_flip_cons, List.not_mem_nil, or_false] at hy
        rcases hy with (hy | hy) | hy
        · exact hch.trans (hi.edge ch y hy)
        · exact hreach y (by simp [hy])
        · exact hreach y (by simp [hy])
      exact collapseScan_implied s₀ g rest _ _ true
        ((((hi.setChildren_of fun y hy => .inr (hreach' y hy)).setLinks g _).tick _).trans
          (Implied.addInPstack _ _)) hreach'
    · exact collapseScan_implied s₀ g rest _ s done hi (by simpa using hreach)

theorem simplifyOrAnd_acyclic (ha : s.circuit.Acyclic) (hm : NoMarks s) {r : Bool × BC}
    (h : s.simplifyOrAnd a ty g = some r) : r.2.circuit.Acyclic := by
  unfold simplifyOrAnd at h
  dsimp only at h
  split at h
  · -- `g` is forced to `!a`: its children are forced and it becomes a constant
    have i₁ := forceChildren_implied a g _ s (ScanOk.init s g)
    split at h
    next s₁ heq => cases h; rw [heq] at i₁; exact i₁.acyclic ha
    next s₁ heq =>
      rw [heq] at i₁
      obtain ⟨s₂, h₂, rfl⟩ := Option.map_eq_some'.1 h
      exact ((i₁.trans (Implied.transformIntoConstant _ _ h₂)).trans
        (Implied.addParentsInPstack _ _)).acyclic ha
  · have i₁ := absorbScan_implied a g _ [] s (ScanOk.init s g)
    have hm₁ := hm.of_temp (absorbScan_temp a g (s.gate g).children [] s)
    -- the last steps: flattening after subset sharing
    have hcol : ∀ s₃ : BC, s₃.circuit.Acyclic → ∀ {b : Bool} {s₄ : BC},
        collapseScan ty g [] (s₃.gate g).children s₃ false = (b, s₄) →
          s₄.circuit.Acyclic ∧ (s₄.addInPstack g).circuit.Acyclic := fun s₃ ha₃ b s₄ heq => by
      have i₄ := collapseScan_implied ty s₃ g (s₃.gate g).children [] s₃ false (.refl _)
        fun y hy => .single (by simpa using hy)
      rw [heq] at i₄
      exact ⟨i₄.acyclic ha₃, (i₄.trans (Implied.addInPstack _ _)).acyclic ha₃⟩
    split at h
    next _ s₁ heq =>
      rw [heq] at i₁
      obtain ⟨s₂, h₂, rfl⟩ := Option.map_eq_some'.1 h
      exact ((i₁.trans (Implied.transformIntoConstant _ _ h₂)).trans
        (Implied.addParentsInPstack _ _)).acyclic ha
    next s₁ heq =>
      rw [heq] at i₁
      exact (i₁.trans (becomeConstant_implied h)).acyclic ha
    next s₁ heq =>
      rw [heq] at i₁
      cases h
      exact ((i₁.trans (Implied.setType _ _ _)).trans (Implied.addInPstack _ _)).acyclic ha
    next _ s₁ _ _ heq =>
      rw [heq] at i₁ hm₁
      obtain ⟨⟨ok, s₂⟩, h₂, h⟩ := Option.bind_eq_some.1 h
      have ha₂ := (i₁.trans (removeGNotGAndDuplicateChildren_implied h₂)).acyclic ha
      have hm₂ := removeGNotGAndDuplicateChildren_noMarks hm₁ h₂
      split_ifs at h
      · cases h; exact ha₂
      · cases h; exact ha₂
      · split at h <;> cases h <;> rename_i heq
        · exact (hcol _ (shareSubset_acyclic ty ha₂ hm₂ g) heq).2
        · exact (hcol _ (shareSubset_acyclic ty ha₂ hm₂ g) heq).1
      · split at h <;> cases h <;> rename_i heq
        · exact (hcol _ ha₂ heq).2
        · exact (hcol _ ha₂ heq).1

end OrAnd

theorem dropPair_implied {r : Option Bool} (h : s.dropPair g = some (r, s')) :
    Implied s s' ∧ (r = none → ∀ x, (s'.gate x).children = (s.gate x).children) := by
  unfold dropPair at h
  split_ifs at h
  · obtain ⟨⟨b, s₁⟩, h₁, h⟩ := Option.map_eq_some'.1 h
    cases h
    exact ⟨becomeConstant_implied h₁, fun h => by cases h⟩
  · cases h
    exact ⟨Implied.modify _ _ fun _ => rfl, fun _ x => children_modify_of _ _ _ fun _ => rfl⟩

theorem cardinalityScan_implied (g : Nat) : ∀ (rest kept : List Nat) (s : BC) {r : Option Bool}
    {s' : BC}, ScanOk g kept rest s → cardinalityScan g kept rest s = some (r, s') → Implied s s'
  | [], _, s, _, _, _, h => by cases h; exact .refl s
  | ch :: rest, kept, s, r, s', hok, h => by
    unfold cardinalityScan at h
    dsimp only at h
    split_ifs at h
    · -- `ch` was seen under a `NOT`: the first such `NOT` and `ch` go
      split at h
      · cases h
      next i _ =>
        obtain ⟨⟨r₁, s₃⟩, h₃, h⟩ := Option.bind_eq_some.1 h
        obtain ⟨i₁, hok₁⟩ := (hok.frame (t := (s.setTemp ch 0).setTemp (kept.getD i 0) 0)
          (by simp)).shrink (k := kept.eraseIdx i) (r := ch :: rest)
          (((s.setTemp ch 0).linkTimes g).eraseIdx i) (fun _ hy => List.mem_of_mem_eraseIdx hy) fun _ hy => hy
        obtain ⟨i₂, hok₂⟩ := (hok₁.frame (t := ((((s.setTemp ch 0).setTemp (kept.getD i 0) 0).setChildren
          g (kept.eraseIdx i ++ ch :: rest)).setLinks g (((s.setTemp ch 0).linkTimes g).eraseIdx i)).pushIfOrphan
          (kept.getD i 0)) (by simp)).delete (k := kept.eraseIdx i)
          ((((s.setTemp ch 0).linkTimes g).eraseIdx i).eraseIdx (kept.eraseIdx i).length) fun _ hy => hy
        obtain ⟨i₃, hch₃⟩ := dropPair_implied h₃
        have i := (((((Implied.setTemp s ch 0).trans (Implied.setTemp _ _ 0)).trans i₁).trans
          (Implied.pushIfOrphan _ _)).trans i₂).trans i₃
        dsimp only at h
        split at h
        · cases h; exact i
        · exact i.trans (cardinalityScan_implied g rest _ _ (hok₂.frame (hch₃ rfl g)) h)
    · -- `ch` is a `NOT` over a child seen before: both go
      obtain ⟨gc, -, h⟩ := Option.bind_eq_some.1 h
      split_ifs at h
      · obtain ⟨⟨r₁, s₃⟩, h₃, h⟩ := Option.bind_eq_some.1 h
        obtain ⟨i₁, hok₁⟩ := (hok.frame (t := ((s.setTemp ch 1).setTemp ch 0).setTemp gc 0)
          (by simp)).delete (k := kept.erase gc)
          (((((s.setTemp ch 1).setTemp ch 0).setTemp gc 0).linkTimes g).eraseIdx kept.length |>.eraseIdx
            (kept.indexOf gc)) fun _ hy => List.mem_of_mem_erase hy
        obtain ⟨i₃, hch₃⟩ := dropPair_implied h₃
        have i := ((((Implied.setTemp s ch 1).trans (Implied.setTemp _ ch 0)).trans
          (Implied.setTemp _ gc 0)).trans i₁).trans ((Implied.pushIfOrphan _ ch).trans i₃)
        dsimp only at h
        split at h
        · cases h; exact i
        · exact i.trans (cardinalityScan_implied g rest _ _
            ((hok₁.frame (t := (_ : BC).pushIfOrphan ch) (by simp)).frame (hch₃ rfl g)) h)
      · exact (Implied.setTemp s ch 1).trans ((Implied.setTemp _ gc 2).trans
          (cardinalityScan_implied g rest _ _ (hok.keep.frame (by simp)) h))
    · exact (Implied.setTemp s ch 1).trans
        (cardinalityScan_implied g rest _ _ (hok.keep.frame (by simp)) h)

theorem removeCardinalityGNotG_implied {r : Bool × BC}
    (h : s.removeCardinalityGNotG g = some r) : Implied s r.2 := by
  unfold removeCardinalityGNotG at h
  split_ifs at h
  · cases h; exact .refl s
  · obtain ⟨s₁, h₁, h⟩ := Option.bind_eq_some.1 h
    obtain ⟨⟨r₂, s₂⟩, h₂, h⟩ := Option.bind_eq_some.1 h
    have i := (clearTemps_implied _ _ h₁).trans (cardinalityScan_implied g _ [] s₁ (.init s₁ g) h₂)
    dsimp only at h
    split at h
    · cases h; exact i
    · obtain ⟨s₃, h₃, rfl⟩ := Option.map_eq_some'.1 h
      exact i.trans (clearTemps_implied _ _ h₃)

theorem thresholdScan_sub (c : Circuit) : ∀ (rest kept : List Nat) {tmin tmax undet : Nat}
    {r : List Nat × Nat × Nat × Nat × Bool}, thresholdScan c kept rest tmin tmax undet = some r →
      ∀ y ∈ r.1, y ∈ kept ∨ y ∈ rest
  | [], kept, _, _, _, r, h => by cases h; exact fun _ => .inl
  | ch :: rest, kept, tmin, tmax, undet, r, h => by
    unfold thresholdScan at h
    split_ifs at h
    · cases h; exact fun y hy => by simpa [or_assoc] using hy
    · intro y hy
      rcases thresholdScan_sub c rest _ h y hy with hy | hy
      · rcases List.mem_append.1 hy with hy | hy
        · exact .inl hy
        · exact .inr (List.mem_singleton.1 hy ▸ .head _)
      · exact .inr (.tail _ hy)
    all_goals exact fun y hy => (thresholdScan_sub c rest _ h y hy).imp_right (.tail _)

theorem falsifyParentAnds_implied (tmax : Nat) : ∀ (ps : List Nat) (s : BC) {r : Bool × BC},
    falsifyParentAnds tmax ps s = some r → Implied s r.2
  | [], s, _, h => by cases h; exact .refl s
  | p :: ps, s, r, h => by
    unfold falsifyParentAnds at h
    split_ifs at h
    · cases h; exact .refl s
    · obtain ⟨s₁, h₁, h⟩ := Option.bind_eq_some.1 h
      exact ((Implied.transformIntoConstant _ _ h₁).trans (Implied.addParentsInPstack _ _)).trans
        (falsifyParentAnds_implied tmax ps _ h)
    · exact falsifyParentAnds_implied tmax ps s h

theorem falsifyAndsOver_implied (tmax : Nat) : ∀ (chs : List Nat) (s : BC) {r : Bool × BC},
    falsifyAndsOver tmax chs s = some r → Implied s r.2
  | [], s, _, h => by cases h; exact .refl s
  | ch :: chs, s, r, h => by
    unfold falsifyAndsOver at h
    obtain ⟨⟨ok, s₁⟩, h₁, h⟩ := Option.bind_eq_some.1 h
    have i := falsifyParentAnds_implied tmax _ s h₁
    dsimp only at h
    split_ifs at h
    · exact i.trans (falsifyAndsOver_implied tmax chs _ h)
    · cases h; exact i

theorem thresholdParentRule_implied {r : Bool × BC} (h : s.thresholdParentRule g = some r) :
    Implied s r.2 := by
  obtain ⟨⟨ok, s₁⟩, h₁, rfl⟩ := Option.map_eq_some'.1 h
  have i := (setTemps_implied _ _ s).trans (falsifyAndsOver_implied _ _ _ h₁)
  dsimp only
  split_ifs
  · exact i.trans (setTemps_implied _ _ _)
  · exact i

theorem notOfNew_acyclic (ha : s.circuit.Acyclic) (hg : g < s.size) (t : GateType) :
    (s.notOfNew g t).1.circuit.Acyclic := by
  unfold notOfNew
  simp only [installGate_eq]
  have hcl := (acyclic_iff.1 ha).1
  have E := (((((Embeds.refl (standFor s.size g) (levelBelow s.size) ha
    fun _ hy => standFor_of_lt hy).append { type := t, children := [] }
    fun _ hy => absurd hy (List.not_mem_nil _)).implied (Implied.addInPstack _ s.size)).setChildren
    (g := s.size) (l := (((s.append { type := t, children := [] }).addInPstack s.size).gate g).children.reverse)
    fun y hy => ?_).setChildren (g := g) (l := []) fun _ hy => absurd hy (List.not_mem_nil _)).setLinks
    s.size (((s.append { type := t, children := [] }).addInPstack s.size).linkTimes g).reverse |>.setLinks
    g [] |>.implied
    (Implied.modify _ g (f := fun gt => { gt with type := .not, tmin := 0, tmax := 0 }) fun _ => rfl)
  · exact ((E.addChild (g := g) (y := s.size) (by simp) (.inr ⟨by simp [hg], by simp [hg]⟩)).implied
      (Implied.addInPstack _ _)).acyclic ha
  · rw [List.mem_reverse, gate_addInPstack, gate_append_of_lt _ hg] at hy
    have hy' : y < s.size := hcl g hg y hy
    refine .inr ⟨by simp; omega, .inl ?_⟩
    rw [standFor_of_le le_rfl, standFor_of_lt hy']
    exact .single hy

theorem simplifyThreshold_acyclic (ha : s.circuit.Acyclic) (hg : g < s.size) {r : Bool × BC}
    (h : s.simplifyThreshold g = some r) : r.2.circuit.Acyclic := by
  unfold simplifyThreshold at h
  rcases ite_eq_iff.1 h with ⟨-, h⟩ | ⟨-, h⟩
  · exact (becomeConstant_implied h).acyclic ha
  obtain ⟨⟨chs, tmin, tmax, undet, stopped⟩, h₁, h⟩ := Option.bind_eq_some.1 h
  -- the children left by the scan, and the bounds
  have i₁ : Implied s (s.modify g fun gt => { gt with children := chs, tmin := tmin, tmax := tmax }) :=
    Implied.modify_sub _ _ fun y hy => (thresholdScan_sub _ _ [] h₁ y hy).resolve_left
      (List.not_mem_nil _)
  have ha₁ : ∀ l, ((s.modify g fun gt => { gt with children := chs, tmin := tmin, tmax := tmax }).setLinks
      g l).circuit.Acyclic := fun _ => i₁.acyclic ha
  rcases ite_eq_iff.1 h with ⟨-, h⟩ | ⟨-, h⟩
  · cases h; exact notOfNew_acyclic (ha₁ _) (by simpa using hg) .or
  rcases ite_eq_iff.1 h with ⟨-, h⟩ | ⟨-, h⟩
  · cases h
  rcases ite_eq_iff.1 h with ⟨-, h⟩ | ⟨-, h⟩
  · exact (becomeConstant_implied h).acyclic (ha₁ _)
  -- `tmax` is clipped to the number of undetermined children
  have ha₂ : ∀ l, (((s.modify g fun gt => { gt with children := chs, tmin := tmin, tmax := tmax }).setLinks
      g l).modify g fun gt => { gt with tmax := min tmax undet }).circuit.Acyclic := fun l =>
    (Implied.modify _ g (f := fun gt => { gt with tmax := min tmax undet }) fun _ => rfl).acyclic (ha₁ l)
  have hg₂ : ∀ l, g < (((s.modify g fun gt => { gt with children := chs, tmin := tmin, tmax := tmax }).setLinks
      g l).modify g fun gt => { gt with tmax := min tmax undet }).size := fun _ => by simpa using hg
  rcases ite_eq_iff.1 h with ⟨-, h⟩ | ⟨-, h⟩
  · rcases ite_eq_iff.1 h with ⟨-, h⟩ | ⟨-, h⟩
    · exact (becomeConstant_implied h).acyclic (ha₂ _)
    · cases h
  rcases ite_eq_iff.1 h with ⟨-, h⟩ | ⟨-, h⟩
  · cases h; exact (Implied.addParentsInPstack _ _).acyclic (notOfNew_acyclic (ha₂ _) (hg₂ _) .or)
  rcases ite_eq_iff.1 h with ⟨-, h⟩ | ⟨-, h⟩
  · cases h
    exact ((Implied.modify _ g (f := fun gt => { gt with type := .and, tmin := 0, tmax := 0 })
      fun _ => rfl).trans (Implied.addInPstack _ _)).acyclic (ha₂ _)
  rcases ite_eq_iff.1 h with ⟨-, h⟩ | ⟨-, h⟩
  · exact (becomeConstant_implied h).acyclic (ha₂ _)
  rcases ite_eq_iff.1 h with ⟨-, h⟩ | ⟨-, h⟩
  · cases h; exact (Implied.addParentsInPstack _ _).acyclic (notOfNew_acyclic (ha₂ _) (hg₂ _) .and)
  -- the parent rule, then the pairs `x, NOT(x)`
  obtain ⟨⟨ok, s₃⟩, h₃, h⟩ := Option.bind_eq_some.1 h
  have ha₃ : s₃.circuit.Acyclic := by
    rcases ite_eq_iff.1 h₃ with ⟨-, h₃⟩ | ⟨-, h₃⟩
    · exact (thresholdParentRule_implied h₃).acyclic (ha₂ _)
    · cases h₃; exact ha₂ _
  rcases ite_eq_iff.1 h with ⟨-, h⟩ | ⟨-, h⟩
  · cases h; exact ha₃
  rcases ite_eq_iff.1 h with ⟨-, h⟩ | ⟨-, h⟩
  · cases h; exact ha₃
  · exact (removeCardinalityGNotG_implied h).acyclic ha₃

theorem atleastScan_sub (c : Circuit) : ∀ (rest kept : List Nat) (tmin : Nat),
    ∀ y ∈ (atleastScan c kept rest tmin).1, y ∈ kept ∨ y ∈ rest
  | [], _, _ => fun _ => .inl
  | ch :: rest, kept, tmin => by
    unfold atleastScan
    split_ifs
    · intro y hy
      rcases atleastScan_sub c rest _ _ y hy with hy | hy
      · rcases List.mem_append.1 hy with hy | hy
        · exact .inl hy
        · exact .inr (List.mem_singleton.1 hy ▸ .head _)
      · exact .inr (.tail _ hy)
    all_goals exact fun y hy => (atleastScan_sub c rest _ _ y hy).imp_right (.tail _)

theorem simplifyAtleast_acyclic (ha : s.circuit.Acyclic) {r : Bool × BC}
    (h : s.simplifyAtleast g = some r) : r.2.circuit.Acyclic := by
  unfold simplifyAtleast at h
  have hsub := atleastScan_sub s.circuit (s.gate g).children [] (s.gate g).tmin
  generalize atleastScan s.circuit [] (s.gate g).children (s.gate g).tmin = p at h hsub
  obtain ⟨chs, tmin⟩ := p
  have ha₁ := (Implied.modify_sub _ g (f := fun gt => { gt with children := chs, tmin := tmin })
    fun y hy => (hsub y hy).resolve_left (List.not_mem_nil _)).acyclic ha
  dsimp only at h
  rcases ite_eq_iff.1 h with ⟨-, h⟩ | ⟨-, h⟩
  · exact (becomeConstant_implied h).acyclic ha₁
  rcases ite_eq_iff.1 h with ⟨-, h⟩ | ⟨-, h⟩
  · exact (becomeConstant_implied h).acyclic ha₁
  rcases ite_eq_iff.1 h with ⟨-, h⟩ | ⟨-, h⟩
  · cases h
    exact ((Implied.modify _ g (f := fun gt => { gt with type := .and, tmin := 0, tmax := 0 })
      fun _ => rfl).trans (Implied.addInPstack _ _)).acyclic ha₁
  · cases h; exact ha₁

end BC

end BcSat
