import BcSat.Cnf
import BcSat.Polarity
import BcSat.Evaluate

set_option autoImplicit false

/-!
# Emission and the back end of `main`

The clause emission loop of `bc2cnf`'s `main` and the whole back end after rewriting: COI
marking, the `sat_exit` shortcut when the cone is empty, numbering, the optional polarity
computation and emission. A numbered gate contributes its clauses, popped from the back of the
list `cnf_get_clauses` fills, and a unit clause fixing a determined gate to its value (or an
undetermined constant to its own).
-/

namespace BcSat

namespace Circuit

/-- The unit clause `main` adds for a numbered gate. -/
def unitClauses (c : Circuit) (g : Nat) : List Clause :=
  let gt := c.gate g
  if gt.determined then [[if gt.value then gt.temp else -gt.temp]]
  else if gt.type = .true then [[gt.temp]]
  else if gt.type = .false then [[-gt.temp]]
  else []

/-- `cnf_get_clauses_polarity` under `-polarity_cnf`, `cnf_get_clauses` otherwise. -/
def gateClauses (c : Circuit) (polarity notless : Bool) (g : Nat) : Option (List Clause) :=
  if polarity then c.cnfGetClausesPolarity notless g else c.cnfGetClauses notless g

end Circuit

/-- The emission loop of `main` over the gates `gs`; `none` is an `internal_error` or a failed
assertion (`0 < temp <= max_var` for the gate, `lit != 0 && abs(lit) <= max_var` for every
literal). -/
def emitClauses (polarity notless : Bool) (maxVar : Nat) (c : Circuit) :
    List Nat → Option (List Clause)
  | [] => some []
  | g :: gs =>
    if (c.gate g).temp = -1 then emitClauses polarity notless maxVar c gs
    else if ¬(0 < (c.gate g).temp ∧ (c.gate g).temp ≤ maxVar) then none
    else (c.gateClauses polarity notless g).bind fun cls =>
      if cls.all (fun cl => cl.all fun l => decide (l ≠ 0 ∧ l.natAbs ≤ maxVar)) then
        (emitClauses polarity notless maxVar c gs).map fun rest =>
          cls.reverse ++ c.unitClauses g ++ rest
      else none

/-- What `main` writes once the circuit is rewritten. -/
inductive Output where
  /-- `sat_exit`: the circuit whose gate values are printed beside a dummy CNF. -/
  | sat (c : Circuit)
  /-- The DIMACS header's variable count and the clauses. -/
  | dimacs (maxVar : Nat) (clauses : List Clause)

/-- The back end of `main`: COI marking, the `sat_exit` shortcut for an empty cone, numbering
(with the assertion `max_var_num > 0`), the polarity computation under `-polarity_cnf`, and
emission, each loop over the live gates (the back end changes no type). `none` is an
`internal_error` or a failed assertion. -/
def backEnd (coi notless polarity : Bool) (c : Circuit) : Option Output :=
  (markRoots coi (c.resetTempFields (-1), 0) c.liveGates).bind fun (c₁, n) =>
    if n = 0 then (satExit c₁).map .sat
    else (numberGates notless (c₁, 0) c.liveGates).bind fun (c₂, m) =>
      if m = 0 then none
      else (if polarity then c₂.mirComputePolarityInformation else some c₂).bind fun c₃ =>
        (emitClauses polarity notless m c₃ c.liveGates).map (.dimacs m)

section Emission

variable {polarity notless : Bool} {m : Nat} {c : Circuit}

theorem cnfValue_reverse (a : Nat → Bool) (F : List Clause) :
    cnfValue a F.reverse = cnfValue a F := by
  simp [cnfValue, List.all_reverse]

theorem emitClauses_value (a : Nat → Bool) : ∀ {gs : List Nat} {F : List Clause},
    emitClauses polarity notless m c gs = some F →
    (cnfValue a F = true ↔ ∀ g ∈ gs, (c.gate g).temp ≠ -1 → ∀ cls,
      c.gateClauses polarity notless g = some cls →
      cnfValue a cls = true ∧ cnfValue a (c.unitClauses g) = true)
  | [], F, h => by cases h; simp
  | g :: gs, F, h => by
    simp only [emitClauses] at h
    split at h
    · rename_i ht
      rw [emitClauses_value a h]
      simp [ht]
    · split at h
      · exact absurd h (by simp)
      · rename_i ht _
        obtain ⟨cls, hcls, h⟩ := Option.bind_eq_some.mp h
        split at h
        · obtain ⟨rest, hrest, rfl⟩ := Option.map_eq_some'.mp h
          simp only [cnfValue_append, cnfValue_reverse, Bool.and_eq_true,
            emitClauses_value a hrest, List.mem_cons, forall_eq_or_imp, hcls, Option.some.injEq,
            forall_eq']
          tauto
        · exact absurd h (by simp)

theorem unitClauses_lits {g : Nat} (h : 0 < (c.gate g).temp ∧ (c.gate g).temp ≤ m) :
    ∀ cl ∈ c.unitClauses g, ∀ l ∈ cl, l ≠ 0 ∧ l.natAbs ≤ m := by
  intro cl hcl l hl
  have hv : ∀ l : Int, (l = (c.gate g).temp ∨ l = -(c.gate g).temp) → l ≠ 0 ∧ l.natAbs ≤ m := by
    rintro l (rfl | rfl) <;> omega
  simp only [Circuit.unitClauses] at hcl
  split_ifs at hcl <;>
    simp only [List.mem_singleton, List.not_mem_nil] at hcl <;> subst hcl <;>
    simp only [List.mem_singleton] at hl <;> subst hl
  all_goals first | exact hv _ (Or.inl rfl) | exact hv _ (Or.inr rfl)

theorem emitClauses_lits : ∀ {gs : List Nat} {F : List Clause},
    emitClauses polarity notless m c gs = some F → ∀ cl ∈ F, ∀ l ∈ cl, l ≠ 0 ∧ l.natAbs ≤ m
  | [], F, h => by cases h; simp
  | g :: gs, F, h => by
    simp only [emitClauses] at h
    split at h
    · exact emitClauses_lits h
    · split at h
      · exact absurd h (by simp)
      · rename_i ht hr
        push_neg at hr
        obtain ⟨cls, _, h⟩ := Option.bind_eq_some.mp h
        split at h
        · rename_i hall
          obtain ⟨rest, hrest, rfl⟩ := Option.map_eq_some'.mp h
          simp only [List.all_eq_true, decide_eq_true_eq] at hall
          intro cl hcl l hl
          simp only [List.mem_append, List.mem_reverse] at hcl
          rcases hcl with (hcl | hcl) | hcl
          · exact hall cl hcl l hl
          · exact unitClauses_lits hr cl hcl l hl
          · exact emitClauses_lits hrest cl hcl l hl
        · exact absurd h (by simp)

theorem emitClauses_ok : ∀ (gs : List Nat), (∀ g ∈ gs, (c.gate g).temp ≠ -1 →
    0 < (c.gate g).temp ∧ (c.gate g).temp ≤ m ∧ ∃ cls, c.gateClauses polarity notless g = some cls ∧
      ∀ cl ∈ cls, ∀ l ∈ cl, l ≠ 0 ∧ l.natAbs ≤ m) →
    ∃ F, emitClauses polarity notless m c gs = some F
  | [], _ => ⟨[], rfl⟩
  | g :: gs, h => by
    obtain ⟨rest, hrest⟩ := emitClauses_ok gs fun x hx => h x (List.mem_cons_of_mem g hx)
    by_cases ht : (c.gate g).temp = -1
    · exact ⟨rest, by simp [emitClauses, ht, hrest]⟩
    obtain ⟨h0, hm, cls, hcls, hlits⟩ := h g (List.mem_cons_self g gs) ht
    refine ⟨cls.reverse ++ c.unitClauses g ++ rest, ?_⟩
    have hall : (cls.all fun cl => cl.all fun l => decide (l ≠ 0 ∧ l.natAbs ≤ m)) = true := by
      simpa only [List.all_eq_true, decide_eq_true_eq] using hlits
    simp only [emitClauses, ht, if_false, h0, hm, and_self, not_true_eq_false, hcls,
      Option.some_bind, hall, if_true, hrest, Option.map_some']

end Emission

section Flags

variable {c c' : Circuit} (hf : FlagsOnly c c') (notless : Bool)
include hf

theorem childLits_flags : ∀ chs : List Nat, c'.childLits notless chs = c.childLits notless chs
  | [] => rfl
  | ch :: chs => by
    have hl : c'.childLit notless ch = c.childLit notless ch := by
      simp only [Circuit.childLit, hf.logic.type_eq, hf.logic.children_eq, hf.temp_eq]
    simp only [Circuit.childLits, hl, childLits_flags chs]

theorem clauseHalves_flags (g : Nat) : c'.clauseHalves notless g = c.clauseHalves notless g := by
  simp only [Circuit.clauseHalves, hf.logic.type_eq, hf.logic.children_eq, hf.logic.determined_eq,
    hf.temp_eq, childLits_flags hf notless]

omit notless in
theorem unitClauses_flags (g : Nat) : c'.unitClauses g = c.unitClauses g := by
  simp only [Circuit.unitClauses, hf.logic.type_eq, hf.logic.determined_eq, hf.logic.value_eq,
    hf.temp_eq]

end Flags

/-- What COI marking and numbering leave, for the circuit `c`: the marks of `c₁` form a cone
of live gates closed under children that holds every live root, and `c₂` numbers the marked
gates bijectively onto `1..m`. -/
structure Numbering (c : Circuit) (coi notless : Bool) (c₁ c₂ : Circuit) (m : Nat) : Prop where
  marks : TempsOnly c c₁
  live : ∀ g < c.size, c₁.Marked g → (c.gate g).type ≠ .deleted
  cone : ∀ g < c.size, c₁.Marked g → ∀ ch ∈ (c.gate g).children, c₁.Marked ch
  roots : ∀ g < c.size, (c.gate g).type ≠ .deleted → IsRoot c coi g → c₁.Marked g
  numbers : NumberedBy c₁ notless (fun _ => True) c₂ m

namespace Numbering

variable {c c₁ c₂ : Circuit} {coi notless : Bool} {m : Nat}
  (h : Numbering c coi notless c₁ c₂ m)
include h

theorem logic : SameLogic c c₂ := h.marks.logic.trans h.numbers.temps.logic

theorem size_eq : c₂.size = c.size := h.logic.size_eq

theorem numbered_temp {g : Nat} (hg : g < c.size) (hN : Numbered c₁ notless g) :
    1 ≤ (c₂.gate g).temp ∧ (c₂.gate g).temp ≤ m :=
  h.numbers.numbered g (h.marks.size_eq ▸ hg) trivial hN

theorem unnumbered_temp {g : Nat} (hg : g < c.size) (hN : ¬Numbered c₁ notless g) :
    (c₂.gate g).temp = -1 :=
  h.numbers.unnumbered g (h.marks.size_eq ▸ hg) trivial hN

theorem numbered_iff {g : Nat} (hg : g < c.size) :
    Numbered c₁ notless g ↔ 0 < (c₂.gate g).temp := by
  by_cases hN : Numbered c₁ notless g
  · have := h.numbered_temp hg hN; exact ⟨fun _ => by omega, fun _ => hN⟩
  · have := h.unnumbered_temp hg hN; exact ⟨fun h' => absurd h' hN, fun h' => by omega⟩

theorem not_numbered {g : Nat} (hM : c₁.Marked g) (hN : ¬Numbered c₁ notless g) :
    notless = true ∧ (c.gate g).type = .not := by
  by_contra hc
  exact hN ⟨hM, fun h' => hc ⟨h'.1, by rw [← h.marks.type_eq]; exact h'.2⟩⟩

theorem childLit_numbered {g : Nat} (hN : Numbered c₁ notless g) :
    c₂.childLit notless g = some (c₂.gate g).temp := by
  have hty := h.numbers.temps.type_eq g
  simp only [Circuit.childLit, hty]
  rw [if_neg hN.2]

theorem childLit_not (r : Ranking c) {g : Nat} (hshape : c.CnfShaped notless) (hg : g < c.size)
    (hM : c₁.Marked g) (hn : notless = true) (hty : (c.gate g).type = .not) :
    ∃ gc, (c.gate g).children = [gc] ∧ gc < c.size ∧ Numbered c₁ notless gc ∧
      c₂.childLit notless g = some (-(c₂.gate gc).temp) := by
  have hok := hshape.gateOk hg (h.live g hg hM)
  simp only [Circuit.cnfGateOk, hty, hn] at hok
  split at hok
  · rename_i gc hch
    simp only [Bool.not_true, Bool.false_or, Bool.and_eq_true, Bool.not_eq_true',
      bne_iff_ne, ne_eq] at hok
    have hmem : gc ∈ (c.gate g).children := by rw [hch]; exact List.mem_singleton_self gc
    refine ⟨gc, hch, (r.child_lt g hg gc hmem).1, ⟨h.cone g hg hM gc hmem, fun h' => hok.2 ?_⟩, ?_⟩
    · rw [← h.marks.type_eq]; exact h'.2
    · simp [Circuit.childLit, h.logic.type_eq, hty, hn, h.logic.children_eq, hch]
  · exact absurd hok Bool.false_ne_true

theorem childLit_marked (r : Ranking c) (hshape : c.CnfShaped notless) {g : Nat} (hg : g < c.size)
    (hM : c₁.Marked g) : ∃ l, c₂.childLit notless g = some l ∧ l ≠ 0 ∧ l.natAbs ≤ m := by
  by_cases hN : Numbered c₁ notless g
  · have := h.numbered_temp hg hN
    exact ⟨_, h.childLit_numbered hN, by omega, by omega⟩
  · have hnt := h.not_numbered hM hN
    obtain ⟨gc, -, hgc, hNc, hl⟩ := h.childLit_not r hshape hg hM hnt.1 hnt.2
    have := h.numbered_temp hgc hNc
    exact ⟨_, hl, by omega, by omega⟩

theorem clauseHalves_numbered (r : Ranking c) (hshape : c.CnfShaped notless) {g : Nat}
    (hg : g < c.size) (hN : Numbered c₁ notless g) :
    c₂.clauseHalves notless g = some (halvesOf (c.gate g).type (c₂.gate g).temp
        ((c.gate g).children.map (c₂.litOf notless))) ∧
      ∀ cl ∈ (halvesOf (c.gate g).type (c₂.gate g).temp
        ((c.gate g).children.map (c₂.litOf notless))).1 ++ (halvesOf (c.gate g).type
          (c₂.gate g).temp ((c.gate g).children.map (c₂.litOf notless))).2,
        ∀ l ∈ cl, l ≠ 0 ∧ l.natAbs ≤ m := by
  have hchild : ∀ ch ∈ (c.gate g).children, ∃ l, c₂.childLit notless ch = some l ∧ l ≠ 0 ∧
      l.natAbs ≤ m := fun ch hch =>
    h.childLit_marked r hshape (r.child_lt g hg ch hch).1 (h.cone g hg hN.1 ch hch)
  have hok : c₂.cnfGateOk notless g = true := by
    rw [h.logic.cnfGateOk_eq]; exact hshape.gateOk hg (h.live g hg hN.1)
  have hnot : ¬(notless = true ∧ (c₂.gate g).type = .not) := by
    rw [h.numbers.temps.type_eq]; exact hN.2
  have heq := clauseHalves_eq hok hnot fun ch hch => by
    obtain ⟨l, hl, -⟩ := hchild ch (by rwa [h.logic.children_eq] at hch)
    simp [hl]
  rw [h.logic.type_eq, h.logic.children_eq] at heq
  refine ⟨heq, fun cl hcl l hl => ?_⟩
  have ht := h.numbered_temp hg hN
  rcases halvesOf_natAbs _ _ _ cl hcl l hl with hx | ⟨l', hl', hx⟩
  · omega
  · obtain ⟨ch, hch, rfl⟩ := List.mem_map.mp hl'
    obtain ⟨l'', hl'', h0, hm⟩ := hchild ch hch
    simp only [Circuit.litOf, hl'', Option.getD_some] at hx
    omega

theorem halves_value (r : Ranking c) (hshape : c.CnfShaped notless) {g : Nat} (hg : g < c.size)
    (hN : Numbered c₁ notless g)
    (hc : (c.gate g).type ≠ .false ∧ (c.gate g).type ≠ .true ∧ (c.gate g).type ≠ .var)
    (a : Nat → Bool) :
    let hv := halvesOf (c.gate g).type (c₂.gate g).temp ((c.gate g).children.map (c₂.litOf notless))
    let fn := (c.gate g).type.eval (c.gate g).tmin (c.gate g).tmax
      ((c.gate g).children.map fun ch => litValue a (c₂.litOf notless ch))
    cnfValue a hv.1 = (!litValue a (c₂.gate g).temp || fn) ∧
      cnfValue a hv.2 = (litValue a (c₂.gate g).temp || !fn) := by
  have ht := h.numbered_temp hg hN
  have hls : ∀ l ∈ (c.gate g).children.map (c₂.litOf notless), l ≠ 0 := by
    intro l hl
    obtain ⟨ch, hch, rfl⟩ := List.mem_map.mp hl
    obtain ⟨l, hl', h0, -⟩ :=
      h.childLit_marked r hshape (r.child_lt g hg ch hch).1 (h.cone g hg hN.1 ch hch)
    simpa [Circuit.litOf, hl'] using h0
  have ha := cnfGateOk_arity (hshape.gateOk hg (h.live g hg hN.1)) hc
  have hv := halvesOf_value a (c.gate g).type (by rwa [List.length_map])
    (show (c₂.gate g).temp ≠ 0 by omega) hls
  rw [List.map_map, ← eval_bounds_irrel ha (c.gate g).tmin (c.gate g).tmax] at hv
  exact hv

theorem unitClauses_value (a : Nat → Bool) {g : Nat} (hg : g < c.size)
    (hN : Numbered c₁ notless g) (hu : cnfValue a (c₂.unitClauses g) = true) :
    ((c.gate g).determined → litValue a (c₂.gate g).temp = (c.gate g).value) ∧
    ((c.gate g).determined = false → (c.gate g).type = .true → litValue a (c₂.gate g).temp) ∧
    ((c.gate g).determined = false → (c.gate g).type = .false →
      litValue a (c₂.gate g).temp = false) := by
  have ht := h.numbered_temp hg hN
  have hneg := litValue_neg a (show (c₂.gate g).temp ≠ 0 by omega)
  simp only [Circuit.unitClauses, h.logic.determined_eq, h.logic.value_eq, h.logic.type_eq] at hu
  refine ⟨fun hd => ?_, fun hd ht' => ?_, fun hd hf => ?_⟩
  · cases hv : (c.gate g).value <;> simp_all
  · simp_all
  · simp_all

/-- The emission over the whole store succeeds with every literal in range, and a model of the
emitted clauses is an assignment that satisfies, for every numbered gate, the halves emitted
for it (both in the standard translation, those of the set flags in the polarity one) and its
unit clause. -/
theorem emit_spec (r : Ranking c) (hshape : c.CnfShaped notless) {c₃ : Circuit}
    (hf : FlagsOnly c₂ c₃) (polarity : Bool) :
    ∃ F, emitClauses polarity notless m c₃ c.liveGates = some F ∧
      (∀ cl ∈ F, ∀ l ∈ cl, l ≠ 0 ∧ l.natAbs ≤ m) ∧
      ∀ a, cnfValue a F = true ↔ ∀ g < c.size, Numbered c₁ notless g →
        ((!polarity || c₃.mirFlag g Bool.true) → cnfValue a (halvesOf (c.gate g).type
          (c₂.gate g).temp ((c.gate g).children.map (c₂.litOf notless))).1 = true) ∧
        ((!polarity || c₃.mirFlag g Bool.false) → cnfValue a (halvesOf (c.gate g).type
          (c₂.gate g).temp ((c.gate g).children.map (c₂.litOf notless))).2 = true) ∧
        cnfValue a (c₂.unitClauses g) = true := by
  have htemp : ∀ g < c.size, (c₃.gate g).temp ≠ -1 ↔ Numbered c₁ notless g := by
    intro g hg
    rw [hf.temp_eq]
    by_cases hN : Numbered c₁ notless g
    · have := h.numbered_temp hg hN; simp only [hN, iff_true]; omega
    · simp [hN, h.unnumbered_temp hg hN]
  -- the clauses a numbered gate gets
  have hcls : ∀ g < c.size, Numbered c₁ notless g → ∃ P N,
      P = (halvesOf (c.gate g).type (c₂.gate g).temp ((c.gate g).children.map (c₂.litOf notless))).1 ∧
      N = (halvesOf (c.gate g).type (c₂.gate g).temp ((c.gate g).children.map (c₂.litOf notless))).2 ∧
      c₃.gateClauses polarity notless g = some (if polarity then
        (if c₃.mirFlag g Bool.true then P else []) ++ (if c₃.mirFlag g Bool.false then N else [])
        else if (c₃.gate g).type = .and then N ++ P else P ++ N) := by
    intro g hg hN
    have hh := (h.clauseHalves_numbered r hshape hg hN).1
    rw [← clauseHalves_flags hf] at hh
    refine ⟨_, _, rfl, rfl, ?_⟩
    cases polarity <;>
      simp [Circuit.gateClauses, Circuit.cnfGetClauses, Circuit.cnfGetClausesPolarity, hh,
        Circuit.mirFlag]
  -- what the chosen clauses say, and that they are among the gate's halves
  have hsel : ∀ (g : Nat) (P N : List Clause), (∀ cl ∈ (if polarity then
        (if c₃.mirFlag g Bool.true then P else []) ++ (if c₃.mirFlag g Bool.false then N else [])
        else if (c₃.gate g).type = .and then N ++ P else P ++ N), cl ∈ P ++ N) ∧
      ∀ a, (cnfValue a (if polarity then
        (if c₃.mirFlag g Bool.true then P else []) ++ (if c₃.mirFlag g Bool.false then N else [])
        else if (c₃.gate g).type = .and then N ++ P else P ++ N) = true ↔
        ((!polarity || c₃.mirFlag g Bool.true) → cnfValue a P = true) ∧
        ((!polarity || c₃.mirFlag g Bool.false) → cnfValue a N = true)) := by
    intro g P N
    refine ⟨fun cl hcl => ?_, fun a => ?_⟩
    · simp only [List.mem_append] at hcl ⊢
      split_ifs at hcl <;> simp only [List.mem_append, List.not_mem_nil, or_false, false_or] at hcl <;>
        tauto
    · cases polarity
      · simp only [Bool.false_eq_true, ite_false]
        split_ifs <;> simp [and_comm]
      · cases c₃.mirFlag g Bool.true <;> cases c₃.mirFlag g Bool.false <;> simp
  have hF : ∃ F, emitClauses polarity notless m c₃ c.liveGates = some F :=
    emitClauses_ok _ fun g hg ht => by
      have hg' := (Circuit.mem_liveGates.mp hg).1
      have hN := (htemp g hg').mp ht
      have hb := h.numbered_temp hg' hN
      obtain ⟨P, N, rfl, rfl, hc⟩ := hcls g hg' hN
      exact ⟨by rw [hf.temp_eq]; omega, by rw [hf.temp_eq]; omega, _, hc, fun cl hcl =>
        (h.clauseHalves_numbered r hshape hg' hN).2 cl ((hsel g _ _).1 cl hcl)⟩
  obtain ⟨F, hF⟩ := hF
  refine ⟨F, hF, emitClauses_lits hF, fun a => ?_⟩
  rw [emitClauses_value a hF]
  constructor
  · intro hall g hg hN
    obtain ⟨P, N, rfl, rfl, hc⟩ := hcls g hg hN
    obtain ⟨h₁, h₂⟩ := hall g (Circuit.mem_liveGates.mpr ⟨hg, h.live g hg hN.1⟩)
      ((htemp g hg).mpr hN) _ hc
    rw [unitClauses_flags hf] at h₂
    exact ⟨((hsel g _ _).2 a).mp h₁ |>.1, ((hsel g _ _).2 a).mp h₁ |>.2, h₂⟩
  · intro hall g hg ht cls hc
    have hg' := (Circuit.mem_liveGates.mp hg).1
    have hN := (htemp g hg').mp ht
    obtain ⟨P, N, rfl, rfl, hc'⟩ := hcls g hg' hN
    rw [hc] at hc'
    cases hc'
    obtain ⟨h₁, h₂, h₃⟩ := hall g hg' hN
    exact ⟨((hsel g _ _).2 a).mpr ⟨h₁, h₂⟩, by rw [unitClauses_flags hf]; exact h₃⟩

end Numbering

/-- The assignment a consistent evaluation `σ` gives the CNF variables: variable `v` takes the
value of the gate numbered `v`. -/
def Circuit.varAssign (c : Circuit) (σ : Nat → Bool) (v : Nat) : Bool :=
  (List.range c.size).any fun g => (c.gate g).temp == v && σ g

/-- The evaluation a model `a` of the clauses gives the circuit: a numbered input takes its
variable, any other input its determined value or false, and every other gate the value of
its function, bottom-up. -/
def Circuit.modelEval (c : Circuit) (a : Nat → Bool) : Nat → Bool :=
  c.evalFixed fun g =>
    if (c.gate g).type = .var then
      some (if 0 < (c.gate g).temp then a (c.gate g).temp.natAbs
        else (c.gate g).determined && (c.gate g).value)
    else none

section ModelEval

variable {c c₂ : Circuit} (r : Ranking c) (hl : SameLogic c c₂) (a : Nat → Bool)
include r hl

omit r in
theorem modelEval_var {g : Nat} (hg : g < c.size) (hv : (c.gate g).type = .var) :
    c₂.modelEval a g = if 0 < (c₂.gate g).temp then a (c₂.gate g).temp.natAbs
      else (c.gate g).determined && (c.gate g).value := by
  rw [Circuit.modelEval, evalFixed_fixed _ (hl.size_eq ▸ hg)]
  rw [hl.type_eq, hv]
  simp [hl.determined_eq, hl.value_eq]

theorem modelEval_eq {g : Nat} (hg : g < c.size) (hv : (c.gate g).type ≠ .var) :
    c₂.modelEval a g = (c.gate g).type.eval (c.gate g).tmin (c.gate g).tmax
      ((c.gate g).children.map (c₂.modelEval a)) := by
  rw [Circuit.modelEval, evalFixed_eq (hl.ranking r) _ (hl.size_eq ▸ hg) (by simp [hl.type_eq, hv])
    (by rwa [hl.type_eq])]
  simp only [hl.type_eq, hl.tmin_eq, hl.tmax_eq, hl.children_eq]

end ModelEval

section Model

variable {c c₁ c₂ : Circuit} {coi notless : Bool} {m : Nat} (r : Ranking c)
  (hshape : c.CnfShaped notless) (hconst : c.ConstantsAgree)
  (h : Numbering c coi notless c₁ c₂ m) (flag : Nat → Bool → Bool)
  (hcl : ∀ g < c.size, c₁.Marked g → ∀ p, flag g p = true → ∀ calls, c.mirCalls g p = some calls →
    ∀ x ∈ calls, (c.gate x.1).determined ∨ flag x.1 x.2)
  (hroot : ∀ g < c.size, (c.gate g).type ≠ .deleted → (c.gate g).determined →
    c.isJustified g = some false → flag g (c.gate g).value)
  (a : Nat → Bool)
  (hmodel : ∀ g < c.size, Numbered c₁ notless g →
    (∀ p, flag g p = true → cnfValue a (if p then (halvesOf (c.gate g).type (c₂.gate g).temp
      ((c.gate g).children.map (c₂.litOf notless))).1 else (halvesOf (c.gate g).type
      (c₂.gate g).temp ((c.gate g).children.map (c₂.litOf notless))).2) = true) ∧
    cnfValue a (c₂.unitClauses g) = true)
include hshape h hmodel in
theorem determined_numbered_lit {x : Nat} (hx : x < c.size) (hM : c₁.Marked x)
    (hd : (c.gate x).determined) :
    Numbered c₁ notless x ∧ litValue a (c₂.litOf notless x) = (c.gate x).value := by
  have hN : Numbered c₁ notless x := ⟨hM, fun ⟨hn, ht⟩ => by
    subst hn
    have := (cnfGateOk_notless_not (hshape.gateOk hx (h.live x hx hM))
      (by rwa [← h.marks.type_eq])).1
    simp [this] at hd⟩
  refine ⟨hN, ?_⟩
  rw [Circuit.litOf, h.childLit_numbered hN, Option.getD_some]
  exact (h.unitClauses_value a hx hN (hmodel x hx hN).2).1 hd

include r hshape hconst h hcl hroot hmodel

/-- The Plaisted–Greenbaum argument, by induction on the ranking: the evaluation read from a
model gives every determined live gate its value, and gives a marked gate the polarity `p`
whenever its flag `p` is set and its literal has the value `p`. -/
theorem model_values : ∀ g < c.size, (c.gate g).type ≠ .deleted →
    ((c.gate g).determined → c₂.modelEval a g = (c.gate g).value) ∧
    (c₁.Marked g → ∀ p, flag g p = true → litValue a (c₂.litOf notless g) = p →
      c₂.modelEval a g = p) := by
  intro g
  obtain ⟨k, hk⟩ : ∃ k, r.rank g = k := ⟨_, rfl⟩
  induction k using Nat.strong_induction_on generalizing g with
  | _ k ih =>
  intro hg hlive
  have hl := h.logic
  have hchild : ∀ ch ∈ (c.gate g).children, ch < c.size ∧ r.rank ch < k := fun ch hch => by
    obtain ⟨hs, hr⟩ := r.child_lt g hg ch hch; exact ⟨hs, hk ▸ hr⟩
  have ihc := fun ch hch => ih (r.rank ch) (hchild ch hch).2 ch rfl (hchild ch hch).1
    (hshape.child_live hg hlive hch)
  have hok := hshape.gateOk hg hlive
  have hdetlit := fun x (hx : x < c.size) => determined_numbered_lit hshape h flag a hmodel hx
  -- on a child of `g`, a polarity that reached it is kept by the evaluation
  have hD : ∀ ch ∈ (c.gate g).children, c₁.Marked ch → ∀ q,
      ((c.gate ch).determined ∨ flag ch q) → litValue a (c₂.litOf notless ch) = q →
      c₂.modelEval a ch = q := by
    intro ch hch hM q hq hlq
    rcases hq with hd | hf
    · rw [(ihc ch hch).1 hd, ← (hdetlit ch (hchild ch hch).1 hM hd).2, hlq]
    · exact (ihc ch hch).2 hM q hf hlq
  have partB : c₁.Marked g → ∀ p, flag g p = true → litValue a (c₂.litOf notless g) = p →
      c₂.modelEval a g = p := by
    intro hM p hf hlp
    by_cases hN : Numbered c₁ notless g
    · rw [Circuit.litOf, h.childLit_numbered hN, Option.getD_some] at hlp
      have ht := h.numbered_temp hg hN
      obtain ⟨hhalf, hunit⟩ := hmodel g hg hN
      have hu := h.unitClauses_value a hg hN hunit
      by_cases hv : (c.gate g).type = .var
      · rw [modelEval_var hl a hg hv, if_pos (by omega), ← litValue_of_pos a (by omega), hlp]
      by_cases htr : (c.gate g).type = .true
      · rw [modelEval_eq r hl a hg hv, htr, ← hlp]
        cases hd : (c.gate g).determined
        · exact (hu.2.1 hd htr).symm
        · rw [hu.1 hd, (hconst g hg hd).1 htr]; rfl
      by_cases hfa : (c.gate g).type = .false
      · rw [modelEval_eq r hl a hg hv, hfa, ← hlp]
        cases hd : (c.gate g).determined
        · exact (hu.2.2 hd hfa).symm
        · rw [hu.1 hd, (hconst g hg hd).2 hfa]; rfl
      have hv2 := h.halves_value r hshape hg hN ⟨hfa, htr, hv⟩ a
      have hev : (c.gate g).type.eval (c.gate g).tmin (c.gate g).tmax
          ((c.gate g).children.map fun ch => litValue a (c₂.litOf notless ch)) = p := by
        have hp := hhalf p hf
        dsimp only at hv2
        cases p <;> simpa [hv2, hlp] using hp
      obtain ⟨calls, hcalls⟩ := Option.isSome_iff_exists.mp (mirCalls_isSome hok p)
      rw [modelEval_eq r hl a hg hv]
      refine mirCalls_sound hok p hcalls _ _ hev (fun x hx hlx => ?_) (fun ch hch hd => ?_)
      · have hxc := mirCalls_children hcalls x hx
        exact hD x.1 hxc (h.cone g hg hM x.1 hxc) x.2 (hcl g hg hM p hf calls hcalls x hx) hlx
      · have hMc := h.cone g hg hM ch hch
        have := (hdetlit ch (hchild ch hch).1 hMc hd).2
        exact ⟨by rw [(ihc ch hch).1 hd, this], this⟩
    · have hnt := h.not_numbered hM hN
      obtain ⟨gc, hch, hgc, hNc, hlit⟩ := h.childLit_not r hshape hg hM hnt.1 hnt.2
      have htc := h.numbered_temp hgc hNc
      rw [Circuit.litOf, hlit, Option.getD_some, litValue_neg a (by omega)] at hlp
      have hcalls : c.mirCalls g p = some [(gc, !p)] := by simp [Circuit.mirCalls, hnt.2, hch]
      have hσc := hD gc (by simp [hch]) (h.cone g hg hM gc (by simp [hch])) (!p)
        (hcl g hg hM p hf _ hcalls (gc, !p) (List.mem_singleton_self _))
        (by rw [Circuit.litOf, h.childLit_numbered hNc, Option.getD_some, ← hlp,
          Bool.not_not])
      rw [modelEval_eq r hl a hg (by simp [hnt.2]), hch]
      simp [hnt.2, hσc]
  refine ⟨fun hd => ?_, partB⟩
  by_cases hv : (c.gate g).type = .var
  · rw [modelEval_var hl a hg hv]
    split
    · rename_i hpos
      have hN := (h.numbered_iff hg).mpr hpos
      have hu := (h.unitClauses_value a hg hN (hmodel g hg hN).2).1 hd
      rwa [litValue_of_pos a hpos] at hu
    · simp [hd]
  obtain ⟨j, hj⟩ := Option.isSome_iff_exists.mp (isJustified_isSome hok)
  cases j
  · have hM := h.roots g hg hlive (Or.inr ⟨hd, hj⟩)
    exact partB hM _ (hroot g hg hlive hd hj) (hdetlit g hg hM hd).2
  · rw [modelEval_eq r hl a hg hv]
    exact isJustified_sound hj (fun ch hch hdch => (ihc ch hch).1 hdch) hv
      (cnfGateOk_not_length hok) (hconst g hg hd).1 (hconst g hg hd).2

theorem model_consistent : c.Consistent (c₂.modelEval a) := by
  intro g hg hl
  refine ⟨modelEval_eq r h.logic a hg, fun hd => ?_⟩
  exact (model_values r hshape hconst h flag hcl hroot a hmodel g hg hl.1).1 hd

end Model

section Sound

variable {c c₁ c₂ : Circuit} {coi notless : Bool} {m : Nat} (r : Ranking c)
  (hshape : c.CnfShaped notless) (h : Numbering c coi notless c₁ c₂ m)
  {σ : Nat → Bool} (hσ : c.Consistent σ)
include r hshape h hσ

omit r hshape hσ in
theorem varAssign_numbered {g : Nat} (hg : g < c.size) (hN : Numbered c₁ notless g) :
    c₂.varAssign σ (c₂.gate g).temp.natAbs = σ g := by
  have ht := h.numbered_temp hg hN
  have hcast : (((c₂.gate g).temp.natAbs : Nat) : Int) = (c₂.gate g).temp := by omega
  unfold Circuit.varAssign
  cases hσg : σ g
  · rw [List.any_eq_false]
    intro x hx hxv
    simp only [Bool.and_eq_true, beq_iff_eq, hcast] at hxv
    have hx' : x < c₁.size := by rw [← h.numbers.temps.size_eq]; exact List.mem_range.mp hx
    have := h.numbers.inj x hx' g (h.marks.size_eq ▸ hg) trivial trivial (by omega) hxv.1
    subst this
    simp [hσg] at hxv
  · exact List.any_eq_true.mpr ⟨g, List.mem_range.mpr (h.size_eq ▸ hg), by simp [hcast, hσg]⟩

theorem litValue_varAssign {g : Nat} (hg : g < c.size) (hM : c₁.Marked g) :
    litValue (c₂.varAssign σ) (c₂.litOf notless g) = σ g := by
  by_cases hN : Numbered c₁ notless g
  · have ht := h.numbered_temp hg hN
    rw [Circuit.litOf, h.childLit_numbered hN, Option.getD_some, litValue_of_pos _ (by omega),
      varAssign_numbered h hg hN]
  · have hnt := h.not_numbered hM hN
    obtain ⟨gc, hch, hgc, hNc, hlit⟩ := h.childLit_not r hshape hg hM hnt.1 hnt.2
    have htc := h.numbered_temp hgc hNc
    have heq := (hσ g hg (by simp [GateType.Live, hnt.2])).1 (by simp [hnt.2])
    rw [hnt.2, hch] at heq
    rw [Circuit.litOf, hlit, Option.getD_some, litValue_neg _ (by omega),
      litValue_of_pos _ (by omega), varAssign_numbered h hgc hNc, heq]
    simp

theorem varAssign_gate {g : Nat} (hg : g < c.size) (hN : Numbered c₁ notless g) :
    cnfValue (c₂.varAssign σ) (halvesOf (c.gate g).type (c₂.gate g).temp
        ((c.gate g).children.map (c₂.litOf notless))).1 = true ∧
    cnfValue (c₂.varAssign σ) (halvesOf (c.gate g).type (c₂.gate g).temp
        ((c.gate g).children.map (c₂.litOf notless))).2 = true ∧
    cnfValue (c₂.varAssign σ) (c₂.unitClauses g) = true := by
  have ht := h.numbered_temp hg hN
  have hgate := hσ g hg (cnfGateOk_live (hshape.gateOk hg (h.live g hg hN.1)))
  have hx : litValue (c₂.varAssign σ) (c₂.gate g).temp = σ g := by
    rw [litValue_of_pos _ (by omega), varAssign_numbered h hg hN]
  have hneg := litValue_neg (c₂.varAssign σ) (show (c₂.gate g).temp ≠ 0 by omega)
  have hunit : cnfValue (c₂.varAssign σ) (c₂.unitClauses g) = true := by
    simp only [Circuit.unitClauses, h.logic.determined_eq, h.logic.value_eq, h.logic.type_eq]
    by_cases hd : (c.gate g).determined
    · have := hgate.2 hd
      cases hv : (c.gate g).value <;> simp_all
    · by_cases htr : (c.gate g).type = .true
      · have := hgate.1 (by simp [htr]); simp_all [GateType.eval]
      · by_cases hfa : (c.gate g).type = .false
        · have := hgate.1 (by simp [hfa]); simp_all [GateType.eval]
        · simp [hd, htr, hfa]
  by_cases hc : (c.gate g).type = .false ∨ (c.gate g).type = .true ∨ (c.gate g).type = .var
  · rcases hc with hc | hc | hc <;> simp [hc, halvesOf, hunit]
  push_neg at hc
  have hv := h.halves_value r hshape hg hN hc (c₂.varAssign σ)
  have hch : ((c.gate g).children.map fun ch => litValue (c₂.varAssign σ) (c₂.litOf notless ch)) =
      (c.gate g).children.map σ := List.map_congr_left fun ch hch =>
    litValue_varAssign r hshape h hσ (r.child_lt g hg ch hch).1 (h.cone g hg hN.1 ch hch)
  rw [hch, hx, ← hgate.1 hc.2.2] at hv
  simp [hv, hunit]

end Sound

end BcSat
