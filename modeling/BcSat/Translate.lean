import BcSat.Emit

set_option autoImplicit false

/-!
# The clauses `bc2cnf` emits

The end-to-end facts about the back end of `main` on a circuit of the emitter's shape: the
numbering is a bijection onto `1..max_var`, every emitted literal is in range, the standard
translation is satisfiable exactly when the circuit has a consistent evaluation, and the
polarity translation of `-polarity_cnf` is equisatisfiable with it, every model of it giving a
consistent evaluation.
-/

namespace BcSat

/-- COI marking and numbering on a ranked circuit of the emitter's shape always succeed, and a
nonempty cone gives at least one variable. -/
theorem cone_numbering (c : Circuit) (coi notless : Bool) (r : Ranking c)
    (hshape : c.CnfShaped notless) :
    ∃ c₁ n, markRoots coi (c.resetTempFields (-1), 0) c.liveGates = some (c₁, n) ∧
      (0 < n → ∃ c₂ m, numberGates notless (c₁, 0) c.liveGates = some (c₂, m) ∧
        0 < m ∧ Numbering c coi notless c₁ c₂ m) := by
  obtain ⟨c₁, n, h₁, ht, htemp, hlive, hcone, hroots, -, hpos⟩ :=
    markRoots_cone c r coi (fun g hg hl => isJustified_isSome (hshape.gateOk hg hl))
      fun g hg hl => (hshape g hg hl).2
  refine ⟨c₁, n, h₁, fun hn => ?_⟩
  obtain ⟨c₂, m, h₂, hnum⟩ := numberGates_bijective ((ht.logic.cnfShaped_iff notless).mpr hshape)
    (ht.size_eq ▸ htemp) fun g hg hm => by
      rw [ht.type_eq]; exact hlive g (ht.size_eq ▸ hg) hm
  rw [ht.logic.liveGates_eq] at h₂
  have h : Numbering c coi notless c₁ c₂ m := ⟨ht, hlive, hcone, hroots, hnum⟩
  refine ⟨c₂, m, h₂, ?_, h⟩
  obtain ⟨g, hg, hM⟩ := hpos hn
  by_cases hN : Numbered c₁ notless g
  · have := h.numbered_temp hg hN; omega
  · have hnt := h.not_numbered hM hN
    obtain ⟨gc, -, hgc, hNc, -⟩ := h.childLit_not r hshape hg hM hnt.1 hnt.2
    have := h.numbered_temp hgc hNc; omega

theorem backEnd_dimacs {c c₁ c₂ : Circuit} {coi notless : Bool} {n m : Nat} (polarity : Bool)
    (h₁ : markRoots coi (c.resetTempFields (-1), 0) c.liveGates = some (c₁, n))
    (hn : 0 < n) (h₂ : numberGates notless (c₁, 0) c.liveGates = some (c₂, m))
    (hm : 0 < m) :
    backEnd coi notless polarity c =
      (if polarity then c₂.mirComputePolarityInformation else some c₂).bind fun c₃ =>
        (emitClauses polarity notless m c₃ c.liveGates).map (.dimacs m) := by
  simp only [backEnd, h₁, Option.some_bind, if_neg (show n ≠ 0 by omega), h₂,
    if_neg (show m ≠ 0 by omega)]

section Standard

variable {c c₁ c₂ : Circuit} {coi notless : Bool} {m : Nat} (r : Ranking c)
  (hshape : c.CnfShaped notless) (h : Numbering c coi notless c₁ c₂ m) {F : List Clause}
  (hF : emitClauses false notless m c₂ c.liveGates = some F)
include r hshape h hF

theorem standard_value (a : Nat → Bool) :
    cnfValue a F = true ↔ ∀ g < c.size, Numbered c₁ notless g →
      cnfValue a (halvesOf (c.gate g).type (c₂.gate g).temp
        ((c.gate g).children.map (c₂.litOf notless))).1 = true ∧
      cnfValue a (halvesOf (c.gate g).type (c₂.gate g).temp
        ((c.gate g).children.map (c₂.litOf notless))).2 = true ∧
      cnfValue a (c₂.unitClauses g) = true := by
  obtain ⟨F', hF', -, hv⟩ := h.emit_spec r hshape (FlagsOnly.refl c₂) false
  rw [hF] at hF'
  cases hF'
  simpa using hv a

/-- Every consistent evaluation, read through the variables, satisfies the standard
translation. -/
theorem standard_sound {σ : Nat → Bool} (hσ : c.Consistent σ) :
    cnfValue (c₂.varAssign σ) F = true :=
  (standard_value r hshape h hF _).mpr fun _ hg hN => varAssign_gate r hshape h hσ hg hN

variable (hconst : c.ConstantsAgree)
include hconst

/-- Every model of the standard translation gives a consistent evaluation that agrees with it on
the numbered gates. -/
theorem standard_complete {a : Nat → Bool} (ha : cnfValue a F = true) :
    c.Consistent (c₂.modelEval a) ∧
      ∀ g < c.size, Numbered c₁ notless g → c₂.modelEval a g = a (c₂.gate g).temp.natAbs := by
  have hmodel := (standard_value r hshape h hF a).mp ha
  have hm : ∀ g < c.size, Numbered c₁ notless g →
      (∀ p : Bool, (fun _ _ => Bool.true) g p = true → cnfValue a (if p then (halvesOf (c.gate g).type (c₂.gate g).temp
        ((c.gate g).children.map (c₂.litOf notless))).1 else (halvesOf (c.gate g).type
        (c₂.gate g).temp ((c.gate g).children.map (c₂.litOf notless))).2) = true) ∧
      cnfValue a (c₂.unitClauses g) = true := fun g hg hN => by
    obtain ⟨h₁, h₂, h₃⟩ := hmodel g hg hN
    exact ⟨fun p _ => by cases p <;> assumption, h₃⟩
  have hcl : ∀ g < c.size, c₁.Marked g → ∀ p : Bool, (fun _ _ => Bool.true) g p = true →
      ∀ calls, c.mirCalls g p = some calls → ∀ x ∈ calls,
        (c.gate x.1).determined ∨ (fun _ _ => Bool.true) x.1 x.2 = true :=
    fun _ _ _ _ _ _ _ _ _ => Or.inr rfl
  refine ⟨model_consistent r hshape hconst h _ hcl (fun _ _ _ _ _ => rfl) a hm, fun g hg hN => ?_⟩
  have ht := h.numbered_temp hg hN
  have hv := (model_values r hshape hconst h _ hcl (fun _ _ _ _ _ => rfl) a hm g hg (h.live g hg hN.1)).2 hN.1
    (litValue a (c₂.litOf notless g)) rfl rfl
  rwa [Circuit.litOf, h.childLit_numbered hN, Option.getD_some,
    litValue_of_pos a (by omega)] at hv

end Standard

/-- The standard translation. With the constants carrying their own values, the back end on an
acyclic circuit of the emitter's shape either takes the `sat_exit` shortcut (an empty cone) or
numbers the cone bijectively onto `1..max_var` and emits clauses whose literals are all in
range, that every consistent evaluation satisfies through the numbering, and whose every model
gives a consistent evaluation agreeing with it on the numbered gates. -/
theorem backEnd_standard (c : Circuit) (coi notless : Bool) (hacyc : c.Acyclic)
    (hshape : c.CnfShaped notless) (hconst : c.ConstantsAgree) :
    ∃ c₁ n, markRoots coi (c.resetTempFields (-1), 0) c.liveGates = some (c₁, n) ∧
      (0 < n → ∃ c₂ m F, numberGates notless (c₁, 0) c.liveGates = some (c₂, m) ∧
        backEnd coi notless false c = some (.dimacs m F) ∧
        (∀ g < c.size, (Numbered c₁ notless g → 1 ≤ (c₂.gate g).temp ∧ (c₂.gate g).temp ≤ m) ∧
          (¬Numbered c₁ notless g → (c₂.gate g).temp = -1)) ∧
        (∀ g < c.size, ∀ g' < c.size, 0 < (c₂.gate g).temp →
          (c₂.gate g).temp = (c₂.gate g').temp → g = g') ∧
        (∀ v : Nat, 1 ≤ v → v ≤ m → ∃ g < c.size, (c₂.gate g).temp = v) ∧
        (∀ cl ∈ F, ∀ l ∈ cl, l ≠ 0 ∧ l.natAbs ≤ m) ∧
        (∀ σ, c.Consistent σ → cnfValue (c₂.varAssign σ) F = true) ∧
        (∀ a, cnfValue a F = true → c.Consistent (c₂.modelEval a) ∧
          ∀ g < c.size, Numbered c₁ notless g → c₂.modelEval a g = a (c₂.gate g).temp.natAbs) ∧
        (CnfSatisfiable F ↔ c.Satisfiable)) := by
  obtain ⟨r⟩ := hacyc
  obtain ⟨c₁, n, h₁, hnum⟩ := cone_numbering c coi notless r hshape
  refine ⟨c₁, n, h₁, fun hn => ?_⟩
  obtain ⟨c₂, m, h₂, hm, h⟩ := hnum hn
  obtain ⟨F, hF, hlits, -⟩ := h.emit_spec r hshape (FlagsOnly.refl c₂) false
  have hs₁ := h.marks.size_eq
  refine ⟨c₂, m, F, h₂, by simp [backEnd_dimacs false h₁ hn h₂ hm, hF],
    fun g hg => ⟨h.numbered_temp hg, h.unnumbered_temp hg⟩,
    fun g hg g' hg' hpos heq => h.numbers.inj g (hs₁ ▸ hg) g' (hs₁ ▸ hg') trivial trivial hpos heq,
    fun v h1 hv => ?_, hlits, fun σ hσ => standard_sound r hshape h hF hσ,
    fun a ha => standard_complete r hshape h hF hconst ha, ?_⟩
  · obtain ⟨g, hg, -, hgv⟩ := h.numbers.onto v h1 hv
    exact ⟨g, hs₁ ▸ hg, hgv⟩
  · exact ⟨fun ⟨a, ha⟩ => ⟨_, (standard_complete r hshape h hF hconst ha).1⟩,
      fun ⟨σ, hσ⟩ => ⟨_, standard_sound r hshape h hF hσ⟩⟩

theorem backEnd_standard_or_gate :
    let c : Circuit := ⟨[{ type := .var, children := [] }, { type := .or, children := [0, 2] },
      { type := .true, children := [], determined := true, value := true },
      { type := .deleted, children := [] }]⟩
    ∃ F, backEnd false false false c = some (.dimacs 3 F) ∧ (CnfSatisfiable F ↔ c.Satisfiable) := by
  intro c
  obtain ⟨c₁, n, h₁, hF⟩ := backEnd_standard c false false
    ⟨.ofCheck (fun g => if g = 1 then 1 else 0) (by decide)⟩ (by decide) (by decide)
  have hn : (markRoots false (c.resetTempFields (-1), 0) c.liveGates).map Prod.snd =
      some 3 := by decide
  rw [h₁, Option.map_some'] at hn
  obtain ⟨c₂, m, F, -, hb, -, -, -, -, -, -, hsat⟩ := hF (by cases hn; decide)
  have hm : (backEnd false false false c).map (fun | .dimacs m _ => m | .sat _ => 0) = some 3 := by
    decide
  rw [hb, Option.map_some'] at hm
  cases hm
  exact ⟨F, hb, hsat⟩

section Polarity

variable {c c₁ c₂ c₃ : Circuit} {coi notless : Bool} {m : Nat} (r : Ranking c)
  (hshape : c.CnfShaped notless) (h : Numbering c coi notless c₁ c₂ m) (hf : FlagsOnly c₂ c₃)
  {F' : List Clause} (hF' : emitClauses true notless m c₃ c.liveGates = some F')
include r hshape h hf hF'

theorem polarity_of_standard {F : List Clause}
    (hF : emitClauses false notless m c₂ c.liveGates = some F) {a : Nat → Bool}
    (ha : cnfValue a F = true) : cnfValue a F' = true := by
  obtain ⟨F'', hF'', -, hv⟩ := h.emit_spec r hshape hf true
  rw [hF'] at hF''
  cases hF''
  refine (hv a).mpr fun g hg hN => ?_
  obtain ⟨h₁, h₂, h₃⟩ := (standard_value r hshape h hF a).mp ha g hg hN
  exact ⟨fun _ => h₁, fun _ => h₂, h₃⟩

variable (hconst : c.ConstantsAgree)
  (hcalls : ∀ g < c₂.size, ∀ p, c₃.mirFlag g p → ∀ calls, c₂.mirCalls g p = some calls →
    ∀ x ∈ calls, Reached c₃ x.1 x.2)
  (hdet : ∀ g < c₂.size, (c₂.gate g).type ≠ .deleted → (c₂.gate g).determined →
    Reached c₃ g (c₂.gate g).value)
include hconst hcalls hdet

/-- Once the flags are closed under the propagation and every determined gate is reached in its
value, every model of the polarity translation gives a consistent evaluation. -/
theorem polarity_complete {a : Nat → Bool} (ha : cnfValue a F' = true) :
    c.Consistent (c₂.modelEval a) := by
  obtain ⟨F'', hF'', -, hv⟩ := h.emit_spec r hshape hf true
  rw [hF'] at hF''
  cases hF''
  have hl := h.logic.trans hf.logic
  refine model_consistent r hshape hconst h c₃.mirFlag (fun g hg _ p hp calls hc x hx => ?_)
    (fun g hg hlv hd hj => ?_) a fun g hg hN => ?_
  · rcases hcalls g (h.size_eq ▸ hg) p hp calls (by rw [mirCalls_eq h.logic]; exact hc) x hx
      with ⟨hd, -⟩ | hx'
    · exact Or.inl (by rwa [hl.determined_eq] at hd)
    · exact Or.inr hx'
  · rcases hdet g (h.size_eq ▸ hg) (by rwa [h.logic.type_eq]) (by rwa [h.logic.determined_eq])
      with ⟨-, hne | hj'⟩ | hfl
    · exact absurd (hf.logic.value_eq g) hne
    · rw [hl.isJustified_eq, hj] at hj'; cases hj'
    · rwa [h.logic.value_eq] at hfl
  · obtain ⟨h₁, h₂, h₃⟩ := (hv a).mp ha g hg hN
    refine ⟨fun p hp => ?_, h₃⟩
    cases p
    · exact h₂ (by simpa using hp)
    · exact h₁ (by simpa using hp)

end Polarity

/-- The polarity translation of `-polarity_cnf`. With the constants carrying their own values,
past a nonempty cone the clauses emitted after the polarity computation are a weakening of the
standard translation that is still equisatisfiable with it, and every model of them, evaluated
bottom-up from the inputs, is a consistent evaluation of the circuit. -/
theorem backEnd_polarity (c : Circuit) (coi notless : Bool) (hacyc : c.Acyclic)
    (hshape : c.CnfShaped notless) (hconst : c.ConstantsAgree) :
    ∃ c₁ n, markRoots coi (c.resetTempFields (-1), 0) c.liveGates = some (c₁, n) ∧
      (0 < n → ∃ c₂ m F F', numberGates notless (c₁, 0) c.liveGates = some (c₂, m) ∧
        backEnd coi notless false c = some (.dimacs m F) ∧
        backEnd coi notless true c = some (.dimacs m F') ∧
        (∀ a, cnfValue a F = true → cnfValue a F' = true) ∧
        (∀ a, cnfValue a F' = true → c.Consistent (c₂.modelEval a)) ∧
        (CnfSatisfiable F' ↔ CnfSatisfiable F)) := by
  obtain ⟨r⟩ := hacyc
  obtain ⟨c₁, n, h₁, hnum⟩ := cone_numbering c coi notless r hshape
  refine ⟨c₁, n, h₁, fun hn => ?_⟩
  obtain ⟨c₂, m, h₂, hm, h⟩ := hnum hn
  obtain ⟨F, hF, -⟩ := h.emit_spec r hshape (FlagsOnly.refl c₂) false
  obtain ⟨c₃, h₃, hf, hcalls, hdet⟩ :=
    mirComputePolarityInformation_ok (h.logic.ranking r) ((h.logic.cnfShaped_iff notless).mpr hshape)
  obtain ⟨F', hF', -⟩ := h.emit_spec r hshape hf true
  have hweak : ∀ a, cnfValue a F = true → cnfValue a F' = true :=
    fun _ ha => polarity_of_standard r hshape h hf hF' hF ha
  have hmodel : ∀ a, cnfValue a F' = true → c.Consistent (c₂.modelEval a) :=
    fun _ ha => polarity_complete r hshape h hf hF' hconst hcalls hdet ha
  refine ⟨c₂, m, F, F', h₂, by simp [backEnd_dimacs false h₁ hn h₂ hm, hF],
    by simp [backEnd_dimacs true h₁ hn h₂ hm, h₃, hF'], hweak, hmodel,
    ⟨fun ⟨a, ha⟩ => ⟨_, standard_sound r hshape h hF (hmodel a ha)⟩, fun ⟨a, ha⟩ => ⟨a, hweak a ha⟩⟩⟩

theorem backEnd_polarity_or_gate :
    let c : Circuit := ⟨[{ type := .var, children := [] }, { type := .or, children := [0, 2] },
      { type := .true, children := [], determined := true, value := true },
      { type := .deleted, children := [] }]⟩
    ∃ F F', backEnd false false false c = some (.dimacs 3 F) ∧
      backEnd false false true c = some (.dimacs 3 F') ∧ (CnfSatisfiable F' ↔ CnfSatisfiable F) := by
  intro c
  obtain ⟨c₁, n, h₁, hF⟩ := backEnd_polarity c false false
    ⟨.ofCheck (fun g => if g = 1 then 1 else 0) (by decide)⟩ (by decide) (by decide)
  have hn : (markRoots false (c.resetTempFields (-1), 0) c.liveGates).map Prod.snd =
      some 3 := by decide
  rw [h₁, Option.map_some'] at hn
  obtain ⟨c₂, m, F, F', -, hb, hb', -, -, hsat⟩ := hF (by cases hn; decide)
  have hm : (backEnd false false false c).map (fun | .dimacs m _ => m | .sat _ => 0) = some 3 := by
    decide
  rw [hb, Option.map_some'] at hm
  cases hm
  exact ⟨F, F', hb, hb', hsat⟩

namespace Circuit

/-- The names of the name handles of gate `g`, in handle order. -/
def names (c : Circuit) (g : Nat) : List String :=
  (c.gate g).handles.filterMap fun
    | .name n => some n
    | .other => none

/-- The translation table loop of `main` over the gates `gs`: the pairs `(name, lit)` it
prints, in order; `none` is a read through a missing child. `main` prints a line
`c <name> <-> <lit>` for every name handle of a gate with a variable (`temp > 0`); under
`-polarity_cnf` only inputs get lines. The branch for a NOT-less `NOT`, which would print the
negated variable of its child, is never taken: the numbering gives such a gate `temp = -1`, and
the loop skips it first. -/
def translationTable (c : Circuit) (polarity notless : Bool) :
    List Nat → Option (List (String × Int))
  | [] => some []
  | g :: gs =>
    let rest := c.translationTable polarity notless gs
    if (c.gate g).temp ≤ 0 ∨ (polarity ∧ (c.gate g).type ≠ .var) then rest
    else if notless ∧ (c.gate g).type = .not then
      match (c.gate g).children with
      | ch :: _ => rest.map (((c.names g).map fun n => (n, -(c.gate ch).temp)) ++ ·)
      | [] => none
    else rest.map (((c.names g).map fun n => (n, (c.gate g).temp)) ++ ·)

end Circuit

/-- The table never names a NOT-less `NOT`: with `x` an input and the cone rooted at a true
`OR(n)`, the gate `n = NOT(x)` named `n` is in the cone, the back end reaches clause emission, and
no line of the table is for `n`; the line `c n <-> -1` for the variable `1` of `x` is missing. -/
theorem translationTable_notless_not :
    let c : Circuit := ⟨[{ type := .var, children := [] },
      { type := .not, children := [0], handles := [.name "n"] },
      { type := .or, children := [1], determined := true, value := true }]⟩
    c.Acyclic ∧ c.CnfShaped true ∧ (∃ F, backEnd true true false c = some (.dimacs 2 F)) ∧
      ∃ c₁ c₂ L, markRoots true (c.resetTempFields (-1), 0) c.liveGates = some (c₁, 3) ∧
        c₁.Marked 1 ∧ numberGates true (c₁, 0) c.liveGates = some (c₂, 2) ∧
        (c₂.gate 0).temp = 1 ∧ c₂.translationTable false true c.liveGates = some L ∧
        ∀ l, ("n", l) ∉ L :=
  ⟨⟨.ofCheck (fun g => g) (by decide)⟩, by decide, ⟨_, rfl⟩, _, _, _, rfl, by decide, rfl, rfl,
    rfl, fun _ => List.not_mem_nil _⟩

end BcSat
