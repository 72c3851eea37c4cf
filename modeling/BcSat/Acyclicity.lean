import Mathlib.Data.Finset.Card
import Mathlib.Logic.Relation
import BcSat.Coi

set_option autoImplicit false

/-!
# Finding cycles: `Gate::test_acyclicity`

The depth-first search of `Gate::test_acyclicity`. It colours the gates through their `temp`
fields: `CT_UNTEMP = 0` (not visited), `CT_IN_STACK = 1` (on the current path),
`CT_CYCLE_ENTRY = 2` (the gate on the path that a child edge came back to) and `CT_TEMP = 3`
(finished). A call returns `CTR_NO_CYCLE_FOUND`, `CTR_IN_CYCLE` (the call is on a cycle that is
being unwound, the names of its gates being appended to the list `cycle`) or
`CTR_CYCLE_FOUND` (the cycle has been closed at its entry gate, or the call lies on a path
leading to one).

From temps all `0`, calls on the gates one after another find a cycle exactly when the child
graph has one, never return `CTR_IN_CYCLE`, leave every gate at `CT_TEMP` when there is none,
and report the names of one simple cycle against the edge direction, from the entry gate back
to it.
-/

namespace BcSat

/-- The return codes `CTR_NO_CYCLE_FOUND`, `CTR_IN_CYCLE` and `CTR_CYCLE_FOUND`. -/
inductive CycleStatus where
  | noCycleFound
  | inCycle
  | cycleFound
  deriving DecidableEq, Repr

namespace Circuit

/-- `Gate::get_first_name`: the name of the first name handle of `g`. -/
def getFirstName (c : Circuit) (g : Nat) : Option String :=
  (c.gate g).handles.findSome? fun
    | .name n => some n
    | .other => none

/-- The child relation: an edge from `x` to each of its children. -/
def Edge (c : Circuit) (x y : Nat) : Prop := y ∈ (c.gate x).children

/-- Some gate is its own transitive child. -/
def HasCycle (c : Circuit) : Prop := ∃ g, Relation.TransGen c.Edge g g

/-- The gates of the store still at `CT_UNTEMP`: the measure of the search. -/
def unvisited (c : Circuit) : Nat :=
  ((Finset.range c.size).filter fun x => (c.gate x).temp = 0).card

theorem lt_size_of_edge {c : Circuit} {x y : Nat} (h : c.Edge x y) : x < c.size := by
  by_contra hx
  rw [Edge, c.gate_of_size_le (Nat.le_of_not_lt hx)] at h
  cases h

theorem temp_setTemp (c : Circuit) {g : Nat} (t : Int) (hg : g < c.size) (x : Nat) :
    ((c.setTemp g t).gate x).temp = if x = g then t else (c.gate x).temp := by
  split_ifs with hx
  · subst hx; exact c.temp_setTemp_self t hg
  · rw [c.gate_setTemp_of_ne t hx]

theorem temp_eq_zero (c : Circuit) (h0 : ∀ g < c.size, (c.gate g).temp = 0) (x : Nat) :
    (c.gate x).temp = 0 := by
  by_cases hx : x < c.size
  · exact h0 x hx
  · rw [c.gate_of_size_le (Nat.le_of_not_lt hx)]; rfl

theorem unvisited_le_size (c : Circuit) : c.unvisited ≤ c.size :=
  (Finset.card_filter_le _ _).trans (Finset.card_range _).le

end Circuit

namespace TempsOnly

variable {c c' : Circuit}

theorem edge_eq (h : TempsOnly c c') : c'.Edge = c.Edge := by
  funext x y; simp only [Circuit.Edge, h.children_eq]

theorem getFirstName_eq (h : TempsOnly c c') : c'.getFirstName = c.getFirstName := by
  funext g; rw [Circuit.getFirstName, Circuit.getFirstName, h.gate_eq g]

theorem hasCycle_iff (h : TempsOnly c c') : c'.HasCycle ↔ c.HasCycle := by
  simp only [Circuit.HasCycle, h.edge_eq]

theorem closed (h : TempsOnly c c') (hc : c.Closed) : c'.Closed := by
  intro x hx ch hch
  rw [h.size_eq] at hx ⊢; rw [h.children_eq] at hch
  exact hc x hx ch hch

theorem unvisited_le (h : TempsOnly c c') (hw : ∀ x, (c'.gate x).temp = 0 → (c.gate x).temp = 0) :
    c'.unvisited ≤ c.unvisited := by
  unfold Circuit.unvisited
  rw [h.size_eq]
  exact Finset.card_le_card fun x hx => by
    simp only [Finset.mem_filter] at hx ⊢; exact ⟨hx.1, hw x hx.2⟩

end TempsOnly

theorem unvisited_setTemp_lt {c : Circuit} {g : Nat} {t : Int} (hg : g < c.size)
    (h0 : (c.gate g).temp = 0) (ht : t ≠ 0) : (c.setTemp g t).unvisited < c.unvisited := by
  unfold Circuit.unvisited
  rw [Circuit.size_setTemp]
  apply Finset.card_lt_card
  refine (Finset.ssubset_iff_of_subset fun x hx => ?_).2 ⟨g, by simp [hg, h0], by simp [hg, ht]⟩
  simp only [Finset.mem_filter, c.temp_setTemp t hg] at hx ⊢
  split_ifs at hx with hx'
  · exact absurd hx.2 ht
  · exact hx

theorem filterMap_append_toList (f : Nat → Option String) (l : List Nat) (g : Nat) :
    l.filterMap f ++ (f g).toList = (l ++ [g]).filterMap f := by
  cases h : f g <;> simp [List.filterMap_append, h]

theorem transGen_of_chain {R : Nat → Nat → Prop} :
    ∀ {a b : Nat} {l : List Nat}, List.Chain R a (l ++ [b]) → Relation.TransGen R a b
  | _, _, [], h => .single (List.chain_singleton.1 h)
  | _, _, _ :: _, h => by
    rw [List.cons_append, List.chain_cons] at h
    exact .head h.1 (transGen_of_chain h.2)

/-- The state of the search: the circuit and the list `cycle`. -/
abbrev CycleState := Circuit × List String

/-- The child loop of `Gate::test_acyclicity` at gate `g`, `test` being the recursive call: a
child's `CTR_CYCLE_FOUND` is passed up; on a child's `CTR_IN_CYCLE` the gate appends its name,
and then passes `CTR_IN_CYCLE` up when it is `CT_IN_STACK`, and turns it into
`CTR_CYCLE_FOUND` when it is the `CT_CYCLE_ENTRY` (otherwise the assertion fails). The gate
ends at `CT_TEMP`. -/
def acyclicityLoop (test : CycleState → Nat → Option (CycleStatus × CycleState)) (g : Nat) :
    CycleState → List Nat → Option (CycleStatus × CycleState)
  | (c, cyc), [] => some (.noCycleFound, c.setTemp g 3, cyc)
  | s, ch :: chs => (test s ch).bind fun
    | (.noCycleFound, s) => acyclicityLoop test g s chs
    | (.cycleFound, c, cyc) => some (.cycleFound, c.setTemp g 3, cyc)
    | (.inCycle, c, cyc) =>
      let cyc := cyc ++ (c.getFirstName g).toList
      if (c.gate g).temp = 1 then some (.inCycle, c.setTemp g 3, cyc)
      else if (c.gate g).temp = 2 then some (.cycleFound, c.setTemp g 3, cyc)
      else none

/-- `Gate::test_acyclicity`: a `CT_TEMP` gate returns `CTR_NO_CYCLE_FOUND`; a `CT_IN_STACK`
gate appends its name, becomes the `CT_CYCLE_ENTRY` and returns `CTR_IN_CYCLE`; any other gate
goes `CT_IN_STACK` and runs the child loop. `none` is a temp outside `0..3` (the failed
assertion) or the fuel, a bound on the depth, running out. -/
def testAcyclicity : Nat → CycleState → Nat → Option (CycleStatus × CycleState)
  | 0, _, _ => none
  | fuel + 1, (c, cyc), g =>
    let t := (c.gate g).temp
    if ¬(0 ≤ t ∧ t ≤ 3) then none
    else if t = 3 then some (.noCycleFound, c, cyc)
    else if t = 1 then some (.inCycle, c.setTemp g 2, cyc ++ (c.getFirstName g).toList)
    else acyclicityLoop (testAcyclicity fuel) g (c.setTemp g 1, cyc) (c.gate g).children

/-- Modelled from the spec (the driver in bc.cc is not among the sources): `test_acyclicity` is
called on the gates `gs` one after another, each call with a depth bound above the store size,
and the run stops at the first call that does not return `CTR_NO_CYCLE_FOUND`. -/
def testAcyclicityAll : CycleState → List Nat → Option (CycleStatus × CycleState)
  | s, [] => some (.noCycleFound, s)
  | (c, cyc), g :: gs => (testAcyclicity (c.size + 1) (c, cyc) g).bind fun
    | (.noCycleFound, s) => testAcyclicityAll s gs
    | r => some r

/-- The colours between two calls, or between two children of the loop: every temp is
`CT_UNTEMP`, `CT_IN_STACK` or `CT_TEMP`; the children of a `CT_TEMP` gate are `CT_TEMP`; and no
`CT_TEMP` gate lies on a cycle. -/
structure Colouring (c : Circuit) : Prop where
  closed : c.Closed
  temp_mem : ∀ x, (c.gate x).temp = 0 ∨ (c.gate x).temp = 1 ∨ (c.gate x).temp = 3
  done_children : ∀ x, (c.gate x).temp = 3 → ∀ ch ∈ (c.gate x).children, (c.gate ch).temp = 3
  done_acyclic : ∀ x, (c.gate x).temp = 3 → ¬Relation.TransGen c.Edge x x

namespace Colouring

variable {c : Circuit} {g : Nat}

theorem init (hcl : c.Closed) (h0 : ∀ g < c.size, (c.gate g).temp = 0) : Colouring c where
  closed := hcl
  temp_mem x := .inl (c.temp_eq_zero h0 x)
  done_children x hx := absurd hx (by rw [c.temp_eq_zero h0 x]; decide)
  done_acyclic x hx := absurd hx (by rw [c.temp_eq_zero h0 x]; decide)

theorem done_of_reach (hc : Colouring c) {x y : Nat} (h : Relation.ReflTransGen c.Edge x y)
    (hx : (c.gate x).temp = 3) : (c.gate y).temp = 3 := by
  induction h with
  | refl => exact hx
  | tail _ hyz ih => exact hc.done_children _ ih _ hyz

theorem push (hc : Colouring c) (hg : g < c.size) (h0 : (c.gate g).temp = 0) :
    Colouring (c.setTemp g 1) where
  closed := (TempsOnly.setTemp c g 1).closed hc.closed
  temp_mem x := by
    rw [c.temp_setTemp 1 hg]; split_ifs
    · exact .inr (.inl rfl)
    · exact hc.temp_mem x
  done_children x hx ch hch := by
    rw [(TempsOnly.setTemp c g 1).children_eq] at hch
    rw [c.temp_setTemp 1 hg] at hx ⊢
    split_ifs at hx with hxg
    · cases hx
    · have hch3 := hc.done_children x hx ch hch
      rw [if_neg (fun h => by rw [h, h0] at hch3; cases hch3)]; exact hch3
  done_acyclic x hx := by
    rw [(TempsOnly.setTemp c g 1).edge_eq]
    rw [c.temp_setTemp 1 hg] at hx
    split_ifs at hx
    · cases hx
    · exact hc.done_acyclic x hx

theorem finish (hc : Colouring c) (hg : g < c.size) (h1 : (c.gate g).temp = 1)
    (hch : ∀ ch ∈ (c.gate g).children, (c.gate ch).temp = 3) : Colouring (c.setTemp g 3) where
  closed := (TempsOnly.setTemp c g 3).closed hc.closed
  temp_mem x := by
    rw [c.temp_setTemp 3 hg]; split_ifs
    · exact .inr (.inr rfl)
    · exact hc.temp_mem x
  done_children x hx ch hch' := by
    rw [(TempsOnly.setTemp c g 3).children_eq] at hch'
    rw [c.temp_setTemp 3 hg] at hx ⊢
    have hch3 : (c.gate ch).temp = 3 := by
      split_ifs at hx with hxg
      · exact hch ch (hxg ▸ hch')
      · exact hc.done_children x hx ch hch'
    split_ifs <;> first | rfl | exact hch3
  done_acyclic x hx := by
    rw [(TempsOnly.setTemp c g 3).edge_eq]
    rw [c.temp_setTemp 3 hg] at hx
    split_ifs at hx with hxg
    · subst hxg
      intro hcyc
      obtain ⟨ch, hgch, hreach⟩ := Relation.TransGen.head'_iff.1 hcyc
      have := hc.done_of_reach hreach (hch ch hgch)
      rw [h1] at this; cases this
    · exact hc.done_acyclic x hx

theorem done_keep {c₀ : Circuit} (hc : Colouring c)
    (hs : ∀ x, (c.gate x).temp = 1 ↔ (c₀.gate x).temp = 1)
    (hw : ∀ x, (c.gate x).temp = 0 → (c₀.gate x).temp = 0) {x : Nat}
    (hx : (c₀.gate x).temp = 3) : (c.gate x).temp = 3 := by
  rcases hc.temp_mem x with h | h | h
  · have := hw x h; omega
  · have := (hs x).1 h; omega
  · exact h

theorem not_hasCycle (hc : Colouring c) (h : ∀ g < c.size, (c.gate g).temp = 3) :
    ¬c.HasCycle := by
  rintro ⟨g, hcyc⟩
  obtain ⟨ch, hgch, -⟩ := Relation.TransGen.head'_iff.1 hcyc
  exact hc.done_acyclic g (h g (Circuit.lt_size_of_edge hgch)) hcyc

end Colouring

/-- What a call of `test_acyclicity` on gate `g` from `(c, cyc)` does, by its return code.
`CTR_NO_CYCLE_FOUND`: temps change, no name is appended, the colouring holds again with `g`
finished, the stack is as before and no gate went back to `CT_UNTEMP`. `CTR_IN_CYCLE`: there is
a path of child edges from `g` through unvisited gates `us` to a stack gate `e`, and the names
of `e` and of the path back to `g` are appended; `e` is now the `CT_CYCLE_ENTRY`, the rest of
the stack as before. `CTR_CYCLE_FOUND`: the names of a simple cycle are appended, against the
edge direction, from its entry gate back to it. -/
def CallSpec (c : Circuit) (cyc : List String) (g : Nat) : CycleStatus × CycleState → Prop
  | (.noCycleFound, c', cyc') => TempsOnly c c' ∧ cyc' = cyc ∧ Colouring c' ∧
      (c'.gate g).temp = 3 ∧ (∀ x, (c'.gate x).temp = 1 ↔ (c.gate x).temp = 1) ∧
      ∀ x, (c'.gate x).temp = 0 → (c.gate x).temp = 0
  | (.inCycle, c', cyc') => TempsOnly c c' ∧ ∃ e us, (c.gate e).temp = 1 ∧
      List.Chain' c.Edge (us ++ [e]) ∧ (us ++ [e]).head? = some g ∧ (us ++ [e]).Nodup ∧
      (∀ u ∈ us, (c.gate u).temp = 0) ∧ cyc' = cyc ++ (e :: us.reverse).filterMap c.getFirstName ∧
      ∀ x, (c.gate x).temp = 1 → (c'.gate x).temp = if x = e then 2 else 1
  | (.cycleFound, c', cyc') => TempsOnly c c' ∧ ∃ e vs, List.Chain c.Edge e (vs ++ [e]) ∧
      (e :: vs).Nodup ∧ cyc' = cyc ++ (e :: vs.reverse ++ [e]).filterMap c.getFirstName

/-- The state `c` of the child loop at `g` once the children `done` returned
`CTR_NO_CYCLE_FOUND`, the call having started from `c₀`. -/
structure LoopInv (c₀ : Circuit) (g : Nat) (done : List Nat) (c : Circuit) : Prop where
  temps : TempsOnly c₀ c
  colouring : Colouring c
  self : (c.gate g).temp = 1
  stack : ∀ x ≠ g, (c.gate x).temp = 1 ↔ (c₀.gate x).temp = 1
  white : ∀ x, (c.gate x).temp = 0 → (c₀.gate x).temp = 0
  done : ∀ x ∈ done, (c.gate x).temp = 3

section Call

variable {c₀ : Circuit} {g : Nat} {cyc : List String}

theorem LoopInv.start (hc : Colouring c₀) (hg : g < c₀.size) (h0 : (c₀.gate g).temp = 0) :
    LoopInv c₀ g [] (c₀.setTemp g 1) where
  temps := .setTemp _ _ _
  colouring := hc.push hg h0
  self := c₀.temp_setTemp_self 1 hg
  stack x hx := by rw [c₀.temp_setTemp 1 hg, if_neg hx]
  white x hx := by
    rw [c₀.temp_setTemp 1 hg] at hx
    split_ifs at hx
    · cases hx
    · exact hx
  done _ h := nomatch h

theorem LoopInv.next {done : List Nat} {c c₁ : Circuit} {ch : Nat} {cyc₁ : List String}
    (hinv : LoopInv c₀ g done c) (hspec : CallSpec c cyc ch (.noCycleFound, c₁, cyc₁)) :
    LoopInv c₀ g (done ++ [ch]) c₁ := by
  obtain ⟨ht, -, hcol, h3, hs, hw⟩ := hspec
  refine ⟨hinv.temps.trans ht, hcol, (hs g).2 hinv.self, fun x hx => (hs x).trans (hinv.stack x hx),
    fun x hx => hinv.white x (hw x hx), fun x hx => ?_⟩
  rcases List.mem_append.1 hx with hx | hx
  · exact hcol.done_keep hs hw (hinv.done x hx)
  · rw [List.mem_singleton.1 hx]; exact h3

theorem LoopInv.finish {c : Circuit} (hg : g < c₀.size) (h0 : (c₀.gate g).temp = 0)
    (hinv : LoopInv c₀ g (c₀.gate g).children c) :
    CallSpec c₀ cyc g (.noCycleFound, c.setTemp g 3, cyc) := by
  have hgc : g < c.size := hinv.temps.size_eq ▸ hg
  refine ⟨hinv.temps.trans (.setTemp _ _ _), rfl, hinv.colouring.finish hgc hinv.self
    (fun ch hch => hinv.done ch (hinv.temps.children_eq g ▸ hch)), c.temp_setTemp_self 3 hgc,
    fun x => ?_, fun x => ?_⟩
  · rw [c.temp_setTemp 3 hgc]
    split_ifs with hx
    · subst hx; rw [h0]; decide
    · exact hinv.stack x hx
  · rw [c.temp_setTemp 3 hgc]
    split_ifs with hx
    · intro h; cases h
    · exact hinv.white x

theorem LoopInv.cycleFound {done : List Nat} {c c₁ : Circuit} {ch : Nat} {cyc₁ : List String}
    (hinv : LoopInv c₀ g done c) (hspec : CallSpec c cyc ch (.cycleFound, c₁, cyc₁)) :
    CallSpec c₀ cyc g (.cycleFound, c₁.setTemp g 3, cyc₁) := by
  obtain ⟨ht, e, vs, hchain, hnd, rfl⟩ := hspec
  refine ⟨hinv.temps.trans (ht.trans (.setTemp _ _ _)), e, vs, ?_, hnd, ?_⟩
  · rwa [hinv.temps.edge_eq] at hchain
  · rw [hinv.temps.getFirstName_eq]

theorem LoopInv.inCycle {done : List Nat} {c c₁ : Circuit} {ch : Nat} {cyc₁ : List String}
    (hg : g < c₀.size) (h0 : (c₀.gate g).temp = 0) (hinv : LoopInv c₀ g done c) (hch : ch ∈ (c₀.gate g).children)
    (hspec : CallSpec c cyc ch (.inCycle, c₁, cyc₁)) :
    (c₁.gate g).temp = 1 ∧
        CallSpec c₀ cyc g (.inCycle, c₁.setTemp g 3, cyc₁ ++ (c₁.getFirstName g).toList) ∨
      (c₁.gate g).temp = 2 ∧
        CallSpec c₀ cyc g (.cycleFound, c₁.setTemp g 3, cyc₁ ++ (c₁.getFirstName g).toList) := by
  obtain ⟨ht, e, us, he, hchain, hhead, hnd, hwu, rfl, hmap⟩ := hspec
  have hts : TempsOnly c₀ (c₁.setTemp g 3) := hinv.temps.trans (ht.trans (.setTemp _ _ _))
  have hname : c₁.getFirstName = c₀.getFirstName := by
    rw [ht.getFirstName_eq, hinv.temps.getFirstName_eq]
  have hgus : g ∉ us := fun h => by have := hwu g h; rw [hinv.self] at this; cases this
  -- the path from `g`: the edge to `ch`, then the child's path to `e`
  have hpath : List.Chain' c₀.Edge (g :: (us ++ [e])) := by
    rw [← hinv.temps.edge_eq]
    refine hchain.cons' fun y hy => ?_
    rw [hhead, Option.mem_some_iff] at hy
    exact hy ▸ (hinv.temps.children_eq g ▸ hch : ch ∈ (c.gate g).children)
  have hg1 := hmap g hinv.self
  by_cases hge : g = e
  · subst hge
    refine .inr ⟨by rw [hg1, if_pos rfl], hts, g, us, hpath, List.nodup_cons.2 ⟨hgus,
      (List.nodup_append.1 hnd).1⟩, ?_⟩
    rw [hname, hinv.temps.getFirstName_eq, List.append_assoc, filterMap_append_toList]
  · refine .inl ⟨by rw [hg1, if_neg hge], hts, e, g :: us, (hinv.stack e (Ne.symm hge)).1 he,
      hpath, rfl, List.nodup_cons.2 ⟨by simp [hgus, hge], hnd⟩, ?_, ?_, fun x hx => ?_⟩
    · rintro u (_ | ⟨_, hu⟩)
      · exact h0
      · exact hinv.white u (hwu u hu)
    · rw [hname, hinv.temps.getFirstName_eq, List.append_assoc, filterMap_append_toList,
        List.reverse_cons]; rfl
    · have hxg : x ≠ g := fun h => by rw [h, h0] at hx; cases hx
      rw [c₁.temp_setTemp 3 (by rw [ht.size_eq, hinv.temps.size_eq]; exact hg) x, if_neg hxg]
      exact hmap x ((hinv.stack x hxg).2 hx)

/-- The child loop, from a loop state, given the recursive call on every child whose unvisited
gates are below the fuel. -/
theorem acyclicityLoop_spec {fuel : Nat}
    (ih : ∀ (c : Circuit) (cyc : List String) (x : Nat), Colouring c → x < c.size →
      c.unvisited < fuel → ∃ r, testAcyclicity fuel (c, cyc) x = some r ∧ CallSpec c cyc x r)
    (hg : g < c₀.size) (h0 : (c₀.gate g).temp = 0) (cyc : List String) :
    ∀ (chs done : List Nat) (c : Circuit), LoopInv c₀ g done c →
      done ++ chs = (c₀.gate g).children → c.unvisited < fuel →
      ∃ r, acyclicityLoop (testAcyclicity fuel) g (c, cyc) chs = some r ∧ CallSpec c₀ cyc g r
  | [], done, c, hinv, hdone, _ => by
    rw [List.append_nil] at hdone; subst hdone
    exact ⟨_, rfl, hinv.finish hg h0⟩
  | ch :: chs, done, c, hinv, hdone, hf => by
    have hch : ch ∈ (c₀.gate g).children := hdone ▸ List.mem_append_right _ (List.mem_cons_self _ _)
    have hchs : ch < c.size := hinv.colouring.closed g (by rw [hinv.temps.size_eq]; exact hg) ch
      (by rw [hinv.temps.children_eq]; exact hch)
    obtain ⟨⟨st, c₁, cyc₁⟩, hr, hspec⟩ := ih c cyc ch hinv.colouring hchs hf
    rw [acyclicityLoop, hr, Option.some_bind]
    cases st
    · obtain ⟨ht, hcyc, -, -, -, hw⟩ := id hspec
      subst cyc₁
      exact acyclicityLoop_spec ih hg h0 cyc chs (done ++ [ch]) c₁ (hinv.next hspec)
        (by rw [List.append_assoc]; exact hdone) (lt_of_le_of_lt (ht.unvisited_le hw) hf)
    · rcases hinv.inCycle hg h0 hch hspec with ⟨h1, hres⟩ | ⟨h2, hres⟩
      · exact ⟨_, by simp only [h1, if_true], hres⟩
      · exact ⟨_, by simp only [h2]; rfl, hres⟩
    · exact ⟨_, rfl, hinv.cycleFound hspec⟩

end Call

/-- Every call on a gate of the store from a colouring, with more fuel than unvisited gates,
returns, and does what `CallSpec` says. -/
theorem testAcyclicity_spec :
    ∀ (fuel : Nat) (c : Circuit) (cyc : List String) (g : Nat), Colouring c → g < c.size →
      c.unvisited < fuel → ∃ r, testAcyclicity fuel (c, cyc) g = some r ∧ CallSpec c cyc g r
  | 0, _, _, _, _, _, hf => absurd hf (Nat.not_lt_zero _)
  | fuel + 1, c, cyc, g, hc, hg, hf => by
    rcases hc.temp_mem g with h0 | h1 | h3
    · have hrun := acyclicityLoop_spec (fun c cyc x => testAcyclicity_spec fuel c cyc x) hg h0 cyc
        (c.gate g).children [] (c.setTemp g 1) (.start hc hg h0) rfl
        (by have := unvisited_setTemp_lt (t := 1) hg h0 (by decide); omega)
      simpa [testAcyclicity, h0] using hrun
    · refine ⟨(.inCycle, c.setTemp g 2, cyc ++ (c.getFirstName g).toList),
        by simp [testAcyclicity, h1], .setTemp _ _ _, g, [], h1, List.chain'_singleton _,
        rfl, List.nodup_singleton _, nofun, congrArg (cyc ++ ·) (filterMap_append_toList _ [] g),
        fun x hx => ?_⟩
      rw [c.temp_setTemp 2 hg, hx]
    · exact ⟨(.noCycleFound, c, cyc), by simp [testAcyclicity, h3], .refl _, rfl, hc, h3, fun _ => Iff.rfl, fun _ h => h⟩

/-- What the calls on the gates `gs` from `(c, cyc)` return: `CTR_NO_CYCLE_FOUND` with the
colouring restored, no gate on the stack, every finished gate kept and every gate of `gs`
finished; never `CTR_IN_CYCLE`; or `CTR_CYCLE_FOUND` with the names of a simple cycle
appended. -/
def AllSpec (c : Circuit) (cyc : List String) (gs : List Nat) : CycleStatus × CycleState → Prop
  | (.noCycleFound, c', cyc') => TempsOnly c c' ∧ cyc' = cyc ∧ Colouring c' ∧
      (∀ x, (c'.gate x).temp ≠ 1) ∧ (∀ x, (c.gate x).temp = 3 → (c'.gate x).temp = 3) ∧
      ∀ g ∈ gs, (c'.gate g).temp = 3
  | (.inCycle, _) => False
  | (.cycleFound, _, cyc') => ∃ e vs, List.Chain c.Edge e (vs ++ [e]) ∧ (e :: vs).Nodup ∧
      cyc' = cyc ++ (e :: vs.reverse ++ [e]).filterMap c.getFirstName

theorem testAcyclicityAll_spec (cyc : List String) :
    ∀ (gs : List Nat) (c : Circuit), Colouring c → (∀ x, (c.gate x).temp ≠ 1) →
      (∀ g ∈ gs, g < c.size) → ∃ r, testAcyclicityAll (c, cyc) gs = some r ∧ AllSpec c cyc gs r
  | [], c, hc, hn, _ => ⟨_, rfl, .refl _, rfl, hc, hn, fun _ h => h, nofun⟩
  | g :: gs, c, hc, hn, hgs => by
    obtain ⟨⟨st, c₁, cyc₁⟩, hr, hspec⟩ := testAcyclicity_spec (c.size + 1) c cyc g hc
      (hgs g (List.mem_cons_self _ _)) (Nat.lt_succ_of_le c.unvisited_le_size)
    rw [testAcyclicityAll, hr, Option.some_bind]
    cases st
    · obtain ⟨ht, hcyc, hcol, h3, hs, hw⟩ := hspec
      subst cyc₁
      obtain ⟨⟨st', c', cyc'⟩, hr', hspec'⟩ := testAcyclicityAll_spec cyc gs c₁ hcol
        (fun x h => hn x ((hs x).1 h)) (fun x hx => ht.size_eq ▸ hgs x (List.mem_cons_of_mem _ hx))
      refine ⟨_, hr', ?_⟩
      cases st'
      · obtain ⟨ht', rfl, hcol', hn', hk', hgs'⟩ := hspec'
        exact ⟨ht.trans ht', rfl, hcol', hn', fun x hx => hk' x (hcol.done_keep hs hw hx),
          List.forall_mem_cons.2 ⟨hk' g h3, hgs'⟩⟩
      · exact hspec'.elim
      · obtain ⟨e, vs, hch, hnd, rfl⟩ := hspec'
        exact ⟨e, vs, ht.edge_eq ▸ hch, hnd, by rw [ht.getFirstName_eq]⟩
    · obtain ⟨-, e, -, he, -⟩ := hspec
      exact absurd he (hn e)
    · obtain ⟨-, e, vs, hch, hnd, rfl⟩ := hspec
      exact ⟨_, rfl, e, vs, hch, hnd, rfl⟩

/-- From temps all `CT_UNTEMP`, the calls of `test_acyclicity` on the gates of the store one
after another return: the last returns `CTR_CYCLE_FOUND` exactly when the child graph has a
directed cycle, and never `CTR_IN_CYCLE`; with no cycle every call returns
`CTR_NO_CYCLE_FOUND`, nothing is appended to `cycle` and every gate is left `CT_TEMP`; with a
cycle the names appended are those of the named gates of a simple cycle `e → v₁ → … → vₖ → e`,
in the order `e, vₖ, …, v₁, e`. -/
theorem testAcyclicityAll_finds_cycle (c : Circuit) (hcl : c.Closed)
    (h0 : ∀ g < c.size, (c.gate g).temp = 0) (cyc : List String) :
    ∃ st c' cyc', testAcyclicityAll (c, cyc) (List.range c.size) = some (st, c', cyc') ∧
      st ≠ .inCycle ∧ (st = .cycleFound ↔ c.HasCycle) ∧
      (st = .noCycleFound → cyc' = cyc ∧ ∀ g < c.size, (c'.gate g).temp = 3) ∧
      (st = .cycleFound → ∃ e vs, List.Chain c.Edge e (vs ++ [e]) ∧ (e :: vs).Nodup ∧
        cyc' = cyc ++ (e :: vs.reverse ++ [e]).filterMap c.getFirstName) := by
  obtain ⟨⟨st, c', cyc'⟩, hr, hspec⟩ := testAcyclicityAll_spec cyc (List.range c.size) c
    (.init hcl h0) (fun x => by rw [c.temp_eq_zero h0 x]; decide) (fun _ => List.mem_range.1)
  refine ⟨st, c', cyc', hr, ?_⟩
  cases st
  · obtain ⟨ht, rfl, hcol, -, -, hgs⟩ := hspec
    have hall : ∀ g < c.size, (c'.gate g).temp = 3 := fun g hg => hgs g (List.mem_range.2 hg)
    refine ⟨nofun, ⟨nofun, fun hcyc => ?_⟩, fun _ => ⟨rfl, hall⟩, nofun⟩
    exact absurd (ht.hasCycle_iff.2 hcyc) (hcol.not_hasCycle fun g hg => hall g (ht.size_eq ▸ hg))
  · exact hspec.elim
  · obtain ⟨e, vs, hch, hnd, rfl⟩ := hspec
    exact ⟨nofun, ⟨fun _ => ⟨e, transGen_of_chain hch⟩, fun _ => rfl⟩, nofun,
      fun _ => ⟨e, vs, hch, hnd, rfl⟩⟩

/-- A loop of two named gates, `a = OR(b)` and `b = NOT(a)`. -/
theorem testAcyclicityAll_finds_cycle_two_loop :
    let c : Circuit := ⟨[{ type := .or, children := [1], handles := [.name "a"] },
      { type := .not, children := [0], handles := [.name "b"] }]⟩
    c.Closed ∧ (∀ g < c.size, (c.gate g).temp = 0) ∧
      ∃ st c' cyc', testAcyclicityAll (c, []) (List.range c.size) = some (st, c', cyc') ∧
        st ≠ .inCycle ∧ (st = .cycleFound ↔ c.HasCycle) ∧
        (st = .noCycleFound → cyc' = [] ∧ ∀ g < c.size, (c'.gate g).temp = 3) ∧
        (st = .cycleFound → ∃ e vs, List.Chain c.Edge e (vs ++ [e]) ∧ (e :: vs).Nodup ∧
          cyc' = [] ++ (e :: vs.reverse ++ [e]).filterMap c.getFirstName) :=
  ⟨by decide, by decide, testAcyclicityAll_finds_cycle _ (by decide) (by decide) []⟩

example : (testAcyclicityAll (⟨[{ type := .or, children := [1], handles := [.name "a"] },
    { type := .not, children := [0], handles := [.name "b"] }]⟩, []) [0, 1]).map
      (fun r => (r.1, r.2.2)) = some (.cycleFound, ["a", "b", "a"]) := by decide

end BcSat
