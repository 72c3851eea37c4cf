import Mathlib.Data.List.Sort
import Mathlib.Algebra.Group.Nat.Basic
import BcSat.Share

set_option autoImplicit false

/-!
# `Gate::sort_children` sorts

The radix sort of `sort_children` reads the digit `(index >> shift) & MASK` over `N = 2 << 4`
buckets, a window of 5 bits, but advances `shift` by `SHIFT = 4`: consecutive windows overlap in
one bit. The overlap is harmless. A list sorted by its low `p` bits, with `shift ≤ p ≤ shift + 5`,
is sorted by its low `shift + 5` bits after the stable pass at `shift`: two indices in one bucket
agree on bits `shift` to `shift + 4` and keep the order of their low `shift` bits, and the
buckets come in increasing order. The passes run while the largest index shifted right by `4`
per pass is not zero, so the last window reaches past every bit of every index. With the
indices of 32-bit `unsigned int`s, no pass shifts by 32 or more.
-/

namespace BcSat

theorem flatMap_range_filter_perm (key : Nat → Nat) (xs : List Nat) :
    ∀ n, ((List.range n).flatMap fun d => xs.filter fun x => key x = d).Perm
      (xs.filter fun x => key x < n)
  | 0 => by simp
  | n + 1 => by
    rw [List.range_succ, List.flatMap_append, List.flatMap_singleton]
    have h := List.filter_append_perm (fun x => decide (key x < n))
      (xs.filter fun x => key x < n + 1)
    have e₁ : (xs.filter fun x => decide (key x < n) && decide (key x < n + 1)) =
        xs.filter fun x => key x < n := List.filter_congr fun x _ => by
      rw [Bool.eq_iff_iff]; simp only [Bool.and_eq_true, decide_eq_true_eq]; omega
    have e₂ : (xs.filter fun x => !decide (key x < n) && decide (key x < n + 1)) =
        xs.filter fun x => key x = n := List.filter_congr fun x _ => by
      rw [Bool.eq_iff_iff]
      simp only [Bool.and_eq_true, Bool.not_eq_true', decide_eq_false_iff_not, decide_eq_true_eq]
      omega
    rw [List.filter_filter, List.filter_filter, e₁, e₂] at h
    exact ((flatMap_range_filter_perm key xs n).append_right _).trans h

theorem radixPass_perm (shift : Nat) (xs : List Nat) : (radixPass shift xs).Perm xs := by
  refine (flatMap_range_filter_perm _ xs 32).trans ?_
  rw [List.filter_eq_self.2 fun x _ => decide_eq_true (Nat.mod_lt _ (by decide))]

theorem mod_two_pow_add_five (x shift : Nat) :
    x % 2 ^ (shift + 5) = x % 2 ^ shift + 2 ^ shift * ((x >>> shift) % 32) := by
  rw [Nat.shiftRight_eq_div_pow, Nat.pow_add, Nat.mod_mul]

theorem mod_le_of_digit_eq {a b shift p : Nat} (h₁ : shift ≤ p) (h₂ : p ≤ shift + 5)
    (hd : (a >>> shift) % 32 = (b >>> shift) % 32) (h : a % 2 ^ p ≤ b % 2 ^ p) :
    a % 2 ^ shift ≤ b % 2 ^ shift := by
  have hdvd : 2 ^ (p - shift) ∣ 32 := Nat.pow_dvd_pow 2 (show p - shift ≤ 5 by omega)
  have hhigh : a / 2 ^ shift % 2 ^ (p - shift) = b / 2 ^ shift % 2 ^ (p - shift) := by
    rw [← Nat.mod_mod_of_dvd _ hdvd, ← Nat.mod_mod_of_dvd (b / _) hdvd,
      ← Nat.shiftRight_eq_div_pow, ← Nat.shiftRight_eq_div_pow, hd]
  rw [show p = shift + (p - shift) by omega, Nat.pow_add, Nat.mod_mul, Nat.mod_mul, hhigh] at h
  omega

theorem pairwise_radixPass {shift p : Nat} (h₁ : shift ≤ p) (h₂ : p ≤ shift + 5) {xs : List Nat}
    (hs : xs.Pairwise fun a b => a % 2 ^ p ≤ b % 2 ^ p) :
    (radixPass shift xs).Pairwise fun a b => a % 2 ^ (shift + 5) ≤ b % 2 ^ (shift + 5) := by
  unfold radixPass
  rw [List.pairwise_flatMap]
  constructor
  · -- within a bucket: the digits agree and the old order decides
    refine fun d _ => (hs.filter _).imp_of_mem fun ha hb hab => ?_
    have hda := of_decide_eq_true (List.mem_filter.1 ha).2
    have hdb := of_decide_eq_true (List.mem_filter.1 hb).2
    have := mod_le_of_digit_eq h₁ h₂ (hda.trans hdb.symm) hab
    rw [mod_two_pow_add_five, mod_two_pow_add_five, hda, hdb]
    omega
  · -- across buckets: the digits decide
    refine (List.pairwise_lt_range 32).imp fun hd a ha b hb => ?_
    have hda := of_decide_eq_true (List.mem_filter.1 ha).2
    have hdb := of_decide_eq_true (List.mem_filter.1 hb).2
    have hlow := Nat.mod_lt a (Nat.two_pow_pos shift)
    have hmul := Nat.mul_le_mul_left (2 ^ shift) (show (a >>> shift) % 32 + 1 ≤ (b >>> shift) % 32
      by omega)
    rw [Nat.mul_succ] at hmul
    rw [mod_two_pow_add_five, mod_two_pow_add_five]
    omega

theorem radixDigit_eq_uint32 {x shift : Nat} (hx : x < 2 ^ 32) (hs : shift < 32) :
    ((x.toUInt32 >>> shift.toUInt32) &&& 31).toNat = (x >>> shift) % 32 := by
  have hsh : (shift.toUInt32.mod 32).toBitVec.toNat = shift := by
    show (BitVec.ofNat 32 shift % BitVec.ofNat 32 32).toNat = shift
    rw [BitVec.toNat_umod, BitVec.toNat_ofNat, BitVec.toNat_ofNat,
      Nat.mod_eq_of_lt (show shift < 2 ^ 32 by omega)]
    exact Nat.mod_eq_of_lt hs
  show ((x.toUInt32.toBitVec >>> (shift.toUInt32.mod 32).toBitVec.toNat) &&&
    (31 : UInt32).toBitVec).toNat = _
  rw [BitVec.toNat_and, BitVec.toNat_ushiftRight, hsh]
  show (BitVec.ofNat 32 x).toNat >>> shift &&& (BitVec.ofNat 32 31).toNat = _
  rw [BitVec.toNat_ofNat, BitVec.toNat_ofNat, Nat.mod_eq_of_lt hx]
  exact Nat.and_pow_two_sub_one_eq_mod _ 5

theorem radixPasses_perm : ∀ (fuel largest shift : Nat) (xs : List Nat),
    (radixPasses fuel largest shift xs).Perm xs
  | 0, _, _, _ => .refl _
  | fuel + 1, largest, shift, xs => by
    unfold radixPasses
    split_ifs
    · exact .refl _
    · exact (radixPasses_perm fuel _ _ _).trans (radixPass_perm shift xs)

theorem pairwise_le_of_shiftRight_eq_zero {shift p : Nat} (h₁ : shift ≤ p) {xs : List Nat}
    (hx : ∀ x ∈ xs, x >>> shift = 0) (hs : xs.Pairwise fun a b => a % 2 ^ p ≤ b % 2 ^ p) :
    xs.Pairwise (· ≤ ·) := by
  have hlt : ∀ x ∈ xs, x % 2 ^ p = x := fun x h => Nat.mod_eq_of_lt <|
    calc x < 2 ^ shift := (Nat.div_eq_zero_iff (Nat.two_pow_pos _)).1
          (by rw [← Nat.shiftRight_eq_div_pow]; exact hx x h)
      _ ≤ 2 ^ p := Nat.pow_le_pow_right (by decide) h₁
  exact hs.imp_of_mem fun ha hb hab => by rwa [hlt _ ha, hlt _ hb] at hab

theorem pairwise_radixPasses : ∀ (fuel largest shift p : Nat) (xs : List Nat), largest ≤ fuel →
    shift ≤ p → p ≤ shift + 5 → (∀ x ∈ xs, x >>> shift ≤ largest) →
    xs.Pairwise (fun a b => a % 2 ^ p ≤ b % 2 ^ p) → (radixPasses fuel largest shift xs).Pairwise (· ≤ ·)
  | 0, largest, shift, p, xs, hf, h₁, _, hx, hs =>
    pairwise_le_of_shiftRight_eq_zero h₁ (fun x h => Nat.eq_zero_of_le_zero ((hx x h).trans hf)) hs
  | fuel + 1, largest, shift, p, xs, hf, h₁, h₂, hx, hs => by
    unfold radixPasses
    split_ifs with h0
    · exact pairwise_le_of_shiftRight_eq_zero h₁
        (fun x h => Nat.eq_zero_of_le_zero ((hx x h).trans h0.le)) hs
    · refine pairwise_radixPasses fuel _ (shift + 4) (shift + 5) _ ?_ (by omega) (by omega)
        (fun x h => ?_) (pairwise_radixPass h₁ h₂ hs)
      · rw [Nat.shiftRight_eq_div_pow]; omega
      · rw [Nat.shiftRight_add, Nat.shiftRight_eq_div_pow (x >>> shift),
          Nat.shiftRight_eq_div_pow largest]
        exact Nat.div_le_div_right (hx x ((radixPass_perm shift xs).mem_iff.1 h))

theorem radixPasses_eq_foldl : ∀ (fuel largest shift : Nat) (xs : List Nat), largest ≤ fuel →
    ∃ K, largest >>> (4 * K) = 0 ∧ (∀ k < K, largest >>> (4 * k) ≠ 0) ∧
      radixPasses fuel largest shift xs =
        (List.range K).foldl (fun xs k => radixPass (shift + 4 * k) xs) xs
  | 0, largest, _, xs, hf => ⟨0, by simp; omega, fun _ h => absurd h (Nat.not_lt_zero _), rfl⟩
  | fuel + 1, largest, shift, xs, hf => by
    unfold radixPasses
    split_ifs with h0
    · exact ⟨0, by simpa using h0, fun _ h => absurd h (Nat.not_lt_zero _), rfl⟩
    obtain ⟨K, hK, hlt, heq⟩ := radixPasses_eq_foldl fuel (largest >>> 4) (shift + 4)
      (radixPass shift xs) (by rw [Nat.shiftRight_eq_div_pow]; omega)
    refine ⟨K + 1, by rwa [Nat.mul_succ, Nat.add_comm, Nat.shiftRight_add], fun k hk => ?_, ?_⟩
    · rcases k with _ | k
      · simpa using h0
      · rw [Nat.mul_succ, Nat.add_comm, Nat.shiftRight_add]; exact hlt k (by omega)
    · rw [heq, List.range_succ_eq_map, List.foldl_cons, List.foldl_map]
      congr 1
      funext ys k
      congr 1
      omega

theorem alreadySorted_pairwise : ∀ (xs : List Nat) (largest : Nat), alreadySorted xs largest →
    xs.Pairwise (· ≤ ·) ∧ ∀ x ∈ xs, largest ≤ x
  | [], _, _ => ⟨.nil, fun _ h => absurd h (List.not_mem_nil _)⟩
  | x :: xs, largest, h => by
    simp only [alreadySorted, Bool.and_eq_true, decide_eq_true_eq] at h
    obtain ⟨hs, hge⟩ := alreadySorted_pairwise xs x h.2
    exact ⟨.cons hge hs, fun y hy => (List.mem_cons.1 hy).elim (· ▸ h.1)
      fun hy => h.1.trans (hge y hy)⟩

theorem le_foldl_max : ∀ (xs : List Nat) (m : Nat), m ≤ xs.foldl max m ∧ ∀ x ∈ xs, x ≤ xs.foldl max m
  | [], _ => ⟨le_rfl, fun _ h => absurd h (List.not_mem_nil _)⟩
  | x :: xs, m => by
    obtain ⟨hm, hx⟩ := le_foldl_max xs (max m x)
    exact ⟨(le_max_left m x).trans hm, fun y hy => (List.mem_cons.1 hy).elim
      (fun e => e ▸ (le_max_right m x).trans hm) (hx y)⟩

/-- `sort_children` leaves the indices of the children permuted. -/
theorem sortIndices_perm (xs : List Nat) : (sortIndices xs).Perm xs := by
  unfold sortIndices
  split_ifs
  · exact .refl _
  · exact radixPasses_perm _ _ _ _

/-- `sort_children` leaves the indices of the children in non-decreasing order. -/
theorem sortIndices_sorted (xs : List Nat) : (sortIndices xs).Sorted (· ≤ ·) := by
  unfold sortIndices
  split_ifs with h
  · exact (alreadySorted_pairwise xs 0 h).1
  · exact pairwise_radixPasses _ _ 0 0 xs le_rfl le_rfl (by omega)
      (le_foldl_max xs 0).2
      (List.pairwise_of_forall fun a b => by simp [Nat.mod_one])

theorem foldl_max_lt {B : Nat} : ∀ (xs : List Nat) (m : Nat), m < B → (∀ x ∈ xs, x < B) →
    xs.foldl max m < B
  | [], _, hm, _ => hm
  | x :: xs, _, hm, hx =>
    foldl_max_lt xs _ (max_lt hm (hx x (.head _))) fun y hy => hx y (.tail _ hy)

theorem four_mul_lt_of_shiftRight_ne_zero {largest k : Nat} (hl : largest < 2 ^ 32)
    (h : largest >>> (4 * k) ≠ 0) : 4 * k < 32 := by
  by_contra hk
  refine h ?_
  rw [Nat.shiftRight_eq_div_pow]
  exact Nat.div_eq_of_lt (hl.trans_le (Nat.pow_le_pow_right (by decide) (by omega)))

namespace BC

/-- `Gate::sort_children` on a gate with child indices below `UINT_MAX`: on a type that is not
commutative it returns at once, and on a commutative type it leaves the children permuted into
non-decreasing order. Unless the scan finds them already so, the list is the result of the passes
at shifts `0, 4, …, 4 * (K - 1)`, for the first `K` with `largest >> 4 * K = 0`; every such shift
is below 32, where each pass reads the `unsigned int` digit `(index >> shift) & MASK`. -/
theorem sortChildren_sorts_commutative (s : BC) (g : Nat)
    (hmax : ∀ x ∈ (s.gate g).children, x < 2 ^ 32 - 1) :
    let chs := (s.gate g).children
    let largest := chs.foldl max 0
    ((s.gate g).type.isCommutative = false → s.sortChildren g = s) ∧
    ((s.gate g).type.isCommutative = true →
      ((s.sortChildren g).gate g).children.Perm chs ∧
      ((s.sortChildren g).gate g).children.Sorted (· ≤ ·) ∧
      (alreadySorted chs 0 = false → ∃ K, largest >>> (4 * K) = 0 ∧
        (∀ k < K, largest >>> (4 * k) ≠ 0 ∧ 4 * k < 32 ∧
          ∀ x ∈ chs, ((x.toUInt32 >>> (4 * k).toUInt32) &&& 31).toNat = (x >>> (4 * k)) % 32) ∧
        ((s.sortChildren g).gate g).children =
          (List.range K).foldl (fun xs k => radixPass (4 * k) xs) chs)) := by
  intro chs largest
  refine ⟨fun hc => by simp [sortChildren, hc], fun hc => ?_⟩
  have hg : g < s.size := by
    by_contra hg
    rw [← circuit_gate, s.circuit.gate_of_size_le (by simpa using hg)] at hc
    exact absurd hc (by decide)
  have hchs : ((s.sortChildren g).gate g).children = sortIndices (s.gate g).children := by
    simp [sortChildren, hc, setChildren, hg]
  rw [hchs]
  refine ⟨sortIndices_perm _, sortIndices_sorted _, fun hns => ?_⟩
  have hl : largest < 2 ^ 32 := (foldl_max_lt chs 0 (by decide) fun x hx => by
    have := hmax x hx; omega)
  obtain ⟨K, hK, hlt, heq⟩ := radixPasses_eq_foldl largest largest 0 chs le_rfl
  have hk : ∀ k < K, 4 * k < 32 := fun k h => four_mul_lt_of_shiftRight_ne_zero hl (hlt k h)
  refine ⟨K, hK, fun k h => ⟨hlt k h, hk k h, fun x hx => radixDigit_eq_uint32
    (by have := hmax x hx; omega) (hk k h)⟩, ?_⟩
  rw [sortIndices, if_neg (by simp [hns]), heq]
  simp only [Nat.zero_add]

theorem sortChildren_sorts_or :
    let s : BC := { circuit := ⟨[{ type := .var, children := [] }, { type := .var, children := [] },
      { type := .var, children := [] }, { type := .var, children := [] },
      { type := .or, children := [3, 1, 2, 1] }]⟩ }
    ((s.sortChildren 4).gate 4).children = [1, 1, 2, 3] ∧
      ((s.sortChildren 4).gate 4).children.Perm (s.gate 4).children ∧
      ((s.sortChildren 4).gate 4).children.Sorted (· ≤ ·) :=
  ⟨rfl, ((sortChildren_sorts_commutative _ 4 (by decide)).2 (by decide)).1,
    ((sortChildren_sorts_commutative _ 4 (by decide)).2 (by decide)).2.1⟩

/-- On a gate of a type that is not commutative `sort_children` returns at once: the children of
`ITE(2, 1, 0)` keep their order, which is not non-decreasing. -/
theorem sortChildren_keeps_ite_order :
    let s : BC := { circuit := ⟨[{ type := .var, children := [] }, { type := .var, children := [] },
      { type := .var, children := [] }, { type := .ite, children := [2, 1, 0] }]⟩ }
    (∀ x ∈ (s.gate 3).children, x < 2 ^ 32 - 1) ∧ ((s.sortChildren 3).gate 3).children = [2, 1, 0] ∧
      ¬((s.sortChildren 3).gate 3).children.Sorted (· ≤ ·) :=
  ⟨by decide, rfl, by decide⟩

end BC

end BcSat
