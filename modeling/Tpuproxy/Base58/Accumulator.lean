import Tpuproxy.Base58.Tables
import Mathlib.Data.List.Forall2

/-!
# uint64 accumulator arrays

The two loop shapes the codec runs over its `uint64` arrays, in Go's wrapping
arithmetic (`wrap64`):

* the multiply-accumulate pass `acc[j] += uint64(limb) * uint64(row[j])`
  (`macCols`), folded over the rows of a table (`accumulate`);
* the carry loop `for i := n-1; i > 0; i-- { a[i-1] += hi(a[i]); a[i] = lo(a[i]) }`
  (`carryLoop`, one step `carryAt`), with `hi, lo` the quotient and remainder
  by the radix.

`MacColsFits`, `AccumulateFits`, `StepFits` and `CarryFits` say that every
`+=` of a run is done on operands whose true sum is below `2^64`: the run never
wraps. Under them the passes keep the value of the array (`beValue_accumulate`,
`beValue_carryPass`), and the carry pass leaves every entry but the first below
the radix (`carryPass_tail_lt`). Overflow freedom for all inputs comes from one
bounding run: `accumulate_mono` and `carryPass_mono` show that a run whose
inputs lie below those of a run that fits also fits, and stays below it.
-/

namespace Base58

/-- Go's `uint64` arithmetic keeps the result modulo `2^64`. -/
def wrap64 (n : Nat) : Nat := n % 2 ^ 64

theorem wrap64_of_lt {n : Nat} (h : n < 2 ^ 64) : wrap64 n = n := Nat.mod_eq_of_lt h

/-! ## Multiply-accumulate -/

/-- `acc[j] += uint64(limb) * uint64(row[j])` for every `j < len(row)`. Each
iteration of the code's inner loop writes its own entry, so the loop is this
entry-wise pass. -/
def macCols (limb : Nat) : List Nat → List Nat → List Nat
  | a :: acc, t :: row => wrap64 (a + wrap64 (limb * t)) :: macCols limb acc row
  | acc, _ => acc

/-- No `+=` of `macCols limb acc row` wraps. -/
def MacColsFits (limb : Nat) : List Nat → List Nat → Prop
  | a :: acc, t :: row => a + limb * t < 2 ^ 64 ∧ MacColsFits limb acc row
  | _, _ => True

/-- The outer loop: one `macCols` per `(limb, row)`, in order. -/
def accumulate (acc : List Nat) (rows : List (Nat × List Nat)) : List Nat :=
  rows.foldl (fun acc r => macCols r.1 acc r.2) acc

/-- No `+=` of `accumulate acc rows` wraps. -/
def AccumulateFits : List Nat → List (Nat × List Nat) → Prop
  | _, [] => True
  | acc, r :: rows => MacColsFits r.1 acc r.2 ∧ AccumulateFits (macCols r.1 acc r.2) rows

instance decidableMacColsFits (limb : Nat) :
    (acc row : List Nat) → Decidable (MacColsFits limb acc row)
  | _ :: acc, _ :: row =>
    have := decidableMacColsFits limb acc row
    inferInstanceAs (Decidable (_ ∧ _))
  | [], _ => isTrue trivial
  | _ :: _, [] => isTrue trivial

instance decidableAccumulateFits :
    (acc : List Nat) → (rows : List (Nat × List Nat)) → Decidable (AccumulateFits acc rows)
  | _, [] => isTrue trivial
  | acc, r :: rows =>
    have := decidableAccumulateFits (macCols r.1 acc r.2) rows
    inferInstanceAs (Decidable (_ ∧ _))

@[simp] theorem macCols_cons (limb a t : Nat) (acc row : List Nat) :
    macCols limb (a :: acc) (t :: row) = wrap64 (a + wrap64 (limb * t)) :: macCols limb acc row :=
  rfl

@[simp] theorem macCols_nil_left (limb : Nat) (row : List Nat) : macCols limb [] row = [] := by
  cases row <;> rfl

@[simp] theorem macCols_nil_right (limb : Nat) (acc : List Nat) : macCols limb acc [] = acc := by
  cases acc <;> rfl

@[simp] theorem accumulate_nil (acc : List Nat) : accumulate acc [] = acc := rfl

@[simp] theorem accumulate_cons (acc : List Nat) (r : Nat × List Nat) (rows) :
    accumulate acc (r :: rows) = accumulate (macCols r.1 acc r.2) rows := rfl

@[simp] theorem length_macCols (limb : Nat) (acc row : List Nat) :
    (macCols limb acc row).length = acc.length := by
  induction acc generalizing row with
  | nil => simp
  | cons a acc ih => cases row <;> simp [ih]

@[simp] theorem length_accumulate (acc : List Nat) (rows : List (Nat × List Nat)) :
    (accumulate acc rows).length = acc.length := by
  induction rows generalizing acc with
  | nil => rfl
  | cons r rows ih => simp [ih]

/-- Without wrapping, a pass adds `limb` times the row's value. -/
theorem beValue_macCols (B : Nat) {limb : Nat} {acc row : List Nat}
    (fits : MacColsFits limb acc row) (length_eq : acc.length = row.length) :
    beValue B (macCols limb acc row) = beValue B acc + limb * beValue B row := by
  induction acc generalizing row with
  | nil => cases row <;> simp_all
  | cons a acc ih =>
    obtain _ | ⟨t, row⟩ := row
    · simp at length_eq
    · obtain ⟨sum_lt, fits⟩ := fits
      have hlen : acc.length = row.length := by simpa using length_eq
      have product : wrap64 (limb * t) = limb * t := wrap64_of_lt (by omega)
      rw [macCols_cons, product, wrap64_of_lt sum_lt, beValue_cons, beValue_cons, beValue_cons,
        ih fits hlen, length_macCols, hlen]
      ring

/-- Without wrapping, the outer loop adds `Σ limb · value(row)`. -/
theorem beValue_accumulate (B : Nat) {acc : List Nat} {rows : List (Nat × List Nat)}
    (fits : AccumulateFits acc rows) (lengths : ∀ r ∈ rows, r.2.length = acc.length) :
    beValue B (accumulate acc rows) =
      beValue B acc + (rows.map fun r => r.1 * beValue B r.2).sum := by
  induction rows generalizing acc with
  | nil => simp
  | cons r rows ih =>
    obtain ⟨fits_head, fits_tail⟩ := fits
    have hr : r.2.length = acc.length := lengths r (List.mem_cons_self r rows)
    rw [accumulate_cons, ih fits_tail (fun r' hr' => by
        rw [length_macCols]; exact lengths r' (List.mem_cons_of_mem r hr')),
      beValue_macCols B fits_head hr.symm, List.map_cons, List.sum_cons]
    ring

/-- The rows of a table that satisfies `PowerRows b B`, weighted by the digits
of a number in base `b`, add up to that number. -/
theorem sum_zip_powerRows {b B : Nat} {rows : List (List Nat)} (power : PowerRows b B rows)
    {limbs : List Nat} (length_eq : limbs.length = rows.length) :
    ((limbs.zip rows).map fun r => r.1 * beValue B r.2).sum = beValue b limbs := by
  induction rows generalizing limbs with
  | nil => simp_all
  | cons row rows ih =>
    obtain _ | ⟨limb, limbs⟩ := limbs
    · simp at length_eq
    · have hlen : limbs.length = rows.length := by simpa using length_eq
      simp [ih power.2 hlen, power.1, hlen]

@[simp] theorem macColsFits_nil_left (limb : Nat) (row : List Nat) : MacColsFits limb [] row := by
  cases row <;> trivial

@[simp] theorem macColsFits_nil_right (limb : Nat) (acc : List Nat) : MacColsFits limb acc [] := by
  cases acc <;> trivial

@[simp] theorem macColsFits_cons (limb a t : Nat) (acc row : List Nat) :
    MacColsFits limb (a :: acc) (t :: row) ↔ a + limb * t < 2 ^ 64 ∧ MacColsFits limb acc row :=
  Iff.rfl

/-- A pass with a smaller multiplier over smaller entries than a pass that fits
also fits, and stays below it. -/
theorem macCols_mono {limb L : Nat} {acc U row : List Nat} (limb_le : limb ≤ L)
    (le : List.Forall₂ (· ≤ ·) acc U) (fits : MacColsFits L U row) :
    MacColsFits limb acc row ∧ List.Forall₂ (· ≤ ·) (macCols limb acc row) (macCols L U row) := by
  induction le generalizing row with
  | nil => simp
  | @cons a u acc U hau _ ih =>
    obtain _ | ⟨t, row⟩ := row
    · simp_all
    · obtain ⟨sum_lt, fits⟩ := fits
      have sum_le : a + limb * t ≤ u + L * t := Nat.add_le_add hau (Nat.mul_le_mul_right t limb_le)
      obtain ⟨fits', le'⟩ := ih fits
      refine ⟨⟨by omega, fits'⟩, ?_⟩
      simp only [macCols_cons, wrap64_of_lt (n := limb * t) (by omega),
        wrap64_of_lt (n := L * t) (by omega), wrap64_of_lt (n := a + limb * t) (by omega),
        wrap64_of_lt sum_lt]
      exact List.Forall₂.cons sum_le le'

/-- `accumulate` is monotone in the start array and the multipliers, as long as
the larger run fits. -/
theorem accumulate_mono {acc U : List Nat} {rows Rows : List (Nat × List Nat)}
    (le : List.Forall₂ (· ≤ ·) acc U)
    (rows_le : List.Forall₂ (fun r R => r.1 ≤ R.1 ∧ r.2 = R.2) rows Rows)
    (fits : AccumulateFits U Rows) :
    AccumulateFits acc rows ∧ List.Forall₂ (· ≤ ·) (accumulate acc rows) (accumulate U Rows) := by
  induction rows_le generalizing acc U with
  | nil => exact ⟨trivial, le⟩
  | @cons r R rows Rows hrR _ ih =>
    obtain ⟨limb_le, same_row⟩ := hrR
    obtain ⟨fits_head, fits_tail⟩ := fits
    rw [← same_row] at fits_head fits_tail
    obtain ⟨fits', le'⟩ := macCols_mono limb_le le fits_head
    obtain ⟨fits'', le''⟩ := ih le' fits_tail
    refine ⟨⟨fits', fits''⟩, ?_⟩
    simpa [accumulate_cons, same_row] using le''

/-! ## The carry loop -/

/-- One iteration of the carry loop at index `i ≥ 1`:
`a[i-1] += hi(a[i]); a[i] = lo(a[i])`. -/
def carryAt (hi lo : Nat → Nat) : Nat → List Nat → List Nat
  | 1, x :: y :: ys => wrap64 (x + hi y) :: lo y :: ys
  | i + 2, x :: xs => x :: carryAt hi lo (i + 1) xs
  | _, l => l

/-- The carry loop `for i := k; i > 0; i-- { carryAt i }`. -/
def carryLoop (hi lo : Nat → Nat) : Nat → List Nat → List Nat
  | 0, l => l
  | i + 1, l => carryLoop hi lo i (carryAt hi lo (i + 1) l)

/-- The carry loop over a whole array, as a recursion on the array: the tail is
carried first, then index 1 into index 0 (`carryLoop_eq_carryPass`). -/
def carryPass (hi lo : Nat → Nat) : List Nat → List Nat
  | [] => []
  | x :: xs => carryAt hi lo 1 (x :: carryPass hi lo xs)

/-- The `+=` of `carryAt hi lo 1 l` does not wrap. -/
def StepFits (hi : Nat → Nat) : List Nat → Prop
  | x :: y :: _ => x + hi y < 2 ^ 64
  | _ => True

/-- No `+=` of `carryPass hi lo l` wraps. -/
def CarryFits (hi lo : Nat → Nat) : List Nat → Prop
  | [] => True
  | x :: xs => CarryFits hi lo xs ∧ StepFits hi (x :: carryPass hi lo xs)

instance decidableStepFits (hi : Nat → Nat) : (l : List Nat) → Decidable (StepFits hi l)
  | _ :: _ :: _ => inferInstanceAs (Decidable (_ < _))
  | [] => isTrue trivial
  | [_] => isTrue trivial

instance decidableCarryFits (hi lo : Nat → Nat) : (l : List Nat) → Decidable (CarryFits hi lo l)
  | [] => isTrue trivial
  | _ :: xs =>
    have := decidableCarryFits hi lo xs
    inferInstanceAs (Decidable (_ ∧ _))

@[simp] theorem carryAt_one_cons_cons (hi lo : Nat → Nat) (x y : Nat) (ys : List Nat) :
    carryAt hi lo 1 (x :: y :: ys) = wrap64 (x + hi y) :: lo y :: ys := rfl

@[simp] theorem carryAt_one_singleton (hi lo : Nat → Nat) (x : Nat) :
    carryAt hi lo 1 [x] = [x] := rfl

@[simp] theorem carryAt_succ_succ (hi lo : Nat → Nat) (i x : Nat) (xs : List Nat) :
    carryAt hi lo (i + 2) (x :: xs) = x :: carryAt hi lo (i + 1) xs := rfl

@[simp] theorem carryPass_nil (hi lo : Nat → Nat) : carryPass hi lo [] = [] := rfl

@[simp] theorem carryPass_cons (hi lo : Nat → Nat) (x : Nat) (xs : List Nat) :
    carryPass hi lo (x :: xs) = carryAt hi lo 1 (x :: carryPass hi lo xs) := rfl

theorem carryLoop_succ_cons (hi lo : Nat → Nat) (k x : Nat) (l : List Nat) :
    carryLoop hi lo (k + 1) (x :: l) = carryAt hi lo 1 (x :: carryLoop hi lo k l) := by
  induction k generalizing l with
  | zero => rfl
  | succ k ih => exact ih (carryAt hi lo (k + 1) l)

/-- The code's indexed carry loop over `n` entries is the structural pass. -/
theorem carryLoop_eq_carryPass (hi lo : Nat → Nat) (l : List Nat) :
    carryLoop hi lo (l.length - 1) l = carryPass hi lo l := by
  induction l with
  | nil => rfl
  | cons x xs ih =>
    obtain _ | ⟨y, ys⟩ := xs
    · rfl
    · simp only [List.length_cons, Nat.add_sub_cancel] at ih ⊢
      rw [carryLoop_succ_cons, ih]
      rfl

@[simp] theorem length_carryAt (hi lo : Nat → Nat) (i : Nat) (l : List Nat) :
    (carryAt hi lo i l).length = l.length := by
  induction l generalizing i with
  | nil => match i with | 0 => rfl | 1 => rfl | _ + 2 => rfl
  | cons x xs ih =>
    match i, xs with
    | 0, _ => rfl
    | 1, [] => rfl
    | 1, _ :: _ => rfl
    | i + 2, xs => simp [ih]

@[simp] theorem length_carryLoop (hi lo : Nat → Nat) (k : Nat) (l : List Nat) :
    (carryLoop hi lo k l).length = l.length := by
  induction k generalizing l with
  | zero => rfl
  | succ k ih => simp [carryLoop, ih]

@[simp] theorem length_carryPass (hi lo : Nat → Nat) (l : List Nat) :
    (carryPass hi lo l).length = l.length := by
  induction l with
  | nil => rfl
  | cons x xs ih => simp [ih]

theorem carryPass_cons_of_eq {hi lo : Nat → Nat} {x y : Nat} {xs ys : List Nat}
    (tail : carryPass hi lo xs = y :: ys) :
    carryPass hi lo (x :: xs) = wrap64 (x + hi y) :: lo y :: ys := by
  simp [tail]

section Radix

variable {B : Nat} {hi lo : Nat → Nat}

/-- Without wrapping, one carry step keeps the value when `hi` and `lo` split a
number at the radix `B`. -/
theorem beValue_carryAt_one (split : ∀ y, hi y * B + lo y = y) {l : List Nat}
    (fits : StepFits hi l) : beValue B (carryAt hi lo 1 l) = beValue B l := by
  match l, fits with
  | [], _ => rfl
  | [_], _ => rfl
  | x :: y :: ys, fits =>
    have hy : y * B ^ ys.length = (hi y * B + lo y) * B ^ ys.length := by rw [split y]
    rw [carryAt_one_cons_cons, wrap64_of_lt fits]
    simp only [beValue_cons, List.length_cons, pow_succ, hy]
    ring

theorem beValue_carryAt (split : ∀ y, hi y * B + lo y = y) :
    ∀ (i : Nat) (l : List Nat), StepFits hi (l.drop i) →
      beValue B (carryAt hi lo (i + 1) l) = beValue B l
  | 0, l, fits => beValue_carryAt_one split fits
  | _ + 1, [], _ => rfl
  | i + 1, x :: xs, fits => by
    rw [carryAt_succ_succ, beValue_cons, beValue_cons, length_carryAt,
      beValue_carryAt split i xs fits]

/-- Without wrapping, the carry pass keeps the value. -/
theorem beValue_carryPass (split : ∀ y, hi y * B + lo y = y) {l : List Nat}
    (fits : CarryFits hi lo l) : beValue B (carryPass hi lo l) = beValue B l := by
  induction l with
  | nil => rfl
  | cons x xs ih =>
    obtain ⟨fits_tail, fits_step⟩ := fits
    rw [carryPass_cons, beValue_carryAt_one split fits_step, beValue_cons, beValue_cons,
      length_carryPass, ih fits_tail]

/-- After the carry pass every entry but the first is a remainder. -/
theorem carryPass_tail_lt (lo_lt : ∀ y, lo y < B) (l : List Nat) :
    ∀ z ∈ (carryPass hi lo l).tail, z < B := by
  induction l with
  | nil => simp
  | cons x xs ih =>
    cases tail : carryPass hi lo xs with
    | nil => simp [tail]
    | cons y ys =>
      rw [carryPass_cons_of_eq tail]
      intro z hz
      rcases List.mem_cons.mp hz with rfl | hz
      · exact lo_lt y
      · exact ih z (by simpa [tail] using hz)

/-- A carry pass over entries below those of a pass that fits also fits, and
its first entry stays below. -/
theorem carryPass_mono (hi_mono : Monotone hi) {l U : List Nat}
    (le : List.Forall₂ (· ≤ ·) l U) (fits : CarryFits hi lo U) :
    CarryFits hi lo l ∧ (carryPass hi lo l).headD 0 ≤ (carryPass hi lo U).headD 0 := by
  induction le with
  | nil => exact ⟨trivial, le_rfl⟩
  | @cons x u xs us hxu rest ih =>
    obtain ⟨fits_tail, fits_step⟩ := fits
    obtain ⟨fits', head_le⟩ := ih fits_tail
    cases tail : carryPass hi lo xs with
    | nil =>
      have hxs : xs = [] := by simpa using congrArg List.length tail
      subst hxs
      cases rest
      simpa [CarryFits, StepFits] using hxu
    | cons y ys =>
      obtain ⟨v, vs, tailU⟩ : ∃ v vs, carryPass hi lo us = v :: vs := by
        cases h : carryPass hi lo us with
        | nil =>
          have := congrArg List.length tail
          simp [List.Forall₂.length_eq rest, ← length_carryPass hi lo us, h] at this
        | cons v vs => exact ⟨v, vs, rfl⟩
      have hyv : y ≤ v := by simpa [tail, tailU] using head_le
      have fits_u : u + hi v < 2 ^ 64 := by simpa [StepFits, tailU] using fits_step
      have step_le : x + hi y ≤ u + hi v := Nat.add_le_add hxu (hi_mono hyv)
      refine ⟨⟨fits', by simp only [StepFits, tail]; omega⟩, ?_⟩
      rw [carryPass_cons_of_eq tail, carryPass_cons_of_eq tailU]
      simpa only [List.headD_cons, wrap64_of_lt (n := x + hi y) (by omega), wrap64_of_lt fits_u]
        using step_le

/-- One carry step over entries below those of a step that fits also fits; its
result stays below the bounding step's when `lo` is bounded by `lo'`. -/
theorem carryAt_mono (hi_mono : Monotone hi) {lo' : Nat → Nat}
    (lo_le : ∀ y z, y ≤ z → lo y ≤ lo' z) :
    ∀ (i : Nat) {l U : List Nat}, List.Forall₂ (· ≤ ·) l U → StepFits hi (U.drop i) →
      StepFits hi (l.drop i) ∧
        List.Forall₂ (· ≤ ·) (carryAt hi lo (i + 1) l) (carryAt hi lo' (i + 1) U)
  | 0, _, _, .nil, _ => ⟨trivial, .nil⟩
  | 0, _, _, .cons hxu .nil, _ => ⟨trivial, .cons hxu .nil⟩
  | 0, _, _, .cons (a := x) (b := u) hxu (.cons (a := y) (b := v) hyv rest), fits => by
    have fits_u : u + hi v < 2 ^ 64 := fits
    have step_le : x + hi y ≤ u + hi v := Nat.add_le_add hxu (hi_mono hyv)
    refine ⟨show x + hi y < 2 ^ 64 by omega, ?_⟩
    simp only [Nat.zero_add, carryAt_one_cons_cons, wrap64_of_lt fits_u,
      wrap64_of_lt (n := x + hi y) (by omega)]
    exact .cons step_le (.cons (lo_le y v hyv) rest)
  | _ + 1, _, _, .nil, _ => ⟨trivial, .nil⟩
  | i + 1, _, _, .cons hxu rest, fits => by
    obtain ⟨fits', le'⟩ := carryAt_mono hi_mono lo_le i rest fits
    exact ⟨fits', .cons hxu le'⟩

end Radix

end Base58
