import Mathlib.Data.Nat.Digits

/-!
# Big-endian digit lists

Every array of the base58 codec (`in`, `limbs`, `intermediate`, `rawBase58`,
`binary_`, `out`) holds the digits of one number, most significant digit
first. `beValue b l` is that number in base `b`.

Results:
* `beValue_lt`, `beValue_inj`: a list of `n` digits below `b` denotes a number
  below `b ^ n`, and determines it.
* `eq_replicate_leading0s_digits`: a digit list is its run of leading zeros
  followed by the canonical digits (`Nat.digits`, reversed) of its value. This
  is what ties the fixed-width arrays of the code to the variable-length text.
* `leading0s_add_length_digits`: the two parts add up to the width.
-/

namespace Base58

/-- The value of a digit list in base `b`, most significant digit first. -/
def beValue (b : Nat) : List Nat → Nat
  | [] => 0
  | x :: xs => x * b ^ xs.length + beValue b xs

/-- The number of leading zero digits, as the code's counting loops compute it:
count while the digit is zero, stop at the first non-zero one. -/
def leading0s : List Nat → Nat
  | [] => 0
  | x :: xs => if x ≠ 0 then 0 else leading0s xs + 1

/-- All entries of `l` are digits in base `b`. -/
def Digits (b : Nat) (l : List Nat) : Prop := ∀ x ∈ l, x < b

@[simp] theorem beValue_nil (b : Nat) : beValue b [] = 0 := rfl

@[simp] theorem beValue_cons (b x : Nat) (xs : List Nat) :
    beValue b (x :: xs) = x * b ^ xs.length + beValue b xs := rfl

@[simp] theorem leading0s_nil : leading0s [] = 0 := rfl

theorem leading0s_cons_zero (xs : List Nat) : leading0s (0 :: xs) = leading0s xs + 1 := by
  simp [leading0s]

theorem leading0s_cons_ne (x : Nat) (xs : List Nat) (nonzero : x ≠ 0) :
    leading0s (x :: xs) = 0 := by
  simp [leading0s, nonzero]

theorem Digits.cons {b x : Nat} {xs : List Nat} (hx : x < b) (hxs : Digits b xs) :
    Digits b (x :: xs) := by
  intro y hy
  rcases List.mem_cons.mp hy with rfl | hy
  · exact hx
  · exact hxs y hy

theorem Digits.head {b x : Nat} {xs : List Nat} (h : Digits b (x :: xs)) : x < b :=
  h x (List.mem_cons_self x xs)

theorem Digits.tail {b x : Nat} {xs : List Nat} (h : Digits b (x :: xs)) : Digits b xs :=
  fun y hy => h y (List.mem_cons_of_mem x hy)

theorem Digits.of_headD {b : Nat} {l : List Nat} (head : l.headD 0 < b) (tail : Digits b l.tail) :
    Digits b l := by
  cases l with
  | nil => intro y hy; simp at hy
  | cons x xs => exact Digits.cons head tail

theorem Digits.append {b : Nat} {l₁ l₂ : List Nat} (h₁ : Digits b l₁) (h₂ : Digits b l₂) :
    Digits b (l₁ ++ l₂) := by
  intro y hy
  rcases List.mem_append.mp hy with hy | hy
  · exact h₁ y hy
  · exact h₂ y hy

theorem beValue_append (b : Nat) (l₁ l₂ : List Nat) :
    beValue b (l₁ ++ l₂) = beValue b l₁ * b ^ l₂.length + beValue b l₂ := by
  induction l₁ with
  | nil => simp
  | cons x xs ih =>
    simp only [List.cons_append, beValue_cons, List.length_append, ih, pow_add]
    ring

@[simp] theorem beValue_replicate_zero_append (b k : Nat) (l : List Nat) :
    beValue b (List.replicate k 0 ++ l) = beValue b l := by
  induction k with
  | zero => rfl
  | succ k ih => simpa [List.replicate_succ] using ih

theorem beValue_eq_ofDigits (b : Nat) (l : List Nat) :
    beValue b l = Nat.ofDigits b l.reverse := by
  induction l with
  | nil => rfl
  | cons x xs ih =>
    rw [List.reverse_cons, Nat.ofDigits_append, ← ih, List.length_reverse,
      Nat.ofDigits_singleton, beValue_cons]
    ring

/-- A list of `n` digits below `b` denotes a number below `b ^ n`. -/
theorem beValue_lt {b : Nat} {l : List Nat} (digits : Digits b l) :
    beValue b l < b ^ l.length := by
  induction l with
  | nil => simp
  | cons x xs ih =>
    have hx := digits.head
    have hxs := ih digits.tail
    calc x * b ^ xs.length + beValue b xs
        < x * b ^ xs.length + b ^ xs.length := by omega
      _ = (x + 1) * b ^ xs.length := by ring
      _ ≤ b * b ^ xs.length := Nat.mul_le_mul_right _ hx
      _ = b ^ (x :: xs).length := by rw [List.length_cons, pow_succ']

/-- A digit list with a tail of digits below `b` stays below `b ^ length`
exactly when its first entry is a digit too. -/
theorem beValue_cons_lt_pow_iff {b x : Nat} {xs : List Nat} (digits : Digits b xs) :
    beValue b (x :: xs) < b ^ (xs.length + 1) ↔ x < b := by
  have hlt := beValue_lt digits
  rw [beValue_cons, pow_succ']
  constructor
  · intro lt
    by_contra! ge
    have : b * b ^ xs.length ≤ x * b ^ xs.length := Nat.mul_le_mul_right _ ge
    omega
  · intro lt
    calc x * b ^ xs.length + beValue b xs < (x + 1) * b ^ xs.length := by rw [Nat.succ_mul]; omega
      _ ≤ b * b ^ xs.length := Nat.mul_le_mul_right _ lt

theorem beValue_cons_div {b x : Nat} {xs : List Nat} (digits : Digits b xs) :
    beValue b (x :: xs) / b ^ xs.length = x := by
  have hlt := beValue_lt digits
  rw [beValue_cons, Nat.add_comm, Nat.add_mul_div_right _ _ (by omega), Nat.div_eq_of_lt hlt,
    Nat.zero_add]

/-- Equal-length digit lists with the same value are equal. -/
theorem beValue_inj {b : Nat} {l₁ l₂ : List Nat} (d₁ : Digits b l₁) (d₂ : Digits b l₂)
    (length_eq : l₁.length = l₂.length) (value_eq : beValue b l₁ = beValue b l₂) : l₁ = l₂ := by
  induction l₁ generalizing l₂ with
  | nil => exact (List.length_eq_zero.mp length_eq.symm).symm
  | cons x xs ih =>
    obtain _ | ⟨y, ys⟩ := l₂
    · simp at length_eq
    · have hlen : xs.length = ys.length := by simpa using length_eq
      have hxy : x = y := by
        rw [← beValue_cons_div (x := x) d₁.tail, ← beValue_cons_div (x := y) d₂.tail, value_eq,
          hlen]
      subst hxy
      have hrest : beValue b xs = beValue b ys := by
        simpa [hlen] using value_eq
      rw [ih d₁.tail d₂.tail hlen hrest]

/-- A digit list whose first digit is non-zero is the canonical expansion. -/
theorem eq_digits_of_head_ne {b x : Nat} {xs : List Nat} (base : 1 < b)
    (digits : Digits b (x :: xs)) (nonzero : x ≠ 0) :
    x :: xs = (Nat.digits b (beValue b (x :: xs))).reverse := by
  rw [beValue_eq_ofDigits, Nat.digits_ofDigits b base _ (fun y hy => digits y
    (List.mem_reverse.mp hy)) (fun h => by rwa [List.getLast_reverse]), List.reverse_reverse]

/-- A digit list is its leading zeros followed by the canonical digits of its
value. -/
theorem eq_replicate_leading0s_digits {b : Nat} (base : 1 < b) {l : List Nat}
    (digits : Digits b l) :
    l = List.replicate (leading0s l) 0 ++ (Nat.digits b (beValue b l)).reverse := by
  induction l with
  | nil => simp
  | cons x xs ih =>
    by_cases hx : x = 0
    · subst hx
      rw [leading0s_cons_zero, List.replicate_succ, List.cons_append, beValue_cons, zero_mul,
        zero_add, ← ih digits.tail]
    · rw [leading0s_cons_ne x xs hx, List.replicate_zero, List.nil_append]
      exact eq_digits_of_head_ne base digits hx

theorem leading0s_add_length_digits {b : Nat} (base : 1 < b) {l : List Nat}
    (digits : Digits b l) :
    leading0s l + (Nat.digits b (beValue b l)).length = l.length := by
  conv_rhs => rw [eq_replicate_leading0s_digits base digits]
  simp

theorem leading0s_replicate_append (z : Nat) (l : List Nat) :
    leading0s (List.replicate z 0 ++ l) = z + leading0s l := by
  induction z with
  | zero => simp
  | succ z ih => rw [List.replicate_succ, List.cons_append, leading0s_cons_zero, ih]; omega

theorem beValue_digits_reverse (b X : Nat) : beValue b (Nat.digits b X).reverse = X := by
  rw [beValue_eq_ofDigits, List.reverse_reverse, Nat.ofDigits_digits]

/-- The canonical digits of a number have no leading zero. -/
theorem leading0s_digits_reverse {b : Nat} (base : 1 < b) (X : Nat) :
    leading0s (Nat.digits b X).reverse = 0 := by
  have digits : Digits b (Nat.digits b X).reverse :=
    fun d hd => Nat.digits_lt_base base (List.mem_reverse.mp hd)
  have := leading0s_add_length_digits base digits
  rw [beValue_digits_reverse, List.length_reverse] at this
  omega

theorem length_digits_le_of_lt_pow {b X k : Nat} (base : 1 < b) (lt : X < b ^ k) :
    (Nat.digits b X).length ≤ k := by
  by_contra! more
  have hX : X ≠ 0 := by
    rintro rfl
    simp at more
  have := Nat.base_pow_length_digits_le b X base hX
  have : b ^ (k + 1) ≤ b ^ (Nat.digits b X).length := Nat.pow_le_pow_right (by omega) more
  have : b * X < b * b ^ k := Nat.mul_lt_mul_of_pos_left lt (by omega)
  rw [pow_succ'] at *
  omega

/-- A number has at least as many digits in a smaller base. -/
theorem length_digits_le_of_base_le {b c X : Nat} (base : 1 < b) (le : b ≤ c) :
    (Nat.digits c X).length ≤ (Nat.digits b X).length := by
  rcases Nat.eq_zero_or_pos X with rfl | hX
  · simp
  · have lower := Nat.base_pow_length_digits_le c X (by omega) hX.ne'
    have upper := Nat.lt_base_pow_length_digits (m := X) base
    by_contra! more
    have : c ^ (Nat.digits b X).length * c ≤ c * X :=
      calc c ^ (Nat.digits b X).length * c = c ^ ((Nat.digits b X).length + 1) := pow_succ _ _
        _ ≤ c ^ (Nat.digits c X).length := Nat.pow_le_pow_right (by omega) more
        _ ≤ c * X := lower
    have : b ^ (Nat.digits b X).length ≤ c ^ (Nat.digits b X).length := Nat.pow_le_pow_left le _
    have : c ^ (Nat.digits b X).length ≤ X := by
      rw [mul_comm] at *
      exact Nat.le_of_mul_le_mul_left (by assumption) (by omega)
    omega

end Base58
