import Tpuproxy.Base58.Width

/-!
# `Encode32` and `Encode64`

The encoder reads the input as 32-bit limbs, multiplies them into base `58^5`
with `encTable`, carries, splits every base-`58^5` digit into five base-58
digits, and writes the digits after dropping the surplus leading zeros.
`Encode64` differs from `Encode32` only in the conversion to the intermediate
format, which reduces `intermediate[16]` after the first eight limbs
(`intermediate64`); the rest is `encodeTail`, shared by both.

Results, each for both widths:
* `encode_fits`: for every input no `uint64` sum wraps, and after the carry
  pass every intermediate value is below `58^5`.
* `encode_skip`: the raw digits have more leading zeros than the input has
  leading zero bytes, so the skip does not wrap, no index is out of range, and
  the length lies in `[N, maxLen]`.
* `encode_eq_base58Ref`: the encoder writes exactly `base58Ref` of its input,
  the text one would get by repeated division by 58, and leaves the rest of
  `out` as it was.
-/

namespace Base58

/-! ## The model -/

/-- `binary.BigEndian.Uint32(b)`: the first four bytes of `b`, most significant
first. -/
def beUint32 (b : List UInt8) : Nat := bytesValue (b.take 4)

/-- `for i := range limbs { limbs[i] = binary.BigEndian.Uint32(in[4*i:]) }`. -/
def toLimbs (binSz : Nat) (input : List UInt8) : List Nat :=
  (List.range binSz).map fun i => beUint32 (input.drop (4 * i))

/-- `for i, j: intermediate[j+1] += uint64(limbs[i]) * uint64(table[i][j])` over
the given `(limb, row)` pairs; `intermediate[0]` is not written. -/
def addRows (intermediate : List Nat) (rows : List (Nat × List Nat)) : List Nat :=
  match intermediate with
  | [] => []
  | x :: xs => x :: accumulate xs rows

/-- `Encode32`'s conversion to the intermediate format. -/
def intermediate32 (input : Bytes 32) : List Nat :=
  addRows (List.replicate inter32sz 0) ((toLimbs bin32sz input.toList).zip encTable32)

/-- `Encode64`'s conversion: the first eight limbs, the mini-reduction
`intermediate[15] += intermediate[16] / r1Div; intermediate[16] %= r1Div`, then
the last eight limbs. -/
def intermediate64 (input : Bytes 64) : List Nat :=
  let rows := (toLimbs bin64sz input.toList).zip encTable64
  let intermediate := addRows (List.replicate inter64sz 0) (rows.take 8)
  let intermediate := carryAt encHi encLo 16 intermediate
  addRows intermediate (rows.drop 8)

/-- `byte(n)`. -/
def toByte (n : Nat) : Nat := n % 256

/-- `rawBase58[5*i+0 .. 5*i+4]` from `v := uint32(intermediate[i])`. -/
def splitDigits (x : Nat) : List Nat :=
  let v := x % 2 ^ 32
  [toByte (v / 11316496), toByte (v / 195112 % 58), toByte (v / 3364 % 58),
    toByte (v / 58 % 58), toByte (v / 1 % 58)]

/-- The carry pass `for i := INTERMEDIATE_SZ-1; i > 0; i--` and the conversion
to base 58. -/
def rawBase58 (w : Width) (intermediate : List Nat) : List Nat :=
  (carryLoop encHi encLo (w.interSz - 1) intermediate).flatMap splitDigits

/-- Go's `uint` subtraction (64-bit). -/
def subUint (a b : Nat) : Nat := (a + 2 ^ 64 - b) % 2 ^ 64

/-- `for i := uint(0); i < n; i++ { out[i] = alphabet[rawBase58[i+skip]] }`,
with `k` iterations left at index `i`. `none` is a panic on an index out of
range. -/
def writeOut (raw : List Nat) (skip : Nat) {n : Nat} : Nat → Nat → Bytes n → Option (Bytes n)
  | 0, _, out => some out
  | k + 1, i, out =>
    match raw[i + skip]? with
    | none => none
    | some d =>
      match alphabet[d]? with
      | none => none
      | some c => if i < n then writeOut raw skip k (i + 1) (out.set i c) else none

/-- What `Encode32` and `Encode64` do after the conversion to the intermediate
format: carry, split into base-58 digits, count their leading zeros, and write
all but the first `rawLeading0s - inLeading0s` of them. -/
def encodeTail (w : Width) (out : Bytes w.maxLen) (inLeading0s : Nat)
    (intermediate : List Nat) : Option (Bytes w.maxLen × Nat) :=
  let raw := rawBase58 w intermediate
  let rawLeading0s := leading0s raw
  let skip := subUint rawLeading0s inLeading0s
  let n := subUint w.encSz skip
  (writeOut raw skip n 0 out).map (·, n)

/-- `Encode32(out, in)`: the written array and the returned length; `none` is a
panic. -/
def encode32 (out : Bytes 44) (input : Bytes 32) : Option (Bytes 44 × Nat) :=
  encodeTail width32 out (leading0s (input.toList.map UInt8.toNat)) (intermediate32 input)

/-- `Encode64(out, in)`. -/
def encode64 (out : Bytes 88) (input : Bytes 64) : Option (Bytes 88 × Nat) :=
  encodeTail width64 out (leading0s (input.toList.map UInt8.toNat)) (intermediate64 input)

/-- The base58 text of a byte string by its definition: one `'1'` for each
leading zero byte, then the base-58 digits of the big-endian value, most
significant first, each written as its `alphabet` character. -/
def base58Ref (x : List UInt8) : List UInt8 :=
  List.replicate (leading0s (x.map UInt8.toNat)) 49 ++
    (Nat.digits 58 (bytesValue x)).reverse.map (alphabet.getD · 0)

/-! ## Limbs -/

theorem digits_map_toNat (l : List UInt8) : Digits 256 (l.map UInt8.toNat) := by
  intro x hx
  obtain ⟨b, -, rfl⟩ := List.mem_map.mp hx
  exact b.toNat_lt_size

theorem bytesValue_append (l₁ l₂ : List UInt8) :
    bytesValue (l₁ ++ l₂) = bytesValue l₁ * 256 ^ l₂.length + bytesValue l₂ := by
  simp [bytesValue, List.map_append, beValue_append]

theorem bytesValue_lt (l : List UInt8) : bytesValue l < 256 ^ l.length := by
  simpa using beValue_lt (digits_map_toNat l)

theorem toLimbs_succ (k : Nat) (input : List UInt8) :
    toLimbs (k + 1) input = beUint32 input :: toLimbs k (input.drop 4) := by
  simp only [toLimbs, List.range_succ_eq_map, List.map_cons, List.map_map, Nat.mul_zero,
    List.drop_zero, List.cons.injEq, true_and]
  congr 1
  funext i
  simp [Function.comp, Nat.mul_succ, List.drop_drop, Nat.add_comm]

@[simp] theorem length_toLimbs (k : Nat) (input : List UInt8) : (toLimbs k input).length = k := by
  simp [toLimbs]

theorem toLimbs_digits (k : Nat) (input : List UInt8) : Digits (2 ^ 32) (toLimbs k input) := by
  intro x hx
  obtain ⟨i, -, rfl⟩ := List.mem_map.mp hx
  have := bytesValue_lt ((input.drop (4 * i)).take 4)
  have : 256 ^ ((input.drop (4 * i)).take 4).length ≤ 256 ^ 4 :=
    Nat.pow_le_pow_right (by omega) (by simp)
  simp only [beUint32]
  omega

/-- The limbs are the input in base `2^32`. -/
theorem beValue_toLimbs (k : Nat) {input : List UInt8} (length_eq : input.length = 4 * k) :
    beValue (2 ^ 32) (toLimbs k input) = bytesValue input := by
  induction k generalizing input with
  | zero => simp_all [toLimbs, bytesValue, List.length_eq_zero]
  | succ k ih =>
    have split := bytesValue_append (input.take 4) (input.drop 4)
    rw [List.take_append_drop] at split
    rw [toLimbs_succ, beValue_cons, length_toLimbs, ih (by simp [length_eq]; omega), split,
      beUint32, List.length_drop, length_eq, show 4 * (k + 1) - 4 = 4 * k by omega, pow_mul]
    rfl

/-! ## The intermediate format -/

theorem addRows_cons (x : Nat) (xs : List Nat) (rows : List (Nat × List Nat)) :
    addRows (x :: xs) rows = x :: accumulate xs rows := rfl

@[simp] theorem beValue_replicate_zero (b k : Nat) : beValue b (List.replicate k 0) = 0 := by
  simpa using beValue_replicate_zero_append b k []

/-- Rows of a table with at most the largest limb, paired with the table. -/
theorem forall₂_zip_rows {limbs Ls : List Nat} (le : List.Forall₂ (· ≤ ·) limbs Ls)
    (T : List (List Nat)) :
    List.Forall₂ (fun r R => r.1 ≤ R.1 ∧ r.2 = R.2) (limbs.zip T) (Ls.zip T) := by
  induction le generalizing T with
  | nil => simp
  | cons h _ ih =>
    cases T with
    | nil => simp
    | cons row T => exact List.Forall₂.cons ⟨h, rfl⟩ (ih T)

theorem forall₂_le_replicate {b : Nat} {l : List Nat} (digits : Digits b l) :
    List.Forall₂ (· ≤ ·) l (List.replicate l.length (b - 1)) := by
  induction l with
  | nil => simp
  | cons x xs ih =>
    have := digits.head
    exact List.Forall₂.cons (by omega) (ih digits.tail)

/-- The rows of the encoder's accumulation at the largest input, where every
limb is `2^32 - 1`. -/
def encodeBoundRows (table : List (List Nat)) : List (Nat × List Nat) :=
  (List.replicate table.length (2 ^ 32 - 1)).zip table

theorem rows_le_encodeBoundRows {limbs : List Nat} (digits : Digits (2 ^ 32) limbs)
    (table : List (List Nat)) (length_eq : limbs.length = table.length) :
    List.Forall₂ (fun r R => r.1 ≤ R.1 ∧ r.2 = R.2) (limbs.zip table) (encodeBoundRows table) := by
  have := forall₂_le_replicate digits
  rw [length_eq] at this
  exact forall₂_zip_rows this table

theorem encHi_mono : Monotone encHi := fun _ _ h => Nat.div_le_div_right h

theorem encHi_encLo (y : Nat) : encHi y * r1Div + encLo y = y := Nat.div_add_mod' y r1Div

theorem encLo_lt (y : Nat) : encLo y < r1Div := Nat.mod_lt y (by decide)

theorem r1Div_pow (n : Nat) : r1Div ^ n = 58 ^ (5 * n) := by
  rw [pow_mul]; rfl

theorem rows_lengths {limbs : List Nat} {table : List (List Nat)} {m : Nat}
    (rows : ∀ row ∈ table, row.length = m) : ∀ r ∈ limbs.zip table, r.2.length = m :=
  fun r hr => rows r.2 (List.of_mem_zip hr).2

/-- `Encode32`'s accumulation and carry pass fit at the largest input. -/
theorem encode32_bound_fits :
    AccumulateFits (List.replicate 8 0) (encodeBoundRows encTable32) ∧
      CarryFits encHi encLo (0 :: accumulate (List.replicate 8 0) (encodeBoundRows encTable32)) := by
  decide

/-- `Encode64`'s conversion at the largest input: the first eight rows, the
mini-reduction with `intermediate[16]` bounded by `58^5 - 1` after it, the last
eight rows and the carry pass all fit. -/
theorem encode64_bound_fits :
    let first := accumulate (List.replicate 17 0) ((encodeBoundRows encTable64).take 8)
    let reduced := carryAt encHi (fun _ => r1Div - 1) 16 (0 :: first)
    AccumulateFits (List.replicate 17 0) ((encodeBoundRows encTable64).take 8) ∧
      StepFits encHi ((0 :: first).drop 15) ∧
      AccumulateFits reduced.tail ((encodeBoundRows encTable64).drop 8) ∧
      CarryFits encHi encLo (0 :: accumulate reduced.tail ((encodeBoundRows encTable64).drop 8)) := by
  decide

theorem intermediate32_eq (input : Bytes 32) :
    intermediate32 input =
      0 :: accumulate (List.replicate 8 0) ((toLimbs bin32sz input.toList).zip encTable32) := rfl

@[simp] theorem length_intermediate32 (input : Bytes 32) : (intermediate32 input).length = 9 := by
  simp [intermediate32_eq]

theorem intermediate64_eq (input : Bytes 64) :
    let rows := (toLimbs bin64sz input.toList).zip encTable64
    intermediate64 input =
      0 :: accumulate (carryAt encHi encLo 15 (accumulate (List.replicate 17 0) (rows.take 8)))
        (rows.drop 8) := rfl

/-- Without wrapping, the conversion to the intermediate format adds the value
of the limbs. -/
theorem beValue_accumulate_table {table : List (List Nat)}
    (power : PowerRows (2 ^ 32) r1Div table) {acc limbs : List Nat}
    (rows : ∀ row ∈ table, row.length = acc.length) (length_eq : limbs.length = table.length)
    (fits : AccumulateFits acc (limbs.zip table)) :
    beValue r1Div (accumulate acc (limbs.zip table)) = beValue r1Div acc + beValue (2 ^ 32) limbs := by
  rw [beValue_accumulate r1Div fits (rows_lengths rows), sum_zip_powerRows power length_eq]

/-- After the carry pass every intermediate value is below `58^5`: all but the
first are remainders, and the first is bounded through the value, which is
below `256^N`. -/
theorem carryPass_lt_r1Div (w : Width) {intermediate : List Nat}
    (length : intermediate.length = w.interSz) (fits : CarryFits encHi encLo intermediate)
    (value_lt : beValue r1Div intermediate < 256 ^ (4 * w.binSz)) :
    Digits r1Div (carryPass encHi encLo intermediate) := by
  have value := beValue_carryPass encHi_encLo fits
  have tail_lt : ∀ z ∈ (carryPass encHi encLo intermediate).tail, z < r1Div :=
    carryPass_tail_lt encLo_lt intermediate
  cases carried : carryPass encHi encLo intermediate with
  | nil => intro v hv; simp at hv
  | cons h t =>
    rw [carried] at value tail_lt
    have t_length : t.length + 1 = w.interSz := by
      simpa [carried, length] using length_carryPass encHi encLo intermediate
    have bound : 256 ^ (4 * w.binSz) < r1Div ^ (t.length + 1) := by
      rw [t_length, r1Div_pow]
      exact lt_of_le_of_lt w.value_le (Nat.pow_lt_pow_right (by decide) (by have := w.maxLen_lt; omega))
    have head_le : h * r1Div ^ t.length ≤ beValue r1Div intermediate := by
      rw [← value, beValue_cons]; omega
    have h_lt : h < r1Div := by
      by_contra! big
      have : r1Div ^ (t.length + 1) ≤ h * r1Div ^ t.length := by
        rw [pow_succ']; exact Nat.mul_le_mul_right _ big
      omega
    exact Digits.cons h_lt tail_lt

theorem beValue_intermediate32 (input : Bytes 32)
    (fits : AccumulateFits (List.replicate 8 0) ((toLimbs bin32sz input.toList).zip encTable32)) :
    beValue r1Div (intermediate32 input) = bytesValue input.toList := by
  rw [intermediate32_eq, beValue_cons, beValue_accumulate_table encTable32_powerRows
    (by decide) rfl fits, beValue_toLimbs bin32sz (by simp [input.length_eq, bin32sz])]
  simp

/-- `Encode32` never wraps: for every input the accumulation and the carry pass
fit in `uint64`, and the carried intermediate values are below `58^5`, so the
`uint32` conversion and the five-digit split lose nothing. -/
theorem encode32_fits (input : Bytes 32) :
    AccumulateFits (List.replicate 8 0) ((toLimbs bin32sz input.toList).zip encTable32) ∧
      CarryFits encHi encLo (intermediate32 input) ∧
      ∀ v ∈ carryLoop encHi encLo (inter32sz - 1) (intermediate32 input), v < r1Div := by
  obtain ⟨acc_fits, acc_le⟩ := accumulate_mono (List.forall₂_refl _)
    (rows_le_encodeBoundRows (toLimbs_digits bin32sz input.toList) encTable32 rfl) encode32_bound_fits.1
  have carry_fits := (carryPass_mono encHi_mono (.cons le_rfl acc_le) encode32_bound_fits.2).1
  rw [← intermediate32_eq] at carry_fits
  refine ⟨acc_fits, carry_fits, ?_⟩
  have := carryPass_lt_r1Div width32 (length_intermediate32 input) carry_fits (by
    rw [beValue_intermediate32 input acc_fits]
    simpa [input.length_eq] using bytesValue_lt input.toList)
  rwa [← carryLoop_eq_carryPass, length_intermediate32] at this

@[simp] theorem length_intermediate64 (input : Bytes 64) : (intermediate64 input).length = 18 := by
  simp [intermediate64_eq]

theorem two_pow_32_pow (n : Nat) : (2 ^ 32) ^ n = 256 ^ (4 * n) := by
  rw [← pow_mul, show (256 : Nat) = 2 ^ 8 from rfl, ← pow_mul]; ring_nf

/-! ### `Encode64` on any limbs

The bounds of `Encode64`'s conversion hold for any sixteen `uint32` limbs. They
are proved for a limb list that is a variable, over which the `Fits` predicates
stay symbolic, and then applied to `toLimbs`. -/

section Limbs64

variable {limbs : List Nat}

/-- Without wrapping, `Encode64`'s conversion of sixteen limbs has their value
in base `2^32`. -/
theorem beValue_encode64Limbs (length : limbs.length = bin64sz) :
    let rows := limbs.zip encTable64
    let first := addRows (List.replicate inter64sz 0) (rows.take 8)
    AccumulateFits (List.replicate 17 0) (rows.take 8) → StepFits encHi (first.drop 15) →
      AccumulateFits (carryAt encHi encLo 16 first).tail (rows.drop 8) →
      beValue r1Div (addRows (carryAt encHi encLo 16 first) (rows.drop 8)) =
        beValue (2 ^ 32) limbs := by
  intro rows first fits_first fits_mini fits_last
  have first_eq : first = 0 :: accumulate (List.replicate 17 0) (rows.take 8) := rfl
  have lengths : ∀ r ∈ rows, r.2.length = 17 := rows_lengths (by decide)
  rw [first_eq, List.drop_succ_cons] at fits_mini
  rw [first_eq, carryAt_succ_succ, List.tail_cons] at fits_last
  rw [first_eq, carryAt_succ_succ, addRows_cons, beValue_cons,
    beValue_accumulate r1Div fits_last (fun r hr => by
      rw [length_carryAt, length_accumulate, List.length_replicate]
      exact lengths r (List.mem_of_mem_drop hr)),
    beValue_carryAt encHi_encLo 14 _ fits_mini,
    beValue_accumulate r1Div fits_first (fun r hr => by
      rw [List.length_replicate]; exact lengths r (List.mem_of_mem_take hr)),
    beValue_replicate_zero, List.map_take, List.map_drop, Nat.zero_add,
    List.sum_take_add_sum_drop, sum_zip_powerRows encTable64_powerRows (by rw [length]; rfl)]
  simp

/-- `Encode64`'s conversion of sixteen limbs never wraps: the accumulation of
the first eight, the mini-reduction of `intermediate[16]` into
`intermediate[15]`, the accumulation of the last eight and the carry pass fit
in `uint64`, and the carried values are below `58^5`. -/
theorem encode64Limbs_fits (digits : Digits (2 ^ 32) limbs) (length : limbs.length = bin64sz) :
    let rows := limbs.zip encTable64
    let first := addRows (List.replicate inter64sz 0) (rows.take 8)
    let intermediate := addRows (carryAt encHi encLo 16 first) (rows.drop 8)
    AccumulateFits (List.replicate 17 0) (rows.take 8) ∧
      StepFits encHi (first.drop 15) ∧
      AccumulateFits (carryAt encHi encLo 16 first).tail (rows.drop 8) ∧
      CarryFits encHi encLo intermediate ∧
      ∀ v ∈ carryLoop encHi encLo (inter64sz - 1) intermediate, v < r1Div := by
  intro rows first intermediate
  obtain ⟨bound_first, bound_mini, bound_last, bound_carry⟩ := encode64_bound_fits
  have rows_le := rows_le_encodeBoundRows digits encTable64 length
  obtain ⟨fits_first, le_first⟩ := accumulate_mono (List.forall₂_refl _)
    (List.forall₂_take 8 rows_le) bound_first
  obtain ⟨fits_mini, le_mini⟩ := @carryAt_mono encHi encLo encHi_mono (fun _ => r1Div - 1)
    (fun y _ _ => Nat.le_sub_one_of_lt (encLo_lt y)) 15 _ _ (.cons le_rfl le_first) bound_mini
  obtain ⟨fits_last, le_last⟩ := accumulate_mono (List.forall₂_drop 1 le_mini)
    (List.forall₂_drop 8 rows_le) bound_last
  have carry_fits : CarryFits encHi encLo intermediate :=
    (carryPass_mono encHi_mono (.cons le_rfl le_last) bound_carry).1
  refine ⟨fits_first, fits_mini, fits_last, carry_fits, ?_⟩
  have value_lt : beValue r1Div intermediate < 256 ^ (4 * width64.binSz) :=
    calc beValue r1Div intermediate
      _ = beValue (2 ^ 32) limbs := beValue_encode64Limbs length fits_first fits_mini fits_last
      _ < (2 ^ 32) ^ limbs.length := beValue_lt digits
      _ = 256 ^ (4 * width64.binSz) := by rw [length, two_pow_32_pow]; rfl
  have inter_length : intermediate.length = width64.interSz := by
    show (0 :: accumulate (carryAt encHi encLo 15 (accumulate (List.replicate 17 0) (rows.take 8)))
      (rows.drop 8)).length = 18
    simp
  have := carryPass_lt_r1Div width64 inter_length carry_fits value_lt
  rwa [← carryLoop_eq_carryPass, inter_length] at this

/-- The carry pass of `Encode64`'s conversion fits, and the conversion keeps the
value of the limbs. -/
theorem encode64Limbs_spec (digits : Digits (2 ^ 32) limbs) (length : limbs.length = bin64sz) :
    let rows := limbs.zip encTable64
    let intermediate := addRows (carryAt encHi encLo 16
      (addRows (List.replicate inter64sz 0) (rows.take 8))) (rows.drop 8)
    CarryFits encHi encLo intermediate ∧ beValue r1Div intermediate = beValue (2 ^ 32) limbs := by
  obtain ⟨fits_first, fits_mini, fits_last, carry_fits, -⟩ := encode64Limbs_fits digits length
  exact ⟨carry_fits, beValue_encode64Limbs length fits_first fits_mini fits_last⟩

end Limbs64

/-- `Encode64` never wraps: for every input the accumulation of the first eight
limbs, the mini-reduction of `intermediate[16]` into `intermediate[15]`, the
accumulation of the last eight limbs and the final carry pass fit in `uint64`,
and the carried intermediate values are below `58^5`. -/
theorem encode64_fits (input : Bytes 64) :
    let rows := (toLimbs bin64sz input.toList).zip encTable64
    let first := addRows (List.replicate inter64sz 0) (rows.take 8)
    AccumulateFits (List.replicate 17 0) (rows.take 8) ∧
      StepFits encHi (first.drop 15) ∧
      AccumulateFits (carryAt encHi encLo 16 first).tail (rows.drop 8) ∧
      CarryFits encHi encLo (intermediate64 input) ∧
      ∀ v ∈ carryLoop encHi encLo (inter64sz - 1) (intermediate64 input), v < r1Div :=
  encode64Limbs_fits (toLimbs_digits bin64sz input.toList) (length_toLimbs bin64sz input.toList)

/-! ## Base 58 -/

/-- A value below `58^5` splits into five base-58 digits. -/
theorem splitDigits_spec {x : Nat} (lt : x < r1Div) :
    Digits 58 (splitDigits x) ∧ beValue 58 (splitDigits x) = x ∧ (splitDigits x).length = 5 := by
  unfold r1Div at lt
  have hx : x % 2 ^ 32 = x := Nat.mod_eq_of_lt (by omega)
  have top : x / 11316496 < 58 := by omega
  simp only [splitDigits, toByte, hx, Nat.div_one, Nat.mod_eq_of_lt top,
    Nat.mod_eq_of_lt (Nat.lt_trans (Nat.mod_lt _ (by decide : 58 > 0)) (by decide : 58 < 256))]
  refine ⟨?_, ?_, rfl⟩
  · intro d hd
    simp only [List.mem_cons, List.mem_singleton, List.not_mem_nil, or_false] at hd
    omega
  · have h1 := Nat.div_add_mod x 58
    have h2 := Nat.div_add_mod (x / 58) 58
    have h3 := Nat.div_add_mod (x / 58 / 58) 58
    have h4 := Nat.div_add_mod (x / 58 / 58 / 58) 58
    simp only [Nat.div_div_eq_div_mul] at h2 h3 h4
    simp only [beValue_cons, beValue_nil, List.length_cons, List.length_nil]
    generalize x / 58 % 58 = d, x / 3364 % 58 = c, x / 195112 % 58 = b, x % 58 = e,
      x / 58 = q1, x / 3364 = q2, x / 195112 = q3 at *
    omega

theorem flatMap_splitDigits {l : List Nat} (digits : Digits r1Div l) :
    Digits 58 (l.flatMap splitDigits) ∧ beValue 58 (l.flatMap splitDigits) = beValue r1Div l ∧
      (l.flatMap splitDigits).length = 5 * l.length := by
  induction l with
  | nil => exact ⟨fun _ h => by simp at h, rfl, rfl⟩
  | cons x xs ih =>
    obtain ⟨head_digits, head_value, head_length⟩ := splitDigits_spec digits.head
    obtain ⟨tail_digits, tail_value, tail_length⟩ := ih digits.tail
    refine ⟨Digits.append head_digits tail_digits, ?_, by simp [head_length, tail_length]; ring⟩
    rw [List.flatMap_cons, beValue_append, head_value, tail_value, tail_length, beValue_cons,
      r1Div_pow]

/-- The raw base-58 digits are the carried intermediate array's value in base 58,
with `5 * INTERMEDIATE_SZ` digits. -/
theorem rawBase58_spec (w : Width) {intermediate : List Nat}
    (length : intermediate.length = w.interSz) (fits : CarryFits encHi encLo intermediate)
    (value_lt : beValue r1Div intermediate < 256 ^ (4 * w.binSz)) :
    Digits 58 (rawBase58 w intermediate) ∧
      beValue 58 (rawBase58 w intermediate) = beValue r1Div intermediate ∧
      (rawBase58 w intermediate).length = 5 * w.interSz := by
  have carried := carryPass_lt_r1Div w length fits value_lt
  obtain ⟨digits, value, len⟩ := flatMap_splitDigits carried
  rw [rawBase58, ← length, carryLoop_eq_carryPass]
  exact ⟨digits, value.trans (beValue_carryPass encHi_encLo fits), by simpa using len⟩

/-- The input's value has at most `maxLen - inLeading0s` base-58 digits. -/
theorem leading0s_add_length_digits_le (w : Width) {z X : Nat}
    (z_eq : z + (Nat.digits 256 X).length = 4 * w.binSz) :
    z + (Nat.digits 58 X).length ≤ w.maxLen := by
  have short := Nat.lt_base_pow_length_digits (m := X) (b := 256) (by decide)
  have z_le : z ≤ w.maxLen := by have := w.bytes_le_maxLen; omega
  have fits : 256 ^ (Nat.digits 256 X).length * 58 ^ z ≤ 58 ^ (w.maxLen - z) * 58 ^ z :=
    calc 256 ^ (Nat.digits 256 X).length * 58 ^ z
        ≤ 256 ^ (Nat.digits 256 X).length * 256 ^ z := Nat.mul_le_mul_left _ (Nat.pow_le_pow_left (by decide) z)
      _ = 256 ^ (4 * w.binSz) := by rw [← pow_add, ← z_eq, Nat.add_comm]
      _ ≤ 58 ^ w.maxLen := w.value_le
      _ = 58 ^ (w.maxLen - z) * 58 ^ z := by rw [← pow_add, Nat.sub_add_cancel z_le]
  have := length_digits_le_of_lt_pow (b := 58) (by decide)
    (lt_of_lt_of_le short (Nat.le_of_mul_le_mul_right fits (by positivity)))
  omega

/-! ## Writing the output -/

theorem take_succ_set {l : List UInt8} {i : Nat} (c : UInt8) (inside : i < l.length) :
    (l.set i c).take (i + 1) = l.take i ++ [c] := by
  rw [List.take_succ, List.set_take, List.set_eq_of_length_le (by simp),
    List.getElem?_set_self inside]
  rfl

/-- The output loop writes `alphabet[raw[j+skip]]` at every `j` of `[i, i+k)`
and nothing else, when all indices are in range. -/
theorem writeOut_eq {raw : List Nat} (digits : Digits 58 raw) (skip : Nat) {n : Nat} :
    ∀ (k i : Nat) (out : Bytes n), i + k ≤ n → i + skip + k ≤ raw.length →
      ∃ out', writeOut raw skip k i out = some out' ∧
        out'.toList = out.toList.take i ++ ((raw.drop (i + skip)).take k).map (alphabet.getD · 0) ++
          out.toList.drop (i + k)
  | 0, i, out, _, _ => ⟨out, rfl, by simp⟩
  | k + 1, i, out, out_le, raw_le => by
    have raw_lt : i + skip < raw.length := by omega
    have digit_lt : raw[i + skip] < alphabet.length := by
      rw [length_alphabet]; exact digits _ (List.getElem_mem raw_lt)
    have out_lt : i < out.toList.length := by rw [out.length_eq]; omega
    obtain ⟨out', written, rest⟩ := writeOut_eq digits skip k (i + 1)
      (out.set i alphabet[raw[i + skip]]) (by omega) (by omega)
    refine ⟨out', ?_, ?_⟩
    · simp only [writeOut, List.getElem?_eq_getElem raw_lt, List.getElem?_eq_getElem digit_lt,
        if_pos (show i < n by omega)]
      exact written
    · rw [rest, Bytes.toList_set, take_succ_set _ out_lt, List.drop_set, if_pos (by omega),
        List.drop_eq_getElem_cons raw_lt, List.take_succ_cons, List.map_cons,
        show i + 1 + skip = i + skip + 1 by omega, show i + 1 + k = i + (k + 1) by omega]
      simp [List.getElem?_eq_getElem digit_lt]

/-- The raw digits are their leading zeros followed by the digits of the value. -/
theorem leading0s_rawBase58 (w : Width) {intermediate : List Nat}
    (length : intermediate.length = w.interSz) (fits : CarryFits encHi encLo intermediate)
    (value_lt : beValue r1Div intermediate < 256 ^ (4 * w.binSz)) :
    leading0s (rawBase58 w intermediate) + (Nat.digits 58 (beValue r1Div intermediate)).length =
      5 * w.interSz := by
  obtain ⟨digits, value, raw_length⟩ := rawBase58_spec w length fits value_lt
  rw [← value, ← raw_length]
  exact leading0s_add_length_digits (by decide) digits

theorem subUint_of_le {a b : Nat} (le : b ≤ a) (lt : a < 2 ^ 64) : subUint a b = a - b := by
  unfold subUint
  rw [show a + 2 ^ 64 - b = a - b + 2 ^ 64 by omega, Nat.add_mod_right, Nat.mod_eq_of_lt (by omega)]

/-- The end of the encoder on an intermediate array of value `X` whose carry
pass fits, for an input with `z` leading zero bytes: the raw digits have at
least `z + (RAW58_SZ - maxLen)` leading zeros, and the encoder writes `z` ones
and the base-58 digits of `X`, returns their number and keeps the rest of
`out`. -/
theorem encodeTail_eq (w : Width) (out : Bytes w.maxLen) {z : Nat} {intermediate : List Nat}
    (length : intermediate.length = w.interSz) (fits : CarryFits encHi encLo intermediate)
    (value_lt : beValue r1Div intermediate < 256 ^ (4 * w.binSz))
    (z_eq : z + (Nat.digits 256 (beValue r1Div intermediate)).length = 4 * w.binSz) :
    z + (5 * w.interSz - w.maxLen) ≤ leading0s (rawBase58 w intermediate) ∧
      ∃ out', encodeTail w out z intermediate =
          some (out', z + (Nat.digits 58 (beValue r1Div intermediate)).length) ∧
        out'.toList = List.replicate z 49 ++
          (Nat.digits 58 (beValue r1Div intermediate)).reverse.map (alphabet.getD · 0) ++
          out.toList.drop (z + (Nat.digits 58 (beValue r1Div intermediate)).length) := by
  obtain ⟨digits, value, raw_length⟩ := rawBase58_spec w length fits value_lt
  have count := leading0s_rawBase58 w length fits value_lt
  have split := eq_replicate_leading0s_digits (b := 58) (by decide) digits
  rw [value] at split
  have bound := leading0s_add_length_digits_le w z_eq
  have := w.maxLen_lt
  have := w.rawSz_lt
  set raw := rawBase58 w intermediate
  set D := (Nat.digits 58 (beValue r1Div intermediate)).reverse
  have D_length : D.length = (Nat.digits 58 (beValue r1Div intermediate)).length := List.length_reverse _
  have skip_eq : subUint (leading0s raw) z = leading0s raw - z := subUint_of_le (by omega) (by omega)
  have n_eq : subUint w.encSz (leading0s raw - z) = z + D.length := by
    rw [w.encSz_eq, subUint_of_le (by omega) (by omega)]; omega
  refine ⟨by omega, ?_⟩
  obtain ⟨out', written, rest⟩ := writeOut_eq digits (leading0s raw - z) (z + D.length)
    0 out (by omega) (by omega)
  have dropped : raw.drop (leading0s raw - z) = List.replicate z 0 ++ D :=
    calc raw.drop (leading0s raw - z)
        = (List.replicate (leading0s raw) 0 ++ D).drop (leading0s raw - z) := by rw [← split]
      _ = List.replicate z 0 ++ D := by
        rw [List.drop_append_of_le_length (by simp), List.drop_replicate,
          show leading0s raw - (leading0s raw - z) = z by omega]
  refine ⟨out', ?_, ?_⟩
  · show (writeOut raw (subUint (leading0s raw) z) (subUint w.encSz
      (subUint (leading0s raw) z)) 0 out).map (·, _) = _
    rw [skip_eq, n_eq, written, D_length]
    rfl
  · rw [rest, List.take_zero, List.nil_append, Nat.zero_add, Nat.zero_add, dropped,
      List.take_of_length_le (by simp), List.map_append, List.map_replicate, D_length]
    rfl

theorem leading0s_bytes_add_length_digits (x : List UInt8) :
    leading0s (x.map UInt8.toNat) + (Nat.digits 256 (bytesValue x)).length = x.length := by
  simpa using leading0s_add_length_digits (by decide) (digits_map_toNat x)

theorem length_base58Ref (x : List UInt8) :
    (base58Ref x).length = leading0s (x.map UInt8.toNat) + (Nat.digits 58 (bytesValue x)).length := by
  simp [base58Ref]

theorem base58Ref_eq (x : List UInt8) :
    base58Ref x = List.replicate (leading0s (x.map UInt8.toNat)) 49 ++
      (Nat.digits 58 (bytesValue x)).reverse.map (alphabet.getD · 0) := rfl

/-- `Encode32`'s carry pass fits and the value of its intermediate array is the
input's. -/
theorem intermediate32_spec (input : Bytes 32) :
    CarryFits encHi encLo (intermediate32 input) ∧
      beValue r1Div (intermediate32 input) = bytesValue input.toList := by
  obtain ⟨acc_fits, carry_fits, -⟩ := encode32_fits input
  exact ⟨carry_fits, beValue_intermediate32 input acc_fits⟩

theorem intermediate64_spec (input : Bytes 64) :
    CarryFits encHi encLo (intermediate64 input) ∧
      beValue r1Div (intermediate64 input) = bytesValue input.toList := by
  obtain ⟨carry_fits, value⟩ :=
    encode64Limbs_spec (toLimbs_digits bin64sz input.toList) (length_toLimbs bin64sz input.toList)
  exact ⟨carry_fits, value.trans (beValue_toLimbs bin64sz (by simp [input.length_eq, bin64sz]))⟩

/-- The encoder of a width, on an intermediate array holding the input's value,
writes the input's base58 text and keeps the rest of `out`. -/
theorem encodeTail_eq_base58Ref (w : Width) (out : Bytes w.maxLen) {input : List UInt8}
    (input_length : input.length = 4 * w.binSz) {intermediate : List Nat}
    (length : intermediate.length = w.interSz) (fits : CarryFits encHi encLo intermediate)
    (value : beValue r1Div intermediate = bytesValue input) :
    ∃ out', encodeTail w out (leading0s (input.map UInt8.toNat)) intermediate =
        some (out', (base58Ref input).length) ∧
      out'.toList = base58Ref input ++ out.toList.drop (base58Ref input).length := by
  have value_lt : beValue r1Div intermediate < 256 ^ (4 * w.binSz) := by
    rw [value, ← input_length]; exact bytesValue_lt input
  obtain ⟨-, out', written, list⟩ := encodeTail_eq w out length fits value_lt
    (z := leading0s (input.map UInt8.toNat))
    (by rw [value, leading0s_bytes_add_length_digits, input_length])
  rw [value] at written list
  exact ⟨out', by rw [written, length_base58Ref], by rw [list, length_base58Ref, base58Ref_eq]⟩

/-- The skip of the encoder of a width: the raw digits have at least
`RAW58_SZ - maxLen` more leading zeros than the input has leading zero bytes,
so `skip = rawLeading0s - inLeading0s` does not wrap, the output loop stays in
range, and the returned length `RAW58_SZ - skip` lies in `[N, maxLen]`. -/
theorem encodeTail_skip (w : Width) (out : Bytes w.maxLen) {input : List UInt8}
    (input_length : input.length = 4 * w.binSz) {intermediate : List Nat}
    (length : intermediate.length = w.interSz) (fits : CarryFits encHi encLo intermediate)
    (value : beValue r1Div intermediate = bytesValue input) :
    let inLeading0s := leading0s (input.map UInt8.toNat)
    let rawLeading0s := leading0s (rawBase58 w intermediate)
    inLeading0s + (5 * w.interSz - w.maxLen) ≤ rawLeading0s ∧
      ∃ out', encodeTail w out inLeading0s intermediate =
          some (out', 5 * w.interSz - (rawLeading0s - inLeading0s)) ∧
        4 * w.binSz ≤ 5 * w.interSz - (rawLeading0s - inLeading0s) ∧
        5 * w.interSz - (rawLeading0s - inLeading0s) ≤ w.maxLen := by
  intro inLeading0s rawLeading0s
  have value_lt : beValue r1Div intermediate < 256 ^ (4 * w.binSz) := by
    rw [value, ← input_length]; exact bytesValue_lt input
  have z_eq := leading0s_bytes_add_length_digits input
  rw [input_length, ← value] at z_eq
  obtain ⟨skip_le, out', written, -⟩ := encodeTail_eq w out length fits value_lt z_eq
  have count := leading0s_rawBase58 w length fits value_lt
  have bound := leading0s_add_length_digits_le w z_eq
  have more := length_digits_le_of_base_le (X := beValue r1Div intermediate) (b := 58) (c := 256)
    (by decide) (by decide)
  have n_eq : 5 * w.interSz - (rawLeading0s - inLeading0s) =
      inLeading0s + (Nat.digits 58 (beValue r1Div intermediate)).length := by omega
  exact ⟨skip_le, out', by rw [n_eq]; exact written, by omega, by omega⟩

/-- `Encode32`'s skip: `rawLeading0s ≥ inLeading0s + 1` over the 45 raw digits,
so the skip does not wrap, every index is in range, and the returned length
`45 - skip` lies in `[32, 44]`. -/
theorem encode32_skip (out : Bytes 44) (input : Bytes 32) :
    let inLeading0s := leading0s (input.toList.map UInt8.toNat)
    let rawLeading0s := leading0s (rawBase58 width32 (intermediate32 input))
    inLeading0s + 1 ≤ rawLeading0s ∧
      ∃ out', encode32 out input = some (out', 45 - (rawLeading0s - inLeading0s)) ∧
        32 ≤ 45 - (rawLeading0s - inLeading0s) ∧ 45 - (rawLeading0s - inLeading0s) ≤ 44 :=
  encodeTail_skip width32 out (by simp [input.length_eq]; rfl) (length_intermediate32 input)
    (intermediate32_spec input).1 (intermediate32_spec input).2

/-- `Encode64`'s skip: `rawLeading0s ≥ inLeading0s + 2` over the 90 raw digits,
so the skip does not wrap, every index is in range, and the returned length
`90 - skip` lies in `[64, 88]`. -/
theorem encode64_skip (out : Bytes 88) (input : Bytes 64) :
    let inLeading0s := leading0s (input.toList.map UInt8.toNat)
    let rawLeading0s := leading0s (rawBase58 width64 (intermediate64 input))
    inLeading0s + 2 ≤ rawLeading0s ∧
      ∃ out', encode64 out input = some (out', 90 - (rawLeading0s - inLeading0s)) ∧
        64 ≤ 90 - (rawLeading0s - inLeading0s) ∧ 90 - (rawLeading0s - inLeading0s) ≤ 88 :=
  encodeTail_skip width64 out (by simp [input.length_eq]; rfl) (length_intermediate64 input)
    (intermediate64_spec input).1 (intermediate64_spec input).2

/-- `Encode32` writes exactly the base58 text of its input into `out[:n]`,
returns `n`, and leaves `out[n:]` as it was. -/
theorem encode32_eq_base58Ref (out : Bytes 44) (input : Bytes 32) :
    ∃ out', encode32 out input = some (out', (base58Ref input.toList).length) ∧
      out'.toList = base58Ref input.toList ++ out.toList.drop (base58Ref input.toList).length :=
  encodeTail_eq_base58Ref width32 out (by simp [input.length_eq]; rfl)
    (length_intermediate32 input) (intermediate32_spec input).1 (intermediate32_spec input).2

/-- `Encode64` writes exactly the base58 text of its input into `out[:n]`,
returns `n`, and leaves `out[n:]` as it was. -/
theorem encode64_eq_base58Ref (out : Bytes 88) (input : Bytes 64) :
    ∃ out', encode64 out input = some (out', (base58Ref input.toList).length) ∧
      out'.toList = base58Ref input.toList ++ out.toList.drop (base58Ref input.toList).length :=
  encodeTail_eq_base58Ref width64 out (by simp [input.length_eq]; rfl)
    (length_intermediate64 input) (intermediate64_spec input).1 (intermediate64_spec input).2

/-! ## Both widths -/

/-- Neither encoder wraps a `uint64`, for any input: not in the accumulation,
not in `Encode64`'s reduction of `intermediate[16]`, and not in the carry pass;
after it every intermediate value is below `58^5`. -/
theorem encode_fits :
    (∀ input : Bytes 32,
      AccumulateFits (List.replicate 8 0) ((toLimbs bin32sz input.toList).zip encTable32) ∧
        CarryFits encHi encLo (intermediate32 input) ∧
        ∀ v ∈ carryLoop encHi encLo (inter32sz - 1) (intermediate32 input), v < r1Div) ∧
    ∀ input : Bytes 64,
      let rows := (toLimbs bin64sz input.toList).zip encTable64
      let first := addRows (List.replicate inter64sz 0) (rows.take 8)
      AccumulateFits (List.replicate 17 0) (rows.take 8) ∧
        StepFits encHi (first.drop 15) ∧
        AccumulateFits (carryAt encHi encLo 16 first).tail (rows.drop 8) ∧
        CarryFits encHi encLo (intermediate64 input) ∧
        ∀ v ∈ carryLoop encHi encLo (inter64sz - 1) (intermediate64 input), v < r1Div :=
  ⟨encode32_fits, encode64_fits⟩

/-- The skip of both encoders: `Encode32` drops at least one more leading raw
digit than the input has leading zero bytes, `Encode64` at least two; the
returned lengths lie in `[32, 44]` and `[64, 88]`. -/
theorem encode_skip :
    (∀ (out : Bytes 44) (input : Bytes 32),
      let inLeading0s := leading0s (input.toList.map UInt8.toNat)
      let rawLeading0s := leading0s (rawBase58 width32 (intermediate32 input))
      inLeading0s + 1 ≤ rawLeading0s ∧
        ∃ out', encode32 out input = some (out', 45 - (rawLeading0s - inLeading0s)) ∧
          32 ≤ 45 - (rawLeading0s - inLeading0s) ∧ 45 - (rawLeading0s - inLeading0s) ≤ 44) ∧
    ∀ (out : Bytes 88) (input : Bytes 64),
      let inLeading0s := leading0s (input.toList.map UInt8.toNat)
      let rawLeading0s := leading0s (rawBase58 width64 (intermediate64 input))
      inLeading0s + 2 ≤ rawLeading0s ∧
        ∃ out', encode64 out input = some (out', 90 - (rawLeading0s - inLeading0s)) ∧
          64 ≤ 90 - (rawLeading0s - inLeading0s) ∧ 90 - (rawLeading0s - inLeading0s) ≤ 88 :=
  ⟨encode32_skip, encode64_skip⟩

/-- Both encoders write exactly the reference base58 text of their input. -/
theorem encode_eq_base58Ref :
    (∀ (out : Bytes 44) (input : Bytes 32),
      ∃ out', encode32 out input = some (out', (base58Ref input.toList).length) ∧
        out'.toList = base58Ref input.toList ++ out.toList.drop (base58Ref input.toList).length) ∧
    ∀ (out : Bytes 88) (input : Bytes 64),
      ∃ out', encode64 out input = some (out', (base58Ref input.toList).length) ∧
        out'.toList = base58Ref input.toList ++ out.toList.drop (base58Ref input.toList).length :=
  ⟨encode32_eq_base58Ref, encode64_eq_base58Ref⟩

end Base58
