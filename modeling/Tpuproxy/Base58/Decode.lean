import Tpuproxy.Base58.Encode
import Mathlib.Data.List.GetD

/-!
# `Decode32` and `Decode64`

The two decoders are one function of the width (`decode`): check the length,
validate every character through `inverseLUT`, left-pad the digits with zeros,
group them by five into base `58^5`, multiply into base `2^32` with
`decTable`, carry, reject a value that does not fit, write `out` big-endian,
and check that the text's leading `'1'`s match the decoded leading zero bytes.
Go panics on an index out of range; the model returns `none` there.

Results:
* `validate_eq_none_iff`: the validation loop panics exactly when the first
  character outside the alphabet lies below `'1'`: the clamp of
  `inverseLUTSentinel` bounds the index from above only.
* `decode_fits`: after the length and character checks no `uint64` sum of the
  accumulation into `binary_` or of the carry pass wraps, and the overflow check
  rejects exactly the texts whose value is at least `256^N`.
* `decode_eq_some_true_iff`: `decode` accepts a text exactly when it is the
  canonical base58 text of the decoded bytes.
* `decode_false_out`: a rejected text that fails the length, alphabet or range
  check leaves `out` as it was; one that passes them has its value in `out`,
  since the final leading-`'1'` check runs after `out` is written.
-/

namespace Base58

/-! ## The model -/

/-- `inverseLUT[idx]` with Go's bounds check; `none` is a panic. -/
def lutAt (idx : Int) : Option Nat :=
  if 0 ≤ idx then inverseLUT[idx.toNat]? else none

/-- The index the validation loop computes for `c`:
`idx := int(c) - int(inverseLUTOffset)`, lowered to `inverseLUTSentinel`
when above it. -/
def lutIndex (c : UInt8) : Int :=
  let idx : Int := c.toNat - inverseLUTOffset
  if idx > inverseLUTSentinel then inverseLUTSentinel else idx

/-- The validation loop: `some true` when every character is valid, `some false`
when the loop returns `false`, `none` on a panic. -/
def validate : List UInt8 → Option Bool
  | [] => some true
  | c :: cs =>
    match lutAt (lutIndex c) with
    | none => none
    | some v => if v = invalidChar then some false else validate cs

/-- `rawBase58[j]` of the padding loop, `prepend0 = RAW58_SZ - len(encoded)`:
zero before the text, else `inverseLUT[encoded[j-prepend0] - inverseLUTOffset]`
in byte arithmetic. -/
def rawDigitAt (encoded : List UInt8) (prepend0 j : Nat) : Option Nat :=
  if j ≥ prepend0 then
    match encoded[j - prepend0]? with
    | none => none
    | some c => inverseLUT[(c - 49).toNat]?
  else some 0

/-- The padding loop `for j := 0; j < RAW58_SZ; j++`. After the length check
`prepend0` is not negative. -/
def decodeRaw (rawSz : Nat) (encoded : List UInt8) : Option (List Nat) :=
  (List.range rawSz).mapM (rawDigitAt encoded (rawSz - encoded.length))

/-- `intermediate[i]` from `rawBase58[5*i .. 5*i+4]`. The sum is below `2^32`. -/
def groupDigits (interSz : Nat) (raw : List Nat) : List Nat :=
  (List.range interSz).map fun i =>
    raw.getD (5 * i) 0 * 11316496 + raw.getD (5 * i + 1) 0 * 195112 +
      raw.getD (5 * i + 2) 0 * 3364 + raw.getD (5 * i + 3) 0 * 58 + raw.getD (5 * i + 4) 0

/-- The inner loop for one `j`: `acc += uint64(intermediate[i]) * uint64(decTable[i][j])`
over the pairs `(intermediate[i], decTable[i])`. -/
def dotColumn (j : Nat) (acc : Nat) : List (Nat × List Nat) → Nat
  | [] => acc
  | r :: rows => dotColumn j (wrap64 (acc + wrap64 (r.1 * r.2.getD j 0))) rows

/-- No `+=` of `dotColumn j acc rows` wraps. -/
def DotColumnFits (j : Nat) (acc : Nat) : List (Nat × List Nat) → Prop
  | [] => True
  | r :: rows => acc + r.1 * r.2.getD j 0 < 2 ^ 64 ∧
      DotColumnFits j (wrap64 (acc + wrap64 (r.1 * r.2.getD j 0))) rows

/-- `for j := 0; j < BIN_SZ; j++ { binary_[j] = Σ_i intermediate[i] * decTable[i][j] }`. -/
def binaryColumns (binSz : Nat) (rows : List (Nat × List Nat)) : List Nat :=
  (List.range binSz).map fun j => dotColumn j 0 rows

/-- `binary.BigEndian.PutUint32(b, uint32(v))`. -/
def putUint32 (v : Nat) : List UInt8 :=
  let v := v % 2 ^ 32
  [(v >>> 24).toUInt8, (v >>> 16).toUInt8, (v >>> 8).toUInt8, v.toUInt8]

theorem length_flatMap_putUint32 (binary : List Nat) :
    (binary.flatMap putUint32).length = 4 * binary.length := by
  induction binary with
  | nil => rfl
  | cons v vs ih => simp only [List.flatMap_cons, List.length_append, ih]; simp [putUint32]; ring

/-- `for i := 0; i < BIN_SZ; i++ { PutUint32(out[4*i:], uint32(binary_[i])) }`:
every byte of `out` is written. -/
def putLimbs (binSz : Nat) (binary : List Nat) (length : binary.length = binSz) :
    Bytes (4 * binSz) :=
  ⟨binary.flatMap putUint32, by rw [length_flatMap_putUint32, length]⟩

/-- `if leadingZeroCnt < len(encoded) && encoded[leadingZeroCnt] == '1' { return false }`. -/
def trailingOneCheck (encoded : List UInt8) (i : Nat) : Bool :=
  !(i < encoded.length && encoded.getD i 0 == 49)

/-- The loop `for leadingZeroCnt = i; leadingZeroCnt < N; leadingZeroCnt++` with `k`
iterations left, followed by `trailingOneCheck`; `none` is a panic. -/
def leadingCheck (out encoded : List UInt8) : Nat → Nat → Option Bool
  | 0, i => some (trailingOneCheck encoded i)
  | k + 1, i =>
    match out[i]? with
    | none => none
    | some b =>
      if b ≠ 0 then some (trailingOneCheck encoded i)
      else
        match encoded[i]? with
        | none => none
        | some c => if c ≠ 49 then some false else leadingCheck out encoded k (i + 1)

/-- `Decode32` and `Decode64` for a width: the returned `ok` and the final `out`;
`none` is a panic. -/
def decode (w : Width) (out : Bytes (4 * w.binSz)) (encoded : List UInt8) :
    Option (Bool × Bytes (4 * w.binSz)) :=
  if encoded.length < 4 * w.binSz ∨ encoded.length > w.maxLen then some (false, out)
  else
    match validate encoded with
    | none => none
    | some false => some (false, out)
    | some true =>
      match decodeRaw w.rawSz encoded with
      | none => none
      | some raw =>
        let intermediate := groupDigits w.interSz raw
        let binary := carryLoop decHi decLo (w.binSz - 1)
          (binaryColumns w.binSz (intermediate.zip w.decTable))
        if binary.headD 0 > 0xFFFFFFFF then some (false, out)
        else
          let out := putLimbs w.binSz binary (by simp [binary, binaryColumns])
          (leadingCheck out.toList encoded (4 * w.binSz) 0).map (·, out)

/-- `Decode32(out, encoded)`. -/
def decode32 (out : Bytes 32) (encoded : List UInt8) : Option (Bool × Bytes 32) :=
  decode width32 out encoded

/-- `Decode64(out, encoded)`. -/
def decode64 (out : Bytes 64) (encoded : List UInt8) : Option (Bool × Bytes 64) :=
  decode width64 out encoded

/-! ## Characters -/

/-- The digit `inverseLUT` gives a character from `'1'` on; `0xFF` when there is
none. -/
def lutDigit (c : UInt8) : Nat := inverseLUT.getD (c.toNat - 49) 0xFF

/-- `c` passes the validation loop. -/
def isValid (c : UInt8) : Bool := 49 ≤ c.toNat && lutDigit c != 0xFF

theorem lutAt_lutIndex (c : UInt8) :
    lutAt (lutIndex c) = if c.toNat < 49 then none else some (lutDigit c) := by
  have hc := c.toNat_lt_size
  have idx_eq : lutIndex c = if (c.toNat : Int) - 49 > 74 then 74 else (c.toNat : Int) - 49 := rfl
  rw [idx_eq]
  unfold lutAt lutDigit
  by_cases low : c.toNat < 49
  · rw [if_pos low, if_neg (show ¬ ((c.toNat : Int) - 49 > 74) by omega), if_neg (by omega)]
  · rw [if_neg low]
    by_cases high : (c.toNat : Int) - 49 > 74
    · -- The clamp: the index is `inverseLUTSentinel`, and the character lies past the table.
      rw [if_pos high, if_pos (by omega), List.getD_eq_default _ _ (by rw [length_inverseLUT]; omega)]
      exact inverseLUT_sentinel
    · rw [if_neg high, if_pos (by omega), show ((c.toNat : Int) - 49).toNat = c.toNat - 49 by omega,
        List.getD_eq_getElem _ _ (by rw [length_inverseLUT]; omega),
        List.getElem?_eq_getElem (by rw [length_inverseLUT]; omega)]

theorem validate_cons (c : UInt8) (cs : List UInt8) :
    validate (c :: cs) =
      if c.toNat < 49 then none else if lutDigit c = invalidChar then some false else validate cs := by
  rw [validate, lutAt_lutIndex]
  split_ifs <;> simp_all

/-- A valid character is the `alphabet` character of its digit. -/
theorem alphabet_lutDigit {c : UInt8} (valid : isValid c) :
    lutDigit c < 58 ∧ alphabet.getD (lutDigit c) 0 = c := by
  simp only [isValid, Bool.and_eq_true, decide_eq_true_eq, bne_iff_ne, ne_eq] at valid
  obtain ⟨low, entry⟩ := valid
  have inside : c.toNat - 49 < 75 := by
    by_contra! out
    exact entry (List.getD_eq_default _ _ (by rw [length_inverseLUT]; omega))
  obtain ⟨lt, char⟩ := alphabet_inverseLUT (c.toNat - 49) inside entry
  exact ⟨lt, UInt8.toNat.inj (by rw [lutDigit, char]; omega)⟩

/-- The `alphabet` character of a digit is valid and has that digit. -/
theorem lutDigit_alphabet {d : Nat} (lt : d < 58) :
    isValid (alphabet.getD d 0) ∧ lutDigit (alphabet.getD d 0) = d := by
  obtain ⟨low, digit⟩ := inverseLUT_alphabet d lt
  refine ⟨?_, digit⟩
  simp only [isValid, Bool.and_eq_true, decide_eq_true_eq, bne_iff_ne, ne_eq, lutDigit, digit]
  omega

theorem lutDigit_eq_zero_iff {c : UInt8} (valid : isValid c) : lutDigit c = 0 ↔ c = 49 := by
  obtain ⟨lt, char⟩ := alphabet_lutDigit valid
  constructor
  · intro zero
    rw [← char, zero]
    rfl
  · rintro rfl
    rfl

/-! ## The validation loop -/

theorem validate_eq_some_true_iff (s : List UInt8) :
    validate s = some true ↔ ∀ c ∈ s, isValid c := by
  induction s with
  | nil => simp [validate]
  | cons c cs ih =>
    rw [validate_cons, List.forall_mem_cons, ← ih]
    simp only [isValid, Bool.and_eq_true, decide_eq_true_eq, bne_iff_ne, ne_eq, invalidChar]
    split_ifs <;> simp_all

/-- A list has a first element outside `P` that satisfies `Q` when its head
does, or when its head is in `P` and its tail has one. -/
theorem exists_first_cons {α : Type} (P Q : α → Prop) (c : α) (cs : List α) :
    (∃ p x r, c :: cs = p ++ x :: r ∧ (∀ y ∈ p, P y) ∧ Q x) ↔
      Q c ∨ P c ∧ ∃ p x r, cs = p ++ x :: r ∧ (∀ y ∈ p, P y) ∧ Q x := by
  constructor
  · rintro ⟨_ | ⟨y, p⟩, x, r, split, before, found⟩
    · obtain ⟨rfl, rfl⟩ := List.cons.inj split
      exact .inl found
    · obtain ⟨rfl, rfl⟩ := List.cons.inj split
      exact .inr ⟨before _ (List.mem_cons_self _ _), p, x, r, rfl,
        fun z hz => before z (List.mem_cons_of_mem _ hz), found⟩
  · rintro (found | ⟨head, p, x, r, rfl, before, found⟩)
    · exact ⟨[], c, cs, rfl, by simp, found⟩
    · exact ⟨c :: p, x, r, rfl, List.forall_mem_cons.mpr ⟨head, before⟩, found⟩

/-- The validation loop panics exactly when the first character outside the
alphabet lies below `'1'`: for it `int(c) - int('1')` is negative, and the
clamp to `inverseLUTSentinel` only lowers indices above the table. -/
theorem validate_eq_none_iff (s : List UInt8) :
    validate s = none ↔
      ∃ p c r, s = p ++ c :: r ∧ (∀ x ∈ p, isValid x) ∧ c.toNat < 49 := by
  induction s with
  | nil => simp [validate]
  | cons c cs ih =>
    rw [validate_cons, exists_first_cons, ← ih]
    have valid : isValid c ↔ ¬c.toNat < 49 ∧ lutDigit c ≠ invalidChar := by
      simp [isValid, invalidChar]
    by_cases low : c.toNat < 49
    · simp [low]
    · by_cases bad : lutDigit c = invalidChar <;> simp [low, bad, valid]

/-! ## The padding loop and the intermediate format -/

theorem toNat_sub_49 {c : UInt8} (h : 49 ≤ c.toNat) : (c - 49).toNat = c.toNat - 49 :=
  UInt8.toNat_sub_of_le c 49 (by rw [UInt8.le_def, BitVec.le_def]; exact h)

theorem mapM_eq_some {α : Type} {f : α → Option Nat} {g : α → Nat} :
    ∀ {l : List α}, (∀ x ∈ l, f x = some (g x)) → l.mapM f = some (l.map g)
  | [], _ => rfl
  | x :: l, h => by
    rw [List.mapM_cons, h x (List.mem_cons_self x l),
      mapM_eq_some (fun y hy => h y (List.mem_cons_of_mem x hy))]
    rfl

/-- For a valid text no longer than `RAW58_SZ`, the padding loop yields its
digits after `RAW58_SZ - len(encoded)` zeros. -/
theorem decodeRaw_eq {rawSz : Nat} {s : List UInt8} (valid : ∀ c ∈ s, isValid c)
    (short : s.length ≤ rawSz) :
    decodeRaw rawSz s = some (List.replicate (rawSz - s.length) 0 ++ s.map lutDigit) := by
  rw [decodeRaw, mapM_eq_some (g := fun j => if rawSz - s.length ≤ j then
    lutDigit (s.getD (j - (rawSz - s.length)) 0) else 0)]
  · congr 1
    apply List.ext_getElem
    · simp; omega
    · intro j h₁ h₂
      simp only [List.getElem_map, List.getElem_range, List.getElem_append, List.length_replicate,
        List.getElem_replicate]
      split_ifs with h₃ h₄ h₄
      · omega
      · simp [List.getElem?_eq_getElem (show j - (rawSz - s.length) < s.length by
          simp at h₂; omega)]
      · rfl
      · omega
  · intro j hj
    rw [List.mem_range] at hj
    unfold rawDigitAt
    split_ifs with h
    · have inside : j - (rawSz - s.length) < s.length := by omega
      have valid_c := valid _ (List.getElem_mem inside)
      have low : 49 ≤ s[j - (rawSz - s.length)].toNat := by
        simp only [isValid, Bool.and_eq_true, decide_eq_true_eq] at valid_c; exact valid_c.1
      have entry : s[j - (rawSz - s.length)].toNat - 49 < inverseLUT.length := by
        rw [length_inverseLUT]
        by_contra! out
        have := (alphabet_lutDigit valid_c).1
        rw [lutDigit, List.getD_eq_default _ _ (by rw [length_inverseLUT]; omega)] at this
        omega
      rw [List.getElem?_eq_getElem inside, List.getD_eq_getElem _ _ inside]
      simp only [toNat_sub_49 low, List.getElem?_eq_getElem entry, lutDigit,
        List.getD_eq_getElem _ _ entry]
    · rfl

@[simp] theorem groupDigits_zero (raw : List Nat) : groupDigits 0 raw = [] := rfl

theorem groupDigits_cons (k a b c d e : Nat) (rest : List Nat) :
    groupDigits (k + 1) (a :: b :: c :: d :: e :: rest) =
      (a * 11316496 + b * 195112 + c * 3364 + d * 58 + e) :: groupDigits k rest := by
  simp only [groupDigits, List.range_succ_eq_map, List.map_cons, List.map_map]
  congr 1

/-- Grouping `5 * k` base-58 digits by five gives `k` base-`58^5` digits of the
same value. -/
theorem groupDigits_spec : ∀ (k : Nat) {raw : List Nat}, Digits 58 raw → raw.length = 5 * k →
    Digits r1Div (groupDigits k raw) ∧ beValue r1Div (groupDigits k raw) = beValue 58 raw ∧
      (groupDigits k raw).length = k
  | 0, raw, _, length => by
    rw [Nat.mul_zero, List.length_eq_zero] at length
    exact ⟨nofun, by simp [length], rfl⟩
  | k + 1, a :: b :: c :: d :: e :: rest, digits, length => by
    have ha := digits.head
    have hb := digits.tail.head
    have hc := digits.tail.tail.head
    have hd := digits.tail.tail.tail.head
    have he := digits.tail.tail.tail.tail.head
    have rest_length : rest.length = 5 * k := by simp at length; omega
    obtain ⟨rest_digits, rest_value, rest_len⟩ :=
      groupDigits_spec k digits.tail.tail.tail.tail.tail rest_length
    rw [groupDigits_cons]
    refine ⟨Digits.cons (by unfold r1Div; omega) rest_digits, ?_, by simp [rest_len]⟩
    simp only [beValue_cons, rest_value, rest_len, List.length_cons, rest_length, r1Div_pow]
    ring
  | _ + 1, [], _, length | _ + 1, [_], _, length | _ + 1, [_, _], _, length
  | _ + 1, [_, _, _], _, length | _ + 1, [_, _, _, _], _, length => by simp at length <;> omega

/-! ## The conversion to base `2^32` -/

theorem getD_macCols (limb : Nat) :
    ∀ {acc row : List Nat} {j : Nat}, j < acc.length → j < row.length →
      (macCols limb acc row).getD j 0 = wrap64 (acc.getD j 0 + wrap64 (limb * row.getD j 0))
  | _ :: _, _ :: _, 0, _, _ => rfl
  | _ :: acc, _ :: row, j + 1, hacc, hrow =>
    @getD_macCols limb acc row j (by simpa using hacc) (by simpa using hrow)

theorem macColsFits_getD {limb : Nat} :
    ∀ {acc row : List Nat}, MacColsFits limb acc row → ∀ {j : Nat}, j < acc.length →
      j < row.length → acc.getD j 0 + limb * row.getD j 0 < 2 ^ 64
  | _ :: _, _ :: _, fits, 0, _, _ => fits.1
  | _ :: _, _ :: _, fits, j + 1, hacc, hrow =>
    macColsFits_getD fits.2 (j := j) (by simpa using hacc) (by simpa using hrow)

theorem map_getD_range (l : List Nat) : (List.range l.length).map (l.getD · 0) = l := by
  apply List.ext_getElem
  · simp
  · intro i h₁ h₂
    simp [List.getElem?_eq_getElem h₂]

/-- The code's column-major loop (`j` outside, `i` inside) computes the
row-major accumulation: each `binary_[j]` is its own accumulator and receives
the same additions in the same order. -/
theorem map_dotColumn_eq_accumulate {n : Nat} :
    ∀ {rows : List (Nat × List Nat)} {acc : List Nat}, acc.length = n →
      (∀ r ∈ rows, r.2.length = n) →
      (List.range n).map (fun j => dotColumn j (acc.getD j 0) rows) = accumulate acc rows
  | [], acc, length, _ => by
    subst length; exact map_getD_range acc
  | r :: rows, acc, length, lengths => by
    have hr := lengths r (List.mem_cons_self r rows)
    rw [accumulate_cons, ← map_dotColumn_eq_accumulate (by rw [length_macCols, length])
      (fun r' hr' => lengths r' (List.mem_cons_of_mem r hr'))]
    apply List.map_congr_left
    intro j hj
    rw [List.mem_range] at hj
    rw [getD_macCols r.1 (by omega) (by omega)]
    rfl

/-- Every column of a row-major accumulation that fits fits. -/
theorem dotColumnFits_of_accumulateFits {n : Nat} :
    ∀ {rows : List (Nat × List Nat)} {acc : List Nat}, acc.length = n →
      (∀ r ∈ rows, r.2.length = n) → AccumulateFits acc rows →
      ∀ j < n, DotColumnFits j (acc.getD j 0) rows
  | [], _, _, _, _, _, _ => trivial
  | r :: rows, acc, length, lengths, fits, j, hj => by
    have hr := lengths r (List.mem_cons_self r rows)
    refine ⟨macColsFits_getD fits.1 (by omega) (by omega), ?_⟩
    have := dotColumnFits_of_accumulateFits (by rw [length_macCols, length])
      (fun r' hr' => lengths r' (List.mem_cons_of_mem r hr')) fits.2 j hj
    rwa [getD_macCols r.1 (by omega) (by omega)] at this

theorem binaryColumns_eq {n : Nat} {rows : List (Nat × List Nat)}
    (lengths : ∀ r ∈ rows, r.2.length = n) :
    binaryColumns n rows = accumulate (List.replicate n 0) rows := by
  rw [← map_dotColumn_eq_accumulate (List.length_replicate n 0) lengths]
  apply List.map_congr_left
  intro j hj
  rw [List.mem_range] at hj
  simp [List.getD_eq_getElem _ _ (by simpa using hj : j < (List.replicate n 0).length)]

theorem decHi_eq (y : Nat) : decHi y = y / 2 ^ 32 := Nat.shiftRight_eq_div_pow y 32

theorem decLo_eq (y : Nat) : decLo y = y % 2 ^ 32 := by
  rw [decLo, show (0xFFFFFFFF : Nat) = 2 ^ 32 - 1 from rfl, Nat.and_pow_two_sub_one_eq_mod]

theorem decHi_mono : Monotone decHi := fun a b h => by
  simp only [decHi_eq]; exact Nat.div_le_div_right h

theorem decHi_decLo (y : Nat) : decHi y * 2 ^ 32 + decLo y = y := by
  rw [decHi_eq, decLo_eq]; exact Nat.div_add_mod' y _

theorem decLo_lt (y : Nat) : decLo y < 2 ^ 32 := by
  rw [decLo_eq]; exact Nat.mod_lt y (by decide)

/-- The decoder's intermediate array for a valid text of an accepted length:
digits below `58^5` with the text's base-58 value. -/
theorem intermediate_spec (w : Width) {s : List UInt8} (valid : ∀ c ∈ s, isValid c)
    (short : s.length ≤ w.maxLen) :
    ∃ raw, decodeRaw (5 * w.interSz) s = some raw ∧
      Digits r1Div (groupDigits w.interSz raw) ∧
      beValue r1Div (groupDigits w.interSz raw) = beValue 58 (s.map lutDigit) ∧
      (groupDigits w.interSz raw).length = w.interSz := by
  have := w.maxLen_lt
  refine ⟨_, decodeRaw_eq valid (by omega), ?_⟩
  have digits : Digits 58 (List.replicate (5 * w.interSz - s.length) 0 ++ s.map lutDigit) := by
    intro d hd
    rcases List.mem_append.mp hd with hd | hd
    · rw [List.eq_of_mem_replicate hd]; decide
    · obtain ⟨c, hc, rfl⟩ := List.mem_map.mp hd
      exact (alphabet_lutDigit (valid c hc)).1
  obtain ⟨group_digits, group_value, group_length⟩ :=
    groupDigits_spec w.interSz digits (by simp; omega)
  exact ⟨group_digits, by rw [group_value, beValue_replicate_zero_append], group_length⟩

/-- The decoder's `binary_` array: every column fits in `uint64`, and it holds
the intermediate array's value in base `2^32`. -/
theorem binaryColumns_spec (w : Width) {intermediate : List Nat}
    (digits : Digits r1Div intermediate) (length : intermediate.length = w.interSz) :
    let rows := intermediate.zip w.decTable
    (∀ j < w.binSz, DotColumnFits j 0 rows) ∧
      CarryFits decHi decLo (binaryColumns w.binSz rows) ∧
      beValue (2 ^ 32) (binaryColumns w.binSz rows) = beValue r1Div intermediate ∧
      (binaryColumns w.binSz rows).length = w.binSz := by
  intro rows
  have lengths : ∀ r ∈ rows, r.2.length = w.binSz := rows_lengths w.decTable_rows
  have rows_le : List.Forall₂ (fun r R => r.1 ≤ R.1 ∧ r.2 = R.2) rows
      (decodeBoundRows w.interSz w.decTable) := by
    have := forall₂_le_replicate digits
    rw [length] at this
    exact forall₂_zip_rows this w.decTable
  obtain ⟨acc_fits, acc_le⟩ := accumulate_mono (List.forall₂_refl _) rows_le w.decode_fits.1
  have columns := binaryColumns_eq lengths
  have column_fits := dotColumnFits_of_accumulateFits (List.length_replicate _ 0) lengths acc_fits
  refine ⟨fun j hj => by simpa using column_fits j hj, ?_, ?_, by simp [binaryColumns]⟩
  · rw [columns]
    exact (carryPass_mono decHi_mono acc_le w.decode_fits.2).1
  · rw [columns, beValue_accumulate (2 ^ 32) acc_fits (by simpa using lengths),
      beValue_replicate_zero, Nat.zero_add, sum_zip_powerRows w.decTable_powerRows
        (length.trans w.decTable_length.symm)]

/-- The array after the carry pass holds the text's value in base `2^32`, and
all but its first entry are below `2^32`. -/
theorem binary_spec (w : Width) {s : List UInt8} (valid : ∀ c ∈ s, isValid c)
    (short : s.length ≤ w.maxLen) :
    ∃ raw, decodeRaw (5 * w.interSz) s = some raw ∧
      let rows := (groupDigits w.interSz raw).zip w.decTable
      (∀ j < w.binSz, DotColumnFits j 0 rows) ∧ CarryFits decHi decLo (binaryColumns w.binSz rows) ∧
      let binary := carryLoop decHi decLo (w.binSz - 1) (binaryColumns w.binSz rows)
      Digits (2 ^ 32) binary.tail ∧ beValue (2 ^ 32) binary = beValue 58 (s.map lutDigit) ∧
        binary.length = w.binSz := by
  obtain ⟨raw, raw_eq, digits, value, length⟩ := intermediate_spec w valid short
  obtain ⟨column_fits, carry_fits, columns_value, columns_length⟩ := binaryColumns_spec w digits length
  refine ⟨raw, raw_eq, column_fits, carry_fits, ?_⟩
  have pass := carryLoop_eq_carryPass decHi decLo
    (binaryColumns w.binSz ((groupDigits w.interSz raw).zip w.decTable))
  rw [columns_length] at pass
  simp only [pass]
  exact ⟨carryPass_tail_lt decLo_lt _, by rw [beValue_carryPass decHi_decLo carry_fits,
    columns_value, value], by rw [length_carryPass, columns_length]⟩

/-- With its other entries below `2^32`, the first entry of an array of `n`
limbs is above `0xFFFFFFFF` exactly when the array's value is at least `256^(4n)`. -/
theorem headD_gt_iff {binary : List Nat} {n : Nat} (pos : 0 < n) (length : binary.length = n)
    (tail : Digits (2 ^ 32) binary.tail) :
    binary.headD 0 > 0xFFFFFFFF ↔ 256 ^ (4 * n) ≤ beValue (2 ^ 32) binary := by
  obtain _ | ⟨h, t⟩ := binary
  · simp at length; omega
  · have := beValue_cons_lt_pow_iff (x := h) tail
    simp only [List.length_cons] at length
    rw [← two_pow_32_pow, ← length]
    simp only [List.headD_cons, gt_iff_lt, List.tail_cons] at this ⊢
    omega

/-- After the length and character checks no `uint64` sum of the decoder wraps:
not the accumulation into `binary_`, where each column is its own accumulator,
and not the `>> 32` carry pass. After the carry pass the entries past the first
are below `2^32`, and the first exceeds `0xFFFFFFFF` exactly when the text's
value is at least `256^N`. -/
theorem decode_fits (w : Width) {s : List UInt8} (short : s.length ≤ w.maxLen)
    (valid : validate s = some true) :
    ∃ raw, decodeRaw (5 * w.interSz) s = some raw ∧
      let rows := (groupDigits w.interSz raw).zip w.decTable
      (∀ j < w.binSz, DotColumnFits j 0 rows) ∧ CarryFits decHi decLo (binaryColumns w.binSz rows) ∧
      let binary := carryLoop decHi decLo (w.binSz - 1) (binaryColumns w.binSz rows)
      (∀ v ∈ binary.tail, v < 2 ^ 32) ∧
        (binary.headD 0 > 0xFFFFFFFF ↔ 256 ^ (4 * w.binSz) ≤ beValue 58 (s.map lutDigit)) := by
  obtain ⟨raw, raw_eq, column_fits, carry_fits, tail, value, length⟩ :=
    binary_spec w ((validate_eq_some_true_iff s).mp valid) short
  refine ⟨raw, raw_eq, column_fits, carry_fits, tail, ?_⟩
  rw [← value]
  exact headD_gt_iff w.binSz_pos length tail

/-- The largest 44-character text, all `'z'`, passes the checks of `Decode32`. -/
theorem decode_fits_all_z :
    (List.replicate 44 (122 : UInt8)).length ≤ width32.maxLen ∧
      validate (List.replicate 44 122) = some true ∧
      ∃ raw, decodeRaw (5 * width32.interSz) (List.replicate 44 122) = some raw ∧
        let rows := (groupDigits width32.interSz raw).zip width32.decTable
        (∀ j < width32.binSz, DotColumnFits j 0 rows) ∧
          CarryFits decHi decLo (binaryColumns width32.binSz rows) ∧
        let binary := carryLoop decHi decLo (width32.binSz - 1) (binaryColumns width32.binSz rows)
        (∀ v ∈ binary.tail, v < 2 ^ 32) ∧
          (binary.headD 0 > 0xFFFFFFFF ↔
            256 ^ (4 * width32.binSz) ≤ beValue 58 ((List.replicate 44 122).map lutDigit)) :=
  ⟨by decide, by decide, decode_fits width32 (by decide) (by decide)⟩

/-! ## The canonical-form check -/

theorem leading0s_cons_eq_zero_iff (x : Nat) (xs : List Nat) :
    leading0s (x :: xs) = 0 ↔ x ≠ 0 := by
  by_cases hx : x = 0
  · subst hx; simp [leading0s_cons_zero]
  · simp [leading0s_cons_ne x xs hx, hx]

/-- The check after the loop: the character at `i`, if any, is not `'1'`. -/
theorem trailingOneCheck_eq {encoded : List UInt8} (valid : ∀ c ∈ encoded, isValid c) (i : Nat) :
    trailingOneCheck encoded i = decide (leading0s ((encoded.drop i).map lutDigit) = 0) := by
  by_cases inside : i < encoded.length
  · have hc := valid _ (List.getElem_mem inside)
    rw [List.drop_eq_getElem_cons inside, List.map_cons]
    simp only [leading0s_cons_eq_zero_iff, ne_eq, lutDigit_eq_zero_iff hc]
    simp [trailingOneCheck, inside, List.getD_eq_getElem _ _ inside]
    rfl
  · rw [List.drop_eq_nil_of_le (by omega)]
    simp [trailingOneCheck, inside]

/-- The loop over `out` and `encoded` from index `i`: it succeeds exactly when
the text has as many leading `'1'`s as `out` has leading zero bytes. -/
theorem leadingCheck_eq {out encoded : List UInt8} (valid : ∀ c ∈ encoded, isValid c)
    (long : out.length ≤ encoded.length) :
    ∀ k i, out.length = i + k →
      leadingCheck out encoded k i = some (decide (leading0s ((encoded.drop i).map lutDigit) =
        leading0s ((out.drop i).map UInt8.toNat)))
  | 0, i, length => by
    rw [leadingCheck, trailingOneCheck_eq valid, List.drop_eq_nil_of_le (show out.length ≤ i by omega)]
    rfl
  | k + 1, i, length => by
    have in_out : i < out.length := by omega
    have in_encoded : i < encoded.length := by omega
    have hc := valid _ (List.getElem_mem in_encoded)
    rw [leadingCheck, List.getElem?_eq_getElem in_out, List.drop_eq_getElem_cons in_out,
      List.drop_eq_getElem_cons in_encoded]
    dsimp only
    by_cases nonzero : out[i] ≠ 0
    · rw [if_pos nonzero, trailingOneCheck_eq valid, List.drop_eq_getElem_cons in_encoded]
      simp only [List.map_cons, leading0s_cons_ne _ _ (fun h => nonzero (UInt8.toNat.inj h))]
    · have zero : out[i].toNat = 0 := by rw [not_not.mp nonzero]; rfl
      rw [if_neg nonzero, List.getElem?_eq_getElem in_encoded]
      dsimp only
      simp only [List.map_cons, zero, leading0s_cons_zero]
      by_cases one : encoded[i] = 49
      · rw [if_neg (not_not.mpr one), leadingCheck_eq valid long k (i + 1) (by omega),
          (lutDigit_eq_zero_iff hc).mpr one, leading0s_cons_zero]
        simp
      · rw [if_pos one, leading0s_cons_ne _ _ (by rwa [Ne, lutDigit_eq_zero_iff hc])]
        simp

/-! ## Writing `out` -/

theorem bytesValue_putUint32 {v : Nat} (lt : v < 2 ^ 32) : bytesValue (putUint32 v) = v := by
  simp only [putUint32, bytesValue, Nat.mod_eq_of_lt lt, List.map_cons, List.map_nil, beValue_cons,
    beValue_nil, List.length_cons, List.length_nil, Nat.toUInt8_toNat, Nat.shiftRight_eq_div_pow]
  omega

/-- `out` holds the limbs' value once every limb is below `2^32`. -/
theorem bytesValue_flatMap_putUint32 {binary : List Nat} (digits : Digits (2 ^ 32) binary) :
    bytesValue (binary.flatMap putUint32) = beValue (2 ^ 32) binary := by
  induction binary with
  | nil => rfl
  | cons v vs ih =>
    rw [List.flatMap_cons, bytesValue_append, bytesValue_putUint32 digits.head, ih digits.tail,
      length_flatMap_putUint32, ← two_pow_32_pow, beValue_cons]

/-! ## The decoder -/

/-- The decoder on a text of an accepted length whose characters are all valid:
it rejects a value of `256^N` or more without touching `out`; otherwise it
writes the value to `out` and returns the outcome of the canonical-form check. -/
theorem decode_of_valid (w : Width) (out : Bytes (4 * w.binSz)) {s : List UInt8}
    (long : 4 * w.binSz ≤ s.length) (short : s.length ≤ w.maxLen) (valid : ∀ c ∈ s, isValid c) :
    (256 ^ (4 * w.binSz) ≤ beValue 58 (s.map lutDigit) → decode w out s = some (false, out)) ∧
      (beValue 58 (s.map lutDigit) < 256 ^ (4 * w.binSz) → ∃ out' : Bytes (4 * w.binSz),
        bytesValue out'.toList = beValue 58 (s.map lutDigit) ∧
        decode w out s = some (decide (leading0s (s.map lutDigit) =
          leading0s (out'.toList.map UInt8.toNat)), out')) := by
  obtain ⟨raw, raw_eq, -, -, tail, value, length⟩ := binary_spec w valid short
  have overflow := headD_gt_iff w.binSz_pos length tail
  rw [value] at overflow
  unfold decode
  rw [if_neg (by omega), (validate_eq_some_true_iff s).mpr valid]
  simp only [w.rawSz_eq, raw_eq]
  set binary := carryLoop decHi decLo (w.binSz - 1)
    (binaryColumns w.binSz ((groupDigits w.interSz raw).zip w.decTable))
  constructor
  · intro big
    rw [if_pos (overflow.mpr big)]
  · intro small
    have head : ¬ binary.headD 0 > 0xFFFFFFFF := fun h => absurd (overflow.mp h) (by omega)
    have digits : Digits (2 ^ 32) binary := Digits.of_headD (by omega) tail
    rw [if_neg head]
    refine ⟨putLimbs w.binSz binary length, by rw [← value]; exact bytesValue_flatMap_putUint32 digits, ?_⟩
    rw [leadingCheck_eq valid (by rw [Bytes.length_eq]; omega) _ 0 (by rw [Bytes.length_eq]; omega)]
    rfl

/-- Everything `decode` can do. A text of a rejected length leaves `out` as it
was. After the length check, a character below `'1'` before any other invalid
one panics, and another invalid character is rejected. A valid text whose value
is at least `256^N` is rejected. Otherwise `out` receives the value, and the
outcome is the canonical-form check. -/
theorem decode_cases (w : Width) (out : Bytes (4 * w.binSz)) (s : List UInt8) :
    (¬ (4 * w.binSz ≤ s.length ∧ s.length ≤ w.maxLen) ∧ decode w out s = some (false, out)) ∨
    (4 * w.binSz ≤ s.length ∧ s.length ≤ w.maxLen ∧ validate s = none ∧ decode w out s = none) ∨
    (4 * w.binSz ≤ s.length ∧ s.length ≤ w.maxLen ∧ validate s = some false ∧
      decode w out s = some (false, out)) ∨
    (4 * w.binSz ≤ s.length ∧ s.length ≤ w.maxLen ∧ (∀ c ∈ s, isValid c) ∧
      256 ^ (4 * w.binSz) ≤ beValue 58 (s.map lutDigit) ∧ decode w out s = some (false, out)) ∨
    (4 * w.binSz ≤ s.length ∧ s.length ≤ w.maxLen ∧ (∀ c ∈ s, isValid c) ∧
      beValue 58 (s.map lutDigit) < 256 ^ (4 * w.binSz) ∧ ∃ out' : Bytes (4 * w.binSz),
        bytesValue out'.toList = beValue 58 (s.map lutDigit) ∧
        decode w out s = some (decide (leading0s (s.map lutDigit) =
          leading0s (out'.toList.map UInt8.toNat)), out')) := by
  by_cases range : 4 * w.binSz ≤ s.length ∧ s.length ≤ w.maxLen
  · obtain ⟨long, short⟩ := range
    have checked : decode w out s = match validate s with
        | none => none
        | some false => some (false, out)
        | some true => decode w out s := by
      split <;> simp_all [decode]
    rcases hv : validate s with _ | _ | _
    · exact .inr (.inl ⟨long, short, rfl, by rw [checked, hv]⟩)
    · exact .inr (.inr (.inl ⟨long, short, rfl, by rw [checked, hv]⟩))
    · have valid := (validate_eq_some_true_iff s).mp hv
      obtain ⟨big, small⟩ := decode_of_valid w out long short valid
      by_cases over : 256 ^ (4 * w.binSz) ≤ beValue 58 (s.map lutDigit)
      · exact .inr (.inr (.inr (.inl ⟨long, short, valid, over, big over⟩)))
      · exact .inr (.inr (.inr (.inr ⟨long, short, valid, by omega, small (by omega)⟩)))
  · exact .inl ⟨range, by rw [decode, if_pos (by omega)]⟩

/-! ## Canonical texts -/

theorem digits_map_lutDigit {s : List UInt8} (valid : ∀ c ∈ s, isValid c) :
    Digits 58 (s.map lutDigit) := by
  intro d hd
  obtain ⟨c, hc, rfl⟩ := List.mem_map.mp hd
  exact (alphabet_lutDigit (valid c hc)).1

/-- A text of valid characters is the `alphabet` text of its digits. -/
theorem map_alphabet_lutDigit {s : List UInt8} (valid : ∀ c ∈ s, isValid c) :
    (s.map lutDigit).map (alphabet.getD · 0) = s := by
  rw [List.map_map]
  conv_rhs => rw [← List.map_id s]
  exact List.map_congr_left fun c hc => (alphabet_lutDigit (valid c hc)).2

/-- The `alphabet` text of a list of digits is valid and has those digits. -/
theorem valid_map_alphabet {l : List Nat} (digits : Digits 58 l) :
    (∀ c ∈ l.map (alphabet.getD · 0), isValid c) ∧ (l.map (alphabet.getD · 0)).map lutDigit = l := by
  refine ⟨fun c hc => ?_, ?_⟩
  · obtain ⟨d, hd, rfl⟩ := List.mem_map.mp hc
    exact (lutDigit_alphabet (digits d hd)).1
  · rw [List.map_map]
    conv_rhs => rw [← List.map_id l]
    exact List.map_congr_left fun d hd => (lutDigit_alphabet (digits d hd)).2

/-- The reference text is the `alphabet` text of the leading zero bytes, as
zero digits, followed by the canonical base-58 digits. -/
theorem base58Ref_eq_map (x : List UInt8) :
    base58Ref x = (List.replicate (leading0s (x.map UInt8.toNat)) 0 ++
      (Nat.digits 58 (bytesValue x)).reverse).map (alphabet.getD · 0) := by
  rw [base58Ref, List.map_append, List.map_replicate]
  rfl

theorem digits_base58Ref (x : List UInt8) :
    Digits 58 (List.replicate (leading0s (x.map UInt8.toNat)) 0 ++
      (Nat.digits 58 (bytesValue x)).reverse) :=
  Digits.append (fun d hd => by rw [List.eq_of_mem_replicate hd]; decide)
    (fun d hd => Nat.digits_lt_base (by decide) (List.mem_reverse.mp hd))

theorem bytes_eq_of_bytesValue_eq {n : Nat} {a b : Bytes n}
    (value : bytesValue a.toList = bytesValue b.toList) : a = b := by
  have lengths : (a.toList.map UInt8.toNat).length = (b.toList.map UInt8.toNat).length := by
    simp [a.length_eq, b.length_eq]
  exact Bytes.ext (List.map_injective_iff.mpr (fun _ _ => UInt8.toNat.inj)
    (beValue_inj (digits_map_toNat _) (digits_map_toNat _) lengths value))

/-- `decode` returns `true` with `x` exactly for the canonical text of `x`. -/
theorem decode_eq_some_true_iff (w : Width) (out x : Bytes (4 * w.binSz)) (s : List UInt8) :
    decode w out s = some (true, x) ↔ s = base58Ref x.toList := by
  constructor
  · intro accepted
    rcases decode_cases w out s with ⟨-, h⟩ | ⟨-, -, -, h⟩ | ⟨-, -, -, h⟩ | ⟨-, -, -, -, h⟩ |
      ⟨-, -, valid, -, out', value, h⟩ <;> rw [h] at accepted <;> try simp at accepted
    obtain ⟨same, rfl⟩ := accepted
    calc s = (s.map lutDigit).map (alphabet.getD · 0) := (map_alphabet_lutDigit valid).symm
      _ = (List.replicate (leading0s (s.map lutDigit)) 0 ++
            (Nat.digits 58 (beValue 58 (s.map lutDigit))).reverse).map (alphabet.getD · 0) := by
        rw [← eq_replicate_leading0s_digits (by decide) (digits_map_lutDigit valid)]
      _ = base58Ref out'.toList := by rw [base58Ref_eq_map, same, value]
  · rintro rfl
    obtain ⟨valid, digits_eq⟩ := valid_map_alphabet (digits_base58Ref x.toList)
    rw [← base58Ref_eq_map] at valid digits_eq
    have value : beValue 58 ((base58Ref x.toList).map lutDigit) = bytesValue x.toList := by
      rw [digits_eq, beValue_replicate_zero_append, beValue_digits_reverse]
    have lead : leading0s ((base58Ref x.toList).map lutDigit) = leading0s (x.toList.map UInt8.toNat) := by
      rw [digits_eq, leading0s_replicate_append, leading0s_digits_reverse (by decide), Nat.add_zero]
    have length := length_base58Ref x.toList
    have lower := leading0s_bytes_add_length_digits x.toList
    rw [x.length_eq] at lower
    have upper := leading0s_add_length_digits_le w lower
    have more := length_digits_le_of_base_le (c := 256) (X := bytesValue x.toList)
      (by decide : 1 < 58) (by decide)
    have small := bytesValue_lt x.toList
    rw [x.length_eq] at small
    rcases decode_cases w out (base58Ref x.toList) with ⟨range, -⟩ | ⟨-, -, none, -⟩ |
      ⟨-, -, bad, -⟩ | ⟨-, -, -, over, -⟩ | ⟨-, -, -, -, out', value', h⟩
    · omega
    · rw [(validate_eq_some_true_iff _).mpr valid] at none; cases none
    · rw [(validate_eq_some_true_iff _).mpr valid] at bad; cases bad
    · omega
    · obtain rfl := bytes_eq_of_bytesValue_eq (value'.trans value)
      rw [h, lead]
      simp

/-! ## Rejection and panics -/

/-- The checks `decode` makes before it writes `out`: the length, every
character, and the value's fit in `N` bytes. -/
def PassesChecks (w : Width) (s : List UInt8) : Prop :=
  4 * w.binSz ≤ s.length ∧ s.length ≤ w.maxLen ∧ (∀ c ∈ s, isValid c) ∧
    beValue 58 (s.map lutDigit) < 256 ^ (4 * w.binSz)

instance (w : Width) (s : List UInt8) : Decidable (PassesChecks w s) :=
  inferInstanceAs (Decidable (_ ∧ _ ∧ _ ∧ _))

/-- A rejected text that fails the length, alphabet or range check leaves `out`
as it was. One that passes them has had its value written to `out` before the
canonical-form check, and that check is the one that fails: the text's leading
`'1'`s do not match the value's leading zero bytes. -/
theorem decode_false_out (w : Width) (out out' : Bytes (4 * w.binSz)) (s : List UInt8)
    (rejected : decode w out s = some (false, out')) :
    (¬ PassesChecks w s → out' = out) ∧
      (PassesChecks w s → bytesValue out'.toList = beValue 58 (s.map lutDigit) ∧
        leading0s (s.map lutDigit) ≠ leading0s (out'.toList.map UInt8.toNat)) := by
  rcases decode_cases w out s with ⟨range, h⟩ | ⟨-, -, -, h⟩ | ⟨-, -, bad, h⟩ | ⟨-, -, -, over, h⟩ |
    ⟨long, short, valid, fits, out'', value, h⟩ <;> rw [h] at rejected
  · obtain rfl := (Prod.mk.inj (Option.some.inj rejected)).2
    exact ⟨fun _ => rfl, fun ⟨long, short, _⟩ => absurd ⟨long, short⟩ range⟩
  · cases rejected
  · obtain rfl := (Prod.mk.inj (Option.some.inj rejected)).2
    refine ⟨fun _ => rfl, fun ⟨_, _, valid, _⟩ => ?_⟩
    rw [(validate_eq_some_true_iff s).mpr valid] at bad
    cases bad
  · obtain rfl := (Prod.mk.inj (Option.some.inj rejected)).2
    exact ⟨fun _ => rfl, fun ⟨_, _, _, fits⟩ => absurd over (Nat.not_le.mpr fits)⟩
  · obtain ⟨check, rfl⟩ := Prod.mk.inj (Option.some.inj rejected)
    exact ⟨fun fails => absurd ⟨long, short, valid, fits⟩ fails,
      fun _ => ⟨value, of_decide_eq_false check⟩⟩

/-- Thirty-two `'1'`s and a `'2'` pass the length, alphabet and range checks, so
the `false` that `Decode32` returns for them comes with their value, 1, in
`out`. -/
theorem decode_false_out_ones :
    decode width32 ⟨List.replicate 32 7, rfl⟩ (List.replicate 32 49 ++ [50]) =
        some (false, ⟨List.replicate 31 0 ++ [1], by decide⟩) ∧
      PassesChecks width32 (List.replicate 32 49 ++ [50]) ∧
      (¬ PassesChecks width32 (List.replicate 32 49 ++ [50]) →
        (⟨List.replicate 31 0 ++ [1], by decide⟩ : Bytes (4 * width32.binSz)) =
          ⟨List.replicate 32 7, rfl⟩) ∧
      (PassesChecks width32 (List.replicate 32 49 ++ [50]) →
        bytesValue (List.replicate 31 0 ++ [1]) =
            beValue 58 ((List.replicate 32 49 ++ [50] : List UInt8).map lutDigit) ∧
          leading0s ((List.replicate 32 49 ++ [50] : List UInt8).map lutDigit) ≠
            leading0s ((List.replicate 31 0 ++ [1] : List UInt8).map UInt8.toNat)) :=
  have rejected : decode width32 ⟨List.replicate 32 7, rfl⟩ (List.replicate 32 49 ++ [50]) =
      some (false, ⟨List.replicate 31 0 ++ [1], by decide⟩) := by
    -- The text's value is 1, so `out` receives 31 zero bytes and a 1.
    obtain ⟨-, written⟩ := decode_of_valid width32 ⟨List.replicate 32 7, rfl⟩
      (s := List.replicate 32 49 ++ [50]) (by decide) (by decide) (by decide)
    obtain ⟨out', value, h⟩ := written (by decide)
    obtain rfl : out' = ⟨List.replicate 31 0 ++ [1], by decide⟩ :=
      bytes_eq_of_bytesValue_eq (by rw [value]; decide)
    rw [h]
    decide
  ⟨rejected, by decide, decode_false_out width32 _ _ _ rejected⟩

/-- Thirty-two `'1'`s and a `'2'` denote 1, whose 32 bytes have 31 leading
zeros: `Decode32` returns `false`, but only after writing 1 to `out`. -/
theorem decode32_false_writes_out :
    decode32 ⟨List.replicate 32 7, by simp⟩ (List.replicate 32 49 ++ [50]) =
      some (false, ⟨List.replicate 31 0 ++ [1], by simp⟩) := by
  decide

/-- `decode` panics exactly when the length is accepted and the validation loop
panics. -/
theorem decode_eq_none_iff (w : Width) (out : Bytes (4 * w.binSz)) (s : List UInt8) :
    decode w out s = none ↔ 4 * w.binSz ≤ s.length ∧ s.length ≤ w.maxLen ∧ validate s = none := by
  rcases decode_cases w out s with ⟨range, h⟩ | ⟨long, short, none, h⟩ | ⟨-, -, bad, h⟩ |
    ⟨-, -, valid, -, h⟩ | ⟨-, -, valid, -, _, -, h⟩ <;> rw [h]
  · simp only [reduceCtorEq, false_iff]
    exact fun ⟨long, short, _⟩ => range ⟨long, short⟩
  · simp [long, short, none]
  · simp [bad]
  · simp [(validate_eq_some_true_iff s).mpr valid]
  · simp [(validate_eq_some_true_iff s).mpr valid]

/-- The decoders panic exactly on texts of an accepted length whose first
character outside the alphabet lies below `'1'`. -/
theorem decode_panics_iff (w : Width) (out : Bytes (4 * w.binSz)) (s : List UInt8) :
    decode w out s = none ↔ 4 * w.binSz ≤ s.length ∧ s.length ≤ w.maxLen ∧
      ∃ p c r, s = p ++ c :: r ∧ (∀ x ∈ p, isValid x) ∧ c.toNat < 49 := by
  rw [decode_eq_none_iff, validate_eq_none_iff]

/-- Thirty-two (sixty-four) `'0'`s pass the length check, and the validation
loop indexes `inverseLUT` at `'0' - '1' = -1`: `Decode32` and `Decode64` panic
instead of returning `false`. -/
theorem decode_zeros_panics :
    (∀ out : Bytes 32, decode32 out (List.replicate 32 48) = none) ∧
      ∀ out : Bytes 64, decode64 out (List.replicate 64 48) = none :=
  ⟨fun out => (decode_eq_none_iff width32 out _).mpr (by decide),
    fun out => (decode_eq_none_iff width64 out _).mpr (by decide)⟩

end Base58
