import Tpuproxy.Base58.Accumulator
import Tpuproxy.Bytes

/-!
# The two widths of the codec

`Width` holds what differs between the
32-byte and the 64-byte codec: the array sizes, the two tables, and the facts
about them the correctness proofs use. The facts are fields, checked once by
evaluation in `width32` and `width64`, so a `Width` with a wrong table entry
cannot be built.
-/

namespace Base58

/-- The value of a byte string, most significant byte first. -/
def bytesValue (l : List UInt8) : Nat := beValue 256 (l.map UInt8.toNat)

/-- The encoder's carry split, by `r1Div = 58^5`. -/
def encHi (y : Nat) : Nat := y / r1Div
def encLo (y : Nat) : Nat := y % r1Div

/-- The decoder's carry split: `>> 32` and `& 0xFFFFFFFF`. -/
def decHi (y : Nat) : Nat := y >>> 32
def decLo (y : Nat) : Nat := y &&& 0xFFFFFFFF

/-- The rows of the decoder's accumulation when every intermediate value is the
largest one, `58^5 - 1`. -/
def decodeBoundRows (interSz : Nat) (decTable : List (List Nat)) : List (Nat × List Nat) :=
  (List.replicate interSz (r1Div - 1)).zip decTable

/-- The constants of one width `N = 4 * binSz` of the codec. -/
structure Width where
  /-- `N / 4`, the number of 32-bit limbs. -/
  binSz : Nat
  /-- `INTERMEDIATE_SZ`, the number of base-`58^5` digits. -/
  interSz : Nat
  /-- The size of the encoder's output array and the decoder's length bound. -/
  maxLen : Nat
  /-- `RAW58_SZ` of the decoders and of the encoders' `rawBase58` array. -/
  rawSz : Nat
  rawSz_eq : rawSz = 5 * interSz
  /-- The bound of the encoders' leading-zero loop and the count their output
  loop starts from. -/
  encSz : Nat
  encSz_eq : encSz = 5 * interSz
  encTable : List (List Nat)
  decTable : List (List Nat)
  encTable_powerRows : PowerRows (2 ^ 32) r1Div encTable
  decTable_powerRows : PowerRows r1Div (2 ^ 32) decTable
  encTable_length : encTable.length = binSz
  encTable_rows : ∀ row ∈ encTable, row.length = interSz - 1
  decTable_length : decTable.length = interSz
  decTable_rows : ∀ row ∈ decTable, row.length = binSz
  /-- Every `N`-byte value has at most `maxLen` base-58 digits. -/
  value_le : 256 ^ (4 * binSz) ≤ 58 ^ maxLen
  maxLen_lt : maxLen < 5 * interSz
  rawSz_lt : 5 * interSz < 2 ^ 64
  bytes_le_maxLen : 4 * binSz ≤ maxLen
  binSz_pos : 0 < binSz
  /-- The decoder's sums fit in `uint64` at the largest intermediate values. -/
  decode_fits :
    AccumulateFits (List.replicate binSz 0) (decodeBoundRows interSz decTable) ∧
      CarryFits decHi decLo (accumulate (List.replicate binSz 0) (decodeBoundRows interSz decTable))

/-- `N = 32`: `bin32sz`, `inter32sz`, `Encode32`'s `[44]byte`, `raw32sz`,
`Encode32`'s `enc32sz`, and the tables. -/
def width32 : Width where
  binSz := bin32sz
  interSz := inter32sz
  maxLen := 44
  rawSz := raw32sz
  rawSz_eq := rfl
  encSz := enc32sz
  encSz_eq := rfl
  encTable := encTable32
  decTable := decTable32
  encTable_powerRows := encTable32_powerRows
  decTable_powerRows := decTable32_powerRows
  encTable_length := rfl
  encTable_rows := by decide
  decTable_length := rfl
  decTable_rows := by decide
  value_le := by decide
  maxLen_lt := by decide
  rawSz_lt := by decide
  bytes_le_maxLen := by decide
  binSz_pos := by decide
  decode_fits := by decide

/-- `N = 64`: `bin64sz`, `inter64sz`, `Encode64`'s `[88]byte`, `raw64sz` (both
sizes of `Encode64`), and the tables. -/
def width64 : Width where
  binSz := bin64sz
  interSz := inter64sz
  maxLen := 88
  rawSz := raw64sz
  rawSz_eq := rfl
  encSz := raw64sz
  encSz_eq := rfl
  encTable := encTable64
  decTable := decTable64
  encTable_powerRows := encTable64_powerRows
  decTable_powerRows := decTable64_powerRows
  encTable_length := rfl
  encTable_rows := by decide
  decTable_length := rfl
  decTable_rows := by decide
  value_le := by decide
  maxLen_lt := by decide
  rawSz_lt := by decide
  bytes_le_maxLen := by decide
  binSz_pos := by decide
  decode_fits := by decide

/-! ## The alphabet and its inverse -/

theorem length_alphabet : alphabet.length = 58 := by decide

theorem length_inverseLUT : inverseLUT.length = 75 := by decide

/-- Every base-58 digit's character lies in the span of `inverseLUT`, which maps
it back to the digit. -/
theorem inverseLUT_alphabet :
    ∀ d < 58, 49 ≤ (alphabet.getD d 0).toNat ∧
      inverseLUT.getD ((alphabet.getD d 0).toNat - 49) 0xFF = d := by
  decide

/-- Every valid entry of `inverseLUT` is a digit whose character is the entry's
index plus `'1'`. -/
theorem alphabet_inverseLUT :
    ∀ i < 75, inverseLUT.getD i 0xFF ≠ 0xFF →
      inverseLUT.getD i 0xFF < 58 ∧ (alphabet.getD (inverseLUT.getD i 0xFF) 0).toNat = i + 49 := by
  decide

/-- The entry the validation loop's clamp lands on, `inverseLUTSentinel`, is
`invalidChar`. -/
theorem inverseLUT_sentinel : inverseLUT[inverseLUTSentinel]? = some invalidChar := by decide

end Base58
