import Tpuproxy.Bytes
import Mathlib.Data.Nat.Digits

/-!
# `Params.Serialize`

`Params` is the input segment of the Sealevel VM: the accounts, the
instruction data and the program ID. `Serialize` writes it into a
`bytes.Buffer`, modelled by its contents: `Write` and `binary.Write` append,
and `Grow` only reserves capacity, so `Grow(7)`, `Grow(4)` and
`Grow(acc.Padding)` write nothing.

Results:
* `leValue_le64`: the eight bytes `binary.Write` writes for a `uint64` read
  back as the number.
* `serialize_bytes`: the buffer holds the account count, the records of the
  accounts back to back (one byte for a duplicate; a primary account's record
  has neither reserved bytes nor realloc padding), the instruction data and the
  program ID.
* `serialize_padding`: the `Padding` recorded for a primary account is computed
  from the offset of the end of its data, and nothing else of `p` changes.
-/

namespace Sealevel

/-! ## The model -/

/-- `ReallocSpace`, the allowed growth of an account. -/
def reallocSpace : Nat := 1024 * 10

/-- `ReallocAlign`. -/
def reallocAlign : Nat := 8

/-- `AccountParam`. `Padding` is a Go `int`. -/
structure AccountParam where
  isDuplicate : Bool
  duplicateIndex : UInt8
  isSigner : Bool
  isWritable : Bool
  isExecutable : Bool
  key : Bytes 32
  owner : Bytes 32
  lamports : UInt64
  data : List UInt8
  padding : Int
  rentEpoch : UInt64
deriving DecidableEq

/-- `Params`. -/
structure Params where
  accounts : List AccountParam
  data : List UInt8
  programID : Bytes 32
deriving DecidableEq

/-- `binary.Write(buf, binary.LittleEndian, uint64(v))`: eight bytes, least
significant first. -/
def le64 (v : Nat) : List UInt8 := (List.range 8).map fun k => (v / 256 ^ k).toUInt8

/-- The number a little-endian byte string denotes. -/
def leValue (bs : List UInt8) : Nat := Nat.ofDigits 256 (bs.map UInt8.toNat)

/-- `binary.Write` of a `bool`. -/
def boolByte (b : Bool) : UInt8 := if b then 1 else 0

/-- What the loop writes for a primary account before it computes
`acc.Padding`: the `0xFF` marker, the three flags, the key, the owner, the
lamports, the data length and the data. -/
def primaryHead (acc : AccountParam) : List UInt8 :=
  [0xFF, boolByte acc.isSigner, boolByte acc.isWritable, boolByte acc.isExecutable] ++
    acc.key.toList ++ acc.owner.toList ++ le64 acc.lamports.toNat ++ le64 acc.data.length ++ acc.data

/-- The account loop of `Serialize`, from the buffer `buf`: the final buffer,
and the accounts with the `Padding` of each primary account recorded. -/
def serializeAccounts (buf : List UInt8) : List AccountParam → List UInt8 × List AccountParam
  | [] => (buf, [])
  | acc :: rest =>
    if acc.isDuplicate then
      let written := serializeAccounts (buf ++ [acc.duplicateIndex]) rest
      (written.1, acc :: written.2)
    else
      let buf := buf ++ primaryHead acc
      let padding := reallocSpace + 1 + (buf.length - 1) / reallocAlign
      let written := serializeAccounts (buf ++ le64 acc.rentEpoch.toNat) rest
      (written.1, { acc with padding := padding } :: written.2)

/-- `p.Serialize(buf)`: the buffer's contents, and `p` with the recorded
`Padding`s. -/
def serialize (p : Params) : List UInt8 × Params :=
  let written := serializeAccounts (le64 p.accounts.length) p.accounts
  (written.1 ++ le64 p.data.length ++ p.data ++ p.programID.toList, { p with accounts := written.2 })

/-! ## Little-endian integers -/

@[simp] theorem Nat.toUInt64_toNat (n : Nat) : n.toUInt64.toNat = n % 2 ^ 64 := by
  simp [Nat.toUInt64, UInt64.toNat, UInt64.ofNat, BitVec.toNat_ofNat]

@[simp] theorem length_le64 (v : Nat) : (le64 v).length = 8 := by simp [le64]

theorem le64_eq_cons (v : Nat) : le64 v = v.toUInt8 :: (le64 v).tail := by
  simp [le64, List.range_succ_eq_map]

theorem ofDigits_range_mod (b v : Nat) :
    ∀ k, Nat.ofDigits b ((List.range k).map fun i => v / b ^ i % b) = v % b ^ k
  | 0 => by simp [Nat.mod_one]
  | k + 1 => by
    rw [List.range_succ, List.map_append, List.map_singleton, Nat.ofDigits_append,
      Nat.ofDigits_singleton, ofDigits_range_mod b v k, List.length_map, List.length_range,
      Nat.mod_pow_succ]

/-- `binary.Read` of what `binary.Write` wrote gives the number back, modulo
`2^64`. -/
theorem leValue_le64 (v : Nat) : leValue (le64 v) = v % 2 ^ 64 := by
  have := ofDigits_range_mod 256 v 8
  simpa [leValue, le64, List.map_map, Function.comp_def] using this

/-! ## The layout -/

/-- The bytes `Serialize` writes for one account. -/
def record (acc : AccountParam) : List UInt8 :=
  if acc.isDuplicate then [acc.duplicateIndex] else primaryHead acc ++ le64 acc.rentEpoch.toNat

/-- The `Padding` the loop records for a primary account whose record starts at
`offset`. -/
def paddingAt (offset : Nat) (acc : AccountParam) : AccountParam :=
  if acc.isDuplicate then acc
  else { acc with padding := reallocSpace + 1 + (offset + (primaryHead acc).length - 1) / reallocAlign }

@[simp] theorem length_primaryHead (acc : AccountParam) :
    (primaryHead acc).length = 84 + acc.data.length := by
  simp [primaryHead, acc.key.length_eq, acc.owner.length_eq]
  omega

theorem length_record (acc : AccountParam) :
    (record acc).length = if acc.isDuplicate then 1 else 92 + acc.data.length := by
  unfold record
  split <;> simp
  omega

theorem serializeAccounts_fst (buf : List UInt8) (accounts : List AccountParam) :
    (serializeAccounts buf accounts).1 = buf ++ (accounts.map record).flatten := by
  induction accounts generalizing buf with
  | nil => simp [serializeAccounts]
  | cons acc rest ih =>
    unfold serializeAccounts
    split <;> simp [ih, record, *]

@[simp] theorem length_serializeAccounts_snd (buf : List UInt8) (accounts : List AccountParam) :
    (serializeAccounts buf accounts).2.length = accounts.length := by
  induction accounts generalizing buf with
  | nil => rfl
  | cons acc rest ih =>
    unfold serializeAccounts
    split <;> simp [ih]

theorem serializeAccounts_snd (buf : List UInt8) (accounts : List AccountParam) :
    ∀ k (hk : k < accounts.length), (serializeAccounts buf accounts).2[k]? =
      some (paddingAt (buf.length + ((accounts.take k).map record).flatten.length) accounts[k]) := by
  induction accounts generalizing buf with
  | nil => intro k hk; simp at hk
  | cons acc rest ih =>
    intro k hk
    unfold serializeAccounts
    cases k with
    | zero => split <;> simp [paddingAt, *]
    | succ k =>
      have hk' : k < rest.length := by simpa using hk
      split <;> dsimp only <;> rw [List.getElem?_cons_succ, ih _ k hk'] <;>
        simp only [Option.some.injEq, List.getElem_cons_succ] <;> congr 1 <;> simp [record, *] <;> omega

/-- `Serialize` writes the account count, the accounts' records back to back,
the instruction data length, the instruction data and the program ID. -/
theorem serialize_bytes (p : Params) :
    (serialize p).1 = le64 p.accounts.length ++ (p.accounts.map record).flatten ++
      le64 p.data.length ++ p.data ++ p.programID.toList := by
  simp [serialize, serializeAccounts_fst]

/-- `Serialize` records the `Padding` of each primary account from the offset
of its record, `8 + ` the lengths of the records before it, and changes nothing
else of `p`. -/
theorem serialize_padding (p : Params) :
    (serialize p).2.data = p.data ∧ (serialize p).2.programID = p.programID ∧
      (serialize p).2.accounts.length = p.accounts.length ∧
      ∀ k (hk : k < p.accounts.length), (serialize p).2.accounts[k]? =
        some (paddingAt (8 + ((p.accounts.take k).map record).flatten.length) p.accounts[k]) := by
  exact ⟨rfl, rfl, by simp [serialize], fun k hk => by simpa using serializeAccounts_snd _ p.accounts k hk⟩

/-! ## One primary account -/

/-- A writable primary account with empty data, key bytes `1` and owner bytes
`2`. -/
def primaryAccount : AccountParam where
  isDuplicate := false
  duplicateIndex := 0xFF
  isSigner := false
  isWritable := true
  isExecutable := false
  key := ⟨List.replicate 32 1, rfl⟩
  owner := ⟨List.replicate 32 2, rfl⟩
  lamports := 0
  data := []
  padding := 0
  rentEpoch := 0

/-- `primaryAccount` alone, with no instruction data. -/
def onePrimary : Params where
  accounts := [primaryAccount]
  data := []
  programID := ⟨List.replicate 32 0, rfl⟩

/-- `Serialize` writes 140 bytes for `onePrimary`: the key follows the flags at
offset 12, with no reserved bytes before it, and none of the 10252 bytes of
realloc padding it records is written. -/
theorem serialize_onePrimary :
    (serialize onePrimary).1.length = 140 ∧
      ((serialize onePrimary).1.drop 12).take 32 = List.replicate 32 1 ∧
      (serialize onePrimary).2.accounts.map (·.padding) = [10252] :=
  ⟨rfl, rfl, rfl⟩

end Sealevel
