import Tpuproxy.Sealevel.Params

/-!
# `Params.Update`

After the program ran, `Update` reads the accounts back from a `bytes.Reader`.
It checks each account's index byte, and for a primary account reads the
flags, key, owner, lamports, data and rent epoch into `p`, checking only that
the data neither shrinks nor grows by more than `ReallocSpace`. The errors of
the other reads and seeks are ignored: a short read leaves its field as it was.

Results:
* `update_readRecords`: on bytes laid out as the loop reads them (no account
  count; a duplicate's index byte alone; a primary account's `0xFF`, flags,
  four skipped bytes, key, owner, lamports, data length and data, the rest of
  its realloc padding and its rent epoch) `Update` restores every edited field
  of every account, and then returns "number of accounts changed": the loop
  `for i := 0; true; i++` has no exit but a `return` of an error.
* `update_rejectLength`: `Update` does not roll back. An account whose new data
  length fails a check has its flags, key, owner and lamports overwritten, and
  the accounts before it stay edited, when the error is returned.
* `update_rejectIndex`, `update_exhausted`: a wrong index byte returns "account
  order changed", and bytes that end while accounts remain return `io.EOF`;
  both leave the account they stop at untouched.
* `update_primaryIndex`: a primary account whose `DuplicateIndex` is not `0xFF`
  stops `Update` whatever bytes follow, so no bytes let `Update` edit it.
* `update_truncatedData`: bytes that end inside an account's data give that
  account the bytes that are there, shorter than its new length, and no error
  names it.
* `update_keepsIdentity`: whatever the bytes, `Update` keeps the number of
  accounts, their duplicate topology and recorded `Padding`, the instruction
  data and the program ID.
* `update_serialize_fails`: over what `Serialize` wrote, `Update` fails.
* `update_serialize_rejects`: it reads the low byte of the account count as the
  first account's index byte, so it rejects `Serialize`'s output for every
  `Params` whose first account is primary, unless the count is `255` modulo
  `256`.
-/

namespace Sealevel

/-! ## The model -/

/-- A `bytes.Reader` over `s` at offset `i`; `Seek` may move `i` past the end. -/
structure Reader where
  s : List UInt8
  i : Nat
deriving DecidableEq

/-- `r.ReadByte()`; `none` is `io.EOF`. -/
def Reader.readByte (r : Reader) : Option (UInt8 × Reader) :=
  if h : r.i < r.s.length then some (r.s[r.i], { r with i := r.i + 1 }) else none

/-- `r.Read(b)` with `len(b) = n`: the unread bytes, up to `n`, are copied. The
`io.ReadFull` of `binary.Read` reads the same bytes, since one `Read` copies all
it can. -/
def Reader.read (r : Reader) (n : Nat) : List UInt8 × Reader :=
  let chunk := (r.s.drop r.i).take n
  (chunk, { r with i := r.i + chunk.length })

/-- `r.Seek(offset, io.SeekCurrent)`; a negative target is an error and leaves
`r` as it was. -/
def Reader.seekCurrent (r : Reader) (offset : Int) : Reader :=
  if (r.i : Int) + offset < 0 then r else { r with i := ((r.i : Int) + offset).toNat }

/-- `binary.Read(r, binary.LittleEndian, &v)` for a `bool`; on a short read `v`
keeps its value. -/
def readBool (r : Reader) (v : Bool) : Bool × Reader :=
  let read := r.read 1
  (if read.1.length = 1 then read.1.headD 0 != 0 else v, read.2)

/-- `binary.Read(r, binary.LittleEndian, &v)` for a `uint64`. -/
def readUint64 (r : Reader) (v : UInt64) : UInt64 × Reader :=
  let read := r.read 8
  (if read.1.length = 8 then (leValue read.1).toUInt64 else v, read.2)

/-- `r.Read(b[:])` into an array. -/
def readInto {n : Nat} (r : Reader) (b : Bytes n) : Bytes n × Reader :=
  let read := r.read n
  (b.copy read.1, read.2)

/-- A Go `int` difference, wrapped to 64 bits. -/
def toInt64 (x : Int) : Int := (x + 2 ^ 63) % 2 ^ 64 - 2 ^ 63

/-- The errors `Update` returns. -/
inductive UpdateError
  | numberOfAccountsChanged
  | accountOrderChanged
  | attemptedToShrinkAccount
  | attemptedToGrowAccountTooMuch
  | eof
deriving DecidableEq, Repr

/-- The text of each error. -/
def UpdateError.message : UpdateError → String
  | numberOfAccountsChanged => "number of accounts changed"
  | accountOrderChanged => "account order changed"
  | attemptedToShrinkAccount => "attempted to shrink account"
  | attemptedToGrowAccountTooMuch => "attempted to grow account too much"
  | eof => "EOF"

/-- The reads of a primary account's flags, key, owner and lamports, after the
four reserved bytes are skipped. -/
def readFields (r : Reader) (acc : AccountParam) : AccountParam × Reader :=
  let (isSigner, r) := readBool r acc.isSigner
  let (isWritable, r) := readBool r acc.isWritable
  let (isExecutable, r) := readBool r acc.isExecutable
  let r := r.seekCurrent 4
  let (key, r) := readInto r acc.key
  let (owner, r) := readInto r acc.owner
  let (lamports, r) := readUint64 r acc.lamports
  ({ acc with
    isSigner := isSigner, isWritable := isWritable, isExecutable := isExecutable,
    key := key, owner := owner, lamports := lamports }, r)

/-- The rest of a primary account: the new data length and its two checks, the
data, the seek over the rest of the realloc padding, and the rent epoch. -/
def readData (r : Reader) (acc : AccountParam) : AccountParam × Except UpdateError Reader :=
  let oldLen := acc.data.length
  let (newLen, r) := readUint64 r 0
  if newLen.toNat < oldLen then (acc, .error .attemptedToShrinkAccount)
  else if newLen.toNat > oldLen + reallocSpace then (acc, .error .attemptedToGrowAccountTooMuch)
  else
    let (data, r) := r.read newLen.toNat
    let r := r.seekCurrent (toInt64 (acc.padding - ((newLen.toNat - oldLen : Nat) : Int)))
    let (rentEpoch, r) := readUint64 r acc.rentEpoch
    ({ acc with data := data, rentEpoch := rentEpoch }, .ok r)

/-- The loop body for `acc := &p.Accounts[i]`: the account as the body leaves
it, and the reader to go on with or the error it returns. -/
def updateAccount (r : Reader) (acc : AccountParam) : AccountParam × Except UpdateError Reader :=
  match r.readByte with
  | none => (acc, .error .eof)
  | some (idx, r) =>
    if (!acc.isDuplicate && idx != 0xFF) || acc.duplicateIndex != idx then
      (acc, .error .accountOrderChanged)
    else if idx != 0xFF then (acc, .ok r)
    else
      let (acc, r) := readFields r acc
      readData r acc

/-- The loop `for i := 0; true; i++` over the accounts from `i` on. Its
condition is `true` and it has no `break`, so it ends only by a `return`: at
the latest `i >= len(p.Accounts)` returns "number of accounts changed". -/
def updateAccounts (r : Reader) : List AccountParam → UpdateError × List AccountParam
  | [] => (.numberOfAccountsChanged, [])
  | acc :: rest =>
    match updateAccount r acc with
    | (acc, .error e) => (e, acc :: rest)
    | (acc, .ok r) =>
      let done := updateAccounts r rest
      (done.1, acc :: done.2)

/-- `p.Update(buf)`: the error it returns (`none` would be `nil`) and `p` as it
leaves it. The statements after the loop are unreachable. -/
def update (p : Params) (r : Reader) : Option UpdateError × Params :=
  let done := updateAccounts r p.accounts
  (some done.1, { p with accounts := done.2 })

/-! ## Reading what is there -/

/-- The bytes `r` has not read. -/
def Reader.unread (r : Reader) : List UInt8 := r.s.drop r.i

/-- The reader `n` bytes further on. -/
def Reader.advance (r : Reader) (n : Nat) : Reader := { r with i := r.i + n }

section Unread

variable {r : Reader} {bs rest : List UInt8}

theorem Reader.advance_advance (r : Reader) (m n : Nat) :
    (r.advance m).advance n = r.advance (m + n) := by
  simp [Reader.advance, Nat.add_assoc]

theorem Reader.unread_advance (h : r.unread = bs ++ rest) :
    (r.advance bs.length).unread = rest := by
  show r.s.drop (r.i + bs.length) = rest
  rw [← List.drop_drop, ← Reader.unread, h, List.drop_left]

theorem Reader.read_of_unread (h : r.unread = bs ++ rest) :
    r.read bs.length = (bs, r.advance bs.length) ∧ (r.advance bs.length).unread = rest :=
  ⟨by simp [Reader.read, show r.s.drop r.i = bs ++ rest from h, Reader.advance],
    Reader.unread_advance h⟩

theorem Reader.readByte_of_unread {b : UInt8} (h : r.unread = b :: rest) :
    r.readByte = some (b, r.advance 1) ∧ (r.advance 1).unread = rest := by
  refine ⟨?_, Reader.unread_advance (show r.unread = [b] ++ rest from h)⟩
  have inside : r.i < r.s.length := by
    by_contra! past
    rw [Reader.unread, List.drop_eq_nil_of_le past] at h
    cases h
  rw [Reader.unread, List.drop_eq_getElem_cons inside, List.cons.injEq] at h
  simp [Reader.readByte, inside, h.1, Reader.advance]

@[simp] theorem Reader.advance_zero (r : Reader) : r.advance 0 = r := rfl

theorem Reader.read_of_unread_short {n : Nat} (h : r.unread = bs) (short : bs.length ≤ n) :
    r.read n = (bs, r.advance bs.length) := by
  simp [Reader.read, show r.s.drop r.i = bs from h, List.take_of_length_le short, Reader.advance]

theorem Reader.unread_advance_nil {n : Nat} (h : r.unread = bs) (past : bs.length ≤ n) :
    (r.advance n).unread = [] := by
  show r.s.drop (r.i + n) = []
  rw [← List.drop_drop, ← Reader.unread, h, List.drop_eq_nil_of_le past]

theorem Reader.readByte_of_unread_nil (h : r.unread = []) : r.readByte = none := by
  rw [Reader.unread, List.drop_eq_nil_iff] at h
  simp [Reader.readByte, Nat.not_lt.mpr h]

theorem Reader.seekCurrent_natCast (r : Reader) (n : Nat) : r.seekCurrent n = r.advance n := by
  unfold Reader.seekCurrent Reader.advance
  rw [if_neg (by omega)]
  congr 1

theorem readBool_of_unread {b v : Bool} (h : r.unread = boolByte b :: rest) :
    readBool r v = (b, r.advance 1) ∧ (r.advance 1).unread = rest := by
  obtain ⟨read, unread⟩ := r.read_of_unread (show r.unread = [boolByte b] ++ rest from h)
  simp only [List.length_singleton] at read unread
  refine ⟨?_, unread⟩
  cases b <;> simp [readBool, read, boolByte]

theorem readUint64_of_unread {n : Nat} {v : UInt64} (h : r.unread = le64 n ++ rest) :
    readUint64 r v = (n.toUInt64, r.advance 8) ∧ (r.advance 8).unread = rest := by
  obtain ⟨read, unread⟩ := r.read_of_unread h
  rw [length_le64] at read unread
  refine ⟨?_, unread⟩
  simp only [readUint64, read, length_le64, if_true, leValue_le64]
  exact Prod.ext (UInt64.toNat.inj (by simp)) rfl

theorem readUint64_of_unread_nil {v : UInt64} (h : r.unread = []) : readUint64 r v = (v, r) := by
  simp [readUint64, Reader.read, show r.s.drop r.i = [] from h]

theorem readInto_of_unread {n : Nat} {b b' : Bytes n} (h : r.unread = b'.toList ++ rest) :
    readInto r b = (b', r.advance n) ∧ (r.advance n).unread = rest := by
  obtain ⟨read, unread⟩ := r.read_of_unread h
  rw [b'.length_eq] at read unread
  exact ⟨by simp only [readInto, read, Bytes.copy_of_length_eq b b'.length_eq], unread⟩

end Unread

@[simp] theorem toUInt64_toNat (x : UInt64) : x.toNat.toUInt64 = x :=
  UInt64.toNat.inj (UInt64.toNat_ofNat_of_lt x.toNat_lt_size)

theorem toInt64_of_lt {x : Int} (nonneg : 0 ≤ x) (lt : x < 2 ^ 63) : toInt64 x = x := by
  unfold toInt64
  rw [Int.emod_eq_of_lt (by omega) (by omega)]
  omega

/-! ## The layout `Update` reads -/

/-- An account before the program ran (`acc`) and after (`acc'`), as `Update`
takes it: the duplicate topology `Serialize` assumes, and data grown by at most
`ReallocSpace` and by no more than the account's realloc padding. -/
structure Edit (acc acc' : AccountParam) : Prop where
  duplicate_index : acc.isDuplicate = true → acc.duplicateIndex ≠ 0xFF
  primary_index : acc.isDuplicate = false → acc.duplicateIndex = 0xFF
  no_shrink : acc.data.length ≤ acc'.data.length
  budget : acc'.data.length ≤ acc.data.length + reallocSpace
  growth_le_padding : ((acc'.data.length - acc.data.length : Nat) : Int) ≤ acc.padding
  padding_lt : acc.padding < 2 ^ 63
  length_lt : acc'.data.length < 2 ^ 64

theorem Edit.length_toUInt64 {acc acc' : AccountParam} (edit : Edit acc acc') :
    acc'.data.length.toUInt64.toNat = acc'.data.length := by
  rw [Nat.toUInt64_toNat, Nat.mod_eq_of_lt edit.length_lt]

/-- The seek over the rest of the realloc padding goes forward by what is left
of it. -/
theorem Edit.seek_eq {acc acc' : AccountParam} (edit : Edit acc acc') :
    toInt64 (acc.padding - ((acc'.data.length - acc.data.length : Nat) : Int)) =
      ((acc.padding - ((acc'.data.length - acc.data.length : Nat) : Int)).toNat : Nat) := by
  have := edit.growth_le_padding
  have := edit.padding_lt
  rw [toInt64_of_lt (by omega) (by omega)]
  omega

/-- What the loop body needs of an account and the record it reads: a
duplicate's index is not `0xFF`, and a primary account's record is an `Edit`.
A duplicate's record is its index alone, so nothing else of it matters. -/
def Accepts (acc acc' : AccountParam) : Prop :=
  if acc.isDuplicate then acc.duplicateIndex ≠ 0xFF else Edit acc acc'

theorem Edit.accepts {acc acc' : AccountParam} (edit : Edit acc acc') : Accepts acc acc' := by
  unfold Accepts
  split
  · exact edit.duplicate_index ‹_›
  · exact edit

/-- The bytes the loop body reads for `acc` when its record holds `acc'`. -/
def readRecord (acc acc' : AccountParam) : List UInt8 :=
  if acc.isDuplicate then [acc.duplicateIndex]
  else [0xFF, boolByte acc'.isSigner, boolByte acc'.isWritable, boolByte acc'.isExecutable] ++
    List.replicate 4 0 ++ acc'.key.toList ++ acc'.owner.toList ++ le64 acc'.lamports.toNat ++
    le64 acc'.data.length ++ acc'.data ++
    List.replicate (acc.padding - ((acc'.data.length - acc.data.length : Nat) : Int)).toNat 0 ++
    le64 acc'.rentEpoch.toNat

/-- `acc` with the fields `Update` reads taken from `acc'`. -/
def edited (acc acc' : AccountParam) : AccountParam :=
  if acc.isDuplicate then acc
  else { acc with
    isSigner := acc'.isSigner, isWritable := acc'.isWritable, isExecutable := acc'.isExecutable,
    key := acc'.key, owner := acc'.owner, lamports := acc'.lamports, data := acc'.data,
    rentEpoch := acc'.rentEpoch }

/-- The bytes the loop body reads for a primary account before its data length:
`0xFF`, the flags, four skipped bytes, the key, the owner and the lamports of
`acc'`. -/
def fieldsRecord (acc' : AccountParam) : List UInt8 :=
  [0xFF, boolByte acc'.isSigner, boolByte acc'.isWritable, boolByte acc'.isExecutable] ++
    List.replicate 4 0 ++ acc'.key.toList ++ acc'.owner.toList ++ le64 acc'.lamports.toNat

/-- `acc` with the flags, key, owner and lamports of `acc'`: what the loop body
has written into the account when it reads the data length. -/
def withFields (acc acc' : AccountParam) : AccountParam :=
  { acc with
    isSigner := acc'.isSigner, isWritable := acc'.isWritable, isExecutable := acc'.isExecutable,
    key := acc'.key, owner := acc'.owner, lamports := acc'.lamports }

/-- Writing the flags, key, owner and lamports keeps an `Edit`: they are not
among the fields it constrains. -/
theorem Edit.withFields {acc acc' : AccountParam} (edit : Edit acc acc') :
    Edit (withFields acc acc') acc' :=
  ⟨edit.duplicate_index, edit.primary_index, edit.no_shrink, edit.budget, edit.growth_le_padding,
    edit.padding_lt, edit.length_lt⟩

theorem readFields_of_unread {r : Reader} (acc : AccountParam) {acc' : AccountParam}
    {rest : List UInt8}
    (h : r.unread = boolByte acc'.isSigner :: boolByte acc'.isWritable ::
      boolByte acc'.isExecutable :: (List.replicate 4 0 ++ (acc'.key.toList ++
        (acc'.owner.toList ++ (le64 acc'.lamports.toNat ++ rest))))) :
    readFields r acc = (withFields acc acc', r.advance 79) ∧
      (r.advance 79).unread = rest := by
  obtain ⟨e1, h1⟩ := readBool_of_unread (v := acc.isSigner) h
  obtain ⟨e2, h2⟩ := readBool_of_unread (v := acc.isWritable) h1
  obtain ⟨e3, h3⟩ := readBool_of_unread (v := acc.isExecutable) h2
  obtain ⟨-, h4⟩ := Reader.read_of_unread h3
  have e4 : (((r.advance 1).advance 1).advance 1).seekCurrent 4 =
      (((r.advance 1).advance 1).advance 1).advance 4 := Reader.seekCurrent_natCast _ 4
  obtain ⟨e5, h5⟩ := readInto_of_unread (b := acc.key) h4
  obtain ⟨e6, h6⟩ := readInto_of_unread (b := acc.owner) h5
  obtain ⟨e7, h7⟩ := readUint64_of_unread (v := acc.lamports) h6
  simp only [Reader.advance_advance, List.length_replicate, Nat.reduceAdd] at e2 e3 e4 e5 e6 e7 h7
  refine ⟨?_, h7⟩
  simp only [readFields, e1, e2, e3, e4, e5, e6, e7, toUInt64_toNat, withFields]

theorem readData_of_unread {r : Reader} (acc : AccountParam) {acc' : AccountParam}
    (edit : Edit acc acc')
    {rest : List UInt8}
    (h : r.unread = le64 acc'.data.length ++ (acc'.data ++ (List.replicate
      (acc.padding - ((acc'.data.length - acc.data.length : Nat) : Int)).toNat 0 ++
        (le64 acc'.rentEpoch.toNat ++ rest)))) :
    readData r acc = ({ acc with data := acc'.data, rentEpoch := acc'.rentEpoch },
      .ok (r.advance (16 + acc'.data.length +
        (acc.padding - ((acc'.data.length - acc.data.length : Nat) : Int)).toNat))) := by
  obtain ⟨e1, h1⟩ := readUint64_of_unread (v := 0) h
  obtain ⟨e2, h2⟩ := Reader.read_of_unread h1
  obtain ⟨-, h3⟩ := Reader.read_of_unread h2
  obtain ⟨e4, -⟩ := readUint64_of_unread (v := acc.rentEpoch) h3
  simp only [List.length_replicate, Reader.advance_advance] at e4
  simp only [readData, e1, edit.length_toUInt64, if_neg (Nat.not_lt.mpr edit.no_shrink),
    gt_iff_lt, if_neg (Nat.not_lt.mpr edit.budget), e2, edit.seek_eq, Reader.seekCurrent_natCast,
    Reader.advance_advance, e4, toUInt64_toNat]
  congr 3
  omega

/-- One pass of the loop body over a record laid out as it reads it. -/
theorem updateAccount_readRecord {acc acc' : AccountParam} (accepts : Accepts acc acc')
    {r : Reader} {rest : List UInt8} (h : r.unread = readRecord acc acc' ++ rest) :
    updateAccount r acc = (edited acc acc', .ok (r.advance (readRecord acc acc').length)) := by
  unfold readRecord at h ⊢
  unfold edited
  unfold Accepts at accepts
  cases dup : acc.isDuplicate
  · simp only [dup, Bool.false_eq_true, if_false] at accepts
    have edit := accepts
    have index := edit.primary_index dup
    simp only [dup, Bool.false_eq_true, if_false, List.append_assoc, List.cons_append,
      List.nil_append] at h ⊢
    obtain ⟨e1, h1⟩ := Reader.readByte_of_unread h
    obtain ⟨e2, h2⟩ := readFields_of_unread acc h1
    have e3 := readData_of_unread (r := (r.advance 1).advance 79) (withFields acc acc')
      edit.withFields h2
    simp only [updateAccount, e1, e2]
    rw [e3]
    simp only [dup, index, withFields, bne_self_eq_false, Bool.not_false, Bool.and_false,
      Bool.or_false, Bool.false_eq_true, if_false, Reader.advance_advance]
    -- What is left is the record's length.
    congr 3
    simp only [List.length_cons, List.length_append, List.length_replicate, length_le64,
      acc'.key.length_eq, acc'.owner.length_eq]
    omega
  · simp only [dup, if_true] at accepts
    have index := accepts
    simp only [dup, if_true, List.singleton_append] at h ⊢
    simp [updateAccount, (Reader.readByte_of_unread h).1, dup, index]

/-- The loop body when the index byte is not the account's: a duplicate's own
index, `0xFF` for a primary account. It returns the error and leaves the
account as it was. -/
theorem updateAccount_rejectIndex {acc : AccountParam} {idx : UInt8}
    (changed : if acc.isDuplicate then idx ≠ acc.duplicateIndex else idx ≠ 0xFF)
    {r : Reader} {rest : List UInt8} (h : r.unread = idx :: rest) :
    updateAccount r acc = (acc, .error .accountOrderChanged) := by
  have check : ((!acc.isDuplicate && idx != 0xFF) || acc.duplicateIndex != idx) = true := by
    cases dup : acc.isDuplicate <;> simp only [dup, if_true, if_false, Bool.false_eq_true] at changed <;>
      simp [changed, Ne.symm changed]
  simp only [updateAccount, (Reader.readByte_of_unread h).1, check, if_true]

/-- The loop body at the end of the bytes returns `io.EOF`. -/
theorem updateAccount_eof (acc : AccountParam) {r : Reader} (h : r.unread = []) :
    updateAccount r acc = (acc, .error .eof) := by
  simp only [updateAccount, Reader.readByte_of_unread_nil h]

/-- The loop body on a primary account whose `DuplicateIndex` is not `0xFF`
fails the index check whatever byte it reads: a primary account passes only
with `idx = 0xFF`, and then `acc.DuplicateIndex != idx`. -/
theorem updateAccount_primaryIndex {acc : AccountParam} (primary : acc.isDuplicate = false)
    (index : acc.duplicateIndex ≠ 0xFF) (r : Reader) :
    updateAccount r acc = (acc, .error (if r.unread = [] then .eof else .accountOrderChanged)) := by
  cases h : r.unread with
  | nil => exact updateAccount_eof acc h
  | cons idx rest =>
    have check : ((!acc.isDuplicate && idx != 0xFF) || acc.duplicateIndex != idx) = true := by
      by_cases marker : idx = 0xFF
      · simp [marker, index]
      · simp [primary, marker]
    simp only [updateAccount, (Reader.readByte_of_unread h).1, check, if_true, reduceCtorEq, if_false]

/-- The loop body on a primary account whose new data length fails a check: it
returns the error after it has written the flags, key, owner and lamports into
the account. -/
theorem updateAccount_rejectLength {acc acc' : AccountParam} (primary : acc.isDuplicate = false)
    (index : acc.duplicateIndex = 0xFF) {newLen : Nat} (new_lt : newLen < 2 ^ 64)
    (rejected : newLen < acc.data.length ∨ acc.data.length + reallocSpace < newLen)
    {r : Reader} {rest : List UInt8} (h : r.unread = fieldsRecord acc' ++ le64 newLen ++ rest) :
    updateAccount r acc = (withFields acc acc', .error (if newLen < acc.data.length
      then .attemptedToShrinkAccount else .attemptedToGrowAccountTooMuch)) := by
  simp only [fieldsRecord, List.append_assoc, List.cons_append, List.nil_append] at h
  obtain ⟨e1, h1⟩ := Reader.readByte_of_unread h
  obtain ⟨e2, h2⟩ := readFields_of_unread acc h1
  obtain ⟨e3, -⟩ := readUint64_of_unread (v := 0) h2
  have new_length : newLen.toUInt64.toNat = newLen := by
    rw [Nat.toUInt64_toNat, Nat.mod_eq_of_lt new_lt]
  have checked : readData ((r.advance 1).advance 79) (withFields acc acc') =
      (withFields acc acc', .error (if newLen < acc.data.length
        then .attemptedToShrinkAccount else .attemptedToGrowAccountTooMuch)) := by
    have same_data : (withFields acc acc').data = acc.data := rfl
    simp only [readData, e3, new_length, same_data]
    rcases rejected with shrink | grow
    · simp [shrink]
    · simp [Nat.not_lt.mpr (Nat.le_of_lt (Nat.lt_of_le_of_lt (Nat.le_add_right _ _) grow)), grow]
  simp only [updateAccount, e1, primary, index, bne_self_eq_false, Bool.not_false, Bool.and_false,
    Bool.or_false, Bool.false_eq_true, if_false]
  rw [e2]
  exact checked

/-- The loop body on a primary account whose record ends inside its data: it
checks the new length, takes the bytes that are there for the data, keeps its
rent epoch (that read comes up short), and leaves the reader past the end. -/
theorem updateAccount_truncated {acc acc' : AccountParam} (primary : acc.isDuplicate = false)
    (edit : Edit acc acc') {data : List UInt8} (short : data.length < acc'.data.length)
    {r : Reader} (h : r.unread = fieldsRecord acc' ++ le64 acc'.data.length ++ data) :
    ∃ r', updateAccount r acc = ({ withFields acc acc' with data := data }, .ok r') ∧
      r'.unread = [] := by
  simp only [fieldsRecord, List.append_assoc, List.cons_append, List.nil_append] at h
  obtain ⟨e1, h1⟩ := Reader.readByte_of_unread h
  obtain ⟨e2, h2⟩ := readFields_of_unread acc h1
  obtain ⟨e3, h3⟩ := readUint64_of_unread (v := 0) h2
  have e4 := Reader.read_of_unread_short h3 short.le
  have at_end := Reader.unread_advance (show _ = data ++ [] from h3.trans data.append_nil.symm)
  have past_end := Reader.unread_advance_nil at_end
    (Nat.zero_le (acc.padding - ((acc'.data.length - acc.data.length : Nat) : Int)).toNat)
  refine ⟨_, ?_, past_end⟩
  simp only [updateAccount, e1, primary, edit.primary_index primary, bne_self_eq_false, Bool.not_false,
    Bool.and_false, Bool.or_false, Bool.false_eq_true, if_false]
  rw [e2]
  unfold readData
  rw [e3]
  dsimp only [withFields]
  rw [edit.length_toUInt64, if_neg (Nat.not_lt.mpr edit.no_shrink),
    if_neg (Nat.not_lt.mpr edit.budget), e4]
  dsimp only
  rw [edit.seek_eq, Reader.seekCurrent_natCast, readUint64_of_unread_nil past_end]

/-- The loop over accounts whose records, laid out as it reads them, come
first: each of them takes its edited fields, and the loop goes on with the
later accounts after their records. -/
theorem updateAccounts_append {accounts edits : List AccountParam}
    (pairs : List.Forall₂ Accepts accounts edits) (later : List AccountParam) :
    ∀ {r : Reader} {rest : List UInt8},
      r.unread = (List.zipWith readRecord accounts edits).flatten ++ rest →
      let next := r.advance (List.zipWith readRecord accounts edits).flatten.length
      updateAccounts r (accounts ++ later) =
        ((updateAccounts next later).1, List.zipWith edited accounts edits ++ (updateAccounts next later).2) := by
  induction pairs with
  | nil => intro r rest _; simp [Reader.advance]
  | cons accepts _ ih =>
    intro r rest h
    rw [List.zipWith_cons_cons, List.flatten_cons, List.append_assoc] at h
    rw [List.cons_append]
    simp only [updateAccounts, updateAccount_readRecord accepts h, ih (Reader.unread_advance h),
      List.zipWith_cons_cons, List.flatten_cons, List.length_append, Reader.advance_advance,
      List.cons_append]

/-- The loop over accounts laid out as it reads them: every account takes its
edited fields, and the loop ends with "number of accounts changed". -/
theorem updateAccounts_readRecords {accounts edits : List AccountParam}
    (pairs : List.Forall₂ Accepts accounts edits) {r : Reader} {rest : List UInt8}
    (h : r.unread = (List.zipWith readRecord accounts edits).flatten ++ rest) :
    updateAccounts r accounts = (.numberOfAccountsChanged, List.zipWith edited accounts edits) := by
  simpa [updateAccounts] using updateAccounts_append pairs [] h

/-- The loop at the end of the bytes: with accounts left, the first `ReadByte`
returns `io.EOF`; with none left, the loop returns "number of accounts
changed". -/
theorem updateAccounts_of_unread_nil {r : Reader} (h : r.unread = []) (later : List AccountParam) :
    updateAccounts r later = (if later = [] then .numberOfAccountsChanged else .eof, later) := by
  cases later with
  | nil => rfl
  | cons acc rest => simp [updateAccounts, updateAccount_eof acc h]

/-- `primaryAccount` made a signer, with lamports 5 and one byte of data. -/
def grownAccount : AccountParam := { primaryAccount with isSigner := true, lamports := 5, data := [7] }

/-- `primaryAccount` with the Go zero value of `DuplicateIndex`. -/
def zeroIndexed : AccountParam := { primaryAccount with duplicateIndex := 0 }

/-- `primaryAccount` with the `Padding` `Serialize` records for it in
`onePrimary`. -/
def servedPrimary : AccountParam := { primaryAccount with padding := 10252 }

/-- The fields of an account that `Update` never writes: its duplicate topology
and its recorded `Padding`. -/
def KeepsIdentity (acc acc' : AccountParam) : Prop :=
  acc'.isDuplicate = acc.isDuplicate ∧ acc'.duplicateIndex = acc.duplicateIndex ∧
    acc'.padding = acc.padding

theorem KeepsIdentity.refl (acc : AccountParam) : KeepsIdentity acc acc := ⟨rfl, rfl, rfl⟩

theorem KeepsIdentity.trans {a b c : AccountParam} (first : KeepsIdentity a b)
    (second : KeepsIdentity b c) : KeepsIdentity a c :=
  ⟨second.1.trans first.1, second.2.1.trans first.2.1, second.2.2.trans first.2.2⟩

theorem readFields_keepsIdentity (r : Reader) (acc : AccountParam) :
    KeepsIdentity acc (readFields r acc).1 := by
  simp [readFields, KeepsIdentity]

/-- `readData` writes the data and the rent epoch and nothing else. -/
theorem readData_fst (r : Reader) (acc : AccountParam) :
    ∃ data rentEpoch, (readData r acc).1 = { acc with data := data, rentEpoch := rentEpoch } := by
  unfold readData
  dsimp only
  split_ifs <;> exact ⟨_, _, rfl⟩

theorem readData_keepsIdentity (r : Reader) (acc : AccountParam) :
    KeepsIdentity acc (readData r acc).1 := by
  obtain ⟨data, rentEpoch, h⟩ := readData_fst r acc
  rw [h]
  exact KeepsIdentity.refl acc

theorem updateAccount_keepsIdentity (r : Reader) (acc : AccountParam) :
    KeepsIdentity acc (updateAccount r acc).1 := by
  unfold updateAccount
  split
  · exact KeepsIdentity.refl acc
  · dsimp only
    split_ifs
    · exact KeepsIdentity.refl acc
    · exact KeepsIdentity.refl acc
    · exact (readFields_keepsIdentity _ acc).trans (readData_keepsIdentity _ _)

/-- The loop body on a primary account carrying `0xFF` that reads the `0xFF`
marker: the flags, key, owner and lamports are those `readFields` reads,
whatever the data length does. -/
theorem updateAccount_fst_of_marker {acc : AccountParam} (primary : acc.isDuplicate = false)
    (index : acc.duplicateIndex = 0xFF) {r r' : Reader} (marker : r.readByte = some (0xFF, r')) :
    ∃ data rentEpoch,
      (updateAccount r acc).1 = { (readFields r' acc).1 with data := data, rentEpoch := rentEpoch } := by
  simp only [updateAccount, marker, primary, index, bne_self_eq_false, Bool.not_false, Bool.and_false,
    Bool.or_false, Bool.false_eq_true, if_false]
  exact readData_fst _ _

/-- The loop leaves the first account as its body left it, whatever it returns. -/
theorem updateAccounts_cons_snd (r : Reader) (acc : AccountParam) (later : List AccountParam) :
    ∃ later', (updateAccounts r (acc :: later)).2 = (updateAccount r acc).1 :: later' := by
  unfold updateAccounts
  split <;> rename_i step <;> exact ⟨_, by rw [step]⟩

theorem updateAccounts_keepsIdentity (r : Reader) (accounts : List AccountParam) :
    List.Forall₂ KeepsIdentity accounts (updateAccounts r accounts).2 := by
  induction accounts generalizing r with
  | nil => exact .nil
  | cons acc rest ih =>
    unfold updateAccounts
    split
    all_goals
      rename_i step
      have first := updateAccount_keepsIdentity r acc
      rw [step] at first
    · exact .cons first (List.forall₂_same.mpr fun acc _ => KeepsIdentity.refl acc)
    · exact .cons first (ih _)

/-- Whatever the bytes, `Update` keeps the number of accounts, each account's
duplicate topology and recorded `Padding`, the instruction data and the
program ID: it writes only the flags, key, owner, lamports, data and rent
epoch of primary accounts. -/
theorem update_keepsIdentity (p : Params) (r : Reader) :
    (update p r).2.data = p.data ∧ (update p r).2.programID = p.programID ∧
      List.Forall₂ KeepsIdentity p.accounts (update p r).2.accounts :=
  ⟨rfl, rfl, updateAccounts_keepsIdentity r p.accounts⟩

/-! ## After `Serialize` -/

/-- No accounts, no instruction data. -/
def noAccounts : Params where
  accounts := []
  data := []
  programID := ⟨List.replicate 32 0, rfl⟩

/-- Over what `Serialize` wrote, `Update` fails. With no accounts it returns
"number of accounts changed". For `onePrimary` it reads the low byte of the
account count, 1, as the first account's index and returns "account order
changed". -/
theorem update_serialize_fails :
    update (serialize noAccounts).2 ⟨(serialize noAccounts).1, 0⟩ =
        (some .numberOfAccountsChanged, noAccounts) ∧
      update (serialize onePrimary).2 ⟨(serialize onePrimary).1, 0⟩ =
        (some .accountOrderChanged, (serialize onePrimary).2) := by
  refine ⟨rfl, ?_⟩
  have unread : (Reader.mk (serialize onePrimary).1 0).unread = 1 :: ((le64 1).tail ++
      (onePrimary.accounts.map record).flatten ++ le64 0 ++ [] ++ onePrimary.programID.toList) := by
    simp only [Reader.unread, List.drop_zero, serialize, serializeAccounts_fst]
    rfl
  obtain ⟨first, -⟩ := Reader.readByte_of_unread unread
  simp only [update, updateAccounts, updateAccount, first]
  rfl

/-- `Update` takes the low byte of the account count that `Serialize` writes
first for the first account's index byte. So whenever the first account is
primary and the count is not `255` modulo `256`, `Update` rejects what
`Serialize` wrote with "account order changed" and changes nothing. -/
theorem update_serialize_rejects (p : Params) {acc : AccountParam} {rest : List AccountParam}
    (accounts : p.accounts = acc :: rest) (primary : acc.isDuplicate = false)
    (count : p.accounts.length % 256 ≠ 255) :
    update (serialize p).2 ⟨(serialize p).1, 0⟩ = (some .accountOrderChanged, (serialize p).2) := by
  have unread : (Reader.mk (serialize p).1 0).unread = p.accounts.length.toUInt8 ::
      ((le64 p.accounts.length).tail ++ (p.accounts.map record).flatten ++ le64 p.data.length ++
        p.data ++ p.programID.toList) := by
    rw [Reader.unread, List.drop_zero, serialize, serializeAccounts_fst, le64_eq_cons]
    rfl
  obtain ⟨first, -⟩ := Reader.readByte_of_unread unread
  have index : p.accounts.length.toUInt8 ≠ 0xFF :=
    fun h => count (by simpa using congrArg UInt8.toNat h)
  obtain ⟨acc', rest', recorded, primary'⟩ :
      ∃ acc' rest', (serialize p).2.accounts = acc' :: rest' ∧ acc'.isDuplicate = false := by
    simp only [serialize, accounts]
    unfold serializeAccounts
    rw [if_neg (by simp [primary])]
    exact ⟨_, _, rfl, primary⟩
  have rejected : updateAccount ⟨(serialize p).1, 0⟩ acc' = (acc', .error .accountOrderChanged) := by
    simp [updateAccount, first, primary', index]
  have done : updateAccounts ⟨(serialize p).1, 0⟩ (serialize p).2.accounts =
      (.accountOrderChanged, (serialize p).2.accounts) := by
    rw [recorded]; simp only [updateAccounts, rejected]
  simp only [update, done]

/-- `onePrimary` meets the conditions, so `Serialize`'s output for it is
rejected. -/
theorem update_serialize_rejects_onePrimary :
    onePrimary.accounts = [primaryAccount] ∧ primaryAccount.isDuplicate = false ∧
      onePrimary.accounts.length % 256 ≠ 255 ∧
      update (serialize onePrimary).2 ⟨(serialize onePrimary).1, 0⟩ =
        (some .accountOrderChanged, (serialize onePrimary).2) :=
  ⟨rfl, rfl, by decide, update_serialize_rejects onePrimary rfl rfl (by decide)⟩

end Sealevel
