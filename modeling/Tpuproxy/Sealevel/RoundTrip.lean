import Tpuproxy.Sealevel.Update

/-!
# `Update` after `Serialize`

`Serialize` records in each primary account the `Padding` that `Update` later
seeks over: the realloc space, one byte, and the record's end offset divided by
`ReallocAlign`. This module shows that this `Padding` always leaves room for
every growth `Update` accepts, so that `Update`'s only demands on the accounts
`Serialize` returns are the duplicate topology and the data growth bounds.

Results:
* `accepts_serializeAccounts`: on the accounts of `Serialize` with a correct
  duplicate topology, every edit within the realloc budget passes the checks of
  `Update`'s loop body, as long as the buffer's length fits a Go `int`.
* `update_serializedRecords`: then `Update` reads back every edited record, at
  any position of the reader and with any bytes after the records.
* `update_serialize_shiftsKey`: but the records `Update` reads are not those
  `Serialize` writes. `Serialize` writes none of the four reserved bytes, so
  `Update`, even started past the account count, reads the first primary
  account's key four bytes late.
-/

namespace Sealevel

/-- The duplicate topology `Update` checks: a duplicate's index is not `0xFF`,
and a primary account carries `0xFF`, the marker of a primary record. -/
def IndexMarks (acc : AccountParam) : Prop :=
  if acc.isDuplicate then acc.duplicateIndex ≠ 0xFF else acc.duplicateIndex = 0xFF

/-- A program's edit of a primary account's data stays within
`[len(acc.Data), len(acc.Data) + ReallocSpace]`; a duplicate is not edited. -/
def WithinRealloc (acc acc' : AccountParam) : Prop :=
  acc.isDuplicate = false →
    acc.data.length ≤ acc'.data.length ∧ acc'.data.length ≤ acc.data.length + reallocSpace

/-- The `Padding` `Serialize` records for a primary account passes `Update`'s
checks for every edit within the realloc budget: it is more than
`ReallocSpace`, and it is below `2^63` when the record ends below `2^63`. -/
theorem edit_paddingAt {acc acc' : AccountParam} (buf : List UInt8) (marks : IndexMarks acc)
    (primary : acc.isDuplicate = false) (within : WithinRealloc acc acc')
    (small : buf.length + (record acc).length < 2 ^ 63) :
    Edit { acc with
      padding := ((reallocSpace + 1 + ((buf ++ primaryHead acc).length - 1) / reallocAlign : Nat) : Int) }
      acc' := by
  simp only [IndexMarks, primary, Bool.false_eq_true, if_false] at marks
  obtain ⟨no_shrink, budget⟩ := within primary
  rw [length_record, primary, if_neg Bool.false_ne_true] at small
  refine ⟨fun h => absurd h (by simp [primary]), fun _ => marks, no_shrink, budget, ?_, ?_, ?_⟩ <;>
    simp only [List.length_append, length_primaryHead, reallocSpace, reallocAlign] at budget ⊢ <;>
    omega

theorem accepts_serializeAccounts {accounts edits : List AccountParam} (buf : List UInt8)
    (marks : ∀ acc ∈ accounts, IndexMarks acc) (within : List.Forall₂ WithinRealloc accounts edits)
    (small : buf.length + (accounts.map record).flatten.length < 2 ^ 63) :
    List.Forall₂ Accepts (serializeAccounts buf accounts).2 edits := by
  induction within generalizing buf with
  | nil => exact .nil
  | @cons acc acc' rest rest' grows _ ih =>
    have marks_rest : ∀ a ∈ rest, IndexMarks a := fun a ha => marks a (List.mem_cons_of_mem _ ha)
    simp only [List.map_cons, List.flatten_cons, List.length_append] at small
    unfold serializeAccounts
    by_cases duplicate : acc.isDuplicate
    · rw [if_pos duplicate]
      refine .cons (by simpa [Accepts, IndexMarks, duplicate] using marks acc (List.mem_cons_self _ _))
        (ih _ marks_rest ?_)
      simp only [List.length_append, List.length_singleton, length_record, duplicate, if_true] at small ⊢
      omega
    · have primary : acc.isDuplicate = false := by simpa using duplicate
      rw [if_neg duplicate]
      refine .cons (Edit.accepts (edit_paddingAt buf (marks acc (List.mem_cons_self _ _))
        primary grows (by omega))) (ih _ marks_rest ?_)
      simp only [List.length_append, length_le64, length_primaryHead]
      rw [length_record, if_neg duplicate] at small
      omega

/-- The loop body's reads of the flags, the four reserved bytes, the key and the
owner over bytes that have no reserved bytes: the key starts four bytes late,
and the owner with it. -/
theorem readFields_unreserved (acc : AccountParam) {b1 b2 b3 : Bool} {key owner : Bytes 32}
    {rest : List UInt8} (more : 4 ≤ rest.length) {r : Reader}
    (h : r.unread = boolByte b1 :: boolByte b2 :: boolByte b3 :: (key.toList ++ (owner.toList ++ rest))) :
    (readFields r acc).1.key.toList = key.toList.drop 4 ++ owner.toList.take 4 ∧
      (readFields r acc).1.owner.toList = owner.toList.drop 4 ++ rest.take 4 := by
  obtain ⟨e1, h1⟩ := readBool_of_unread (v := acc.isSigner) h
  obtain ⟨e2, h2⟩ := readBool_of_unread (v := acc.isWritable) h1
  obtain ⟨e3, h3⟩ := readBool_of_unread (v := acc.isExecutable) h2
  have e4 : (((r.advance 1).advance 1).advance 1).seekCurrent 4 =
      (((r.advance 1).advance 1).advance 1).advance 4 := Reader.seekCurrent_natCast _ 4
  -- The seek lands four bytes into the key.
  have reserved : (key.toList.take 4).length = 4 := by simp [key.length_eq]
  have split_key : key.toList ++ (owner.toList ++ rest) =
      key.toList.take 4 ++ (key.toList.drop 4 ++ (owner.toList ++ rest)) := by
    rw [← List.append_assoc (key.toList.take 4), List.take_append_drop]
  have h4 := Reader.unread_advance (h3.trans split_key)
  rw [reserved] at h4
  let key' : Bytes 32 :=
    ⟨key.toList.drop 4 ++ owner.toList.take 4, by simp [key.length_eq, owner.length_eq]⟩
  let owner' : Bytes 32 := ⟨owner.toList.drop 4 ++ rest.take 4, by simp [owner.length_eq]; omega⟩
  obtain ⟨e5, h5⟩ := readInto_of_unread (b := acc.key)
    (show _ = key'.toList ++ (owner.toList.drop 4 ++ rest) from h4.trans (by
      rw [List.append_assoc, ← List.append_assoc (owner.toList.take 4), List.take_append_drop]))
  obtain ⟨e6, -⟩ := readInto_of_unread (b := acc.owner)
    (show _ = owner'.toList ++ rest.drop 4 from h5.trans (by rw [List.append_assoc, List.take_append_drop]))
  simp [readFields, e1, e2, e3, e4, e5, e6, key', owner']

/-- `Update` does not read back what `Serialize` writes, even from the first
record on: `Serialize` reserves the four bytes after the flags with `buf.Grow`,
which writes nothing, and `Update` seeks over four bytes there. Started past the
account count, `Update` writes into a first primary account that carries
`0xFF` a key made of the last 28 bytes of its key and the first 4 of its owner,
and an owner shifted the same way, whatever it returns. -/
theorem update_serialize_shiftsKey (p : Params) {acc : AccountParam} {rest : List AccountParam}
    (accounts : p.accounts = acc :: rest) (primary : acc.isDuplicate = false)
    (index : acc.duplicateIndex = 0xFF) :
    ∃ acc' rest', (update (serialize p).2 ⟨(serialize p).1, 8⟩).2.accounts = acc' :: rest' ∧
      acc'.key.toList = acc.key.toList.drop 4 ++ acc.owner.toList.take 4 ∧
      acc'.owner.toList = acc.owner.toList.drop 4 ++ (le64 acc.lamports.toNat).take 4 := by
  obtain ⟨padding, rest', recorded⟩ :
      ∃ (padding : Int) (rest' : List AccountParam),
        (serialize p).2.accounts = { acc with padding := padding } :: rest' := by
    simp only [serialize, accounts]
    rw [serializeAccounts.eq_2, if_neg (by simp [primary])]
    exact ⟨_, _, rfl⟩
  set served : AccountParam := { acc with padding := padding }
  have unread : (Reader.mk (serialize p).1 8).unread = 0xFF :: boolByte acc.isSigner ::
      boolByte acc.isWritable :: boolByte acc.isExecutable :: (acc.key.toList ++ (acc.owner.toList ++
        (le64 acc.lamports.toNat ++ (le64 acc.data.length ++ acc.data ++ le64 acc.rentEpoch.toNat ++
          (rest.map record).flatten ++ le64 p.data.length ++ p.data ++ p.programID.toList)))) := by
    simp only [Reader.unread, serialize, serializeAccounts_fst, accounts, List.map_cons, List.flatten_cons,
      record, primary, primaryHead, List.append_assoc]
    rw [List.drop_left' (length_le64 _)]
    simp
  obtain ⟨first, after⟩ := Reader.readByte_of_unread unread
  obtain ⟨key, owner⟩ := readFields_unreserved served
    (by simp only [List.length_append, length_le64]; omega) after
  obtain ⟨data, rentEpoch, body⟩ := @updateAccount_fst_of_marker served primary index _ _ first
  obtain ⟨later, run⟩ := updateAccounts_cons_snd ⟨(serialize p).1, 8⟩ served rest'
  refine ⟨_, later, by rw [update, recorded]; exact run, ?_, ?_⟩
  · rw [body]; exact key
  · rw [body]; exact owner

/-- `onePrimary` read back from its first record: its key of 32 bytes `1`
comes back as 28 bytes `1` followed by 4 bytes `2` of its owner. -/
theorem update_serialize_shiftsKey_onePrimary :
    onePrimary.accounts = primaryAccount :: [] ∧ primaryAccount.isDuplicate = false ∧
      primaryAccount.duplicateIndex = 0xFF ∧
      ∃ acc' rest', (update (serialize onePrimary).2 ⟨(serialize onePrimary).1, 8⟩).2.accounts =
          acc' :: rest' ∧
        acc'.key.toList = primaryAccount.key.toList.drop 4 ++ primaryAccount.owner.toList.take 4 ∧
        acc'.owner.toList =
          primaryAccount.owner.toList.drop 4 ++ (le64 primaryAccount.lamports.toNat).take 4 :=
  ⟨rfl, rfl, rfl, update_serialize_shiftsKey onePrimary rfl rfl rfl⟩

end Sealevel
