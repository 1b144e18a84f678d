import Tpuproxy.Base58.Decode

/-!
# A reference decoder

`Decode32` and `Decode64` compute the text's value through base `58^5`
digits, the `decTable` products, a carry pass and big-endian limbs. This module
states what they compute in terms of the text alone (`decodeRef`): the length
check, the first character outside the alphabet, the value of the digits, and
its big-endian bytes. The table-driven decoder equals it on every text and every
`out`, panics included.

Results:
* `validate_eq_checkChars`: the validation loop, with its clamped index into
  `inverseLUT`, finds the first character outside the alphabet, and panics
  exactly when that character lies below `'1'`.
* `decode_eq_decodeRef`: `decode` is `decodeRef`.
-/

namespace Base58

/-- The big-endian bytes of `V` in an `n`-byte field, modulo `256^n`. -/
def beBytes : Nat → Nat → List UInt8
  | 0, _ => []
  | n + 1, V => (V / 256 ^ n).toUInt8 :: beBytes n V

@[simp] theorem length_beBytes (n V : Nat) : (beBytes n V).length = n := by
  induction n with
  | zero => rfl
  | succ n ih => simp [beBytes, ih]

theorem bytesValue_beBytes (n V : Nat) : bytesValue (beBytes n V) = V % 256 ^ n := by
  induction n with
  | zero => simp [beBytes, bytesValue, Nat.mod_one]
  | succ n ih =>
    rw [bytesValue, beBytes, List.map_cons, beValue_cons, List.length_map, length_beBytes,
      ← bytesValue, ih, Nat.toUInt8_toNat, Nat.mod_pow_succ, Nat.mul_comm, Nat.add_comm]

/-- The character check, stated on the text: all characters valid, or the first
one that is not, rejected from `'1'` on and a panic below it. -/
def checkChars (encoded : List UInt8) : Option Bool :=
  match encoded.find? (fun c => !isValid c) with
  | none => some true
  | some c => if c.toNat < 49 then none else some false

/-- `Decode32` and `Decode64` on the text's value: a text of a rejected length,
with a rejected character or with a value of `256^N` or more returns `false`
and leaves `out`; a character below `'1'` before any other invalid one panics.
Otherwise `out` receives the value big-endian, and the result says whether the
text has one leading `'1'` per leading zero byte. -/
def decodeRef (w : Width) (out : Bytes (4 * w.binSz)) (encoded : List UInt8) :
    Option (Bool × Bytes (4 * w.binSz)) :=
  if encoded.length < 4 * w.binSz ∨ encoded.length > w.maxLen then some (false, out)
  else
    match checkChars encoded with
    | none => none
    | some false => some (false, out)
    | some true =>
      let value := beValue 58 (encoded.map lutDigit)
      if 256 ^ (4 * w.binSz) ≤ value then some (false, out)
      else
        let out : Bytes (4 * w.binSz) := ⟨beBytes (4 * w.binSz) value, length_beBytes _ _⟩
        some (decide (leading0s (encoded.map lutDigit) = leading0s (out.toList.map UInt8.toNat)), out)

/-- The validation loop stops at the first character outside the alphabet:
below `'1'` the index into `inverseLUT` is negative and Go panics; from `'1'`
on the clamp keeps the index inside the table, whose entry is `invalidChar`. -/
theorem validate_eq_checkChars (s : List UInt8) : validate s = checkChars s := by
  induction s with
  | nil => rfl
  | cons c cs ih =>
    rw [validate_cons, ih, invalidChar]
    by_cases low : c.toNat < 49
    · simp [checkChars, List.find?_cons, isValid, low]
    · by_cases bad : lutDigit c = 0xFF <;> simp [checkChars, List.find?_cons, isValid, low, bad]

/-- The table-driven decoder computes the reference decoder on every text and
every `out`: the same panics, the same rejections with `out` untouched, and on
a value below `256^N` the same bytes in `out` and the same canonical-form
verdict. -/
theorem decode_eq_decodeRef (w : Width) (out : Bytes (4 * w.binSz)) (s : List UInt8) :
    decode w out s = decodeRef w out s := by
  rcases decode_cases w out s with ⟨range, h⟩ | ⟨long, short, none, h⟩ | ⟨long, short, bad, h⟩ |
    ⟨long, short, valid, over, h⟩ | ⟨long, short, valid, fits, out', value, h⟩ <;>
    rw [h, decodeRef]
  · rw [if_pos (by omega)]
  all_goals rw [if_neg (by omega), ← validate_eq_checkChars]
  · rw [none]
  · rw [bad]
  · rw [(validate_eq_some_true_iff s).mpr valid]
    exact (if_pos over).symm
  · rw [(validate_eq_some_true_iff s).mpr valid]
    dsimp only
    rw [if_neg (by omega)]
    obtain rfl : out' = ⟨beBytes (4 * w.binSz) (beValue 58 (s.map lutDigit)), length_beBytes _ _⟩ :=
      bytes_eq_of_bytesValue_eq (by rw [value, bytesValue_beBytes, Nat.mod_eq_of_lt fits])
    rfl

end Base58
