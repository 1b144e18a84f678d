/-!
# Go byte arrays

`Bytes n` is a Go array `[n]byte`: a list of bytes whose length is fixed by
its type. Both packages write into such arrays, by index (`out[i] = c` in the
base58 encoder) or by `copy` (the reads of `Params.Update`).
-/

/-- `byte(n)`: the low eight bits. -/
@[simp] theorem Nat.toUInt8_toNat (n : Nat) : n.toUInt8.toNat = n % 256 := rfl

/-- A Go array `[n]byte`. -/
@[ext] structure Bytes (n : Nat) where
  toList : List UInt8
  length_eq : toList.length = n
deriving DecidableEq

/-- `b[i] = c` for an index in range. -/
def Bytes.set {n : Nat} (b : Bytes n) (i : Nat) (c : UInt8) : Bytes n :=
  ⟨b.toList.set i c, by simp [b.length_eq]⟩

@[simp] theorem Bytes.toList_set {n : Nat} (b : Bytes n) (i : Nat) (c : UInt8) :
    (b.set i c).toList = b.toList.set i c := rfl

/-- `copy(b[:], src)`: the first `min(n, len(src))` bytes of `b` are replaced. -/
def Bytes.copy {n : Nat} (b : Bytes n) (src : List UInt8) : Bytes n :=
  ⟨src.take n ++ b.toList.drop (src.take n).length, by
    simp only [List.length_append, List.length_take, List.length_drop, b.length_eq]; omega⟩

theorem Bytes.copy_of_length_eq {n : Nat} (b : Bytes n) {src : List UInt8} (length : src.length = n) :
    b.copy src = ⟨src, length⟩ := by
  subst length
  ext1
  simp [Bytes.copy, List.drop_eq_nil_of_le, b.length_eq]
