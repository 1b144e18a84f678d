import Tpuproxy.Base58.Decode

/-!
# Round trip

The decoders accept exactly the texts the encoders write: `Decode_N(&out, s)`
returns `true` with `out = x` if and only if `s` is `Encode_N`'s text for `x`.
So decoding inverts encoding, and every accepted text is the one canonical text
of its value. `Encode` dispatches on the length of its argument.

Results:
* `decode_iff_encode`: the round trip, for both widths.
* `encode_eq_some_iff`: `Encode` returns the reference text of a 32- or
  64-byte argument and panics on any other length.
-/

namespace Base58

/-- `Encode(buf)`: `Encode32` or `Encode64` into a zeroed array, returning
`out[:outLen]`; `none` is the panic on another length. -/
def encode (buf : List UInt8) : Option (List UInt8) :=
  if h : buf.length = 32 then
    (encode32 ⟨List.replicate 44 0, rfl⟩ ⟨buf, h⟩).map fun r => r.1.toList.take r.2
  else if h : buf.length = 64 then
    (encode64 ⟨List.replicate 88 0, rfl⟩ ⟨buf, h⟩).map fun r => r.1.toList.take r.2
  else none

/-- The text in `out[:n]` of an encoder that writes `ref` and keeps the rest of
`out`. -/
theorem take_eq_of_written {n : Nat} {result : Option (Bytes n × Nat)} {ref : List UInt8}
    {buf : Bytes n}
    (written : ∃ o, result = some (o, ref.length) ∧ o.toList = ref ++ buf.toList.drop ref.length) :
    result.map (fun r => r.1.toList.take r.2) = some ref := by
  obtain ⟨o, rfl, list⟩ := written
  simp [list]

theorem eq_iff_written {n : Nat} {result : Option (Bytes n × Nat)} {ref : List UInt8}
    {buf : Bytes n}
    (written : ∃ o, result = some (o, ref.length) ∧ o.toList = ref ++ buf.toList.drop ref.length)
    (s : List UInt8) :
    s = ref ↔ ∃ o n, result = some (o, n) ∧ s = o.toList.take n := by
  obtain ⟨o, rfl, list⟩ := written
  constructor
  · rintro rfl
    exact ⟨o, _, rfl, by simp [list]⟩
  · rintro ⟨o', n', same, rfl⟩
    obtain ⟨rfl, rfl⟩ := Prod.mk.inj (Option.some.inj same)
    simp [list]

/-- `Decode_N(&out, s)` returns `true` and sets `out` to `x` exactly when `s` is
the text `Encode_N` writes for `x`, whatever buffer it writes into. -/
theorem decode_iff_encode :
    (∀ (buf : Bytes 44) (out x : Bytes 32) (s : List UInt8),
      decode32 out s = some (true, x) ↔
        ∃ o n, encode32 buf x = some (o, n) ∧ s = o.toList.take n) ∧
    ∀ (buf : Bytes 88) (out x : Bytes 64) (s : List UInt8),
      decode64 out s = some (true, x) ↔
        ∃ o n, encode64 buf x = some (o, n) ∧ s = o.toList.take n :=
  ⟨fun buf out x s => (decode_eq_some_true_iff width32 out x s).trans
      (eq_iff_written (encode32_eq_base58Ref buf x) s),
    fun buf out x s => (decode_eq_some_true_iff width64 out x s).trans
      (eq_iff_written (encode64_eq_base58Ref buf x) s)⟩

/-- `Encode` returns the reference text of a 32- or 64-byte argument and panics
on any other length. -/
theorem encode_eq_some_iff (buf t : List UInt8) :
    encode buf = some t ↔ (buf.length = 32 ∨ buf.length = 64) ∧ t = base58Ref buf := by
  unfold encode
  split_ifs with h32 h64
  · rw [take_eq_of_written (encode32_eq_base58Ref _ ⟨buf, h32⟩)]
    simp [h32, eq_comm]
  · rw [take_eq_of_written (encode64_eq_base58Ref _ ⟨buf, h64⟩)]
    simp [h64, eq_comm]
  · simp [h32, h64]

end Base58
