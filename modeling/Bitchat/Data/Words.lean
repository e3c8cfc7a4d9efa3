import Bitchat.Data.Bytes

/-! Machine words taken apart into bytes and put together with shifts, and buffers of a fixed size
that are filled from the front. -/
namespace Bytes

section Words

/-- A number below the shifted one is added by `|||`. -/
theorem shiftLeft_or {b k : Nat} (a : Nat) (room : b < 2 ^ k) : a <<< k ||| b = a * 2 ^ k + b := by
  rw [← Nat.shiftLeft_add_eq_or_of_lt room, Nat.shiftLeft_eq]

theorem toNat_shifted (b : UInt8) (k : UInt64) (small : k.toNat ≤ 56) :
    (b.toUInt64 <<< k).toNat = b.toNat <<< k.toNat := by
  have byte := b.toNat_lt
  have fits : b.toNat * 2 ^ k.toNat < 2 ^ 64 :=
    calc b.toNat * 2 ^ k.toNat < 2 ^ 8 * 2 ^ k.toNat := Nat.mul_lt_mul_of_pos_right byte (Nat.two_pow_pos _)
      _ ≤ 2 ^ 8 * 2 ^ 56 := Nat.mul_le_mul_left _ (Nat.pow_le_pow_right (by decide) small)
  have amount : k.toNat % 64 = k.toNat := Nat.mod_eq_of_lt (by omega)
  rw [UInt64.toNat_shiftLeft, UInt8.toNat_toUInt64, amount, Nat.shiftLeft_eq, Nat.mod_eq_of_lt fits]

/-- Two bytes joined by shifts are the big-endian number. -/
theorem toNat_join16 (b0 b1 : UInt8) : (b0.toUInt16 <<< 8 ||| b1.toUInt16).toNat = ofBE [b0, b1] := by
  have h0 := b0.toNat_lt
  have h1 := b1.toNat_lt
  have amount : UInt16.toNat 8 % 16 = 8 := rfl
  simp only [UInt16.toNat_or, UInt16.toNat_shiftLeft, UInt8.toNat_toUInt16]
  rw [amount, Nat.mod_eq_of_lt (by rw [Nat.shiftLeft_eq]; omega), shiftLeft_or _ (by omega)]
  simp only [ofBE, List.reverse_cons, List.reverse_nil, List.nil_append, List.cons_append, ofLE]
  omega

/-- Eight bytes joined by shifts are the big-endian number. -/
theorem toNat_join64 (b0 b1 b2 b3 b4 b5 b6 b7 : UInt8) :
    (b0.toUInt64 <<< 56 ||| b1.toUInt64 <<< 48 ||| b2.toUInt64 <<< 40 ||| b3.toUInt64 <<< 32 |||
      b4.toUInt64 <<< 24 ||| b5.toUInt64 <<< 16 ||| b6.toUInt64 <<< 8 ||| b7.toUInt64).toNat =
    ofBE [b0, b1, b2, b3, b4, b5, b6, b7] := by
  have h0 := b0.toNat_lt
  have h1 := b1.toNat_lt
  have h2 := b2.toNat_lt
  have h3 := b3.toNat_lt
  have h4 := b4.toNat_lt
  have h5 := b5.toNat_lt
  have h6 := b6.toNat_lt
  have h7 := b7.toNat_lt
  simp only [UInt64.toNat_or, Nat.or_assoc, UInt8.toNat_toUInt64]
  rw [toNat_shifted _ _ (by decide), toNat_shifted _ _ (by decide), toNat_shifted _ _ (by decide),
    toNat_shifted _ _ (by decide), toNat_shifted _ _ (by decide), toNat_shifted _ _ (by decide),
    toNat_shifted _ _ (by decide)]
  simp only [UInt64.reduceToNat]
  -- from the last byte on, so that each shift finds room for what is behind it
  rw [shiftLeft_or b6.toNat (by omega), shiftLeft_or b5.toNat (by omega), shiftLeft_or b4.toNat (by omega),
    shiftLeft_or b3.toNat (by omega), shiftLeft_or b2.toNat (by omega), shiftLeft_or b1.toNat (by omega),
    shiftLeft_or b0.toNat (by omega)]
  simp only [ofBE, List.reverse_cons, List.reverse_nil, List.nil_append, List.cons_append, ofLE]
  omega

/-- One byte of a word. -/
theorem byte_of_word64 (value k : UInt64) (small : k.toNat < 64) :
    (value >>> k &&& 0xFF).toUInt8 = UInt8.ofNat (value.toNat / 2 ^ k.toNat) := by
  apply UInt8.toNat_inj.mp
  have mask : UInt64.toNat 0xFF = 2 ^ 8 - 1 := rfl
  rw [UInt64.toNat_toUInt8, UInt64.toNat_and, mask, Nat.and_two_pow_sub_one_eq_mod, UInt64.toNat_shiftRight,
    Nat.mod_eq_of_lt small, Nat.shiftRight_eq_div_pow, Nat.mod_mod]
  simp

theorem byte_of_word16 (value k : UInt16) (small : k.toNat < 16) :
    (value >>> k &&& 0xFF).toUInt8 = UInt8.ofNat (value.toNat / 2 ^ k.toNat) := by
  apply UInt8.toNat_inj.mp
  have mask : UInt16.toNat 0xFF = 2 ^ 8 - 1 := rfl
  rw [UInt16.toNat_toUInt8, UInt16.toNat_and, mask, Nat.and_two_pow_sub_one_eq_mod, UInt16.toNat_shiftRight,
    Nat.mod_eq_of_lt small, Nat.shiftRight_eq_div_pow, Nat.mod_mod]
  simp

/-- The bytes of a word are its big-endian digits. -/
theorem split64 (value : UInt64) :
    [(value >>> 56 &&& 0xFF).toUInt8, (value >>> 48 &&& 0xFF).toUInt8, (value >>> 40 &&& 0xFF).toUInt8,
      (value >>> 32 &&& 0xFF).toUInt8, (value >>> 24 &&& 0xFF).toUInt8, (value >>> 16 &&& 0xFF).toUInt8,
      (value >>> 8 &&& 0xFF).toUInt8, (value &&& 0xFF).toUInt8] = toBE 8 value.toNat := by
  have last : (value &&& 0xFF).toUInt8 = UInt8.ofNat value.toNat := by
    simpa using byte_of_word64 value 0 (by decide)
  rw [byte_of_word64 _ _ (by decide), byte_of_word64 _ _ (by decide), byte_of_word64 _ _ (by decide),
    byte_of_word64 _ _ (by decide), byte_of_word64 _ _ (by decide), byte_of_word64 _ _ (by decide),
    byte_of_word64 _ _ (by decide), last]
  simp [toBE, toLE, Nat.div_div_eq_div_mul]

theorem split16 (value : UInt16) :
    [(value >>> 8 &&& 0xFF).toUInt8, (value &&& 0xFF).toUInt8] = toBE 2 value.toNat := by
  have last : (value &&& 0xFF).toUInt8 = UInt8.ofNat value.toNat := by
    simpa using byte_of_word16 value 0 (by decide)
  rw [byte_of_word16 _ _ (by decide), last]
  simp [toBE, toLE]

end Words

/-- `copyMem` into a buffer, `none` where it would leave the source or the buffer. -/
def copyMem (buf : Bytes) (offset : Nat) (source : Bytes) (size : Nat) : Option Bytes :=
  if size ≤ source.length ∧ offset + size ≤ buf.length then
    some (buf.take offset ++ source.take size ++ buf.drop (offset + size))
  else none

/-- A buffer of some size, new but for what was written at its front. -/
def filled (size : Nat) (written : Bytes) : Bytes := written ++ List.replicate (size - written.length) 0

section Buffers
variable {size : Nat} {written : Bytes}

theorem filled_whole (full : written.length = size) : filled size written = written := by
  simp [filled, full]

/-- The next byte is written behind the others. -/
theorem filled_set {offset : Nat} (here : written.length = offset) (room : offset < size) (b : UInt8) :
    (filled size written).set offset b = filled size (written ++ [b]) := by
  subst here
  obtain ⟨left, rest⟩ : ∃ left, size - written.length = left + 1 := ⟨size - written.length - 1, by omega⟩
  have less : size - (written ++ [b]).length = left := by
    rw [List.length_append, List.length_singleton]
    omega
  rw [filled, filled, less, rest, List.set_append_right _ _ (le_refl _), Nat.sub_self, List.replicate_succ,
    List.set_cons_zero, List.append_assoc, List.singleton_append]

/-- The next field is copied behind the others. -/
theorem filled_copyMem {source : Bytes} {offset k : Nat} (here : written.length = offset)
    (long : k ≤ source.length) (room : offset + k ≤ size) :
    copyMem (filled size written) offset source k = some (filled size (written ++ source.take k)) := by
  subst here
  have whole : (filled size written).length = size := by
    simp [filled]
    omega
  have left : size - (written ++ source.take k).length = size - written.length - k := by
    rw [List.length_append, List.length_take, Nat.min_eq_left long, Nat.sub_sub]
  rw [copyMem, if_pos ⟨long, by omega⟩, filled, filled, List.take_left, ← List.drop_drop, List.drop_left,
    List.drop_replicate, left]

end Buffers
end Bytes
