import WordMachine.Word

/-! # Words as numbers

The operations on words as operations on natural numbers below `0x10000`. A reduction modulo
`0x8000` is the only one that loses anything, and a pair of bytes is a word in exactly one way.
-/
namespace WordMachine

@[simp] theorem toNat_modulus : modulus.toNat = 0x8000 := rfl

theorem lt_modulus_iff (w : Word) : w < modulus ↔ w.toNat < 0x8000 := by
  rw [UInt16.lt_iff_toNat_lt, toNat_modulus]

theorem toNat_mod_modulus (w : Word) : (w % modulus).toNat = w.toNat % 0x8000 := by
  rw [UInt16.toNat_mod, toNat_modulus]

theorem mod_modulus_lt (w : Word) : (w % modulus).toNat < 0x8000 := by
  rw [toNat_mod_modulus]
  omega

theorem wrap_lt (value : UInt32) : (wrap value).toNat < 0x8000 := by
  rw [toNat_wrap]
  omega

theorem toNat_wrap_add (x y : Word) :
    (wrap (x.toUInt32 + y.toUInt32)).toNat = (x.toNat + y.toNat) % 0x8000 := by
  have hx := x.toNat_lt
  have hy := y.toNat_lt
  rw [toNat_wrap, UInt32.toNat_add, UInt16.toNat_toUInt32, UInt16.toNat_toUInt32]
  omega

theorem toNat_wrap_mul (x y : Word) :
    (wrap (x.toUInt32 * y.toUInt32)).toNat = x.toNat * y.toNat % 0x8000 := by
  have hlt : x.toNat * y.toNat < 2 ^ 32 :=
    calc x.toNat * y.toNat < 2 ^ 16 * 2 ^ 16 := Nat.mul_lt_mul'' x.toNat_lt y.toNat_lt
      _ = 2 ^ 32 := rfl
  rw [toNat_wrap, UInt32.toNat_mul, UInt16.toNat_toUInt32, UInt16.toNat_toUInt32,
    Nat.mod_eq_of_lt hlt]

theorem toNat_not_mod_modulus (w : Word) :
    (~~~w % modulus).toNat = 0x7fff - w.toNat % 0x8000 := by
  have hw := w.toNat_lt
  rw [toNat_mod_modulus, UInt16.toNat_not]
  simp
  omega

/-- A byte is a word that is reduced already. -/
theorem toUInt16_mod_modulus (byte : UInt8) : byte.toUInt16 % modulus = .ofNat byte.toNat := by
  have hbyte := byte.toNat_lt
  rw [← UInt16.toNat_inj, toNat_mod_modulus, UInt8.toNat_toUInt16, UInt16.toNat_ofNat']
  omega

/-- A word that is not zero is not the default of a missing one. -/
theorem eq_some_of_getD_zero {found : Option Word} {w : Word} (h : found.getD 0 = w) (hw : w ≠ 0) :
    found = some w := by
  cases found with
  | none => exact absurd h.symm hw
  | some v => exact congrArg some h

/-! ## Pairs of bytes -/

theorem toNat_wordOfBytes (low high : UInt8) :
    (wordOfBytes low high).toNat = low.toNat + 256 * high.toNat := by
  have hlow := low.toNat_lt
  have hhigh := high.toNat_lt
  have hshift : (high.toUInt16 <<< 8).toNat = high.toNat <<< 8 := by
    rw [UInt16.toNat_shiftLeft]
    simp [Nat.shiftLeft_eq]
    omega
  rw [wordOfBytes, UInt16.toNat_or, hshift, UInt8.toNat_toUInt16, Nat.or_comm,
    ← Nat.shiftLeft_add_eq_or_of_lt (by simpa using hlow), Nat.shiftLeft_eq]
  omega

theorem bytesOfWord_wordOfBytes (low high : UInt8) :
    bytesOfWord (wordOfBytes low high) = [low, high] := by
  have hlow := low.toNat_lt
  have hhigh := high.toNat_lt
  have h := toNat_wordOfBytes low high
  have hfirst : (wordOfBytes low high).toUInt8 = low := by
    rw [← UInt8.toNat_inj, UInt16.toNat_toUInt8, h]
    omega
  have hsecond : (wordOfBytes low high >>> 8).toUInt8 = high := by
    rw [← UInt8.toNat_inj, UInt16.toNat_toUInt8, UInt16.toNat_shiftRight, h]
    simp [Nat.shiftRight_eq_div_pow]
    omega
  rw [bytesOfWord, hfirst, hsecond]

theorem wordOfBytes_bytesOfWord (w : Word) : wordOfBytes w.toUInt8 (w >>> 8).toUInt8 = w := by
  have hw := w.toNat_lt
  rw [← UInt16.toNat_inj, toNat_wordOfBytes, UInt16.toNat_toUInt8, UInt16.toNat_toUInt8,
    UInt16.toNat_shiftRight]
  simp [Nat.shiftRight_eq_div_pow]
  omega

end WordMachine
