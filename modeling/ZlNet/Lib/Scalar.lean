import Mathlib.Order.Lattice
import Mathlib.Algebra.Order.Ring.Int

/-! Machine integers of some number of bytes, signed or not: a type, its order, and the bits of its
values as a number. -/

namespace ZlNet.Lib

structure Scalar where
  T : Type
  size : Nat
  bits : T → Nat
  ofBits : Nat → T
  order : LinearOrder T
  zero : Inhabited T
  size_pos : 0 < size
  size_le : size ≤ 8
  bits_lt : ∀ x, bits x < 256 ^ size
  ofBits_bits : ∀ x, ofBits (bits x) = x

namespace Scalar

instance (s : Scalar) : LinearOrder s.T := s.order
instance (s : Scalar) : Inhabited s.T := s.zero

@[reducible] def uint8 : Scalar where
  T := UInt8
  size := 1
  bits := UInt8.toNat
  ofBits := .ofNat
  order := LinearOrder.lift' UInt8.toNat fun _ _ => UInt8.toNat_inj.mp
  zero := ⟨0⟩
  size_pos := by decide
  size_le := by decide
  bits_lt := UInt8.toNat_lt
  ofBits_bits _ := UInt8.ofNat_toNat

@[reducible] def uint16 : Scalar where
  T := UInt16
  size := 2
  bits := UInt16.toNat
  ofBits := .ofNat
  order := LinearOrder.lift' UInt16.toNat fun _ _ => UInt16.toNat_inj.mp
  zero := ⟨0⟩
  size_pos := by decide
  size_le := by decide
  bits_lt := UInt16.toNat_lt
  ofBits_bits _ := UInt16.ofNat_toNat

@[reducible] def uint32 : Scalar where
  T := UInt32
  size := 4
  bits := UInt32.toNat
  ofBits := .ofNat
  order := LinearOrder.lift' UInt32.toNat fun _ _ => UInt32.toNat_inj.mp
  zero := ⟨0⟩
  size_pos := by decide
  size_le := by decide
  bits_lt := UInt32.toNat_lt
  ofBits_bits _ := UInt32.ofNat_toNat

@[reducible] def uint64 : Scalar where
  T := UInt64
  size := 8
  bits := UInt64.toNat
  ofBits := .ofNat
  order := LinearOrder.lift' UInt64.toNat fun _ _ => UInt64.toNat_inj.mp
  zero := ⟨0⟩
  size_pos := by decide
  size_le := by decide
  bits_lt := UInt64.toNat_lt
  ofBits_bits _ := UInt64.ofNat_toNat

@[reducible] def int8 : Scalar where
  T := Int8
  size := 1
  bits x := x.toUInt8.toNat
  ofBits n := (UInt8.ofNat n).toInt8
  order := LinearOrder.lift' Int8.toInt fun _ _ => Int8.toInt_inj.mp
  zero := ⟨0⟩
  size_pos := by decide
  size_le := by decide
  bits_lt x := x.toUInt8.toNat_lt
  ofBits_bits x := by rw [UInt8.ofNat_toNat, Int8.toInt8_toUInt8]

@[reducible] def int16 : Scalar where
  T := Int16
  size := 2
  bits x := x.toUInt16.toNat
  ofBits n := (UInt16.ofNat n).toInt16
  order := LinearOrder.lift' Int16.toInt fun _ _ => Int16.toInt_inj.mp
  zero := ⟨0⟩
  size_pos := by decide
  size_le := by decide
  bits_lt x := x.toUInt16.toNat_lt
  ofBits_bits x := by rw [UInt16.ofNat_toNat, Int16.toInt16_toUInt16]

@[reducible] def int32 : Scalar where
  T := Int32
  size := 4
  bits x := x.toUInt32.toNat
  ofBits n := (UInt32.ofNat n).toInt32
  order := LinearOrder.lift' Int32.toInt fun _ _ => Int32.toInt_inj.mp
  zero := ⟨0⟩
  size_pos := by decide
  size_le := by decide
  bits_lt x := x.toUInt32.toNat_lt
  ofBits_bits x := by rw [UInt32.ofNat_toNat, Int32.toInt32_toUInt32]

@[reducible] def int64 : Scalar where
  T := Int64
  size := 8
  bits x := x.toUInt64.toNat
  ofBits n := (UInt64.ofNat n).toInt64
  order := LinearOrder.lift' Int64.toInt fun _ _ => Int64.toInt_inj.mp
  zero := ⟨0⟩
  size_pos := by decide
  size_le := by decide
  bits_lt x := x.toUInt64.toNat_lt
  ofBits_bits x := by rw [UInt64.ofNat_toNat, Int64.toInt64_toUInt64]

end Scalar

end ZlNet.Lib
