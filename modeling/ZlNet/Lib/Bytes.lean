import Mathlib.Algebra.Order.Ring.Int
import Mathlib.Data.List.Basic

/-! Words as bytes in memory, with the highest byte first or last: words of 32 bits, and words of any
number of bytes as numbers. -/

namespace ZlNet.Lib.Bytes

inductive Endian
  | little | big
  deriving DecidableEq, Repr

/-- The bytes of a word, highest first. -/
def be32 (w : UInt32) : List UInt8 :=
  [.ofNat (w.toNat / 2 ^ 24), .ofNat (w.toNat / 2 ^ 16), .ofNat (w.toNat / 2 ^ 8), .ofNat w.toNat]

/-- The word with these bytes, highest first, if there are four of them. -/
def ofBe32 : List UInt8 → UInt32
  | [a, b, c, d] => .ofNat (a.toNat * 2 ^ 24 + b.toNat * 2 ^ 16 + c.toNat * 2 ^ 8 + d.toNat)
  | _ => 0

/-- The word with the bytes of `w` in the opposite order. -/
def swap32 (w : UInt32) : UInt32 := ofBe32 (be32 w).reverse

/-- How a machine stores a word. -/
def store32 : Endian → UInt32 → List UInt8
  | .little, w => (be32 w).reverse
  | .big, w => be32 w

/-- How a machine reads a word. -/
def load32 : Endian → List UInt8 → UInt32
  | .little, bytes => ofBe32 bytes.reverse
  | .big, bytes => ofBe32 bytes

@[simp] theorem be32_length (w : UInt32) : (be32 w).length = 4 := rfl

@[simp] theorem ofBe32_be32 (w : UInt32) : ofBe32 (be32 w) = w := by
  have := w.toNat_lt
  apply UInt32.toNat_inj.mp
  simp only [ofBe32, be32, UInt8.toNat_ofNat', UInt32.toNat_ofNat']
  omega

theorem be32_ofBe32 {bytes : List UInt8} (h : bytes.length = 4) : be32 (ofBe32 bytes) = bytes := by
  obtain ⟨a, b, c, d, rfl⟩ : ∃ a b c d, bytes = [a, b, c, d] := by
    match bytes, h with
    | [a, b, c, d], _ => exact ⟨a, b, c, d, rfl⟩
  have ha := a.toNat_lt
  have hb := b.toNat_lt
  have hc := c.toNat_lt
  have hd := d.toNat_lt
  simp only [be32, ofBe32, UInt32.toNat_ofNat', List.cons.injEq, and_true]
  refine ⟨?_, ?_, ?_, ?_⟩
  all_goals
    apply UInt8.toNat_inj.mp
    rw [UInt8.toNat_ofNat']
    omega

theorem store32_swap32 (w : UInt32) : store32 .little (swap32 w) = be32 w := by
  show (be32 (ofBe32 (be32 w).reverse)).reverse = be32 w
  rw [be32_ofBe32 (by simp), List.reverse_reverse]

theorem swap32_load32 {bytes : List UInt8} (h : bytes.length = 4) :
    swap32 (load32 .little bytes) = ofBe32 bytes := by
  show ofBe32 (be32 (ofBe32 bytes.reverse)).reverse = ofBe32 bytes
  rw [be32_ofBe32 (by simpa using h), List.reverse_reverse]

/-! ### Words of any size -/

/-- The `n` low bytes of `w`, highest first. -/
def toBe : (n w : Nat) → List UInt8
  | 0, _ => []
  | n + 1, w => .ofNat (w / 256 ^ n) :: toBe n w

/-- The number with these bytes, highest first. -/
def ofBe : List UInt8 → Nat
  | [] => 0
  | b :: bytes => b.toNat * 256 ^ bytes.length + ofBe bytes

/-- The word of `n` bytes with the bytes of `w` in the opposite order. -/
def swap (n w : Nat) : Nat := ofBe (toBe n w).reverse

/-- How a machine stores a word of `n` bytes. -/
def store (host : Endian) (n w : Nat) : List UInt8 :=
  match host with
  | .little => (toBe n w).reverse
  | .big => toBe n w

/-- How a machine reads a word. -/
def load (host : Endian) (bytes : List UInt8) : Nat :=
  match host with
  | .little => ofBe bytes.reverse
  | .big => ofBe bytes

@[simp] theorem toBe_length (n w : Nat) : (toBe n w).length = n := by
  induction n with
  | zero => rfl
  | succ n ih => simp [toBe, ih]

theorem ofBe_lt (bytes : List UInt8) : ofBe bytes < 256 ^ bytes.length := by
  induction bytes with
  | nil => simp [ofBe]
  | cons b bytes ih =>
    have hb : b.toNat + 1 ≤ 256 := b.toNat_lt
    calc b.toNat * 256 ^ bytes.length + ofBe bytes
        < b.toNat * 256 ^ bytes.length + 256 ^ bytes.length := Nat.add_lt_add_left ih _
      _ = (b.toNat + 1) * 256 ^ bytes.length := by rw [Nat.add_mul, Nat.one_mul]
      _ ≤ 256 * 256 ^ bytes.length := Nat.mul_le_mul_right _ hb
      _ = 256 ^ (b :: bytes).length := by rw [List.length_cons, Nat.pow_succ, Nat.mul_comm]

theorem ofBe_toBe_mod (n w : Nat) : ofBe (toBe n w) = w % 256 ^ n := by
  induction n with
  | zero => simp [toBe, ofBe, Nat.mod_one]
  | succ n ih =>
    have hmod := Nat.mod_mul (x := w) (a := 256 ^ n) (b := 256)
    simp only [toBe, ofBe, toBe_length, UInt8.toNat_ofNat', ih, Nat.pow_succ]
    rw [hmod, Nat.mul_comm (256 ^ n), Nat.add_comm]

theorem ofBe_toBe {n w : Nat} (h : w < 256 ^ n) : ofBe (toBe n w) = w := by
  rw [ofBe_toBe_mod, Nat.mod_eq_of_lt h]

theorem toBe_add_mul (n w k : Nat) : toBe n (k * 256 ^ n + w) = toBe n w := by
  induction n generalizing k with
  | zero => rfl
  | succ n ih =>
    have hk : k * 256 ^ (n + 1) = 256 ^ n * (k * 256) := by
      rw [Nat.pow_succ, Nat.mul_left_comm]
    have hdiv : (k * 256 ^ (n + 1) + w) / 256 ^ n = k * 256 + w / 256 ^ n := by
      rw [hk, Nat.mul_add_div (Nat.pow_pos (by decide))]
    have hhead : UInt8.ofNat ((k * 256 ^ (n + 1) + w) / 256 ^ n) = .ofNat (w / 256 ^ n) := by
      apply UInt8.toNat_inj.mp
      rw [hdiv, UInt8.toNat_ofNat', UInt8.toNat_ofNat', Nat.mul_add_mod_self_right]
    rw [toBe, toBe, hhead, hk, Nat.mul_comm, ih]

theorem toBe_ofBe (bytes : List UInt8) : toBe bytes.length (ofBe bytes) = bytes := by
  induction bytes with
  | nil => rfl
  | cons b bytes ih =>
    have hdiv : (b.toNat * 256 ^ bytes.length + ofBe bytes) / 256 ^ bytes.length = b.toNat := by
      rw [Nat.mul_comm, Nat.mul_add_div (Nat.pow_pos (by decide)),
        Nat.div_eq_of_lt (ofBe_lt bytes), Nat.add_zero]
    simp only [List.length_cons, toBe, ofBe]
    rw [hdiv, toBe_add_mul, ih, UInt8.ofNat_toNat]

/-- A word is stored in network order once it is swapped. -/
theorem store_swap (n w : Nat) : store .little n (swap n w) = toBe n w := by
  have h := toBe_ofBe (toBe n w).reverse
  rw [List.length_reverse, toBe_length] at h
  show (toBe n (ofBe (toBe n w).reverse)).reverse = toBe n w
  rw [h, List.reverse_reverse]

theorem swap_load {n : Nat} {bytes : List UInt8} (h : bytes.length = n) :
    swap n (load .little bytes) = ofBe bytes := by
  have hbytes := toBe_ofBe bytes.reverse
  rw [List.length_reverse, h] at hbytes
  show ofBe (toBe n (ofBe bytes.reverse)).reverse = ofBe bytes
  rw [hbytes, List.reverse_reverse]

end ZlNet.Lib.Bytes
