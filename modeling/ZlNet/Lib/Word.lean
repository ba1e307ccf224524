import Mathlib.Algebra.Order.Ring.Int
import Mathlib.Tactic.Ring

/-! Arithmetic of 32-bit machine integers on `Nat` and `Int`: sums and differences wrap modulo
`2^32`, and a signed integer is an `Int` in the range of the two's complement.  A capacity that is
doubled, plus one, until it is large enough stops growing after at most 32 doublings, even where a
doubling wraps. -/

namespace ZlNet.Lib.Word

/-- `a + b` as unsigned 32-bit integers. -/
def add32 (a b : Nat) : Nat := (a + b) % 2 ^ 32

/-- `a - b` as unsigned 32-bit integers. -/
def sub32 (a b : Nat) : Nat := (a + (2 ^ 32 - b % 2 ^ 32)) % 2 ^ 32

/-- The signed 32-bit integer with the bits of `n`. -/
def toInt32 (n : Nat) : Int := (n : Int).bmod (2 ^ 32)

/-- The unsigned 32-bit integer with the bits of `z`. -/
def ofInt32 (z : Int) : Nat := (z % 2 ^ 32).toNat

/-- `while (newcapacity < capacity) newcapacity = (newcapacity << 1) + 1`, for at most `fuel`
tests of the condition. -/
def growLoop (capacity : Nat) : (fuel newcapacity : Nat) → Option Nat
  | 0, _ => none
  | fuel + 1, newcapacity =>
    if newcapacity < capacity then
      growLoop capacity fuel (add32 (add32 newcapacity newcapacity) 1)
    else some newcapacity

theorem add32_eq {a b : Nat} (h : a + b < 2 ^ 32) : add32 a b = a + b :=
  Nat.mod_eq_of_lt h

theorem sub32_eq {a b : Nat} (h : b ≤ a) (ha : a < 2 ^ 32) : sub32 a b = a - b := by
  unfold sub32
  omega

theorem toInt32_eq {n : Nat} (h : n < 2 ^ 31) : toInt32 n = n := by
  unfold toInt32
  rw [Int.bmod_def]
  omega

@[simp] theorem toInt32_zero : toInt32 0 = 0 := rfl

theorem ofInt32_natCast {n : Nat} (h : n < 2 ^ 32) : ofInt32 n = n := by
  unfold ofInt32
  omega

theorem toInt32_le (n : Nat) : toInt32 n ≤ n := by
  unfold toInt32
  rw [Int.bmod_def]
  omega

theorem ofInt32_toInt32 {n : Nat} (h : n < 2 ^ 32) : ofInt32 (toInt32 n) = n := by
  unfold ofInt32 toInt32
  rw [Int.bmod_def]
  omega

/-- One more doubling sets one more of the low bits. -/
theorem double_low_bits {k v : Nat} (hk : k < 32) (h : v % 2 ^ k = 2 ^ k - 1) :
    add32 (add32 v v) 1 % 2 ^ (k + 1) = 2 ^ (k + 1) - 1 := by
  have hdvd : 2 ^ (k + 1) ∣ 2 ^ 32 := Nat.pow_dvd_pow 2 hk
  have hpos := Nat.two_pow_pos k
  have hodd : (2 * v + 1) % 2 ^ (k + 1) = 2 * (v % 2 ^ k) + 1 := by
    rw [Nat.pow_succ, Nat.mul_comm _ 2, Nat.add_mod, Nat.mul_mod_mul_left,
      Nat.mod_eq_of_lt (a := 1) (by omega), Nat.mod_eq_of_lt]
    have := Nat.mod_lt v hpos
    omega
  unfold add32
  rw [Nat.mod_add_mod, Nat.mod_mod_of_dvd _ hdvd, ← Nat.two_mul, hodd, h, Nat.pow_succ]
  omega

/-- From `v` the loop makes `k` doublings to `w`, the first of the values that is not below
`capacity`. -/
inductive Grows (capacity : Nat) : (k v w : Nat) → Prop
  | stop {v : Nat} (henough : capacity ≤ v) : Grows capacity 0 v v
  | next {k v w : Nat} (hsmall : v < capacity)
      (hrest : Grows capacity k (add32 (add32 v v) 1) w) : Grows capacity (k + 1) v w

theorem Grows.enough {capacity k v w : Nat} (h : Grows capacity k v w) : capacity ≤ w := by
  induction h with
  | stop henough => exact henough
  | next _ _ ih => exact ih

theorem Grows.word {capacity k v w : Nat} (h : Grows capacity k v w) (hv : v < 2 ^ 32) :
    w < 2 ^ 32 := by
  induction h with
  | stop => exact hv
  | next _ _ ih => exact ih (Nat.mod_lt _ (by decide))

/-- More fuel than doublings is enough. -/
theorem Grows.growLoop_eq {capacity k v w fuel : Nat} (h : Grows capacity k v w)
    (hfuel : k < fuel) : growLoop capacity fuel v = some w := by
  induction h generalizing fuel with
  | stop henough =>
    obtain ⟨fuel, rfl⟩ := Nat.exists_eq_add_of_lt hfuel
    simp [growLoop, Nat.not_lt.mpr henough]
  | next hsmall _ ih =>
    cases fuel with
    | zero => omega
    | succ fuel =>
      simp only [growLoop, hsmall, ite_true]
      exact ih (by omega)

/-- After `k` doublings the `k` low bits are set, so at most 32 doublings are made. -/
theorem exists_grows {capacity : Nat} (hcap : capacity < 2 ^ 32) (left k v : Nat)
    (hleft : left + k = 32) (hv : v < 2 ^ 32) (hbits : v % 2 ^ k = 2 ^ k - 1) :
    ∃ n w, n ≤ left ∧ Grows capacity n v w := by
  by_cases hlt : v < capacity
  case neg => exact ⟨0, v, Nat.zero_le _, .stop (by omega)⟩
  induction left generalizing k v with
  | zero =>
    obtain rfl : k = 32 := by omega
    rw [Nat.mod_eq_of_lt hv] at hbits
    omega
  | succ left ih =>
    have hbits' := double_low_bits (by omega) hbits
    have hv' : add32 (add32 v v) 1 < 2 ^ 32 := Nat.mod_lt _ (by decide)
    by_cases hlt' : add32 (add32 v v) 1 < capacity
    · obtain ⟨n, w, hn, hrest⟩ := ih (k + 1) _ (by omega) hv' hbits' hlt'
      exact ⟨n + 1, w, by omega, .next hlt hrest⟩
    · exact ⟨1, _, by omega, .next hlt (.stop (by omega))⟩

/-- The loop stops from every value, after at most 32 doublings. -/
theorem exists_grows_word {capacity v : Nat} (hcap : capacity < 2 ^ 32) (hv : v < 2 ^ 32) :
    ∃ n w, n ≤ 32 ∧ Grows capacity n v w :=
  exists_grows hcap 32 0 v rfl hv (by simp [Nat.mod_one])

theorem double_eq {v : Nat} (h : v < 2 ^ 31) : add32 (add32 v v) 1 = 2 * v + 1 := by
  unfold add32
  omega

/-- Doublings that stay below `2^31` do not wrap. -/
theorem Grows.closed {capacity k v w : Nat} (h : Grows capacity k v w) (hw : w < 2 ^ 31) :
    w + 1 = 2 ^ k * (v + 1) := by
  induction h with
  | stop => rw [Nat.pow_zero, Nat.one_mul]
  | @next k v w hsmall hrest ih =>
    have henough := hrest.enough
    calc
      w + 1 = 2 ^ k * (add32 (add32 v v) 1 + 1) := ih hw
      _ = 2 ^ k * (2 * (v + 1)) := by rw [double_eq (by omega)]; ring
      _ = 2 ^ (k + 1) * (v + 1) := by ring

/-- The loop stops below `2^31` if that is where some number of doublings gets far enough. -/
theorem Grows.small_iff {capacity k v w : Nat} (h : Grows capacity k v w) :
    w < 2 ^ 31 ↔ ∃ n, capacity < 2 ^ n * (v + 1) ∧ 2 ^ n * (v + 1) ≤ 2 ^ 31 := by
  constructor
  · intro hw
    have henough := h.enough
    exact ⟨k, by rw [← h.closed hw]; omega, by rw [← h.closed hw]; omega⟩
  rintro ⟨n, hreach, hsmall⟩
  induction h generalizing n with
  | @stop v _ =>
    have hpos := Nat.two_pow_pos n
    have hle := Nat.le_mul_of_pos_left (v + 1) hpos
    omega
  | @next k v w hlt hrest ih =>
    cases n with
    | zero => omega
    | succ n =>
      have hdouble : 2 ^ (n + 1) * (v + 1) = 2 ^ n * (2 * (v + 1)) := by ring
      have hle := Nat.le_mul_of_pos_left (2 * (v + 1)) (Nat.two_pow_pos n)
      rw [hdouble] at hreach hsmall
      refine ih n ?_ ?_
      · rw [double_eq (by omega)]
        exact hreach
      · rw [double_eq (by omega)]
        exact hsmall

/-- Where the loop stops, it is at the value that it began with or below double of what it asks
for. -/
theorem growLoop_le {capacity fuel v w : Nat} (hcap : capacity ≤ 2 ^ 31)
    (h : growLoop capacity fuel v = some w) : w ≤ max v (2 * capacity) := by
  induction fuel generalizing v with
  | zero => cases h
  | succ fuel ih =>
    unfold growLoop at h
    split at h
    · next hlt =>
      have hle := ih h
      rw [double_eq (by omega)] at hle
      omega
    · obtain rfl := Option.some.inj h
      exact Nat.le_max_left _ _

theorem growLoop_reaches {capacity : Nat} (hcap : capacity < 2 ^ 32) (fuel k v : Nat)
    (hfuel : fuel + k = 33) (hv : v < 2 ^ 32) (hbits : v % 2 ^ k = 2 ^ k - 1) :
    ∃ newcapacity, growLoop capacity fuel v = some newcapacity ∧ capacity ≤ newcapacity ∧
      newcapacity < 2 ^ 32 := by
  obtain ⟨fuel, rfl⟩ : ∃ left, fuel = left + 1 := ⟨fuel - 1, by
    by_contra hne
    obtain rfl : k = 33 := by omega
    rw [Nat.mod_eq_of_lt (by omega)] at hbits
    omega⟩
  obtain ⟨n, w, hn, hgrows⟩ := exists_grows hcap fuel k v (by omega) hv hbits
  exact ⟨w, hgrows.growLoop_eq (by omega), hgrows.enough, hgrows.word hv⟩

end ZlNet.Lib.Word
