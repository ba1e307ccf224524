import ZlNet.Network.BufferWriter
import ZlNet.Network.RingBuffer

/-! The growth of the buffers.  `CRingBuffer`, `Buffer` and `StackBuffer` double their capacity, plus
one, until it is what is asked for.  From the same capacity, with the same request, they make the
same doublings. -/

namespace ZlNet.Network

open Lib.Word

variable {request k w : Nat}

theorem CRingBuffer.ensure_grows {r : CRingBuffer} (h : Grows request k r.capacity w)
    (hk : k ≤ 32) : r.ensure request = if k = 0 then .ok r else r.resize w := by
  cases h with
  | stop henough => simp [ensure, henough]
  | next hsmall hrest =>
    have hloop : growLoop request 33 r.capacity = some w :=
      (Grows.next hsmall hrest).growLoop_eq (by omega)
    simp [ensure, Nat.not_le.mpr hsmall, hloop]

theorem Buffer.ensure_grows {b : Buffer} (h : Grows request k b.capacity w) (hk : k ≤ 32) :
    b.ensure request = .ok { b with capacity := w } := by
  obtain ⟨content, v⟩ := b
  change Grows request k v w at h
  cases h with
  | stop henough => simp [ensure, henough]
  | next hsmall hrest =>
    have hloop : growLoop request 33 v = some w :=
      (Grows.next hsmall hrest).growLoop_eq (by omega)
    simp [ensure, Nat.not_le.mpr hsmall, hloop]

/-- The first doubling is made before the loop. -/
theorem StackBuffer.ensure_grows {b : StackBuffer} (h : Grows request k b.capacity w)
    (hk : k ≤ 32) : b.ensure request = .ok { b with capacity := w } := by
  obtain ⟨content, v⟩ := b
  change Grows request k v w at h
  cases h with
  | stop henough => simp [ensure, henough]
  | next hsmall hrest =>
    have hloop : growLoop request 33 (add32 (add32 v v) 1) = some w := hrest.growLoop_eq (by omega)
    simp [ensure, Nat.not_le.mpr hsmall, hloop]

/-- For every capacity and every request of 32 bits, the three growth loops stop after at most 33
doublings, with a capacity that is enough, and that is larger than it was if there was a doubling. -/
theorem growth_terminates {capacity : Nat} (hcapacity : capacity < 2 ^ 32)
    (hrequest : request < 2 ^ 32) :
    ∃ k w, k ≤ 33 ∧ Grows request k capacity w ∧ request ≤ w ∧ w < 2 ^ 32 ∧
      (0 < k → capacity < w) ∧
      (∀ r : CRingBuffer, r.capacity = capacity →
        r.ensure request = if k = 0 then .ok r else r.resize w) ∧
      (∀ b : Buffer, b.capacity = capacity → b.ensure request = .ok { b with capacity := w }) ∧
      ∀ b : StackBuffer, b.capacity = capacity →
        b.ensure request = .ok { b with capacity := w } := by
  obtain ⟨k, w, hk, hgrows⟩ := exists_grows_word hrequest hcapacity
  have hlarger : 0 < k → capacity < w := fun hpos => by
    have henough := hgrows.enough
    cases hgrows with
    | stop => omega
    | next hsmall => omega
  refine ⟨k, w, by omega, hgrows, hgrows.enough, hgrows.word hcapacity, hlarger, ?_, ?_, ?_⟩
  · rintro r rfl
    exact CRingBuffer.ensure_grows hgrows hk
  · rintro b rfl
    exact Buffer.ensure_grows hgrows hk
  · rintro b rfl
    exact StackBuffer.ensure_grows hgrows hk

/-- From a capacity with the highest bit set the first doublings wrap, to `1`, `3` and so on. -/
theorem growth_terminates_wraps : ∃ k w, k ≤ 33 ∧ Grows 0xffffffff k 0x80000000 w ∧
    0xffffffff ≤ w ∧ StackBuffer.ensure ⟨[], 0x80000000⟩ 0xffffffff = .ok ⟨[], w⟩ := by
  obtain ⟨k, w, hk, hgrows, henough, -, -, -, -, hstack⟩ :=
    growth_terminates (show 0x80000000 < 2 ^ 32 by decide) (show 0xffffffff < 2 ^ 32 by decide)
  exact ⟨k, w, hk, hgrows, henough, hstack _ rfl⟩

end ZlNet.Network
