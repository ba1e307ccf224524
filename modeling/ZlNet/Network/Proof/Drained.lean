import ZlNet.Network.Proof.RingUse

/-! What a ring buffer keeps of its storage when it is emptied.  `read` shrinks a large buffer that it
empties.  `readConfirm`, by which what `getReadableVec` shows is taken out, does not. -/

namespace ZlNet.Network.CRingBuffer

open Lib Lib.Word

variable {r r' : CRingBuffer} {q : List UInt8} {n : Nat}

/-- If the buffer is empty now, its capacity is at most `BOUND_SIZE`, and what it was if it was that
before. -/
def GivesBack (r r' : CRingBuffer) : Prop :=
  r'.size = 0 → r'.capacity ≤ BOUND_SIZE ∧ (r.capacity ≤ BOUND_SIZE → r'.capacity = r.capacity)

/-- Taking `n` bytes out with `read` and with `readConfirm` gives memory back, and leaves the same
buffer, with whatever segments `getReadableVec` has shown. -/
structure ConsumesAlike (r : CRingBuffer) (n : Nat) : Prop where
  read : ∃ bytes r', r.read n = .ok (bytes, r') ∧ r.GivesBack r'
  readConfirm : ∃ r', r.readConfirm n = .ok r' ∧ r.GivesBack r'
  same : ∃ bytes r', r.read n = .ok (bytes, r') ∧ r.getReadableVec.readConfirm n =
    .ok { r' with readerv := r.getReadableVec.readerv }

/-- The buffer is large, and all of it is taken out. -/
def EmptiesLarge (r : CRingBuffer) (n : Nat) : Prop := n = r.size ∧ BOUND_SIZE < r.capacity

theorem tryshrink_givesBack {s : CRingBuffer} (h : Holds s q) (hsize : s.size = 0)
    (hcap : s.capacity = r.capacity) : ∃ s', s.tryshrink = .ok s' ∧ r.GivesBack s' := by
  by_cases hlarge : BOUND_SIZE < s.capacity
  · have hq : q.length = 0 := by rw [← h.size_eq, hsize]
    obtain ⟨s', hs', -, hcap'⟩ := resize_holds h (by rw [hq]; decide : q.length < SHRINK_SIZE)
      (by decide)
    refine ⟨s', by simp [tryshrink, hsize, hlarge, hs'], fun _ => ⟨?_, ?_⟩⟩
    · rw [hcap']
      decide
    · omega
  · exact ⟨s, by simp [tryshrink, hsize, hlarge], fun _ => ⟨by omega, fun _ => hcap⟩⟩

/-- The segments that were shown play no part in what is taken out. -/
theorem readConfirm_readerv (v : SBufferVec × SBufferVec) : { r with readerv := v }.readConfirm n =
    (do let r' ← r.readConfirm n; return { r' with readerv := v }) := by
  unfold CRingBuffer.readConfirm require
  dsimp only
  split_ifs <;> rfl

theorem getReadableVec_eq (r : CRingBuffer) :
    r.getReadableVec = { r with readerv := r.getReadableVec.readerv } := by
  unfold getReadableVec
  split_ifs <;> rfl

theorem read_givesBack (h : Holds r q) (hpos : 0 < n) (hn : n ≤ r.size) :
    ∃ bytes r', r.read n = .ok (bytes, r') ∧ r.GivesBack r' := by
  obtain ⟨front, hl, -, hread⟩ := consume_eq h hpos (h.size_eq ▸ hn)
  have hp := popped_holds h (h.size_eq ▸ hn) hl
  rw [hread]
  split
  · next hempty =>
    obtain ⟨s, hs, hgives⟩ := tryshrink_givesBack hp hempty rfl
    exact ⟨_, s, by rw [hs]; rfl, hgives⟩
  · next hsome => exact ⟨_, _, rfl, fun hempty => absurd hempty hsome⟩

theorem consumesAlike_iff (h : Holds r q) (hpos : 0 < n) (hn : n ≤ r.size) :
    r.ConsumesAlike n ↔ ¬r.EmptiesLarge n := by
  obtain ⟨front, hl, hconfirm, hread⟩ := consume_eq h hpos (h.size_eq ▸ hn)
  have hbound := h.bound
  have hle := h.size_le
  have hsize := h.size_eq
  have hleft : sub32 r.size n = r.size - n := sub32_eq hn (by omega)
  constructor
  · rintro ⟨-, ⟨r', hr', hgives⟩, -⟩ ⟨hall, hlarge⟩
    obtain rfl := Except.ok.inj (hconfirm.symm.trans hr')
    have hempty : sub32 r.size n = 0 := by omega
    exact absurd hlarge (Nat.not_lt.mpr (hgives hempty).1)
  intro hother
  refine ⟨read_givesBack h hpos hn, ⟨_, hconfirm, fun hempty => ?_⟩, ?_⟩
  · have hempty : sub32 r.size n = 0 := hempty
    have hsmall : ¬BOUND_SIZE < r.capacity := fun hlarge => hother ⟨by omega, hlarge⟩
    exact ⟨Nat.le_of_not_lt hsmall, fun _ => rfl⟩
  -- what `read` ends with changes nothing
  have hread : r.read n = .ok (q.take n, { r with front, size := sub32 r.size n }) := by
    rw [hread]
    split
    · next hempty =>
      have hsmall : ¬BOUND_SIZE < r.capacity := fun hlarge => hother ⟨by omega, hlarge⟩
      simp [tryshrink, hempty, hsmall]
    · rfl
  refine ⟨_, _, hread, ?_⟩
  rw [getReadableVec_eq, readConfirm_readerv, hconfirm]
  rfl

/-- In every state that uses lead to, `read` and `readConfirm` take bytes out alike and give memory
back, except where they empty a buffer of more than `BOUND_SIZE` bytes. -/
theorem consumes_alike_iff {capacity : Nat} {ops : List RingOp} (hcap : 0 < capacity)
    (hlt : capacity < 2 ^ 32) (run : Run Use (new capacity) ops r) (hpos : 0 < n)
    (hn : n ≤ r.size) : r.ConsumesAlike n ↔ ¬r.EmptiesLarge n := by
  obtain ⟨q, h⟩ := used_holds hcap hlt run
  exact consumesAlike_iff h hpos hn

/-- Of a small buffer both take all there is out alike. -/
theorem consumes_alike_iff_small : ∃ (ops : List RingOp) (r : CRingBuffer),
    Run Use (new 4) ops r ∧ r.size = 2 ∧ r.ConsumesAlike 2 := by
  have hwrite : (new 4).write [1, 2] =
      .ok ⟨4, 0, 2, 2, [1, 2, 0, 0], (.clear, .clear), (.clear, .clear)⟩ := rfl
  have run : Run Use (new 4) [.write [1, 2]] _ := .single (.write (by decide) hwrite)
  exact ⟨_, _, run, rfl, (consumes_alike_iff (by decide) (by decide) run (by decide)
    (by decide)).mpr fun hlarge => absurd hlarge.2 (by decide)⟩

/-- A buffer that has grown to take `BOUND_SIZE + 1` bytes keeps that much storage when all of them
are taken out with `readConfirm`. -/
theorem readConfirm_keeps_storage : ∃ (ops : List RingOp) (r r' : CRingBuffer),
    Run Use (new 1024) ops r ∧ r.readConfirm (BOUND_SIZE + 1) = .ok r' ∧ r'.size = 0 ∧
      BOUND_SIZE < r'.capacity ∧ ¬r.ConsumesAlike (BOUND_SIZE + 1) := by
  let bytes : List UInt8 := List.replicate (BOUND_SIZE + 1) 0
  have hlen : bytes.length = BOUND_SIZE + 1 := List.length_replicate
  have hnew := new_holds (show 0 < 1024 by decide) (by decide)
  have hne : bytes ≠ [] := List.ne_nil_of_length_pos (by rw [hlen]; exact Nat.succ_pos _)
  obtain ⟨r, hr, h⟩ := write_holds hnew hne (by rw [hlen]; decide)
  have hsize : r.size = BOUND_SIZE + 1 := h.size_eq.trans hlen
  have hcap : BOUND_SIZE + 1 ≤ r.capacity := hlen ▸ h.size_le
  have hpos : 0 < BOUND_SIZE + 1 := Nat.succ_pos _
  obtain ⟨front, -, hconfirm, -⟩ := consume_eq h hpos (Nat.le_of_eq hlen.symm)
  refine ⟨[.write bytes], r, _, .single (.write ?_ hr), hconfirm, ?_, hcap, ?_⟩
  · rw [hlen]
    decide
  · simp only [hsize]
    decide
  · rw [consumesAlike_iff h hpos (Nat.le_of_eq hsize.symm), not_not]
    exact ⟨hsize.symm, hcap⟩

end ZlNet.Network.CRingBuffer
