import Mathlib.Data.List.Nodup
import Mathlib.Data.Nat.ModEq
import ZlNet.Network.Proof.RingUse

/-! The free storage of a ring buffer, as `getWriteableVec` offers it.  The segments are the first of
the bytes that `write` would fill.  Where the free bytes go round the end of the storage, the last of
them, the one before the front, is left out. -/

namespace ZlNet.Network

/-- The offsets of the bytes of a segment. -/
def SBufferVec.offsets (v : SBufferVec) : List Nat :=
  match v.buff with
  | some off => List.range' off v.len.toNat
  | none => []

namespace CRingBuffer

open Lib Lib.Word Lib.Block Lib.Circular

variable {r s : CRingBuffer} {q bytes : List UInt8} {n : Nat}

/-- The offsets of the offered bytes, in the order of the segments. -/
def offered (r : CRingBuffer) : List Nat := r.writerv.1.offsets ++ r.writerv.2.offsets

/-- The offsets of the `n` bytes from `off` on, going round the end of the storage. -/
def around (r : CRingBuffer) (off n : Nat) : List Nat :=
  (List.range n).map fun i => (off + i) % r.capacity

/-- The offsets of the bytes of the content. -/
def unread (r : CRingBuffer) : List Nat := r.around r.front r.size

/-- The segments that `s` offers are free bytes of `r`, each of them once, in the order in which they
are written to, and they are as many as `r` says.  To fill and commit them is to write. -/
structure OffersAll (r s : CRingBuffer) : Prop where
  disjoint : s.offered.Nodup
  inside : ∀ i ∈ s.offered, i < r.buff.length
  free : ∀ i ∈ s.offered, i ∉ r.unread
  ordered : s.offered = r.around r.end_ s.offered.length
  total : s.offeredBytes = r.writableBytes
  commits : ∀ bytes : List UInt8, bytes ≠ [] → bytes.length = r.writableBytes →
    (do let t ← s.scatter bytes; t.writeConfirm bytes.length) = s.write bytes

/-! ### Offsets that go round the storage -/

theorem mem_around {off i : Nat} : i ∈ r.around off n ↔ ∃ k < n, (off + k) % r.capacity = i := by
  simp [around]

/-- Going round the storage at most once does not come to a byte again. -/
theorem around_inj {off i j : Nat} (hi : i < r.capacity) (hj : j < r.capacity)
    (heq : (off + i) % r.capacity = (off + j) % r.capacity) : i = j := by
  have hmod : i ≡ j [MOD r.capacity] := Nat.ModEq.add_left_cancel' off heq
  exact hmod.eq_of_lt_of_lt hi hj

theorem around_nodup {off : Nat} (hn : n ≤ r.capacity) : (r.around off n).Nodup := by
  refine List.Nodup.map_on ?_ List.nodup_range
  intro i hi j hj heq
  have hi := List.mem_range.mp hi
  have hj := List.mem_range.mp hj
  exact around_inj (by omega) (by omega) heq

/-- The bytes after the end, as many as fit, are not unread. -/
theorem around_free (h : Holds r q) {i : Nat} (hn : r.size + n ≤ r.capacity)
    (hi : i ∈ r.around r.end_ n) : i ∉ r.unread := by
  intro hunread
  obtain ⟨k, hk, rfl⟩ := mem_around.mp hi
  obtain ⟨j, hj, heq⟩ := mem_around.mp hunread
  rw [← h.end_eq, Nat.mod_add_mod, Nat.add_assoc] at heq
  have hsame := around_inj (by omega) (by omega) heq
  omega

theorem around_append {off m : Nat} :
    r.around off (m + n) = r.around off m ++ r.around (off + m) n := by
  simp [around, List.range_add, Nat.add_assoc]

/-- Bytes that do not reach the end of the storage. -/
theorem around_direct {off : Nat} (hfit : off + n ≤ r.capacity) :
    r.around off n = List.range' off n := by
  rw [around, List.range'_eq_map_range]
  refine List.map_congr_left fun i hi => Nat.mod_eq_of_lt ?_
  have hi := List.mem_range.mp hi
  omega

theorem around_start (hfit : n ≤ r.capacity) : r.around r.capacity n = List.range' 0 n := by
  have hzero : r.around 0 n = List.range' 0 n := around_direct (by omega)
  rw [← hzero, around, around]
  refine List.map_congr_left fun i _ => ?_
  rw [Nat.add_mod_left, Nat.zero_add]

/-! ### The segments -/

/-- The offered bytes are the first free ones. -/
theorem offered_eq (h : Holds r q) (hw : r.writerv = r.freeSegments) :
    r.offered = r.around r.end_ r.freeBytes.length := by
  have hlen := h.capacity_eq
  have hfront := h.front_lt
  have hend := h.end_lt
  rcases free_cases h with ⟨-, hseg, hfree⟩ | ⟨-, hle, hseg, hfree⟩ | ⟨hlt, hseg, hfree⟩
  · simp [offered, hw, hseg, hfree, SBufferVec.offsets, SBufferVec.clear, around]
  · have hbefore : SBufferVec.offsets ⟨if 1 < r.front then some 0 else none,
        (r.front - 1 : Nat)⟩ = List.range' 0 (r.front - 1) := by
      by_cases hone : 1 < r.front
      · simp [SBufferVec.offsets, hone]
      · simp [SBufferVec.offsets, hone, show r.front - 1 = 0 by omega]
    have hcount : r.freeBytes.length = (r.capacity - r.end_) + (r.front - 1) := by
      simp [hfree]
      omega
    rw [offered, hw, hseg, hbefore, hcount, around_append, around_direct (by omega),
      Nat.add_sub_cancel' (by omega), around_start (by omega)]
    rfl
  · have hcount : r.freeBytes.length = r.front - r.end_ := by
      simp [hfree]
      omega
    rw [offered, hw, hseg, hcount, around_direct (by omega)]
    simp [SBufferVec.offsets, SBufferVec.clear]

/-- The bytes offered fit, and there is one more if it is before the front and after the end. -/
theorem freeBytes_size (h : Holds r q) : r.freeBytes.length + r.size ≤ r.capacity ∧
    (r.freeBytes.length + r.size = r.capacity ↔
      r.size = r.capacity ∨ r.end_ < r.front ∨ r.front = 0) := by
  have hlen := h.capacity_eq
  have hfront := h.front_lt
  have hend := h.end_lt
  have hsize := h.size_eq
  rcases free_cases h with ⟨hfull, -, hfree⟩ | ⟨hroom, hle, -, hfree⟩ | ⟨hlt, -, hfree⟩
  · simp [hfree, hfull]
  · have hqlen := h.layout.length_of_room hle (by omega)
    have hcount : r.freeBytes.length = (r.capacity - r.end_) + (r.front - 1) := by
      simp [hfree]
      omega
    omega
  · have hqlen := h.layout.length_of_gap hlt
    have hcount : r.freeBytes.length = r.front - r.end_ := by
      simp [hfree]
      omega
    omega

/-! ### Committing what was stored -/

/-- No storage is added for bytes that are free. -/
theorem ensure_free (h : Holds r q) (hfit : bytes.length + r.size ≤ r.capacity) :
    add32 r.size bytes.length = r.size + bytes.length ∧
      r.ensure (r.size + bytes.length) = .ok r := by
  have hbound := h.bound
  exact ⟨add32_eq (by omega), by simp [ensure, show r.size + bytes.length ≤ r.capacity by omega]⟩

theorem scatter_ends_write (h : Holds r q) (hne : bytes ≠ [])
    (hw : r.writerv = (⟨some r.end_, (r.capacity - r.end_ : Nat)⟩,
      ⟨if 1 < r.front then some 0 else none, (r.front - 1 : Nat)⟩))
    (hroom : q.length < r.capacity) (hle : r.front ≤ r.end_)
    (hfit : bytes.length ≤ r.capacity - r.end_ + (r.front - 1)) :
    (do let t ← r.scatter bytes; t.writeConfirm bytes.length) = r.write bytes := by
  have hlen := h.capacity_eq
  have hend := h.end_lt
  have hbound := h.bound
  have hsize := h.size_eq
  have hpos := List.length_pos_of_ne_nil hne
  have hqlen := h.layout.length_of_room hle (by omega)
  obtain ⟨h1, h2⟩ := Prod.ext_iff.mp hw
  obtain ⟨hadd, hensure⟩ := ensure_free h (show bytes.length + r.size ≤ r.capacity by omega)
  have hassert : 0 < bytes.length ∧ r.size + bytes.length ≤ r.capacity := ⟨hpos, by omega⟩
  have hempty : r.end_ = r.front → r.size = 0 := fun _ => by omega
  have hcount : sub32 r.capacity r.end_ = r.capacity - r.end_ := sub32_eq (by omega) hbound
  have hnz : r.size + bytes.length ≠ 0 := by omega
  by_cases hin : bytes.length < r.capacity - r.end_
  · have hall : bytes.take (r.capacity - r.end_) = bytes := List.take_of_length_le (by omega)
    have hnone : bytes.drop (r.capacity - r.end_) = [] := List.drop_of_length_le (by omega)
    obtain ⟨buff, hbuff⟩ := exists_store (show r.end_ + bytes.length ≤ r.buff.length by omega)
    have hsecond : scatter1 buff
        ⟨if 1 < r.front then some 0 else none, (r.front - 1 : Nat)⟩ [] = .ok buff :=
      scatter1_before (Nat.zero_le _) (store_nil (Nat.zero_le _))
    have hfirst : scatter1 r.buff ⟨some r.end_, (r.capacity - r.end_ : Nat)⟩ bytes = .ok buff :=
      copyIn_eq hbuff
    have hscatter : r.scatter bytes = .ok { r with buff } := by
      simp only [scatter, h1, h2, Int.toNat_natCast, hall, hnone, hfirst, hsecond, ok_bind]
      rfl
    simp only [hscatter, writeConfirm, write, hadd, hensure, require_of_true hassert,
      require_of_true hpos, require_of_true hempty, hle, hcount, hin, hnz, copyIn_eq hbuff,
      ite_true, ite_false, ok_bind, pure_bind]
  · have hrest : (bytes.drop (r.capacity - r.end_)).take
        (bytes.length - (r.capacity - r.end_)) = bytes.drop (r.capacity - r.end_) :=
      List.take_of_length_le (by simp)
    have hremain : sub32 bytes.length (r.capacity - r.end_) =
        bytes.length - (r.capacity - r.end_) := sub32_eq (by omega) (by omega)
    obtain ⟨buff1, hbuff1⟩ := exists_store
      (show r.end_ + (bytes.take (r.capacity - r.end_)).length ≤ r.buff.length by simp; omega)
    have hlen1 := store_length hbuff1
    obtain ⟨buff2, hbuff2⟩ := exists_store
      (show 0 + (bytes.drop (r.capacity - r.end_)).length ≤ buff1.length by simp; omega)
    have hsecond := scatter1_before (show (bytes.drop (r.capacity - r.end_)).length ≤
      r.front - 1 by simp; omega) hbuff2
    have hfirst : scatter1 r.buff ⟨some r.end_, (r.capacity - r.end_ : Nat)⟩
        (bytes.take (r.capacity - r.end_)) = .ok buff1 := copyIn_eq hbuff1
    have hscatter : r.scatter bytes = .ok { r with buff := buff2 } := by
      simp only [scatter, h1, h2, Int.toNat_natCast, hfirst, hsecond, ok_bind]
      rfl
    simp only [hscatter, writeConfirm, write, hadd, hensure, require_of_true hassert,
      require_of_true hpos, require_of_true hempty, hle, hcount, hin, hnz, hremain, hrest,
      copyIn_eq hbuff1, copyIn_eq hbuff2, ite_true, ite_false, ok_bind, pure_bind]

theorem scatter_gap_write (h : Holds r q) (hne : bytes ≠ [])
    (hw : r.writerv = (⟨some r.end_, (r.front - r.end_ : Nat)⟩, .clear)) (hlt : r.end_ < r.front)
    (hfit : bytes.length ≤ r.front - r.end_) :
    (do let t ← r.scatter bytes; t.writeConfirm bytes.length) = r.write bytes := by
  have hlen := h.capacity_eq
  have hfront := h.front_lt
  have hbound := h.bound
  have hsize := h.size_eq
  have hpos := List.length_pos_of_ne_nil hne
  have hqlen := h.layout.length_of_gap hlt
  obtain ⟨h1, h2⟩ := Prod.ext_iff.mp hw
  obtain ⟨hadd, hensure⟩ := ensure_free h (show bytes.length + r.size ≤ r.capacity by omega)
  have hassert : 0 < bytes.length ∧ r.size + bytes.length ≤ r.capacity := ⟨hpos, by omega⟩
  have hempty : r.end_ = r.front → r.size = 0 := fun heq => by omega
  have hnz : r.size + bytes.length ≠ 0 := by omega
  have hall : bytes.take (r.front - r.end_) = bytes := List.take_of_length_le hfit
  have hnone : bytes.drop (r.front - r.end_) = [] := List.drop_of_length_le hfit
  obtain ⟨buff, hbuff⟩ := exists_store (show r.end_ + bytes.length ≤ r.buff.length by omega)
  have hscatter : r.scatter bytes = .ok { r with buff } := by
    simp only [scatter, h1, h2, Int.toNat_natCast, hall, hnone]
    simp [scatter1, copyIn_eq hbuff, SBufferVec.clear]
  simp only [hscatter, writeConfirm, write, hadd, hensure, require_of_true hassert,
    require_of_true hpos, require_of_true hempty, Nat.not_le.mpr hlt, hnz, copyIn_eq hbuff,
    ite_false, ok_bind, pure_bind]

/-- To store bytes in the segments and commit them is to write them. -/
theorem scatter_write (h : Holds r q) (hw : r.writerv = r.freeSegments) (hne : bytes ≠ [])
    (hfit : bytes.length ≤ r.freeBytes.length) :
    (do let t ← r.scatter bytes; t.writeConfirm bytes.length) = r.write bytes := by
  have hlen := h.capacity_eq
  have hpos := List.length_pos_of_ne_nil hne
  rcases free_cases h with ⟨-, -, hfree⟩ | ⟨hroom, hle, hseg, hfree⟩ | ⟨hlt, hseg, hfree⟩
  · rw [hfree, List.length_nil] at hfit
    omega
  · refine scatter_ends_write h hne (hw.trans hseg) hroom hle ?_
    simp [hfree] at hfit
    omega
  · refine scatter_gap_write h hne (hw.trans hseg) hlt ?_
    simp [hfree] at hfit
    omega

/-- All that is free is offered, unless the byte before the front and one after the end are free. -/
theorem offersAll_iff (h : Holds r q) :
    r.OffersAll { r with writerv := r.freeSegments } ↔
      r.size = r.capacity ∨ r.end_ < r.front ∨ r.front = 0 := by
  have hs : Holds { r with writerv := r.freeSegments } q := h.segments _ _
  have hoffered : offered { r with writerv := r.freeSegments } = r.around r.end_ r.freeBytes.length :=
    offered_eq hs rfl
  have hcount : (r.freeBytes.length : Int) = offeredBytes { r with writerv := r.freeSegments } :=
    freeBytes_length hs rfl
  obtain ⟨hfit, hall⟩ := freeBytes_size h
  have hfree : r.writableBytes = r.capacity - r.size :=
    sub32_eq (h.size_eq ▸ h.size_le) h.bound
  rw [← hall]
  constructor
  · intro hoffers
    have htotal := hoffers.total
    rw [hfree] at htotal
    omega
  intro hfull
  have hlength : (offered { r with writerv := r.freeSegments }).length = r.freeBytes.length := by
    rw [hoffered]
    simp [around]
  refine ⟨?_, ?_, ?_, ?_, by omega, fun bytes hne hbytes => ?_⟩
  · rw [hoffered]
    exact around_nodup (by omega)
  · intro i hi
    rw [hoffered] at hi
    obtain ⟨k, -, rfl⟩ := mem_around.mp hi
    rw [← h.capacity_eq]
    exact Nat.mod_lt _ (Nat.zero_lt_of_lt h.front_lt)
  · intro i hi
    rw [hoffered] at hi
    exact around_free h (by omega) hi
  · rw [hlength, hoffered]
  · exact scatter_write hs rfl hne (show bytes.length ≤ r.freeBytes.length by omega)

/-- In every state that uses lead to, `getWriteableVec` offers all free bytes, in the order in which
`write` fills them, if the buffer is full, if the free bytes do not go round the end of the storage, or
if there are none before the front. -/
theorem offers_all_iff {capacity : Nat} {ops : List RingOp} (hpos : 0 < capacity)
    (hlt : capacity < 2 ^ 32) (run : Run Use (new capacity) ops r) (hcap : r.capacity < 2 ^ 31) :
    ∃ s, r.getWriteableVec = .ok s ∧
      (r.OffersAll s ↔ r.size = r.capacity ∨ r.end_ < r.front ∨ r.front = 0) := by
  obtain ⟨q, h⟩ := used_holds hpos hlt run
  exact ⟨_, getWriteableVec_eq h hcap, offersAll_iff h⟩

/-- The content goes round the end of three bytes of storage, and the free byte is offered. -/
theorem offers_all_iff_around : ∃ (ops : List RingOp) (r s : CRingBuffer),
    Run Use (new 3) ops r ∧ r.end_ = 0 ∧ r.front = 1 ∧ r.getWriteableVec = .ok s ∧
      r.OffersAll s := by
  have hwritten := Run.single (show Use (new 3) (.write [1, 2])
    ⟨3, 0, 2, 2, [1, 2, 0], (.clear, .clear), (.clear, .clear)⟩ from .write (by decide) rfl)
  have hread := hwritten.snoc (show Use _ (.readConfirm 1)
    ⟨3, 1, 2, 1, [1, 2, 0], (.clear, .clear), (.clear, .clear)⟩ from .readConfirm rfl)
  have run := hread.snoc (show Use _ (.write [3])
    ⟨3, 1, 0, 2, [1, 2, 3], (.clear, .clear), (.clear, .clear)⟩ from .write (by decide) rfl)
  obtain ⟨s, hs, hoffers⟩ := offers_all_iff (by decide) (by decide) run (by decide)
  exact ⟨_, _, s, run, rfl, rfl, hs, hoffers.mpr (by decide)⟩

/-- Of two free bytes, one at the end of the storage and one at its start, the first is offered. -/
theorem offers_one_of_two : ∃ (ops : List RingOp) (r s : CRingBuffer),
    Run Use (new 3) ops r ∧ r.capacity < 2 ^ 31 ∧ r.getWriteableVec = .ok s ∧
      r.writableBytes = 2 ∧ s.offered = [2] ∧ ¬r.OffersAll s := by
  have hwritten := Run.single (show Use (new 3) (.write [1, 2])
    ⟨3, 0, 2, 2, [1, 2, 0], (.clear, .clear), (.clear, .clear)⟩ from .write (by decide) rfl)
  have run := hwritten.snoc (show Use _ (.readConfirm 1)
    ⟨3, 1, 2, 1, [1, 2, 0], (.clear, .clear), (.clear, .clear)⟩ from .readConfirm rfl)
  refine ⟨_, _, ⟨3, 1, 2, 1, [1, 2, 0], (⟨some 2, 1⟩, ⟨none, 0⟩), (.clear, .clear)⟩,
    run, by decide, rfl, rfl, rfl, fun hoffers => ?_⟩
  exact absurd hoffers.total (by decide)

end CRingBuffer

end ZlNet.Network
