import ZlNet.Network.Buffer

/-! What `StackBuffer` and `BufferWriter` do at the end of their content and inside it, for sizes
below `2^32`. -/

namespace ZlNet.Network

open Lib.Word Lib.Bytes Lib.Block

namespace StackBuffer

variable {b : StackBuffer} {pos n : Nat}

theorem ensure_eq (b : StackBuffer) (h : n < 2 ^ 32) :
    ∃ capacity, b.ensure n = .ok { b with capacity } := by
  by_cases hle : n ≤ b.capacity
  · exact ⟨b.capacity, by simp [ensure, hle]⟩
  · obtain ⟨c, hc, -⟩ := growLoop_reaches h 33 0 (add32 (add32 b.capacity b.capacity) 1) rfl
      (Nat.mod_lt _ (by decide)) (by simp [Nat.mod_one])
    exact ⟨c, by simp [ensure, hle, hc]⟩

theorem writePtr_eq (pos n : Nat) (hpos : pos ≤ b.size) (hfit : pos + n < 2 ^ 32) :
    ∃ capacity, b.writePtr pos n =
      .ok (some pos, ⟨b.content ++ List.replicate (pos + n - b.size) 0, capacity⟩) := by
  obtain ⟨c, hc⟩ := ensure_eq b hfit
  have hnot : ¬b.size < pos := by omega
  refine ⟨c, ?_⟩
  simp only [writePtr, hnot, ite_false, add32_eq hfit, hc, ok_bind, extend]
  rfl

/-- An empty buffer makes room from its start on. -/
theorem writePtr_empty (hempty : b.content = []) (hfit : n < 2 ^ 32) :
    ∃ capacity, b.writePtr 0 n = .ok (some 0, ⟨List.replicate n 0, capacity⟩) := by
  obtain ⟨c, hc⟩ := writePtr_eq (b := b) 0 n (Nat.zero_le _) (by omega)
  have hroom : 0 + n - b.size = n := by simp [size, hempty]
  rw [hroom, hempty, List.nil_append] at hc
  exact ⟨c, hc⟩

theorem write_end (data : List UInt8) (hfit : b.size + data.length < 2 ^ 32) :
    ∃ capacity, b.write b.size data = .ok ⟨b.content ++ data, capacity⟩ := by
  obtain ⟨c, hc⟩ := ensure_eq b hfit
  have hstore := store_replicate 0 b.content data (Nat.le_refl _)
  rw [Nat.sub_self, List.replicate_zero, List.append_nil] at hstore
  have hroom : b.size + data.length - b.content.length = data.length :=
    Nat.add_sub_cancel_left b.content.length data.length
  refine ⟨c, ?_⟩
  simp only [write, Nat.le_refl, require_of_true, ok_bind, add32_eq hfit, hc, extend]
  change (copyIn (b.content ++ List.replicate (b.size + data.length - b.content.length) 0)
    b.content.length data >>= _) = _
  rw [hroom, copyIn_eq hstore]
  rfl

theorem readPtr_of_le (h : pos + n ≤ b.size) (hfit : pos + n < 2 ^ 32) :
    b.readPtr pos n = some pos := by
  simp only [readPtr, add32_eq hfit, Nat.not_lt.mpr h, ite_false]

theorem readPtr_of_lt (h : b.size < pos + n) (hfit : pos + n < 2 ^ 32) :
    b.readPtr pos n = none := by
  simp only [readPtr, add32_eq hfit, h, ite_true]

theorem read_all (h : b.size < 2 ^ 32) : b.read 0 b.size = .ok b.content := by
  have hload : load b.content 0 b.size = some b.content :=
    load_middle [] b.content [] (by simp) rfl rfl
  have hsum : add32 0 b.size = b.size := by
    rw [add32_eq (by omega), Nat.zero_add]
  simp only [read, hsum, Nat.le_refl, require_of_true, ok_bind]
  exact copyOut_eq hload

end StackBuffer

namespace BufferWriter

/-- The writer has written everything in its buffer. -/
def AtEnd (w : BufferWriter) : Prop := w.pos = w.buf.size

variable {w : BufferWriter}

theorem writeBytes_end {bytes : List UInt8} (h : w.AtEnd) (hfit : w.pos + bytes.length < 2 ^ 32) :
    ∃ w', w.writeBytes bytes = .ok w' ∧ w'.buf.content = w.buf.content ++ bytes ∧ w'.AtEnd := by
  unfold AtEnd at h
  obtain ⟨c, hc⟩ := StackBuffer.write_end (b := w.buf) bytes (h ▸ hfit)
  refine ⟨⟨⟨w.buf.content ++ bytes, c⟩, w.pos + bytes.length⟩, ?_, rfl, ?_⟩
  · simp only [writeBytes, h, hc, ok_bind]
    rw [add32_eq (h ▸ hfit)]
    rfl
  · simp [AtEnd, StackBuffer.size, h]

theorem writeInt32_end (host : Endian) (value : Int32) (h : w.AtEnd) (hfit : w.pos + 4 < 2 ^ 32) :
    ∃ w', w.writeInt32 host value = .ok w' ∧
      w'.buf.content = w.buf.content ++ be32 value.toUInt32 ∧ w'.AtEnd := by
  unfold AtEnd at h
  obtain ⟨c, hc⟩ := StackBuffer.writePtr_eq w.pos 4 (Nat.le_of_eq h) hfit
  have hstore := store_replicate (0 : UInt8) w.buf.content (be32 value.toUInt32) (Nat.le_refl _)
  rw [be32_length, Nat.sub_self, List.replicate_zero, List.append_nil] at hstore
  have hroom : w.pos + 4 - w.buf.size = 4 := by omega
  refine ⟨⟨⟨w.buf.content ++ be32 value.toUInt32, c⟩, w.pos + 4⟩, ?_, rfl, ?_⟩
  · simp only [writeInt32, hc, ok_bind, deref, store32_hostToNetwork32, hroom]
    have hsize : w.pos = w.buf.content.length := h
    rw [hsize, copyIn_eq hstore, ← hsize, add32_eq hfit]
    rfl
  · simp [AtEnd, StackBuffer.size, h]

end BufferWriter

end ZlNet.Network
