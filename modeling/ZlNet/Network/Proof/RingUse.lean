import ZlNet.Network.Proof.RingRun

/-! Uses of a ring buffer that only keep to what its operations assert, whatever its capacity.  Its
indices are those of a queue in its storage after every one of them. -/

namespace ZlNet.Network.CRingBuffer

open Lib Lib.Word Lib.Block Lib.Circular

variable {r r' : CRingBuffer} {q bytes : List UInt8} {n : Nat}

/-- One use of a ring buffer, by an operation that returns.  Sizes do not pass 32 bits, and what the
caller stores in the segments stays in the storage. -/
inductive Use (r : CRingBuffer) : RingOp → CRingBuffer → Prop
  | write {r' : CRingBuffer} {bytes : List UInt8} (hfit : r.size + bytes.length < 2 ^ 32)
      (hwrite : r.write bytes = .ok r') : Use r (.write bytes) r'
  | read {r' : CRingBuffer} {n : Nat} {bytes : List UInt8} (hread : r.read n = .ok (bytes, r')) :
      Use r (.read n) r'
  | look {n : Nat} {bytes : List UInt8} (hlook : r.look n = .ok bytes) : Use r (.look n) r
  | getWriteableVec {r' : CRingBuffer} (hoffer : r.getWriteableVec = .ok r') :
      Use r .getWriteableVec r'
  | scatter {r' : CRingBuffer} {bytes : List UInt8} (hscatter : r.scatter bytes = .ok r') :
      Use r (.scatter bytes) r'
  | writeConfirm {r' : CRingBuffer} {n : Nat} (hfit : r.size + n < 2 ^ 32)
      (hconfirm : r.writeConfirm n = .ok r') : Use r (.writeConfirm n) r'
  | getReadableVec : Use r .getReadableVec r.getReadableVec
  | readConfirm {r' : CRingBuffer} {n : Nat} (hconfirm : r.readConfirm n = .ok r') :
      Use r (.readConfirm n) r'
  | clear : Use r .clear r.clear
  | tryshrink {r' : CRingBuffer} (hshrink : r.tryshrink = .ok r') : Use r .tryshrink r'

/-- The indices of a ring buffer alone tell whether it holds something. -/
theorem exists_holds (hfront : r.front < r.capacity) (hsize : r.size ≤ r.capacity)
    (hend : (r.front + r.size) % r.capacity = r.end_) (hlen : r.capacity = r.buff.length)
    (hbound : r.capacity < 2 ^ 32) : ∃ q, Holds r q := by
  rw [hlen] at hfront hsize hend
  obtain ⟨q, hq, hl⟩ := Layout.exists_of_length hfront hsize
  exact ⟨q, hend ▸ hl, hlen, hq.symm, hbound⟩

theorem scatter1_length {mem mem' : List UInt8} {v : SBufferVec}
    (hscatter : scatter1 mem v bytes = .ok mem') : mem'.length = mem.length := by
  unfold scatter1 at hscatter
  split at hscatter
  · unfold copyIn at hscatter
    split at hscatter
    · next hstore =>
      cases hscatter
      exact store_length hstore
    · cases hscatter
  · split at hscatter
    · cases hscatter
      rfl
    · cases hscatter

/-- What is stored in the segments may be any bytes. -/
theorem scatter_usable (h : Holds r q) (hscatter : r.scatter bytes = .ok r') :
    ∃ q', Holds r' q' := by
  obtain ⟨buff1, hfirst, hscatter⟩ := of_bind_ok hscatter
  obtain ⟨buff2, hsecond, hr'⟩ := of_bind_ok hscatter
  obtain rfl := Except.ok.inj hr'
  have hlen : buff2.length = r.buff.length :=
    (scatter1_length hsecond).trans (scatter1_length hfirst)
  exact exists_holds h.front_lt (h.size_eq ▸ h.size_le) h.end_eq (h.capacity_eq.trans hlen.symm)
    h.bound

/-- The bytes of the free storage that are made part of the content may be any. -/
theorem writeConfirm_usable (h : Holds r q) (hfit : r.size + n < 2 ^ 32)
    (hconfirm : r.writeConfirm n = .ok r') : ∃ q', Holds r' q' := by
  obtain ⟨_, hassert, hr'⟩ := of_bind_ok hconfirm
  obtain ⟨hpos, hroom⟩ := of_require hassert
  obtain rfl := Except.ok.inj hr'
  rw [add32_eq hfit] at hroom
  have hfront := h.front_lt
  have hend := h.end_eq
  have hlt := h.end_lt
  have hbound := h.bound
  have hadd : add32 r.size n = r.size + n := add32_eq hfit
  refine exists_holds hfront (by simpa [hadd] using hroom) ?_ h.capacity_eq hbound
  simp only [hadd]
  -- the end before the operation has gone round the storage, or not
  rcases Nat.lt_or_ge (r.front + r.size) r.capacity with hin | hout
  · rw [Nat.mod_eq_of_lt hin] at hend
    have hcount : sub32 r.capacity r.end_ = r.capacity - r.end_ := sub32_eq (by omega) hbound
    rw [if_pos (by omega), hcount]
    split
    · rw [add32_eq (by omega), Nat.mod_eq_of_lt (by omega)]
      omega
    · rw [sub32_eq (by omega) (by omega), Nat.mod_eq_sub_mod (by omega),
        Nat.mod_eq_of_lt (by omega)]
      omega
  · rw [Nat.mod_eq_sub_mod hout, Nat.mod_eq_of_lt (by omega)] at hend
    rw [if_neg (by omega), add32_eq (by omega), Nat.mod_eq_sub_mod (by omega),
      Nat.mod_eq_of_lt (by omega)]
    omega

theorem use_usable {op : RingOp} (h : ∃ q, Holds r q) (huse : r.Use op r') :
    ∃ q, Holds r' q := by
  obtain ⟨q, h⟩ := h
  cases huse with
  | write hfit hwrite => exact ⟨_, write_keeps h hfit hwrite⟩
  | read hread => exact ⟨_, read_keeps h hread⟩
  | look => exact ⟨q, h⟩
  | getWriteableVec hoffer =>
    obtain ⟨w, rfl⟩ := getWriteableVec_ring hoffer
    exact ⟨q, h.segments w _⟩
  | scatter hscatter => exact scatter_usable h hscatter
  | writeConfirm hfit hconfirm => exact writeConfirm_usable h hfit hconfirm
  | getReadableVec => exact ⟨q, getReadableVec_holds h⟩
  | readConfirm hconfirm => exact ⟨_, readConfirm_keeps h hconfirm⟩
  | clear => exact ⟨[], clear_holds h⟩
  | tryshrink hshrink => exact ⟨q, tryshrink_keeps h hshrink⟩

theorem used_holds {capacity : Nat} {ops : List RingOp} (hpos : 0 < capacity)
    (hlt : capacity < 2 ^ 32) (run : Run Use (new capacity) ops r) : ∃ q, Holds r q :=
  run.invariant (fun r => ∃ q, Holds r q) (fun _ _ _ => use_usable) ⟨[], new_holds hpos hlt⟩

end ZlNet.Network.CRingBuffer
