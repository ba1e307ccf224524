import ZlNet.Network.Proof.Segments

/-! The memory of a receive buffer.  It grows only where what has arrived does not fit, and then to
less than double of what it has to hold. -/

namespace ZlNet.Network.CRingBuffer

open Lib Lib.Word

variable {r r' : CRingBuffer} {q extrabuf received : List UInt8} {n : Nat}

theorem resize_capacity (h : r.resize n = .ok r') : r'.capacity = n ∧ r'.size = r.size := by
  simp only [resize] at h
  split at h
  · split at h
    · obtain ⟨-, -, h⟩ := of_bind_ok h
      obtain ⟨x, -, h⟩ := of_bind_ok h
      obtain ⟨y, -, h⟩ := of_bind_ok h
      obtain ⟨z, -, h⟩ := of_bind_ok h
      obtain ⟨w, -, h⟩ := of_bind_ok h
      obtain rfl := Except.ok.inj h
      exact ⟨rfl, rfl⟩
    · obtain ⟨-, -, h⟩ := of_bind_ok h
      obtain ⟨x, -, h⟩ := of_bind_ok h
      obtain ⟨y, -, h⟩ := of_bind_ok h
      obtain rfl := Except.ok.inj h
      exact ⟨rfl, rfl⟩
  · obtain rfl := Except.ok.inj h
    exact ⟨rfl, rfl⟩

/-- A buffer that is made to have room for `n` bytes has at most twice as many. -/
theorem ensure_capacity (hn : n ≤ 2 ^ 31) (h : r.ensure n = .ok r') :
    r'.capacity ≤ max r.capacity (2 * n) ∧ r'.size = r.size := by
  unfold ensure at h
  split at h
  · obtain rfl := Except.ok.inj h
    omega
  · cases hloop : growLoop n 33 r.capacity with
    | none => simp [hloop] at h
    | some w =>
      simp only [hloop] at h
      obtain ⟨hcapacity, hsize⟩ := resize_capacity h
      have hle := growLoop_le hn hloop
      omega

theorem tryshrink_capacity (h : r.tryshrink = .ok r') : r'.capacity ≤ r.capacity := by
  unfold tryshrink at h
  split at h
  · obtain rfl := Except.ok.inj h
    exact Nat.le_refl _
  · split at h
    · next hlarge =>
      have hshrunk := (resize_capacity h).1
      unfold BOUND_SIZE at hlarge
      unfold SHRINK_SIZE at hshrunk
      omega
    · obtain rfl := Except.ok.inj h
      exact Nat.le_refl _

/-- A buffer that is shrunk if it is empty. -/
theorem shrunk_capacity (h : (if r.size = 0 then r.tryshrink else pure r) = .ok r') :
    r'.capacity ≤ r.capacity := by
  split at h
  · exact tryshrink_capacity h
  · obtain rfl := Except.ok.inj h
    exact Nat.le_refl _

theorem write_capacity {bytes : List UInt8} (hfit : r.size + bytes.length ≤ 2 ^ 31) (h : r.write bytes = .ok r') :
    r'.capacity ≤ max r.capacity (2 * (r.size + bytes.length)) := by
  unfold write at h
  obtain ⟨-, -, h⟩ := of_bind_ok h
  obtain ⟨r₁, hensure, h⟩ := of_bind_ok h
  rw [add32_eq (by omega)] at hensure
  refine Nat.le_trans ?_ (ensure_capacity hfit hensure).1
  obtain ⟨-, -, h⟩ := of_bind_ok h
  have hlast (buff : List UInt8) (end_ : Nat) :=
    @shrunk_capacity { r₁ with buff, end_, size := add32 r₁.size bytes.length } r'
  dsimp only at h hlast
  split at h
  · split at h
    · obtain ⟨buff, -, h⟩ := of_bind_ok h
      exact hlast _ _ h
    · obtain ⟨buff, -, h⟩ := of_bind_ok h
      obtain ⟨buff, -, h⟩ := of_bind_ok h
      exact hlast _ _ h
  · obtain ⟨buff, -, h⟩ := of_bind_ok h
    exact hlast _ _ h

/-- What `read` returns, of a buffer that is shrunk if it is empty. -/
theorem shrunk_read_capacity (bytes out : List UInt8)
    (h : (if r.size = 0 then r.tryshrink >>= fun r => pure (bytes, r)
      else pure r >>= fun r => pure (bytes, r)) = Except.ok (out, r')) :
    r'.capacity ≤ r.capacity := by
  split at h
  · obtain ⟨r₁, hshrink, h⟩ := of_bind_ok h
    obtain ⟨-, rfl⟩ := Prod.mk.inj (Except.ok.inj h)
    exact tryshrink_capacity hshrink
  · obtain ⟨-, rfl⟩ := Prod.mk.inj (Except.ok.inj h)
    exact Nat.le_refl _

theorem read_capacity {out : List UInt8} (h : r.read n = .ok (out, r')) :
    r'.capacity ≤ r.capacity := by
  unfold read at h
  obtain ⟨-, -, h⟩ := of_bind_ok h
  have hlast (front : Nat) (bytes : List UInt8) :=
    @shrunk_read_capacity { r with front, size := sub32 r.size n } r' bytes out
  dsimp only at h hlast
  split at h
  · obtain ⟨-, -, h⟩ := of_bind_ok h
    obtain ⟨bytes, -, h⟩ := of_bind_ok h
    exact hlast _ bytes h
  · split at h
    · obtain ⟨bytes, -, h⟩ := of_bind_ok h
      exact hlast _ bytes h
    · obtain ⟨high, -, h⟩ := of_bind_ok h
      obtain ⟨low, -, h⟩ := of_bind_ok h
      exact hlast _ (high ++ low) h

theorem writeConfirm_capacity (h : r.writeConfirm n = .ok r') :
    r'.capacity = r.capacity ∧ r'.size = add32 r.size n := by
  unfold writeConfirm at h
  obtain ⟨-, -, h⟩ := of_bind_ok h
  obtain rfl := Except.ok.inj h
  exact ⟨rfl, rfl⟩

theorem copyOut_length {mem out : List UInt8} {off : Nat} (h : copyOut mem off n = .ok out) :
    out.length = n := by
  unfold copyOut at h
  split at h
  · next hload =>
    obtain rfl := Except.ok.inj h
    exact Block.load_length hload
  · cases h

/-- What comes behind the free bytes makes a buffer grow, to less than double of what it holds
then. -/
theorem confirmRead_capacity {w cnt : Nat} (hfit : w < cnt → r.size + cnt ≤ 2 ^ 31)
    (hcnt : cnt < 2 ^ 31) (h : r.confirmRead w extrabuf cnt = .ok r') :
    r'.capacity ≤ r.capacity ∨ w < cnt ∧ r'.capacity ≤ max r.capacity (2 * (r.size + cnt)) := by
  unfold confirmRead at h
  split at h
  · next hlt =>
    have hlt : w < cnt := by omega
    have hsum := hfit hlt
    have hspill : ofInt32 ((cnt : Int) - w) = cnt - w := by
      rw [← Int.ofNat_sub (by omega), ofInt32_natCast (by omega)]
    have hwritten {r₁ : CRingBuffer} (hcapacity : r₁.capacity = r.capacity)
        (hsize : r₁.size = r.size + w)
        (h : (copyOut extrabuf 0 (ofInt32 ((cnt : Int) - w)) >>= fun bytes => r₁.write bytes) =
          .ok r') : r'.capacity ≤ max r.capacity (2 * (r.size + cnt)) := by
      obtain ⟨bytes, hbytes, h⟩ := of_bind_ok h
      have hlen := copyOut_length hbytes
      rw [hspill] at hlen
      have hle := write_capacity (by omega) h
      rw [hcapacity, hsize, hlen] at hle
      omega
    refine .inr ⟨hlt, ?_⟩
    dsimp only at h
    split at h
    · obtain ⟨r₁, hconfirm, h⟩ := of_bind_ok h
      obtain ⟨hcapacity, hsize⟩ := writeConfirm_capacity hconfirm
      rw [ofInt32_natCast (by omega), add32_eq (by omega)] at hsize
      exact hwritten hcapacity hsize h
    · exact hwritten rfl (by omega) h
  · exact .inl (Nat.le_of_eq (writeConfirm_capacity h).1)

/-- A buffer that `readv` stores to has no more memory than before, or less than double of what it
held and what `readv` stores at most without free bytes for it all. -/
theorem receive_capacity (h : Holds r q) (hcap : r.capacity < 2 ^ 31)
    (hsmall : q.length + 2 * extralen ≤ 2 ^ 31)
    (hfit : received.length ≤ Iovec.room r.withOffer.readvCall.entries)
    (hreceive : r.receive extrabuf received = .ok r') :
    r'.capacity ≤ max r.capacity (2 * (q.length + 2 * extralen)) := by
  have hoffer : Holds r.withOffer q := h.segments _ _
  obtain ⟨len1, len2, h1, h2, -, hbound, -⟩ := freeSegments_len hoffer rfl hcap
  have hroom := Nat.le_trans hfit (room_entries h1 h2 hbound)
  have hspilled : received.length < 2 ^ 31 ∧
      (len1 + len2 < received.length → received.length < 2 * extralen) := by
    unfold extralen at hroom ⊢
    split at hroom
    · omega
    · omega
  unfold receive at hreceive
  rw [getWriteableVec_eq h hcap, ok_bind] at hreceive
  obtain ⟨mem, -, hreceive⟩ := of_bind_ok hreceive
  have hwriteable : r.withOffer.writeable = (len1 + len2 : Nat) := by
    simp [writeable, h1, h2]
  change confirmRead { r.withOffer with buff := mem.buff } r.withOffer.writeable _ _ = _ at hreceive
  rw [hwriteable, toInt32_eq hspilled.1] at hreceive
  have hsize : q.length = ({ r.withOffer with buff := mem.buff } : CRingBuffer).size :=
    h.size_eq.symm
  have hcapacity : r.capacity = ({ r.withOffer with buff := mem.buff } : CRingBuffer).capacity := rfl
  rw [hsize] at hsmall ⊢
  rw [hcapacity]
  have hgrown := confirmRead_capacity (by omega) hspilled.1 hreceive
  omega

end ZlNet.Network.CRingBuffer
