import ZlNet.Network.Segments
import ZlNet.Network.Proof.IIOBuffer

/-! What arrives at a connection is appended to its input buffer, whatever the segments of the
buffer are, and what `handleTcpConWrite` offers its socket is the content of the output buffer
only while that has at most two bytes. -/

namespace ZlNet.Network

open Lib.Word Lib.Block

theorem toSize_natCast {n : Nat} (h : n < 2 ^ 31) : toSize n = n := by
  unfold toSize
  omega

/-! ### Entries -/

namespace Iovec

variable {mem : ReadMemory} {vec : List Iovec} {bytes : List UInt8}

/-- The entries are filled up to the last one before the rest of the bytes goes on. -/
theorem scatter_append (mem : ReadMemory) (vec vec' : List Iovec) (bytes : List UInt8) :
    scatter mem (vec ++ vec') bytes = (do
      let mem ← scatter mem vec bytes
      scatter mem vec' (bytes.drop (room vec))) := by
  induction vec generalizing mem bytes with
  | nil => simp [scatter, room]
  | cons v vec ih =>
    simp only [List.cons_append, scatter, bind_assoc]
    refine congrArg _ (funext fun mem => ?_)
    rw [ih, List.drop_drop]
    simp [room]

theorem scatter_nil (h : ∀ v ∈ vec, ∀ mem, v.store mem [] = .ok mem) :
    scatter mem vec [] = .ok mem := by
  induction vec with
  | nil => rfl
  | cons v vec ih =>
    simp only [scatter, List.take_nil, h v List.mem_cons_self, ok_bind, List.drop_nil]
    exact ih fun v hv => h v (List.mem_cons_of_mem _ hv)

/-- Entries that no byte reaches may be left out. -/
theorem scatter_take {n : Nat} (hfit : bytes.length ≤ room (vec.take n))
    (hidle : ∀ v ∈ vec.drop n, ∀ mem, v.store mem [] = .ok mem) :
    scatter mem (vec.take n) bytes = scatter mem vec bytes := by
  conv_rhs => rw [← List.take_append_drop n vec, scatter_append]
  rw [List.drop_of_length_le hfit]
  cases scatter mem (vec.take n) bytes with
  | error f => rfl
  | ok mem => exact (scatter_nil hidle).symm

/-- The entry for a segment stores what the segment does. -/
theorem store_iovec (v : SBufferVec) (mem : ReadMemory) (bytes : List UInt8) :
    v.iovec.store mem bytes = (do
      let buff ← CRingBuffer.scatter1 mem.buff v bytes
      return { mem with buff }) := by
  obtain ⟨off, len⟩ := v
  cases off with
  | some off => rfl
  | none =>
    simp only [store, SBufferVec.iovec, Option.map_none, CRingBuffer.scatter1]
    split <;> rfl

/-- The entry for a segment has the bytes that the segment has. -/
theorem load_iovec {buff : Option Nat} {len : Nat} (hlen : len < 2 ^ 31) (mem : List UInt8) :
    (SBufferVec.iovec ⟨buff, len⟩).load mem = CRingBuffer.gather1 mem ⟨buff, len⟩ := by
  cases buff with
  | some off => simp [load, SBufferVec.iovec, CRingBuffer.gather1, toSize_natCast hlen]
  | none => simp [load, SBufferVec.iovec, CRingBuffer.gather1, toSize_natCast hlen]

/-- Entries without bytes may be left out. -/
theorem gather_take {buff : List UInt8} {n : Nat}
    (hidle : ∀ v ∈ vec.drop n, v.load buff = .ok []) :
    gather buff (vec.take n) = gather buff vec := by
  induction vec generalizing n with
  | nil => rw [List.take_nil]
  | cons v vec ih =>
    cases n with
    | zero =>
      have hrest : gather buff [] = gather buff vec :=
        ih (n := 0) fun v hv => hidle v (List.mem_cons_of_mem _ hv)
      simp only [gather, hidle v List.mem_cons_self, ← hrest, ok_bind]
      rfl
    | succ n => rw [List.take_succ_cons, gather, gather, ih hidle]

/-- Two entries for segments have the bytes of the segments. -/
theorem gather_iovec {r : CRingBuffer} {buff1 buff2 : Option Nat} {len1 len2 : Nat}
    (h1 : len1 < 2 ^ 31) (h2 : len2 < 2 ^ 31) :
    gather r.buff [SBufferVec.iovec ⟨buff1, len1⟩, SBufferVec.iovec ⟨buff2, len2⟩] =
      r.gather (⟨buff1, len1⟩, ⟨buff2, len2⟩) := by
  simp only [gather, CRingBuffer.gather, load_iovec h1, load_iovec h2]
  refine congrArg _ (funext fun bytes => ?_)
  cases CRingBuffer.gather1 r.buff ⟨buff2, len2⟩ with
  | error f => rfl
  | ok bytes' => simp

end Iovec

namespace CRingBuffer

variable {r : CRingBuffer} {q extrabuf received : List UInt8}

/-! ### Reading -/

/-- The lengths of the segments that `getWriteableVec` offers are those of the free bytes. -/
theorem freeSegments_len (h : Holds r q) (hw : r.writerv = r.freeSegments)
    (hcap : r.capacity < 2 ^ 31) :
    ∃ len1 len2 : Nat, r.writerv.1.len = len1 ∧ r.writerv.2.len = len2 ∧
      len1 + len2 = r.freeBytes.length ∧ len1 + len2 < 2 ^ 31 ∧
      (r.writerv.2.buff = none ∨ r.writerv.2.buff = some 0) := by
  have hlen := freeBytes_length h hw
  have hfront := h.front_lt
  have hend := h.end_lt
  rw [offeredBytes, hw] at hlen
  rcases free_cases h with ⟨-, hseg, -⟩ | ⟨-, hle, hseg, -⟩ | ⟨-, hseg, -⟩
  · rw [hw, hseg]
    simp only [hseg, SBufferVec.clear] at hlen
    exact ⟨0, 0, rfl, rfl, by omega, by omega, .inl rfl⟩
  · rw [hw, hseg]
    simp only [hseg] at hlen
    refine ⟨r.capacity - r.end_, r.front - 1, rfl, rfl, by omega, by omega, ?_⟩
    by_cases hone : 1 < r.front
    · exact .inr (if_pos hone)
    · exact .inl (if_neg hone)
  · rw [hw, hseg]
    simp only [hseg, SBufferVec.clear] at hlen
    exact ⟨r.front - r.end_, 0, rfl, rfl, by omega, by omega, .inl rfl⟩

/-- The entries that `readv` is given are the first of the three. -/
theorem readvCall_cases (r : CRingBuffer) :
    (r.readvCall.iovcnt = 1 ∧ (extralen : Int) ≤ r.writerv.1.len) ∨
    (r.readvCall.iovcnt = 2 ∧ (extralen : Int) ≤ r.writeable) ∨
    (r.readvCall.iovcnt = 3 ∧ r.writeable < extralen) := by
  unfold readvCall
  simp only
  split_ifs with h1 h2
  · exact .inl ⟨rfl, h1⟩
  · exact .inr (.inl ⟨rfl, h2⟩)
  · exact .inr (.inr ⟨rfl, Int.not_le.mp h2⟩)

/-- `readv` takes no more than the free bytes and those of `extrabuf`, and none of these where the
free bytes are as many. -/
theorem room_entries {len1 len2 : Nat} (h1 : r.writerv.1.len = len1) (h2 : r.writerv.2.len = len2)
    (hbound : len1 + len2 < 2 ^ 31) :
    Iovec.room r.readvCall.entries ≤
      if extralen ≤ len1 + len2 then len1 + len2 else len1 + len2 + extralen := by
  have hsize1 : toSize len1 = len1 := toSize_natCast (by omega)
  have hsize2 : toSize len2 = len2 := toSize_natCast (by omega)
  unfold IovCall.entries
  rcases readvCall_cases r with ⟨hcnt, hle⟩ | ⟨hcnt, hle⟩ | ⟨hcnt, hlt⟩
  · rw [hcnt, if_pos (by omega)]
    simp [readvCall, Iovec.room, SBufferVec.iovec, h1, hsize1]
  · unfold writeable at hle
    rw [hcnt, if_pos (by omega)]
    simp [readvCall, Iovec.room, SBufferVec.iovec, h1, h2, hsize1, hsize2]
  · unfold writeable at hlt
    rw [hcnt, if_neg (by omega)]
    simp [readvCall, Iovec.room, SBufferVec.iovec, h1, h2, hsize1, hsize2]
    omega

/-- `readv` stores what it receives in the free bytes first, and the rest in `extrabuf`. -/
theorem scatter_entries (h : Holds r q) (hw : r.writerv = r.freeSegments)
    (hcap : r.capacity < 2 ^ 31) (hextra : extrabuf.length = extralen)
    (hfit : received.length ≤ Iovec.room r.readvCall.entries) :
    ∃ buff extrabuf', Iovec.scatter ⟨r.buff, extrabuf⟩ r.readvCall.entries received =
        .ok ⟨buff, extrabuf'⟩ ∧
      r.scatter (received.take r.freeBytes.length) = .ok { r with buff } ∧
      load extrabuf' 0 (received.drop r.freeBytes.length).length =
        some (received.drop r.freeBytes.length) := by
  obtain ⟨len1, len2, h1, h2, hlen, hbound, hnull⟩ := freeSegments_len h hw hcap
  have hroom := room_entries h1 h2 hbound
  have hsize1 : toSize len1 = len1 := toSize_natCast (by omega)
  have hsize2 : toSize len2 = len2 := toSize_natCast (by omega)
  -- the entries that the count leaves out would not be reached
  have hidle : ∀ v ∈ r.readvCall.vec.drop r.readvCall.iovcnt.toNat, ∀ mem,
      v.store mem [] = .ok mem := by
    have hextraIdle (mem : ReadMemory) :
        Iovec.store ⟨some .extrabuf, extralen⟩ mem [] = .ok mem := by
      simp only [Iovec.store, copyIn_eq (store_nil (Nat.zero_le _)), ok_bind]
      rfl
    have hsecondIdle (mem : ReadMemory) : r.writerv.2.iovec.store mem [] = .ok mem := by
      rw [Iovec.store_iovec]
      rcases hnull with hnull | hnull
      · simp only [scatter1, hnull, ite_true, ok_bind]
        rfl
      · simp only [scatter1, hnull, copyIn_eq (store_nil (Nat.zero_le _)), ok_bind]
        rfl
    intro v hv
    rcases readvCall_cases r with ⟨hcnt, -⟩ | ⟨hcnt, -⟩ | ⟨hcnt, -⟩
    · rw [hcnt] at hv
      rcases List.mem_pair.mp hv with rfl | rfl
      exacts [hsecondIdle, hextraIdle]
    · rw [hcnt] at hv
      rw [List.mem_singleton.mp hv]
      exact hextraIdle
    · rw [hcnt] at hv
      exact absurd hv List.not_mem_nil
  obtain ⟨r', hr', -, -, -, -⟩ := scatter_holds h hw
    (show (received.take r.freeBytes.length).length ≤ r.freeBytes.length by simp)
  have hscatter := hr'
  unfold scatter at hscatter
  obtain ⟨buff1, hbuff1, hscatter⟩ := of_bind_ok hscatter
  obtain ⟨buff2, hbuff2, hscatter⟩ := of_bind_ok hscatter
  obtain rfl := Except.ok.inj hscatter
  obtain ⟨extrabuf', hextrabuf'⟩ := exists_store
    (show 0 + (received.drop r.freeBytes.length).length ≤ extrabuf.length by
      rw [List.length_drop, hextra]
      split at hroom <;> omega)
  refine ⟨buff2, extrabuf', ?_, hr', load_store_same hextrabuf'⟩
  have hspill : (received.drop (len1 + len2)).take extralen = received.drop (len1 + len2) := by
    apply List.take_of_length_le
    rw [List.length_drop]
    split at hroom <;> omega
  rw [h1, Int.toNat_natCast, ← hlen, List.take_take, Nat.min_eq_left (by omega)] at hbuff1
  rw [h1, Int.toNat_natCast, ← hlen, List.drop_take, Nat.add_sub_cancel_left] at hbuff2
  rw [← hlen] at hextrabuf'
  unfold IovCall.entries at hfit ⊢
  rw [Iovec.scatter_take hfit hidle]
  simp only [readvCall, Iovec.scatter, Iovec.store_iovec]
  simp only [SBufferVec.iovec, h1, h2, hsize1, hsize2, hbuff1, hbuff2, ok_bind, bind_assoc,
    pure_bind, List.drop_drop, hspill]
  simp only [Iovec.store, copyIn_eq hextrabuf', ok_bind]
  rfl

/-- The bytes that have arrived become content: those in the free bytes by a confirm, and those in
`extrabuf`, which come behind a buffer that the confirm has filled or left short, by a `write`. -/
theorem confirmRead_holds {n : Nat} (h : Holds r q) (hlen : r.freeBytes.length = n)
    (hfree : r.freeBytes.take received.length = received.take n)
    (hspill : load extrabuf 0 (received.drop n).length = some (received.drop n))
    (hne : received ≠ []) (hfit : q.length + received.length < 2 ^ 32)
    (hcnt : received.length < 2 ^ 31) :
    ∃ r', r.confirmRead n extrabuf received.length = .ok r' ∧ Holds r' (q ++ received) := by
  have hpos := List.length_pos_iff.mpr hne
  by_cases hlt : n < received.length
  · have hrest : received.drop n ≠ [] := by simpa using hlt
    have hsub : ofInt32 ((received.length : Int) - n) = (received.drop n).length := by
      rw [← Int.ofNat_sub (by omega), ofInt32_natCast (by omega), List.length_drop]
    have hconfirm : ∃ r₁, (if (n : Int) ≠ 0 then r.writeConfirm (ofInt32 n) else pure r) = .ok r₁ ∧
        Holds r₁ (q ++ received.take n) := by
      rcases Nat.eq_zero_or_pos n with rfl | hn
      · exact ⟨r, rfl, by simpa using h⟩
      · rw [if_pos (by omega), ofInt32_natCast (by omega)]
        obtain ⟨r₁, hr₁, hholds⟩ := writeConfirm_holds h hn (by omega)
        rw [List.take_of_length_le (by omega)] at hfree hholds
        exact ⟨r₁, hr₁, hfree ▸ hholds⟩
    obtain ⟨r₁, hr₁, hholds₁⟩ := hconfirm
    obtain ⟨r₂, hr₂, hholds₂⟩ := write_holds hholds₁ hrest (by simp; omega)
    rw [List.append_assoc, List.take_append_drop] at hholds₂
    refine ⟨r₂, ?_, hholds₂⟩
    simp only [confirmRead, show (n : Int) < received.length by omega, ite_true, hsub,
      copyOut_eq hspill, ok_bind]
    split_ifs at hr₁ ⊢
    · rw [hr₁]
      exact hr₂
    · rw [hr₁]
      exact hr₂
  · obtain ⟨r₁, hr₁, hholds⟩ := writeConfirm_holds h hpos (show received.length ≤ _ by omega)
    rw [hfree, List.take_of_length_le (by omega)] at hholds
    refine ⟨r₁, ?_, hholds⟩
    simp only [confirmRead, show ¬ (n : Int) < received.length by omega, ite_false,
      ofInt32_natCast (show received.length < 2 ^ 32 by omega), hr₁]

/-- The buffer after `getWriteableVec`. -/
def withOffer (r : CRingBuffer) : CRingBuffer := { r with writerv := r.freeSegments }

/-- What `readv` has received is appended to the content. -/
theorem receive_holds (h : Holds r q) (hcap : r.capacity < 2 ^ 31)
    (hextra : extrabuf.length = extralen) (hne : received ≠ [])
    (hfit : received.length ≤ Iovec.room r.withOffer.readvCall.entries) :
    ∃ r', r.receive extrabuf received = .ok r' ∧ Holds r' (q ++ received) := by
  have hoffer : Holds r.withOffer q := h.segments _ _
  obtain ⟨len1, len2, h1, h2, hlen, hbound, -⟩ := freeSegments_len hoffer rfl hcap
  have hroom := room_entries h1 h2 hbound
  have hqlen : q.length < 2 ^ 31 := Nat.lt_of_le_of_lt h.size_le hcap
  have hcnt : received.length < 2 ^ 31 := by
    unfold extralen at hroom
    split at hroom <;> omega
  obtain ⟨buff, extrabuf', hscatter, hring, hspill⟩ :=
    scatter_entries hoffer rfl hcap hextra hfit
  obtain ⟨r', hr', hholds, -, hw', hfree'⟩ := scatter_holds hoffer rfl
    (show (received.take r.withOffer.freeBytes.length).length ≤ r.withOffer.freeBytes.length by
      simp)
  obtain rfl : r' = { r.withOffer with buff } := Except.ok.inj (hr'.symm.trans hring)
  rw [← hlen] at hspill hfree'
  have hfreeLen : (freeBytes { r.withOffer with buff }).length = len1 + len2 := by
    rw [hfree', hlen]
    simp
  have hstart : (freeBytes { r.withOffer with buff }).take received.length =
      received.take (len1 + len2) := by
    rcases Nat.le_total received.length (len1 + len2) with hle | hle
    · rw [hfree', List.take_of_length_le hle, List.take_left']
      rfl
    · rw [List.take_of_length_le (by omega), hfree', List.length_take_of_le hle,
        List.drop_of_length_le (by omega), List.append_nil]
  have hwriteable : r.withOffer.writeable = (len1 + len2 : Nat) := by
    simp [writeable, h1, h2]
  obtain ⟨r₂, hr₂, hholds₂⟩ := confirmRead_holds hholds hfreeLen hstart hspill hne (by omega) hcnt
  refine ⟨r₂, ?_, hholds₂⟩
  simp only [receive, getWriteableVec_eq h hcap, ok_bind]
  change (Iovec.scatter ⟨r.withOffer.buff, extrabuf⟩ r.withOffer.readvCall.entries received >>= _) =
    _
  rw [hscatter, ok_bind]
  change confirmRead { r.withOffer with buff } r.withOffer.writeable _ _ = _
  rw [hwriteable, toInt32_eq hcnt, hr₂]

/-! ### Writing -/

/-- The segments have all bytes together, and the first of them some. -/
theorem readerv_len (h : Holds r q) (hbound : r.size < 2 ^ 31) (hne : r.size ≠ 0) :
    ∃ (len1 len2 : Nat) (buff1 buff2 : Option Nat),
      r.getReadableVec.readerv = (⟨buff1, len1⟩, ⟨buff2, len2⟩) ∧ len1 + len2 = r.size ∧
      0 < len1 ∧ (buff2 = none ∨ buff2 = some 0) := by
  have hfront := h.front_lt
  rcases readerv_cases h hbound hne with ⟨-, hseg⟩ | ⟨-, hsum, hseg⟩
  · exact ⟨r.size, 0, some r.front, none, hseg, rfl, by omega, .inl rfl⟩
  · exact ⟨_, _, _, _, hseg, by omega, by omega, .inr rfl⟩

/-- Whatever number of bytes the socket takes, the buffer keeps the rest. -/
theorem drain_holds {k : Nat} (h : Holds r q) (hbound : r.size < 2 ^ 31) (hne : r.size ≠ 0)
    (hk : k ≤ q.length) : ∃ r', r.drain k = .ok r' ∧ Holds r' (q.drop k) := by
  have hsize := h.size_eq
  have hcast : toInt32 r.size = r.size := toInt32_eq hbound
  have hshown := getReadableVec_holds h
  unfold drain
  simp only [hcast]
  rw [require_of_true (show (r.size : Int) ≠ 0 by omega), ok_bind]
  split_ifs with hall hsome
  · obtain rfl : k = r.size := by omega
    rw [ofInt32_natCast (by omega)]
    exact readConfirm_holds hshown (by omega) hk
  · rw [ofInt32_natCast (by omega)]
    exact readConfirm_holds hshown (by omega) hk
  · obtain rfl : k = 0 := by omega
    exact ⟨_, rfl, by simpa using hshown⟩

/-- What `writev` is offered, and what it leaves, for a buffer that holds `content`. -/
structure DrainsExactly (r : CRingBuffer) (content : List UInt8) : Prop where
  iovcnt_le : r.getReadableVec.writevCall.iovcnt ≤ 2
  covers : ∀ (i : Nat) (v : Iovec), r.getReadableVec.writevCall.vec[i]? = some v → 0 < v.iov_len →
    i < r.getReadableVec.writevCall.iovcnt
  offers : r.getReadableVec.writevCall.offered r.buff = .ok content
  keeps : ∀ k ≤ content.length, ∃ r', r.drain k = .ok r' ∧ Holds r' (content.drop k)

/-- The count is that of the bytes, so the array of two entries has as many only for two bytes. -/
theorem drains_iff (h : Holds r q) (hne : r.size ≠ 0) : DrainsExactly r q ↔ r.size ≤ 2 := by
  have hsizeEq : r.getReadableVec.size = r.size := by
    rw [(getReadableVec_holds h).size_eq, h.size_eq]
  constructor
  · intro hdrains
    have hcnt := hdrains.iovcnt_le
    have hoffers := hdrains.offers
    have hbound := h.size_eq ▸ h.size_le
    have h32 := h.bound
    unfold IovCall.offered at hoffers
    split at hoffers
    · next hin =>
      have hnonneg := hin.1
      simp only [writevCall, hsizeEq] at hcnt hnonneg
      unfold toInt32 at hcnt hnonneg
      rw [Int.bmod_def] at hcnt hnonneg
      omega
    · cases hoffers
  · intro htwo
    have hcast : toInt32 r.size = r.size := toInt32_eq (by omega)
    have hgather := getReadableVec_gather h (by omega)
    obtain ⟨len1, len2, buff1, buff2, hseg, hsum, hpos, hnull⟩ := readerv_len h (by omega) hne
    have hvec : r.getReadableVec.writevCall.vec =
        [SBufferVec.iovec ⟨buff1, len1⟩, SBufferVec.iovec ⟨buff2, len2⟩] := by
      simp only [writevCall, hseg]
    have hcnt : r.getReadableVec.writevCall.iovcnt = r.size := by
      simp only [writevCall, hsizeEq, hcast]
    rw [hseg, ← Iovec.gather_iovec (by omega) (by omega), getReadableVec_buff] at hgather
    refine ⟨by omega, fun i v hv hlen => ?_, ?_, fun k hk => drain_holds h (by omega) hne hk⟩
    · rw [hvec] at hv
      rw [hcnt]
      match i with
      | 0 => omega
      | 1 =>
        obtain rfl := Option.some.inj hv
        simp only [SBufferVec.iovec, toSize_natCast (show len2 < 2 ^ 31 by omega)] at hlen
        omega
      | i + 2 => simp at hv
    · have hentries : Iovec.gather r.buff r.getReadableVec.writevCall.entries = .ok q := by
        unfold IovCall.entries
        rw [hvec, hcnt]
        refine (Iovec.gather_take fun v hv => ?_).trans hgather
        rcases (show r.size = 1 ∨ r.size = 2 by omega) with hone | htwo
        · rw [hone] at hv
          obtain rfl : len2 = 0 := by omega
          rw [List.mem_singleton.mp hv, Iovec.load_iovec (by decide)]
          rcases hnull with rfl | rfl <;> rfl
        · rw [htwo] at hv
          exact absurd hv List.not_mem_nil
      rw [IovCall.offered, hvec, hcnt, if_pos (by simpa using htwo), hentries]

/-! ### Every buffer of a connection -/

/-- The ring buffers that a connection can come to have. -/
inductive Reachable : CRingBuffer → Prop
  | new {capacity : Nat} : 0 < capacity → capacity < 2 ^ 32 → Reachable (new capacity)
  | write {r r' : CRingBuffer} {bytes : List UInt8} : Reachable r →
      r.size + bytes.length < 2 ^ 32 → r.write bytes = .ok r' → Reachable r'
  | read {r r' : CRingBuffer} {len : Nat} {bytes : List UInt8} : Reachable r →
      r.read len = .ok (bytes, r') → Reachable r'
  | readConfirm {r r' : CRingBuffer} {len : Nat} : Reachable r → r.readConfirm len = .ok r' →
      Reachable r'
  | getWriteableVec {r r' : CRingBuffer} : Reachable r → r.getWriteableVec = .ok r' → Reachable r'
  | getReadableVec {r : CRingBuffer} : Reachable r → Reachable r.getReadableVec
  | receive {r s r' : CRingBuffer} {extrabuf received : List UInt8} : Reachable r →
      r.capacity < 2 ^ 31 → received ≠ [] → r.getWriteableVec = .ok s → extrabuf.length = extralen →
      received.length ≤ Iovec.room s.readvCall.entries → r.receive extrabuf received = .ok r' →
      Reachable r'
  | drain {r r' : CRingBuffer} {count : Int} : Reachable r → r.drain count = .ok r' → Reachable r'
  | clear {r : CRingBuffer} : Reachable r → Reachable r.clear
  | tryshrink {r r' : CRingBuffer} : Reachable r → r.tryshrink = .ok r' → Reachable r'

theorem Reachable.holds (h : Reachable r) : Holds r r.content := by
  suffices ∃ q, Holds r q by
    obtain ⟨q, hq⟩ := this
    exact hq.content_eq.symm ▸ hq
  induction h with
  | new hpos hlt => exact ⟨[], new_holds hpos hlt⟩
  | write _ hfit hwrite ih =>
    obtain ⟨q, hq⟩ := ih
    exact ⟨_, write_keeps hq hfit hwrite⟩
  | read _ hread ih =>
    obtain ⟨q, hq⟩ := ih
    exact ⟨_, read_keeps hq hread⟩
  | readConfirm _ hconfirm ih =>
    obtain ⟨q, hq⟩ := ih
    exact ⟨_, readConfirm_keeps hq hconfirm⟩
  | getWriteableVec _ hoffer ih =>
    obtain ⟨q, hq⟩ := ih
    obtain ⟨w, rfl⟩ := getWriteableVec_ring hoffer
    exact ⟨q, hq.segments _ _⟩
  | getReadableVec _ ih =>
    obtain ⟨q, hq⟩ := ih
    exact ⟨q, getReadableVec_holds hq⟩
  | receive _ hcap hne hoffer hextra hfit hreceive ih =>
    obtain ⟨q, hq⟩ := ih
    obtain rfl := Except.ok.inj ((getWriteableVec_eq hq hcap).symm.trans hoffer)
    obtain ⟨s, hs, hholds⟩ := receive_holds hq hcap hextra hne hfit
    obtain rfl := Except.ok.inj (hs.symm.trans hreceive)
    exact ⟨_, hholds⟩
  | drain _ hdrain ih =>
    obtain ⟨q, hq⟩ := ih
    have hshown := getReadableVec_holds hq
    obtain ⟨-, -, hdrain⟩ := of_bind_ok hdrain
    split at hdrain
    · exact ⟨_, readConfirm_keeps hshown hdrain⟩
    · split at hdrain
      · exact ⟨_, readConfirm_keeps hshown hdrain⟩
      · obtain rfl := Except.ok.inj hdrain
        exact ⟨q, hshown⟩
  | clear _ ih =>
    obtain ⟨q, hq⟩ := ih
    exact ⟨[], clear_holds hq⟩
  | tryshrink _ hshrink ih =>
    obtain ⟨q, hq⟩ := ih
    exact ⟨q, tryshrink_keeps hq hshrink⟩

/-- What `readv` returns for the entries that it is given is appended to the content of every input
buffer. -/
theorem receive_appends (h : Reachable r) (hcap : r.capacity < 2 ^ 31) :
    ∃ s, r.getWriteableVec = .ok s ∧ ∀ extrabuf received : List UInt8,
      extrabuf.length = extralen → received ≠ [] →
      received.length ≤ Iovec.room s.readvCall.entries →
      ∃ r', r.receive extrabuf received = .ok r' ∧ Holds r' (r.content ++ received) :=
  ⟨_, getWriteableVec_eq h.holds hcap, fun _ _ hextra hne hfit =>
    receive_holds h.holds hcap hextra hne hfit⟩

/-- Two free bytes, one of them before the front and not offered, and four bytes that arrive. -/
theorem receive_appends_spilled :
    ∃ r r' : CRingBuffer, Reachable r ∧ r.content = [2] ∧ r.capacity = 3 ∧
      r.receive (List.replicate extralen 0) [3, 4, 5, 6] = .ok r' ∧
      Holds r' [2, 3, 4, 5, 6] := by
  have hnew := Reachable.new (show 0 < 3 by decide) (by decide)
  have hwritten := hnew.write (by decide) (show (new 3).write [1, 2] =
    .ok ⟨3, 0, 2, 2, [1, 2, 0], (.clear, .clear), (.clear, .clear)⟩ from rfl)
  have hread := hwritten.readConfirm (show readConfirm _ 1 =
    .ok ⟨3, 1, 2, 1, [1, 2, 0], (.clear, .clear), (.clear, .clear)⟩ from rfl)
  obtain ⟨s, hs, hreceive⟩ := receive_appends hread (by decide)
  obtain rfl : _ = s := Except.ok.inj ((show getWriteableVec _ =
    .ok ⟨3, 1, 2, 1, [1, 2, 0], (⟨some 2, 1⟩, ⟨none, 0⟩), (.clear, .clear)⟩ from rfl).symm.trans hs)
  obtain ⟨r', hr', hholds⟩ := hreceive (List.replicate extralen 0) [3, 4, 5, 6]
    List.length_replicate (by decide) (by decide)
  exact ⟨_, r', hread, rfl, rfl, hr', hholds⟩

/-- `handleTcpConWrite` offers its socket exactly the content of the output buffer, and keeps what
the socket does not take, just while at most two bytes are pending. -/
theorem drains_exactly_iff (h : Reachable r) (hne : r.content ≠ []) :
    DrainsExactly r r.content ↔ r.content.length ≤ 2 := by
  rw [← h.holds.size_eq]
  exact drains_iff h.holds (by
    rw [h.holds.size_eq]
    exact mt List.length_eq_zero_iff.mp hne)

theorem drains_exactly_iff_around :
    ∃ r : CRingBuffer, Reachable r ∧ r.end_ < r.front ∧ r.content = [2, 3] ∧
      DrainsExactly r r.content := by
  have hnew := Reachable.new (show 0 < 3 by decide) (by decide)
  have hwritten := hnew.write (by decide) (show (new 3).write [1, 2] =
    .ok ⟨3, 0, 2, 2, [1, 2, 0], (.clear, .clear), (.clear, .clear)⟩ from rfl)
  have hread := hwritten.readConfirm (show readConfirm _ 1 =
    .ok ⟨3, 1, 2, 1, [1, 2, 0], (.clear, .clear), (.clear, .clear)⟩ from rfl)
  have haround := hread.write (by decide) (show write _ [3] =
    .ok ⟨3, 1, 0, 2, [1, 2, 3], (.clear, .clear), (.clear, .clear)⟩ from rfl)
  exact ⟨_, haround, by decide, rfl, (drains_exactly_iff haround (by decide)).mpr (by decide)⟩

/-- Three pending bytes make `writev` read an entry past the two that are there. -/
theorem drains_more : ∃ r : CRingBuffer, Reachable r ∧ r.content ≠ [] ∧
    ¬ DrainsExactly r r.content := by
  have hnew := Reachable.new (show 0 < 1024 by decide) (by decide)
  obtain ⟨r, hr, hholds⟩ := write_holds (new_holds (show 0 < 1024 by decide) (by decide))
    (show ([1, 2, 3] : List UInt8) ≠ [] by decide) (by decide)
  have hreach := hnew.write (by decide) hr
  refine ⟨r, hreach, by simp [hholds.content_eq], fun hdrains => ?_⟩
  have htwo := (drains_iff hholds (by simp [hholds.size_eq])).mp (hholds.content_eq ▸ hdrains)
  simp [hholds.size_eq] at htwo

end CRingBuffer

/-! ### The buffers of the network thread -/

namespace IIOBuffer

variable {b : IIOBuffer} {r : CRingBuffer}

/-- What has arrived is one `write` for the users of an input buffer. -/
theorem receive_simulates {extrabuf received : List UInt8} (h : r.Holds b.bytes)
    (hcap : r.capacity < 2 ^ 31) (hextra : extrabuf.length = extralen) (hne : received ≠ [])
    (hfit : received.length ≤ Iovec.room r.withOffer.readvCall.entries) :
    Simulates (b.write received) (r.receive extrabuf received) := by
  obtain ⟨r', hr', hholds⟩ := CRingBuffer.receive_holds h hcap hextra hne hfit
  simp only [write, require_of_true (List.length_pos_iff.mpr hne), ok_bind]
  split
  · exact ⟨r', hr', hholds⟩
  · trivial

/-- What the socket has taken leaves an output buffer by one `readConfirm`. -/
theorem drain_simulates {count : Nat} (h : r.Holds b.bytes) (hbound : b.size < 2 ^ 31)
    (hpos : 0 < count) (hle : count ≤ b.size) : Simulates (b.readConfirm count) (r.drain count) := by
  have hsize : r.size = b.size := h.size_eq
  have hread : b.readConfirm count = .ok ⟨b.bytes.drop count⟩ := by
    rw [readConfirm, require_of_true ⟨hle, Nat.ne_of_gt hpos⟩, ok_bind]
    rfl
  rw [hread]
  exact CRingBuffer.drain_holds h (by omega) (by omega) hle

end IIOBuffer

end ZlNet.Network
