import ZlNet.Lib.Circular
import ZlNet.Network.RingBuffer

/-! The operations of `CRingBuffer` on a buffer that holds a queue of bytes: each of them returns,
and holds the queue that a FIFO queue would hold after it. -/

namespace ZlNet.Network.CRingBuffer

open Lib.Word Lib.Block Lib.Circular

variable {r : CRingBuffer} {q bytes : List UInt8} {n : Nat}

/-- The buffer `r` holds the bytes `q`, oldest first. -/
structure Holds (r : CRingBuffer) (q : List UInt8) : Prop where
  layout : Layout r.buff r.front r.end_ q
  capacity_eq : r.capacity = r.buff.length
  size_eq : r.size = q.length
  bound : r.capacity < 2 ^ 32

/-- The content of a buffer: its bytes from the front on, going round the end of the storage. -/
def content (r : CRingBuffer) : List UInt8 :=
  (r.buff.drop r.front ++ r.buff.take r.front).take r.size

theorem Holds.content_eq (h : Holds r q) : r.content = q := by
  rw [content, h.size_eq, h.layout.take_around]

theorem Holds.size_le (h : Holds r q) : q.length ≤ r.capacity :=
  h.capacity_eq ▸ h.layout.length_le

theorem Holds.front_lt (h : Holds r q) : r.front < r.capacity :=
  h.capacity_eq ▸ h.layout.front_lt

theorem Holds.end_lt (h : Holds r q) : r.end_ < r.capacity :=
  h.capacity_eq ▸ h.layout.fin_lt

theorem Holds.end_eq (h : Holds r q) : (r.front + r.size) % r.capacity = r.end_ := by
  rw [h.capacity_eq, h.size_eq]
  exact h.layout.fin_eq

/-- The segments last returned play no part in what a buffer holds. -/
theorem Holds.segments (h : Holds r q) (w v : SBufferVec × SBufferVec) :
    Holds { r with writerv := w, readerv := v } q :=
  ⟨h.layout, h.capacity_eq, h.size_eq, h.bound⟩

theorem new_holds {capacity : Nat} (hpos : 0 < capacity) (hlt : capacity < 2 ^ 32) :
    Holds (new capacity) [] where
  layout := Layout.nil_of_front (by simpa [new] using hpos)
  capacity_eq := by simp [new]
  size_eq := rfl
  bound := hlt

theorem clear_holds (h : Holds r q) : Holds r.clear [] where
  layout := Layout.nil_of_front (Nat.zero_lt_of_lt h.layout.front_lt)
  capacity_eq := h.capacity_eq
  size_eq := rfl
  bound := h.bound

/-! ### Growth -/

/-- The content `q` moved to the start of a storage of `n` bytes. -/
def moved (r : CRingBuffer) (q : List UInt8) (n : Nat) : CRingBuffer :=
  { r with
    buff := q ++ List.replicate (n - q.length) 0, capacity := n, front := 0, end_ := r.size }

theorem moved_holds (h : Holds r q) (hroom : q.length < n) (hn : n < 2 ^ 32) :
    Holds (r.moved q n) q where
  layout := by
    rw [moved, h.size_eq]
    exact Layout.of_prefix (by simpa using by omega)
  capacity_eq := by
    simp [moved]
    omega
  size_eq := h.size_eq
  bound := hn

theorem resize_direct (h : Holds r q) (hroom : q.length < n) (hlt : r.front < r.end_) :
    r.resize n = .ok (r.moved q n) := by
  have hbound := h.bound
  have hend := h.end_lt
  have hsize := h.size_eq
  have hqlen := h.layout.length_of_lt hlt
  have hne : r.size ≠ 0 := by omega
  have hload := h.layout.load_direct hlt (Nat.le_refl q.length)
  rw [List.take_length, ← hsize] at hload
  have hstore := store_replicate (0 : UInt8) [] q (n := n) (by omega)
  simp only [List.nil_append, List.length_nil] at hstore
  have hassert : r.size = sub32 r.end_ r.front := by
    rw [sub32_eq (by omega) (by omega)]
    omega
  simp only [resize, ne_eq, hne, not_false_eq_true, ite_true, Nat.not_le.mpr hlt, ite_false,
    copyOut_eq hload, copyIn_eq hstore, require_of_true hassert, ok_bind]
  rfl

/-- The end of the storage is copied first, and its start after it. -/
theorem resize_around (h : Holds r q) (hroom : q.length < n) (hle : r.end_ ≤ r.front)
    (hq : q ≠ []) : r.resize n = .ok (r.moved q n) := by
  have hbound := h.bound
  have hfront := h.front_lt
  have hsize := h.size_eq
  have hlen := h.capacity_eq
  have hqlen := h.layout.length_of_le hle hq
  have hne : r.size ≠ 0 := by
    rw [hsize]
    exact mt List.length_eq_zero_iff.mp hq
  obtain ⟨high, low, hhigh, hlow, rfl, hhl⟩ := h.layout.load_around hle hq
  have hll := load_length hlow
  have hsub : sub32 r.capacity r.front = high.length := by
    rw [sub32_eq (by omega) hbound]
    omega
  rw [← hhl] at hhigh
  have hstore1 := store_replicate (0 : UInt8) [] high (n := n) (by omega)
  have hstore2 := store_replicate (0 : UInt8) high low (n := n - high.length) (by omega)
  simp only [List.nil_append, List.length_nil] at hstore1
  rw [Nat.sub_sub, ← List.length_append, ← List.append_assoc] at hstore2
  have hassert : r.size = add32 high.length r.end_ := by
    rw [add32_eq (by omega)]
    omega
  simp only [resize, ne_eq, hne, not_false_eq_true, ite_true, hle, hsub, copyOut_eq hhigh,
    copyOut_eq hlow, copyIn_eq hstore1, copyIn_eq hstore2, require_of_true hassert, ok_bind]
  rfl

theorem resize_holds (h : Holds r q) (hroom : q.length < n) (hn : n < 2 ^ 32) :
    ∃ r', r.resize n = .ok r' ∧ Holds r' q ∧ r'.capacity = n := by
  have hsize := h.size_eq
  have hresize : r.resize n = .ok (r.moved q n) := by
    by_cases hq : q = []
    · subst hq
      simp [resize, hsize, moved]
      rfl
    · rcases Nat.lt_or_ge r.front r.end_ with hlt | hle
      · exact resize_direct h hroom hlt
      · exact resize_around h hroom hle hq
  exact ⟨r.moved q n, hresize, moved_holds h hroom hn, rfl⟩

theorem ensure_holds (h : Holds r q) (hlt : q.length < n) (hn : n < 2 ^ 32) :
    ∃ r', r.ensure n = .ok r' ∧ Holds r' q ∧ n ≤ r'.capacity := by
  by_cases hle : n ≤ r.capacity
  · exact ⟨r, by simp [ensure, hle], h, hle⟩
  · obtain ⟨newcapacity, hgrow, hge, hbound⟩ :=
      growLoop_reaches hn 33 0 r.capacity rfl h.bound (by simp [Nat.mod_one])
    obtain ⟨r', hr', hholds, hcap⟩ := resize_holds h (by omega : q.length < newcapacity) hbound
    exact ⟨r', by simp [ensure, hle, hgrow, hr'], hholds, by omega⟩

theorem tryshrink_holds (h : Holds r q) : ∃ r', r.tryshrink = .ok r' ∧ Holds r' q := by
  by_cases hsize : r.size = 0
  · by_cases hlarge : BOUND_SIZE < r.capacity
    · have hq : q.length = 0 := by rw [← h.size_eq, hsize]
      obtain ⟨r', hr', hholds, -⟩ := resize_holds h (by rw [hq]; decide : q.length < SHRINK_SIZE)
        (by decide)
      exact ⟨r', by simp [tryshrink, hsize, hlarge, hr'], hholds⟩
    · exact ⟨r, by simp [tryshrink, hsize, hlarge], h⟩
  · exact ⟨r, by simp [tryshrink, hsize], h⟩

/-! ### Writing -/

theorem write_holds (h : Holds r q) (hne : bytes ≠ []) (hfit : q.length + bytes.length < 2 ^ 32) :
    ∃ r', r.write bytes = .ok r' ∧ Holds r' (q ++ bytes) := by
  have hpos := List.length_pos_of_ne_nil hne
  obtain ⟨r1, hensure, h1, hcap⟩ := ensure_holds h (n := q.length + bytes.length) (by omega) hfit
  have hlen := h1.capacity_eq
  have hbound := h1.bound
  have hend := h1.end_lt
  have hfront := h1.front_lt
  have hroom : q.length < r1.buff.length := by omega
  have hadd : add32 r.size bytes.length = q.length + bytes.length := by
    rw [h.size_eq, add32_eq hfit]
  have hadd1 : add32 r1.size bytes.length = q.length + bytes.length := by
    rw [h1.size_eq, add32_eq hfit]
  have hassert : r1.end_ = r1.front → r1.size = 0 := fun heq => by
    rw [h1.size_eq, h1.layout.nil_of_eq heq hroom, List.length_nil]
  have hnz : q.length + bytes.length ≠ 0 := by omega
  -- the copied bytes and the new end, whichever way the bytes go
  have hdone {buff : List UInt8} {fin : Nat} (hbuff : buff.length = r1.buff.length)
      (hlayout : Layout buff r1.front fin (q ++ bytes)) :
      Holds { r1 with buff, end_ := fin, size := q.length + bytes.length } (q ++ bytes) :=
    ⟨hlayout, hlen.trans hbuff.symm, by simp, hbound⟩
  by_cases hle : r1.front ≤ r1.end_
  · have hqlen := h1.layout.length_of_room hle hroom
    have hcount : sub32 r1.capacity r1.end_ = r1.buff.length - r1.end_ := by
      rw [sub32_eq (by omega) hbound, hlen]
    by_cases hin : bytes.length < r1.buff.length - r1.end_
    · obtain ⟨buff, hbuff⟩ := exists_store (show r1.end_ + bytes.length ≤ r1.buff.length by omega)
      have hnew : add32 r1.end_ bytes.length = r1.end_ + bytes.length := add32_eq (by omega)
      refine ⟨_, ?_, hdone (store_length hbuff) (h1.layout.write_after hle hroom hin hbuff)⟩
      simp only [write, hadd, hensure, hle, hcount, hin, hadd1, hnew, hnz, ite_true, ite_false,
        require_of_true hpos, require_of_true hassert, copyIn_eq hbuff, ok_bind, pure_bind]
      rfl
    · have hlen1 : (bytes.take (r1.buff.length - r1.end_)).length = r1.buff.length - r1.end_ := by
        rw [List.length_take]
        omega
      have hlen2 : (bytes.drop (r1.buff.length - r1.end_)).length =
          sub32 bytes.length (r1.buff.length - r1.end_) := by
        rw [List.length_drop, sub32_eq (by omega) (by omega)]
      have hsplit : bytes.take (r1.buff.length - r1.end_) ++
          bytes.drop (r1.buff.length - r1.end_) = bytes := List.take_append_drop _ _
      obtain ⟨buff, hbuff⟩ := exists_store
        (show r1.end_ + (bytes.take (r1.buff.length - r1.end_)).length ≤ r1.buff.length by omega)
      have hlen' := store_length hbuff
      obtain ⟨buff', hbuff'⟩ := exists_store
        (show 0 + (bytes.drop (r1.buff.length - r1.end_)).length ≤ buff.length by simp; omega)
      have hl := h1.layout.write_wrap hle hroom hlen1 (by rw [hsplit]; omega) hbuff hbuff'
      rw [hsplit] at hl
      refine ⟨_, ?_, hdone ((store_length hbuff').trans hlen') hl⟩
      simp only [write, hadd, hensure, hle, hcount, hin, hadd1, hnz, ite_true, ite_false, ← hlen2,
        List.take_length, require_of_true hpos, require_of_true hassert, copyIn_eq hbuff,
        copyIn_eq hbuff', ok_bind, pure_bind]
      rfl
  · have hlt : r1.end_ < r1.front := by omega
    have hqlen := h1.layout.length_of_gap hlt
    obtain ⟨buff, hbuff⟩ := exists_store (show r1.end_ + bytes.length ≤ r1.buff.length by omega)
    have hnew : add32 r1.end_ bytes.length = r1.end_ + bytes.length := add32_eq (by omega)
    have hl := h1.layout.write_gap hlt (by omega) hbuff
    refine ⟨_, ?_, hdone (store_length hbuff) hl⟩
    simp only [write, hadd, hensure, hle, hadd1, hnew, hnz, ite_false, require_of_true hpos,
      require_of_true hassert, copyIn_eq hbuff, ok_bind, pure_bind]
    rfl

/-! ### Reading -/

section Read

variable (h : Holds r q) (hpos : 0 < n) (hn : n ≤ q.length)
include h hpos hn

omit h in
theorem queue_ne_nil : q ≠ [] := List.ne_nil_of_length_pos (by omega)

/-- The bytes and the front that `read` and `look` compute, in their three cases. -/
theorem read_cases :
    (r.front < r.end_ ∧ r.front + q.length = r.end_ ∧
      load r.buff r.front n = some (q.take n) ∧
      Layout r.buff (r.front + n) r.end_ (q.drop n)) ∨
    (r.end_ ≤ r.front ∧ n < r.capacity - r.front ∧ load r.buff r.front n = some (q.take n) ∧
      Layout r.buff (r.front + n) r.end_ (q.drop n)) ∨
    (r.end_ ≤ r.front ∧ r.capacity - r.front ≤ n ∧
      (∃ high low, load r.buff r.front (r.capacity - r.front) = some high ∧
        load r.buff 0 (n - (r.capacity - r.front)) = some low ∧ high ++ low = q.take n) ∧
      Layout r.buff (n - (r.capacity - r.front)) r.end_ (q.drop n)) := by
  have hq := queue_ne_nil hpos hn
  rw [h.capacity_eq]
  rcases Nat.lt_or_ge r.front r.end_ with hlt | hle
  · exact .inl ⟨hlt, h.layout.length_of_lt hlt, h.layout.load_direct hlt hn,
      h.layout.pop_direct hlt hn⟩
  · rcases Nat.lt_or_ge n (r.buff.length - r.front) with hin | hout
    · exact .inr (.inl ⟨hle, hin, h.layout.load_high hle hq (Nat.le_of_lt hin), h.layout.pop_high hle hq hin⟩)
    · exact .inr (.inr ⟨hle, hout, h.layout.load_wrap hle hq hout hn,
        h.layout.pop_wrap hle hq hout hn⟩)

omit hpos in
theorem popped_holds {front : Nat} (hl : Layout r.buff front r.end_ (q.drop n)) :
    Holds { r with front, size := sub32 r.size n } (q.drop n) := by
  have := h.size_eq
  have := h.size_le
  have := h.bound
  exact ⟨hl, h.capacity_eq, by simp only [List.length_drop]; rw [sub32_eq] <;> omega, h.bound⟩

/-- `read` and `readConfirm` move the front alike.  Then `read` shrinks what it has emptied. -/
theorem consume_eq : ∃ front, Layout r.buff front r.end_ (q.drop n) ∧
    r.readConfirm n = .ok { r with front, size := sub32 r.size n } ∧
    r.read n = (do
      let r' ← if sub32 r.size n = 0 then tryshrink { r with front, size := sub32 r.size n }
        else pure { r with front, size := sub32 r.size n }
      return (q.take n, r')) := by
  have hsize := h.size_eq
  have hend := h.end_lt
  have hfront := h.front_lt
  have hbound := h.bound
  have hassert : n ≤ r.size ∧ n ≠ 0 := by omega
  have hcount : sub32 r.capacity r.front = r.capacity - r.front := sub32_eq (by omega) hbound
  rcases read_cases h hpos hn with ⟨hlt, hlen, hload, hl⟩ | ⟨hle, hin, hload, hl⟩ |
    ⟨hle, hout, ⟨high, low, hhigh, hlow, htake⟩, hl⟩
  · have hdebug : n ≤ sub32 r.end_ r.front := by rw [sub32_eq] <;> omega
    have hnew : add32 r.front n = r.front + n := add32_eq (by omega)
    refine ⟨r.front + n, hl, ?_, ?_⟩
    · simp only [readConfirm, require_of_true hassert, hlt, ite_true, require_of_true hdebug, hnew,
        ok_bind]
      rfl
    · simp only [read, require_of_true hassert, hlt, ite_true, require_of_true hdebug,
        copyOut_eq hload, hnew, ok_bind, pure_bind]
  · have hnew : add32 r.front n = r.front + n := add32_eq (by omega)
    refine ⟨r.front + n, hl, ?_, ?_⟩
    · simp only [readConfirm, require_of_true hassert, Nat.not_lt.mpr hle, ite_false, hcount, hin,
        ite_true, hnew, ok_bind]
      rfl
    · simp only [read, require_of_true hassert, Nat.not_lt.mpr hle, ite_false, hcount, hin,
        ite_true, copyOut_eq hload, hnew, ok_bind, pure_bind]
  · have hremain : sub32 n (r.capacity - r.front) = n - (r.capacity - r.front) :=
      sub32_eq hout (by have := h.size_le; omega)
    refine ⟨n - (r.capacity - r.front), hl, ?_, ?_⟩
    · simp only [readConfirm, require_of_true hassert, Nat.not_lt.mpr hle, ite_false, hcount,
        Nat.not_lt.mpr hout, hremain, ok_bind]
      rfl
    · simp only [read, require_of_true hassert, Nat.not_lt.mpr hle, ite_false, hcount,
        Nat.not_lt.mpr hout, hremain, copyOut_eq hhigh, copyOut_eq hlow, htake, ok_bind, pure_bind]

theorem read_holds : ∃ r', r.read n = .ok (q.take n, r') ∧ Holds r' (q.drop n) := by
  obtain ⟨front, hl, -, hread⟩ := consume_eq h hpos hn
  have hp := popped_holds h hn hl
  rw [hread]
  split
  · obtain ⟨r', hr', hholds⟩ := tryshrink_holds hp
    exact ⟨r', by rw [hr']; rfl, hholds⟩
  · exact ⟨_, rfl, hp⟩

theorem look_holds : r.look n = .ok (q.take n) := by
  have hsize := h.size_eq
  have hend := h.end_lt
  have hfront := h.front_lt
  have hbound := h.bound
  have hassert : n ≤ r.size ∧ n ≠ 0 := by omega
  have hcount : sub32 r.capacity r.front = r.capacity - r.front := sub32_eq (by omega) hbound
  rcases read_cases h hpos hn with ⟨hlt, hlen, hload, -⟩ | ⟨hle, hin, hload, -⟩ |
    ⟨hle, hout, ⟨high, low, hhigh, hlow, htake⟩, -⟩
  · have hdebug : n ≤ sub32 r.end_ r.front := by rw [sub32_eq] <;> omega
    simp only [look, require_of_true hassert, hlt, ite_true, require_of_true hdebug,
      copyOut_eq hload, ok_bind]
  · simp only [look, require_of_true hassert, Nat.not_lt.mpr hle, ite_false, hcount, Nat.le_of_lt hin,
      ite_true, copyOut_eq hload, ok_bind]
  · -- `look` takes the direct copy for `n = capacity - front`, where `read` does not
    rcases Nat.eq_or_lt_of_le hout with heq | hlt
    · have hload := h.layout.load_high hle (queue_ne_nil hpos hn) (n := n)
        (by rw [← h.capacity_eq]; omega)
      simp only [look, require_of_true hassert, Nat.not_lt.mpr hle, ite_false, hcount, Nat.le_of_eq heq.symm,
        ite_true, copyOut_eq hload, ok_bind]
    · have hremain : sub32 n (r.capacity - r.front) = n - (r.capacity - r.front) :=
        sub32_eq hout (by have := h.size_le; omega)
      simp only [look, require_of_true hassert, Nat.not_lt.mpr hle, ite_false, hcount,
        Nat.not_le.mpr hlt, hremain, copyOut_eq hhigh, copyOut_eq hlow, htake, ok_bind]
      rfl

theorem readConfirm_holds : ∃ r', r.readConfirm n = .ok r' ∧ Holds r' (q.drop n) := by
  obtain ⟨front, hl, hconfirm, -⟩ := consume_eq h hpos hn
  exact ⟨_, hconfirm, popped_holds h hn hl⟩

end Read

/-! ### Segments -/

/-- The content is in one segment, or in one up to the end of the storage and one from its start
on. -/
theorem readerv_cases (h : Holds r q) (hbound : r.size < 2 ^ 31) (hne : r.size ≠ 0) :
    (r.front < r.end_ ∧ r.getReadableVec.readerv = (⟨some r.front, r.size⟩, .clear)) ∨
    (r.end_ ≤ r.front ∧ r.size = r.capacity - r.front + r.end_ ∧
      r.getReadableVec.readerv =
        (⟨some r.front, (r.capacity - r.front : Nat)⟩, ⟨some 0, r.end_⟩)) := by
  have hfront := h.front_lt
  have hend := h.end_lt
  have hsize := h.size_eq
  rcases Nat.lt_or_ge r.front r.end_ with hlt | hge
  · exact .inl ⟨hlt, by simp [getReadableVec, hne, hlt, toInt32_eq hbound]⟩
  · have hq : q ≠ [] := List.ne_nil_of_length_pos (by omega)
    have hqlen := h.layout.length_of_le hge hq
    rw [← h.capacity_eq] at hqlen
    have hcount : sub32 r.capacity r.front = r.capacity - r.front :=
      sub32_eq (by omega) h.bound
    have hlen1 : toInt32 (r.capacity - r.front) = (r.capacity - r.front : Nat) :=
      toInt32_eq (by omega)
    have hlen2 : sub32 r.size (r.capacity - r.front) = r.end_ := by
      rw [sub32_eq (by omega) (by omega)]
      omega
    refine .inr ⟨hge, by omega, ?_⟩
    simp [getReadableVec, hne, Nat.not_lt.mpr hge, hcount, hlen1,
      ofInt32_natCast (show r.capacity - r.front < 2 ^ 32 by omega), hlen2,
      toInt32_eq (show r.end_ < 2 ^ 31 by omega)]

@[simp] theorem getReadableVec_buff : r.getReadableVec.buff = r.buff := by
  unfold getReadableVec
  split_ifs <;> rfl

/-- The content in one or two segments. -/
theorem getReadableVec_gather (h : Holds r q) (hbound : r.size < 2 ^ 31) :
    r.getReadableVec.gather r.getReadableVec.readerv = .ok q := by
  by_cases hq : q = []
  · subst hq
    have hsize0 : r.size = 0 := h.size_eq
    simp [getReadableVec, hsize0, gather, gather1, SBufferVec.clear]
  have hne : r.size ≠ 0 := by
    rw [h.size_eq]
    exact mt List.length_eq_zero_iff.mp hq
  rcases readerv_cases h hbound hne with ⟨hlt, hseg⟩ | ⟨hge, -, hseg⟩
  · have hload := h.layout.load_direct hlt (le_refl q.length)
    rw [List.take_length, ← h.size_eq] at hload
    simp [hseg, gather, gather1, SBufferVec.clear, copyOut_eq hload]
  · obtain ⟨high, low, hhigh, hlow, hql, -⟩ := h.layout.load_around hge hq
    rw [← h.capacity_eq] at hhigh
    simp [hseg, gather, gather1, copyOut_eq hhigh, copyOut_eq hlow, hql]

theorem getReadableVec_holds (h : Holds r q) : Holds r.getReadableVec q := by
  unfold getReadableVec
  split_ifs
  · exact h.segments r.writerv _
  · exact h.segments r.writerv _
  · exact h.segments r.writerv _

/-- The segments that `getWriteableVec` offers, without machine arithmetic. -/
def freeSegments (r : CRingBuffer) : SBufferVec × SBufferVec :=
  if r.size = r.capacity then (.clear, .clear)
  else if r.front ≤ r.end_ then
    (⟨some r.end_, (r.capacity - r.end_ : Nat)⟩,
      ⟨if 1 < r.front then some 0 else none, (r.front - 1 : Nat)⟩)
  else (⟨some r.end_, (r.front - r.end_ : Nat)⟩, .clear)

theorem getWriteableVec_eq (h : Holds r q) (hcap : r.capacity < 2 ^ 31) :
    r.getWriteableVec = .ok { r with writerv := r.freeSegments } := by
  have hsize := h.size_eq
  have hfront := h.front_lt
  have hend := h.end_lt
  by_cases hfull : r.size = r.capacity
  · simp [getWriteableVec, freeSegments, hfull]
    rfl
  by_cases hle : r.front ≤ r.end_
  · have hassert : r.size = 0 → r.end_ = r.front := fun h0 => by
      have := h.end_eq
      rw [h0, Nat.add_zero, Nat.mod_eq_of_lt hfront] at this
      exact this.symm
    have hlen1 : sub32 r.capacity r.end_ = r.capacity - r.end_ := sub32_eq (by omega) h.bound
    have hpos1 : 0 < r.capacity - r.end_ := by omega
    have hint1 : toInt32 (r.capacity - r.end_) = (r.capacity - r.end_ : Nat) :=
      toInt32_eq (by omega)
    have hsecond : (if 0 < r.front then
        (⟨if 0 < sub32 r.front 1 then some 0 else none,
          toInt32 (if 0 < sub32 r.front 1 then sub32 r.front 1 else 0)⟩ : SBufferVec)
        else .clear) = ⟨if 1 < r.front then some 0 else none, (r.front - 1 : Nat)⟩ := by
      rcases Nat.eq_zero_or_pos r.front with hzero | hpos
      · simp [hzero, SBufferVec.clear]
      · have hlen2 : sub32 r.front 1 = r.front - 1 := sub32_eq hpos (by omega)
        have hint2 : toInt32 (r.front - 1) = (r.front - 1 : Nat) := toInt32_eq (by omega)
        rcases Nat.eq_or_lt_of_le hpos with hone | hlt
        · simp [← hone, show sub32 1 1 = 0 from rfl]
        · simp only [hpos, hlen2, hlt, hint2, Nat.sub_pos_of_lt hlt, ite_true]
    simp only [getWriteableVec, freeSegments, hfull, hle, require_of_true hassert, hlen1, hpos1,
      hint1, hsecond, ite_true, ite_false, ok_bind]
    rfl
  · have hlen1 : sub32 r.front r.end_ = r.front - r.end_ := sub32_eq (by omega) (by omega)
    simp [getWriteableVec, freeSegments, hfull, hle, hlen1,
      toInt32_eq (show r.front - r.end_ < 2 ^ 31 by omega)]
    rfl

/-- What the storage holds in the segments that `getWriteableVec` offers. -/
def freeBytes (r : CRingBuffer) : List UInt8 :=
  if r.size = r.capacity then []
  else if r.front ≤ r.end_ then r.buff.drop r.end_ ++ r.buff.take (r.front - 1)
  else (r.buff.drop r.end_).take (r.front - r.end_)

/-- The bytes that the offered segments take. -/
def offeredBytes (r : CRingBuffer) : Int := r.writerv.1.len + r.writerv.2.len

/-- The three shapes of the free bytes: none, at the end and before the front, or between the end
and the front. -/
theorem free_cases (h : Holds r q) :
    (r.size = r.capacity ∧ r.freeSegments = (.clear, .clear) ∧ r.freeBytes = []) ∨
    (q.length < r.capacity ∧ r.front ≤ r.end_ ∧
      r.freeSegments = (⟨some r.end_, (r.capacity - r.end_ : Nat)⟩,
        ⟨if 1 < r.front then some 0 else none, (r.front - 1 : Nat)⟩) ∧
      r.freeBytes = r.buff.drop r.end_ ++ r.buff.take (r.front - 1)) ∨
    (r.end_ < r.front ∧ r.freeSegments = (⟨some r.end_, (r.front - r.end_ : Nat)⟩, .clear) ∧
      r.freeBytes = (r.buff.drop r.end_).take (r.front - r.end_)) := by
  have hsize := h.size_eq
  have hle := h.size_le
  unfold freeSegments freeBytes
  by_cases hfull : r.size = r.capacity
  · simp [hfull]
  · by_cases hdirect : r.front ≤ r.end_
    · simp [hfull, hdirect]
      omega
    · simp [hfull, hdirect]
      omega

theorem freeBytes_length (h : Holds r q) (hw : r.writerv = r.freeSegments) :
    (r.freeBytes.length : Int) = r.offeredBytes := by
  have hlen := h.capacity_eq
  have hfront := h.front_lt
  have hend := h.end_lt
  unfold offeredBytes
  rcases free_cases h with ⟨-, hseg, hfree⟩ | ⟨-, hle, hseg, hfree⟩ | ⟨hlt, hseg, hfree⟩
  · simp [hw, hseg, hfree, SBufferVec.clear]
  · simp [hw, hseg, hfree]
    omega
  · simp [hw, hseg, hfree, SBufferVec.clear]
    omega

/-- The segment before the front is null when it is empty. -/
theorem gather1_before {mem : List UInt8} {front : Nat} (h : front ≤ mem.length) :
    gather1 mem ⟨if 1 < front then some 0 else none, (front - 1 : Nat)⟩ =
      .ok (mem.take (front - 1)) := by
  by_cases hone : 1 < front
  · have hload : load mem 0 (front - 1) = some (mem.take (front - 1)) := by
      rw [load_of_le (by omega), List.drop_zero]
    simp [gather1, hone, copyOut_eq hload]
  · have hzero : front - 1 = 0 := by omega
    simp [gather1, hone, hzero]

theorem scatter1_before {mem mem' : List UInt8} {front : Nat} (hfit : bytes.length ≤ front - 1)
    (hstore : store mem 0 bytes = some mem') :
    scatter1 mem ⟨if 1 < front then some 0 else none, (front - 1 : Nat)⟩ bytes = .ok mem' := by
  by_cases hone : 1 < front
  · simp [scatter1, hone, copyIn_eq hstore]
  · obtain rfl : bytes = [] := List.length_eq_zero_iff.mp (by omega)
    rw [store_nil (Nat.zero_le _)] at hstore
    simpa [scatter1, hone] using hstore

theorem freeSegments_gather (h : Holds r q) (hw : r.writerv = r.freeSegments) :
    r.gather r.writerv = .ok r.freeBytes := by
  have hlen := h.capacity_eq
  have hfront := h.front_lt
  have hend := h.end_lt
  rcases free_cases h with ⟨-, hseg, hfree⟩ | ⟨-, hle, hseg, hfree⟩ | ⟨hlt, hseg, hfree⟩
  · simp [hw, hseg, hfree, gather, gather1, SBufferVec.clear]
  · have hhigh : load r.buff r.end_ (r.capacity - r.end_) = some (r.buff.drop r.end_) := by
      rw [load_of_le (by omega), hlen, List.take_of_length_le (by simp)]
    rw [hw, hseg, hfree]
    simp only [gather, gather1_before (show r.front ≤ r.buff.length by omega)]
    simp [gather1, copyOut_eq hhigh]
  · have hload := load_of_le (show r.end_ + (r.front - r.end_) ≤ r.buff.length by omega)
    rw [hw, hseg, hfree]
    simp [gather, gather1, SBufferVec.clear, copyOut_eq hload]

/-- The free bytes start with what was stored at their start. -/
theorem take_store {mem mem' : List UInt8} {off : Nat} (hstore : store mem off bytes = some mem')
    (hn : bytes.length ≤ n) :
    (mem'.drop off).take n = bytes ++ ((mem.drop off).take n).drop bytes.length := by
  apply List.ext_getElem?
  intro i
  have hlen := store_length hstore
  have hfit := (store_eq_some.mp hstore).1
  simp only [List.getElem?_take, List.getElem?_drop, List.getElem?_append,
    store_getElem? hstore]
  split_ifs <;> first | rfl | omega | (congr 1; omega)

/-- What the bytes stored in the offered segments do to the storage. -/
def Scatters (r : CRingBuffer) (q bytes : List UInt8) : Prop :=
  ∃ buff, r.scatter bytes = .ok { r with buff } ∧ buff.length = r.buff.length ∧
    Layout buff r.front r.end_ q ∧
    freeBytes { r with buff } = bytes ++ r.freeBytes.drop bytes.length

/-- The free bytes are those after the end and, all but one, those before the front. -/
theorem scatter_ends (h : Holds r q)
    (hw : r.writerv = (⟨some r.end_, (r.capacity - r.end_ : Nat)⟩,
      ⟨if 1 < r.front then some 0 else none, (r.front - 1 : Nat)⟩))
    (hfree : r.freeBytes = r.buff.drop r.end_ ++ r.buff.take (r.front - 1))
    (hroom : q.length < r.capacity) (hle : r.front ≤ r.end_)
    (hfit : bytes.length ≤ r.freeBytes.length) : r.Scatters q bytes := by
  have hlen := h.capacity_eq
  have hend := h.end_lt
  have hsize := h.size_eq
  obtain ⟨h1, h2⟩ := Prod.ext_iff.mp hw
  simp only [hfree, List.length_append, List.length_drop, List.length_take] at hfit
  obtain ⟨buff1, hbuff1⟩ := exists_store
    (show r.end_ + (bytes.take (r.capacity - r.end_)).length ≤ r.buff.length by simp; omega)
  have hlen1 := store_length hbuff1
  obtain ⟨buff2, hbuff2⟩ := exists_store
    (show 0 + (bytes.drop (r.capacity - r.end_)).length ≤ buff1.length by simp; omega)
  have hlen2 := store_length hbuff2
  have hl := (h.layout.store_after hle (by omega) (Nat.le_refl _) hbuff1).store_before hle
    (by omega) (by simp; omega) hbuff2
  refine ⟨buff2, ?_, hlen2.trans hlen1, hl, ?_⟩
  · have hfirst : scatter1 r.buff ⟨some r.end_, (r.capacity - r.end_ : Nat)⟩
        (bytes.take (r.capacity - r.end_)) = .ok buff1 := copyIn_eq hbuff1
    have hsecond := scatter1_before (show (bytes.drop (r.capacity - r.end_)).length ≤
      r.front - 1 by simp; omega) hbuff2
    simp only [scatter, h1, h2, Int.toNat_natCast, hfirst, hsecond, ok_bind]
    rfl
  · have hfree' : freeBytes { r with buff := buff2 } =
        buff2.drop r.end_ ++ buff2.take (r.front - 1) := by
      simp [freeBytes, hle, show r.size ≠ r.capacity by omega]
    rw [hfree', hfree]
    apply List.ext_getElem?
    intro i
    simp only [List.getElem?_append, List.getElem?_drop, List.getElem?_take,
      store_getElem? hbuff2, store_getElem? hbuff1, List.length_drop, List.length_take, hlen2,
      hlen1]
    split_ifs <;> first | rfl | omega | (congr 1; omega)

/-- The free bytes are those between the end and the front. -/
theorem scatter_gap (h : Holds r q)
    (hw : r.writerv = (⟨some r.end_, (r.front - r.end_ : Nat)⟩, .clear))
    (hfree : r.freeBytes = (r.buff.drop r.end_).take (r.front - r.end_)) (hlt : r.end_ < r.front)
    (hfit : bytes.length ≤ r.freeBytes.length) : r.Scatters q bytes := by
  have hlen := h.capacity_eq
  have hfront := h.front_lt
  obtain ⟨h1, h2⟩ := Prod.ext_iff.mp hw
  have hne : r.size ≠ r.capacity := by
    intro hfull
    have := congrArg List.length hfree
    simp [freeBytes, hfull] at this
    omega
  simp only [hfree, List.length_take, List.length_drop] at hfit
  have hall : bytes.take (r.front - r.end_) = bytes := List.take_of_length_le (by omega)
  have hnone : bytes.drop (r.front - r.end_) = [] := List.drop_of_length_le (by omega)
  obtain ⟨buff, hbuff⟩ := exists_store (show r.end_ + bytes.length ≤ r.buff.length by omega)
  have hl := h.layout.store_gap hlt (Nat.le_refl _) (by omega) hbuff
  refine ⟨buff, ?_, store_length hbuff, hl, ?_⟩
  · simp only [scatter, h1, h2, Int.toNat_natCast, hall, hnone]
    simp [scatter1, copyIn_eq hbuff, SBufferVec.clear]
  · have hfree' : freeBytes { r with buff } = (buff.drop r.end_).take (r.front - r.end_) := by
      simp [freeBytes, hne, Nat.not_le.mpr hlt]
    rw [hfree', hfree, take_store hbuff (by omega)]

/-- Bytes stored in the offered segments are no part of the content, and are what the segments
then hold first. -/
theorem scatter_holds (h : Holds r q) (hw : r.writerv = r.freeSegments)
    (hfit : bytes.length ≤ r.freeBytes.length) :
    ∃ r', r.scatter bytes = .ok r' ∧ Holds r' q ∧ r'.capacity = r.capacity ∧
      r'.writerv = r'.freeSegments ∧
      r'.freeBytes = bytes ++ r.freeBytes.drop bytes.length := by
  have hscatters : r.Scatters q bytes := by
    rcases free_cases h with ⟨-, hseg, hfree⟩ | ⟨hroom, hle, hseg, hfree⟩ | ⟨hlt, hseg, hfree⟩
    · obtain rfl : bytes = [] := List.length_eq_zero_iff.mp (by simpa [hfree] using hfit)
      obtain ⟨h1, h2⟩ := Prod.ext_iff.mp (hw.trans hseg)
      refine ⟨r.buff, ?_, rfl, h.layout, by simp⟩
      simp only [scatter, h1, h2]
      simp [scatter1, SBufferVec.clear]
    · exact scatter_ends h (hw.trans hseg) hfree hroom hle hfit
    · exact scatter_gap h (hw.trans hseg) hfree hlt hfit
  obtain ⟨buff, hscatter, hlen, hl, hfree⟩ := hscatters
  exact ⟨_, hscatter, ⟨hl, h.capacity_eq.trans hlen.symm, h.size_eq, h.bound⟩, rfl, hw, hfree⟩

theorem confirmed_holds {fin : Nat} (h : Holds r q) (hfit : q.length + bytes.length ≤ r.capacity)
    (hl : Layout r.buff r.front fin (q ++ bytes)) :
    Holds { r with end_ := fin, size := add32 r.size bytes.length } (q ++ bytes) := by
  have hbound := h.bound
  refine ⟨hl, h.capacity_eq, ?_, hbound⟩
  simp only [List.length_append]
  rw [h.size_eq, add32_eq (by omega)]

theorem writeConfirm_ends (h : Holds r q)
    (hfree : r.freeBytes = r.buff.drop r.end_ ++ r.buff.take (r.front - 1))
    (hroom : q.length < r.capacity) (hle : r.front ≤ r.end_) (hpos : 0 < n)
    (hn : n ≤ r.freeBytes.length) :
    ∃ r', r.writeConfirm n = .ok r' ∧ Holds r' (q ++ r.freeBytes.take n) := by
  have hlen := h.capacity_eq
  have hend := h.end_lt
  have hsize := h.size_eq
  have hbound := h.bound
  have hqlen := h.layout.length_of_room hle (by omega)
  have hadded : (r.freeBytes.take n).length = n := List.length_take_of_le hn
  simp only [hfree, List.length_append, List.length_drop, List.length_take] at hn
  have hassert : 0 < n ∧ add32 r.size n ≤ r.capacity := by
    rw [add32_eq (by omega)]
    omega
  have hcount : sub32 r.capacity r.end_ = r.buff.length - r.end_ := by
    rw [sub32_eq (by omega) hbound, hlen]
  have hdone {fin : Nat} (hl : Layout r.buff r.front fin (q ++ r.freeBytes.take n)) :
      Holds { r with end_ := fin, size := add32 r.size n } (q ++ r.freeBytes.take n) := by
    have hholds := confirmed_holds h (by omega) hl
    rwa [hadded] at hholds
  by_cases hin : n < r.buff.length - r.end_
  · have htake : r.freeBytes.take n = (r.buff.drop r.end_).take n := by
      rw [hfree, List.take_append_of_le_length (by simp; omega)]
    have hload := load_of_le (show r.end_ + n ≤ r.buff.length by omega)
    rw [← htake] at hload
    have hnew : add32 r.end_ n = r.end_ + n := add32_eq (by omega)
    refine ⟨_, ?_, hdone (h.layout.commit_after hle (by omega) hin hload)⟩
    simp only [writeConfirm, require_of_true hassert, hle, hcount, hin, hnew, ite_true, ok_bind]
    rfl
  · have hhigh : load r.buff r.end_ (r.buff.length - r.end_) = some (r.buff.drop r.end_) := by
      rw [load_of_le (by omega), List.take_of_length_le (by simp)]
    have hlow := load_of_le (show 0 + (n - (r.buff.length - r.end_)) ≤ r.buff.length by omega)
    have htake : r.freeBytes.take n = r.buff.drop r.end_ ++
        (r.buff.drop 0).take (n - (r.buff.length - r.end_)) := by
      rw [hfree, List.take_append, List.take_of_length_le (by simp; omega), List.take_take,
        List.length_drop, List.drop_zero, Nat.min_eq_left (by omega)]
    have hl := h.layout.commit_wrap hle (by omega) (Nat.le_of_not_lt hin) (by omega) hhigh hlow
    rw [← htake] at hl
    have hremain : sub32 n (r.buff.length - r.end_) = n - (r.buff.length - r.end_) :=
      sub32_eq (by omega) (by omega)
    refine ⟨_, ?_, hdone hl⟩
    simp only [writeConfirm, require_of_true hassert, hle, hcount, hin, hremain, ite_true,
      ite_false, ok_bind]
    rfl

theorem writeConfirm_gap (h : Holds r q)
    (hfree : r.freeBytes = (r.buff.drop r.end_).take (r.front - r.end_)) (hlt : r.end_ < r.front)
    (hpos : 0 < n) (hn : n ≤ r.freeBytes.length) :
    ∃ r', r.writeConfirm n = .ok r' ∧ Holds r' (q ++ r.freeBytes.take n) := by
  have hlen := h.capacity_eq
  have hfront := h.front_lt
  have hsize := h.size_eq
  have hbound := h.bound
  have hqlen := h.layout.length_of_gap hlt
  have hadded : (r.freeBytes.take n).length = n := List.length_take_of_le hn
  simp only [hfree, List.length_drop, List.length_take] at hn
  have hassert : 0 < n ∧ add32 r.size n ≤ r.capacity := by
    rw [add32_eq (by omega)]
    omega
  have htake : r.freeBytes.take n = (r.buff.drop r.end_).take n := by
    rw [hfree, List.take_take, Nat.min_eq_left (by omega)]
  have hload := load_of_le (show r.end_ + n ≤ r.buff.length by omega)
  rw [← htake] at hload
  have hnew : add32 r.end_ n = r.end_ + n := add32_eq (by omega)
  have hholds := confirmed_holds h (by omega) (h.layout.commit_gap hlt (by omega) hload)
  rw [hadded] at hholds
  refine ⟨_, ?_, hholds⟩
  simp only [writeConfirm, require_of_true hassert, Nat.not_le.mpr hlt, hnew, ite_false, ok_bind]
  rfl

/-- Committing bytes of the offered segments adds them to the content. -/
theorem writeConfirm_holds (h : Holds r q) (hpos : 0 < n) (hn : n ≤ r.freeBytes.length) :
    ∃ r', r.writeConfirm n = .ok r' ∧ Holds r' (q ++ r.freeBytes.take n) := by
  rcases free_cases h with ⟨-, -, hfree⟩ | ⟨hroom, hle, -, hfree⟩ | ⟨hlt, -, hfree⟩
  · rw [hfree, List.length_nil] at hn
    omega
  · exact writeConfirm_ends h hfree hroom hle hpos hn
  · exact writeConfirm_gap h hfree hlt hpos hn

/-! ### Operations that returned -/

section Returned

variable {r' : CRingBuffer}

theorem write_keeps (h : Holds r q) (hfit : r.size + bytes.length < 2 ^ 32)
    (hwrite : r.write bytes = .ok r') : Holds r' (q ++ bytes) := by
  obtain ⟨_, hassert, -⟩ := of_bind_ok hwrite
  obtain ⟨s, hs, hholds⟩ :=
    write_holds h (List.ne_nil_of_length_pos (of_require hassert)) (h.size_eq ▸ hfit)
  obtain rfl := Except.ok.inj (hs.symm.trans hwrite)
  exact hholds

theorem read_keeps {out : List UInt8} (h : Holds r q) (hread : r.read n = .ok (out, r')) :
    Holds r' (q.drop n) := by
  obtain ⟨_, hassert, -⟩ := of_bind_ok hread
  have hn := of_require hassert
  obtain ⟨s, hs, hholds⟩ := read_holds h (Nat.pos_of_ne_zero hn.2) (h.size_eq ▸ hn.1)
  obtain ⟨-, rfl⟩ := Prod.mk.inj (Except.ok.inj (hs.symm.trans hread))
  exact hholds

theorem tryshrink_keeps (h : Holds r q) (hshrink : r.tryshrink = .ok r') : Holds r' q := by
  obtain ⟨s, hs, hholds⟩ := tryshrink_holds h
  obtain rfl := Except.ok.inj (hs.symm.trans hshrink)
  exact hholds

theorem getWriteableVec_ring (hoffer : r.getWriteableVec = .ok r') :
    ∃ w, r' = { r with writerv := w } := by
  unfold getWriteableVec at hoffer
  split at hoffer
  · exact ⟨_, (Except.ok.inj hoffer).symm⟩
  · split at hoffer
    · obtain ⟨-, -, hoffer⟩ := of_bind_ok hoffer
      exact ⟨_, (Except.ok.inj hoffer).symm⟩
    · exact ⟨_, (Except.ok.inj hoffer).symm⟩

theorem readConfirm_keeps (h : Holds r q) (hconfirm : r.readConfirm n = .ok r') :
    Holds r' (q.drop n) := by
  obtain ⟨_, hassert, -⟩ := of_bind_ok hconfirm
  have hn := of_require hassert
  obtain ⟨s, hs, hholds⟩ :=
    readConfirm_holds h (Nat.pos_of_ne_zero hn.2) (h.size_eq ▸ hn.1)
  obtain rfl := Except.ok.inj (hs.symm.trans hconfirm)
  exact hholds

end Returned

end ZlNet.Network.CRingBuffer
