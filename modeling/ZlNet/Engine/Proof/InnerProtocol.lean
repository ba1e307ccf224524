import ZlNet.Engine.Frame
import ZlNet.Network.Proof.Buffer
import ZlNet.Network.Proof.RingBuffer

/-! `onUnserialize` on a ring buffer finds in it the frames of the bytes that it holds. -/

namespace ZlNet.Engine.InnerProtocol

open Network Lib Lib.Bytes Lib.Block Lib.Word

/-! ### One frame -/

section Message

variable {host : Endian} {key : UInt32} {b : StackBuffer}

theorem field_eq (head off : Nat) (h : head + off + 4 ≤ b.size) :
    field host b head off = .ok (wordAt b.content (head + off)) := by
  have hload := load_of_le (show head + off + 4 ≤ b.content.length from h)
  have hlen : ((b.content.drop (head + off)).take 4).length = 4 := by
    have hle : head + off + 4 ≤ b.content.length := h
    rw [List.length_take, List.length_drop]
    omega
  simp only [field, copyOut_eq hload, ok_bind]
  rw [networkToHost32_load32 host hlen]
  rfl

theorem deref_readPtr {pos n : Nat} (h : pos + n ≤ b.size) (hb : b.size < 2 ^ 32) :
    deref (b.readPtr pos n) = .ok pos := by
  rw [StackBuffer.readPtr_of_le h (by omega)]
  rfl

theorem deref_head {n : Nat} (h : n ≤ b.size) (hb : b.size < 2 ^ 32) :
    deref (b.readPtr 0 n) = .ok 0 :=
  deref_readPtr (by omega) hb

theorem deref_readPtr_null (pos n : Nat) (h : b.size < pos + n) (hfit : pos + n < 2 ^ 32) :
    deref (b.readPtr pos n) = .error .nullPointer := by
  rw [StackBuffer.readPtr_of_lt h hfit]
  rfl

variable {header : Nat} {size : UInt32} (hsize : size.toNat = b.size) (hb : b.size < 2 ^ 32)
include hsize hb

theorem getMessage_eq (hwell : WellSized header b.size) :
    getMessage host b header header size = .ok (frameMessage header b.content) := by
  have hlen : b.content.length = b.size := rfl
  unfold getMessage frameMessage
  rw [hsize, hlen]
  by_cases hle : b.size ≤ header
  · have : b.size ≤ header + 4 := by omega
    simp only [hle, this, ite_true]
    rfl
  have hid : header + 4 ≤ b.size := by
    rcases hwell with hwell | hwell <;> omega
  rw [sub32_eq hid hb]
  simp only [hle, ite_false, deref_readPtr hid hb, field_eq header 0 hid, ok_bind]
  by_cases hempty : b.size ≤ header + 4
  · have hzero : b.size - (header + 4) = 0 := by omega
    simp only [hzero, hempty, ite_true]
    rfl
  · have hzero : b.size - (header + 4) ≠ 0 := by omega
    have hload := load_of_le
      (show header + 4 + (b.size - (header + 4)) ≤ b.content.length by omega)
    have hall : (b.content.drop (header + 4)).take (b.size - (header + 4)) =
        b.content.drop (header + 4) := by
      rw [← hlen, ← List.length_drop, List.take_length]
    have hbody : header + 4 + (b.size - (header + 4)) ≤ b.size := by omega
    simp only [hzero, hempty, ite_false, deref_readPtr hbody hb, ok_bind, copyOut_eq hload, hall]
    rfl

omit hb in
theorem getMessage_null (hlt : header < b.size) (hshort : b.size < header + 4)
    (hheader : header + 4 < 2 ^ 32) :
    getMessage host b header header size = .error .nullPointer := by
  have hnot : ¬b.size ≤ header := by omega
  unfold getMessage
  rw [hsize]
  simp only [hnot, ite_false, deref_readPtr_null header 4 hshort hheader]
  rfl

theorem getMessage_cases (host : Endian) (hle : header ≤ b.size) (hheader : header + 4 < 2 ^ 32) :
    getMessage host b header header size =
      if WellSized header b.size then .ok (frameMessage header b.content)
      else .error .nullPointer := by
  by_cases hwell : WellSized header b.size
  · simp only [hwell, ite_true, getMessage_eq hsize hb]
  · have hshort : header < b.size ∧ b.size < header + 4 := by
      unfold WellSized at hwell
      omega
    simp only [hwell, ite_false, getMessage_null hsize hshort.1 hshort.2 hheader]

end Message

section Frame

variable (host : Endian) (key : UInt32) {b : StackBuffer}
  (hsize : sizeofBlock ≤ b.size → (wordAt b.content 1).toNat = b.size) (hb : b.size < 2 ^ 32)
include hsize hb

omit hsize hb in
theorem wellSized_le {header size : Nat} (h : WellSized header size) : header ≤ size := by
  rcases h with h | h <;> omega

theorem getCall_eq :
    getCall host key b =
      if WellSized sizeofHeaderCall b.size then
        .ok (.packet ⟨key, wordAt b.content 5, wordAt b.content 9, 0,
          frameMessage sizeofHeaderCall b.content⟩)
      else .error .nullPointer := by
  by_cases hle : sizeofHeaderCall ≤ b.size
  · have hfields : 13 ≤ b.size := hle
    have hsize := hsize (Nat.le_trans (by decide) hle)
    have h1 : field host b 0 1 = .ok (wordAt b.content 1) := field_eq 0 1 (by omega)
    have h5 : field host b 0 5 = .ok (wordAt b.content 5) := field_eq 0 5 (by omega)
    have h9 : field host b 0 9 = .ok (wordAt b.content 9) := field_eq 0 9 (by omega)
    simp only [getCall, deref_head hle hb, ok_bind, h1, h5, h9,
      getMessage_cases hsize hb host hle (by decide)]
    split <;> rfl
  · have hnull := deref_readPtr_null (b := b) 0 sizeofHeaderCall (by omega) (by decide)
    have hill : ¬WellSized sizeofHeaderCall b.size := fun h => hle (wellSized_le h)
    simp only [getCall, hnull, hill, ite_false]
    rfl

theorem getCallback_eq :
    getCallback host key b =
      if WellSized sizeofHeaderCallback b.size then
        .ok (.packet ⟨key, 0, wordAt b.content 5, wordAt b.content 9,
          frameMessage sizeofHeaderCallback b.content⟩)
      else .error .nullPointer := by
  by_cases hle : sizeofHeaderCallback ≤ b.size
  · have hfields : 13 ≤ b.size := hle
    have hsize := hsize (Nat.le_trans (by decide) hle)
    have h1 : field host b 0 1 = .ok (wordAt b.content 1) := field_eq 0 1 (by omega)
    have h5 : field host b 0 5 = .ok (wordAt b.content 5) := field_eq 0 5 (by omega)
    have h9 : field host b 0 9 = .ok (wordAt b.content 9) := field_eq 0 9 (by omega)
    have hmessage := getMessage_cases hsize hb host hle (by decide)
    simp only [getCallback, deref_head hle hb, ok_bind, h1, h5, h9]
    change (getMessage host b sizeofHeaderCallback sizeofHeaderCallback _ >>= _) = _
    rw [hmessage]
    split <;> rfl
  · have hnull := deref_readPtr_null (b := b) 0 sizeofHeaderCallback (by omega) (by decide)
    have hill : ¬WellSized sizeofHeaderCallback b.size := fun h => hle (wellSized_le h)
    simp only [getCallback, hnull, hill, ite_false]
    rfl

theorem getMessageFrame_eq :
    getMessageFrame host key b =
      if WellSized sizeofHeaderMessage b.size then
        .ok (if wordAt b.content 5 = Heart then .heart
          else .packet ⟨key, wordAt b.content 5, 0, 0, frameMessage sizeofHeaderMessage b.content⟩)
      else .error .nullPointer := by
  by_cases hle : sizeofHeaderMessage ≤ b.size
  · have hfields : 9 ≤ b.size := hle
    have hsize := hsize (Nat.le_trans (by decide) hle)
    have h1 : field host b 0 1 = .ok (wordAt b.content 1) := field_eq 0 1 (by omega)
    have h5 : field host b 0 5 = .ok (wordAt b.content 5) := field_eq 0 5 (by omega)
    simp only [getMessageFrame, deref_head hle hb, ok_bind, h1, h5,
      getMessage_cases hsize hb host hle (by decide)]
    split <;> rfl
  · have hnull := deref_readPtr_null (b := b) 0 sizeofHeaderMessage (by omega) (by decide)
    have hill : ¬WellSized sizeofHeaderMessage b.size := fun h => hle (wellSized_le h)
    simp only [getMessageFrame, hnull, hill, ite_false]
    rfl

end Frame

/-! ### The loop -/

variable (host : Endian) (key : UInt32) {r : CRingBuffer} {q : List UInt8}

/-- A turn of the loop does what the frame at the start of the content asks for. -/
inductive TurnDoes : Decoded UInt8 Dispatch Stop → Except Fault Turn → Prop
  | incomplete : TurnDoes .more (.ok .incomplete)
  | next {e : Dispatch} {rest : List UInt8} {r : CRingBuffer} :
      r.Holds rest → TurnDoes (.item e rest) (.ok (.next e r))
  | reject {r : CRingBuffer} : TurnDoes (.halt .rejected) (.ok (.reject r))
  | abort {f : Fault} : TurnDoes (.halt (.aborted f)) (.error f)

theorem block_type (h : sizeofBlock ≤ q.length) : (q.take sizeofBlock).headD 0 = frameType q := by
  cases q with
  | nil => simp [sizeofBlock] at h
  | cons b q => rfl

theorem block_size (host : Endian) (h : sizeofBlock ≤ q.length) :
    networkToHost32 host (load32 host ((q.take sizeofBlock).drop 1)) = wordAt q 1 := by
  have hbytes : (q.take sizeofBlock).drop 1 = (q.drop 1).take 4 := by
    rw [List.drop_take]
    rfl
  have hlen : ((q.drop 1).take 4).length = 4 := by
    unfold sizeofBlock at h
    rw [List.length_take, List.length_drop]
    omega
  rw [hbytes, networkToHost32_load32 host hlen]
  rfl

/-- The stack buffer that a frame of `n` bytes is read into. -/
theorem innerBuf_eq {n : Nat} (hn : n < 2 ^ 32) :
    ∃ b capacity, (StackBuffer.new INIT_BUFFER_SIZE).ensure n = .ok b ∧
      b.writePtr 0 n = .ok (some 0, ⟨List.replicate n 0, capacity⟩) := by
  obtain ⟨c, hc⟩ := (StackBuffer.new INIT_BUFFER_SIZE).ensure_eq hn
  obtain ⟨c', hc'⟩ := StackBuffer.writePtr_empty (b := ⟨[], c⟩) rfl hn
  exact ⟨_, c', hc, hc'⟩

theorem turn_incomplete (h : r.Holds q) (hblock : sizeofBlock ≤ q.length)
    (hlt : q.length < declared q) : turn host key r = .ok .incomplete := by
  have hlook := CRingBuffer.look_holds h (n := sizeofBlock) (by decide) hblock
  have hsize : r.size < (wordAt q 1).toNat := h.size_eq ▸ hlt
  simp only [turn, hlook, ok_bind, block_size host hblock, hsize, ite_true]
  rfl

/-- A frame of declared size zero asks the ring buffer for no bytes. -/
theorem turn_zero (h : r.Holds q) (hblock : sizeofBlock ≤ q.length) (hzero : declared q = 0) :
    turn host key r = .error (.assertion .ringRead) := by
  have hlook := CRingBuffer.look_holds h (n := sizeofBlock) (by decide) hblock
  obtain ⟨b, c, hensure, hwrite⟩ := innerBuf_eq (wordAt q 1).toNat_lt
  have hsize : ¬r.size < (wordAt q 1).toNat := by
    have : (wordAt q 1).toNat = 0 := hzero
    omega
  have hread : r.read (wordAt q 1).toNat = .error (.assertion .ringRead) := by
    have : (wordAt q 1).toNat = 0 := hzero
    rw [this]
    rfl
  simp only [turn, hlook, ok_bind, block_size host hblock, hsize, ite_false, hensure,
    hwrite, hread]
  rfl

/-- The bytes of a frame that has arrived, in the stack buffer they are decoded in. -/
theorem turn_frame (h : r.Holds q) (hcomplete : Complete q) (hpos : 0 < declared q) :
    ∃ capacity r', r'.Holds (q.drop (declared q)) ∧
      turn host key r =
        let b : StackBuffer := ⟨q.take (declared q), capacity⟩
        if frameType q = HeaderTypeCall then (getCall host key b).map (Turn.next · r')
        else if frameType q = HeaderTypeCallback then (getCallback host key b).map (Turn.next · r')
        else if frameType q = HeaderTypeMessage then
          (getMessageFrame host key b).map (Turn.next · r')
        else .ok (.reject r') := by
  obtain ⟨hblock, hall⟩ := hcomplete
  have hlook := CRingBuffer.look_holds h (n := sizeofBlock) (by decide) hblock
  obtain ⟨b, c, hensure, hwrite⟩ := innerBuf_eq (wordAt q 1).toNat_lt
  obtain ⟨r', hread, hholds⟩ := CRingBuffer.read_holds h hpos hall
  have hsize : ¬r.size < (wordAt q 1).toNat := by
    rw [h.size_eq]
    exact Nat.not_lt.mpr hall
  have hlen : (q.take (declared q)).length = declared q := by
    rw [List.length_take]
    omega
  have hcopy : copyIn (List.replicate (declared q) 0) 0 (q.take (declared q)) =
      .ok (q.take (declared q)) := by
    have hstore := store_replicate (0 : UInt8) [] (q.take (declared q)) (Nat.le_of_eq hlen)
    rw [hlen, Nat.sub_self, List.replicate_zero, List.append_nil] at hstore
    exact copyIn_eq hstore
  refine ⟨c, r', hholds, ?_⟩
  simp only [declared] at hread hcopy ⊢
  simp only [turn, hlook, ok_bind, block_type hblock, block_size host hblock, hsize,
    ite_false, hensure, hwrite, hread, deref, hcopy]
  split
  · cases getCall host key _ <;> rfl
  · split
    · cases getCallback host key _ <;> rfl
    · split
      · cases getMessageFrame host key _ <;> rfl
      · rfl

/-- What `getCall` and its siblings give is handed on, or their fault ends the call. -/
theorem turnDoes_of_sized {header size : Nat} {e : Dispatch} {rest : List UInt8}
    {get : Except Fault Dispatch} {r' : CRingBuffer} (hholds : r'.Holds rest)
    (hget : get = if WellSized header size then .ok e else .error .nullPointer) :
    TurnDoes (if WellSized header size then .item e rest else .halt (.aborted .nullPointer))
      (get.map (Turn.next · r')) := by
  rw [hget]
  split
  · exact .next hholds
  · exact .abort

theorem turn_does (h : r.Holds q) (hblock : sizeofBlock ≤ q.length) :
    TurnDoes (nextFrame key q) (turn host key r) := by
  by_cases hcomplete : Complete q
  · by_cases hzero : declared q = 0
    · rw [turn_zero host key h hblock hzero]
      simp only [nextFrame, hcomplete, hzero, ite_true]
      exact .abort
    · obtain ⟨c, r', hholds, hturn⟩ := turn_frame host key h hcomplete (by omega)
      have hbound := Nat.lt_of_le_of_lt h.size_le h.bound
      have hlen : (q.take (declared q)).length = declared q := by
        rw [List.length_take]
        exact Nat.min_eq_left hcomplete.2
      have hframe : frameType (q.take (declared q)) = frameType q := by
        rw [← frameType_append (x := q.drop (declared q)) (by omega), List.take_append_drop]
      let b : StackBuffer := ⟨q.take (declared q), c⟩
      have hsize : b.size = declared q := hlen
      have hword (hfits : sizeofBlock ≤ b.size) : (wordAt b.content 1).toNat = b.size := by
        rw [hsize]
        rw [hsize, ← hlen] at hfits
        unfold sizeofBlock at hfits
        show (wordAt (q.take (declared q)) 1).toNat = declared q
        rw [← wordAt_append (x := q.drop (declared q)) (by omega), List.take_append_drop]
        rfl
      have hb : b.size < 2 ^ 32 := by
        rw [hsize]
        exact Nat.lt_of_le_of_lt hcomplete.2 hbound
      rw [hturn]
      simp only [nextFrame, hcomplete, hzero, ite_true, ite_false, headerSize, frameContent, hframe]
      by_cases hcall : frameType q = HeaderTypeCall
      · have hget := getCall_eq host key hword hb
        rw [hsize] at hget
        simp only [hcall, ite_true]
        exact turnDoes_of_sized hholds hget
      · by_cases hcallback : frameType q = HeaderTypeCallback
        · have hget := getCallback_eq host key hword hb
          rw [hsize] at hget
          simp only [hcallback, ite_true]
          exact turnDoes_of_sized hholds hget
        · by_cases hmessage : frameType q = HeaderTypeMessage
          · have hget := getMessageFrame_eq host key hword hb
            rw [hsize] at hget
            simp only [hmessage, ite_true]
            exact turnDoes_of_sized hholds hget
          · simp only [hcall, hcallback, hmessage, ite_false]
            exact .reject
  · have hlt : q.length < declared q := by
      unfold Complete at hcomplete
      omega
    rw [turn_incomplete host key h hblock hlt]
    simp only [nextFrame, hcomplete, ite_false]
    exact .incomplete

/-- What a call returns for where the stream in the buffer stands. -/
inductive Returns : Standing UInt8 Stop → Except Fault (Bool × CRingBuffer) → Prop
  | waiting {rest : List UInt8} {r : CRingBuffer} :
      r.Holds rest → Returns (.waiting rest) (.ok (true, r))
  | rejected {r : CRingBuffer} : Returns (.halted .rejected) (.ok (false, r))
  | aborted {f : Fault} : Returns (.halted (.aborted f)) (.error f)

theorem loop_returns {fuel : Nat} (h : r.Holds q) (hfuel : q.length < fuel) :
    (loop host key fuel r).1 = ((frames key).drain q).1 ∧
      Returns ((frames key).drain q).2 (loop host key fuel r).2 := by
  induction fuel generalizing r q with
  | zero => omega
  | succ fuel ih =>
    by_cases hblock : sizeofBlock ≤ q.length
    · have hsize : ¬r.size < sizeofBlock := by
        rw [h.size_eq]
        omega
      simp only [loop, hsize, ite_false]
      cases hnext : nextFrame key q with
      | more =>
        have hdoes := hnext ▸ turn_does host key h hblock
        rw [(frames key).drain_more hnext]
        generalize turn host key r = t at hdoes
        cases hdoes
        exact ⟨rfl, .waiting h⟩
      | halt v =>
        have hdoes := hnext ▸ turn_does host key h hblock
        rw [(frames key).drain_halt hnext]
        generalize turn host key r = t at hdoes
        cases hdoes
        · exact ⟨rfl, .rejected⟩
        · exact ⟨rfl, .aborted⟩
      | item e rest =>
        have hdoes := hnext ▸ turn_does host key h hblock
        have hshorter : rest.length < q.length := (frames key).item_shorter hnext
        rw [(frames key).drain_item hnext]
        generalize turn host key r = t at hdoes
        cases hdoes with
        | next hholds =>
          obtain ⟨hes, hreturns⟩ := ih hholds (by omega)
          exact ⟨by simp only [hes], hreturns⟩
    · have hsize : r.size < sizeofBlock := by
        rw [h.size_eq]
        omega
      have hnext : (frames key).next q = .more := by
        have hnot : ¬Complete q := fun hc => hblock hc.1
        show nextFrame key q = .more
        simp only [nextFrame, hnot, ite_false]
      rw [(frames key).drain_more hnext]
      simp only [loop, hsize, ite_true, true_and]
      exact .waiting h

/-- A call hands on all frames at the start of the content, and returns for what is behind them. -/
theorem onUnserialize_returns (h : r.Holds q) :
    (onUnserialize host key r).1 = ((frames key).drain q).1 ∧
      Returns ((frames key).drain q).2 (onUnserialize host key r).2 :=
  loop_returns host key h (by rw [h.size_eq]; omega)

end ZlNet.Engine.InnerProtocol
