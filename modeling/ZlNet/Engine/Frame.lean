import ZlNet.Engine.InnerProtocol
import ZlNet.Lib.Decoder

/-! What a stream of bytes means to `InnerProtocol`: the frames at its start, and where reading it
stops.  This is a function of the bytes alone, whatever buffer they are in. -/

namespace ZlNet.Engine

open Lib Lib.Bytes

/-- The word at `off`, in network order. -/
def wordAt (q : List UInt8) (off : Nat) : UInt32 := ofBe32 ((q.drop off).take 4)

/-- The type of the frame at the start of `q`. -/
def frameType (q : List UInt8) : UInt8 := q.headD 0

/-- The size that the frame at the start of `q` gives for itself. -/
def declared (q : List UInt8) : Nat := (wordAt q 1).toNat

def headerSize (type : UInt8) : Option Nat :=
  if type = HeaderTypeCall then some sizeofHeaderCall
  else if type = HeaderTypeCallback then some sizeofHeaderCallback
  else if type = HeaderTypeMessage then some sizeofHeaderMessage
  else none

/-- The whole frame at the start of `q` has arrived. -/
def Complete (q : List UInt8) : Prop := sizeofBlock ≤ q.length ∧ declared q ≤ q.length

/-- A frame of this size has a header of `header` bytes, and an identity after it if anything. -/
def WellSized (header size : Nat) : Prop := size = header ∨ header + 4 ≤ size

instance (q : List UInt8) : Decidable (Complete q) := inferInstanceAs (Decidable (_ ∧ _))
instance (header size : Nat) : Decidable (WellSized header size) :=
  inferInstanceAs (Decidable (_ ∨ _))

/-- The message after a header of `header` bytes: an identity and at least one byte. -/
def frameMessage (header : Nat) (frame : List UInt8) : Option SerializeMessage :=
  if frame.length ≤ header + 4 then none
  else some ⟨(wordAt frame header).toInt32, frame.drop (header + 4)⟩

/-- What a frame of one of the three types says. -/
def frameContent (key : UInt32) (frame : List UInt8) : Dispatch :=
  if frameType frame = HeaderTypeCall then
    .packet ⟨key, wordAt frame 5, wordAt frame 9, 0, frameMessage sizeofHeaderCall frame⟩
  else if frameType frame = HeaderTypeCallback then
    .packet ⟨key, 0, wordAt frame 5, wordAt frame 9, frameMessage sizeofHeaderCallback frame⟩
  else if wordAt frame 5 = Heart then .heart
  else .packet ⟨key, wordAt frame 5, 0, 0, frameMessage sizeofHeaderMessage frame⟩

/-- Why reading a stream stops: `onUnserialize` has returned `false`, or has not returned. -/
inductive Stop
  | rejected
  | aborted (fault : Fault)
  deriving DecidableEq, Repr

/-- What is at the start of a stream. -/
def nextFrame (key : UInt32) (q : List UInt8) : Decoded UInt8 Dispatch Stop :=
  if Complete q then
    if declared q = 0 then .halt (.aborted (.assertion .ringRead))
    else match headerSize (frameType q) with
      | none => .halt .rejected
      | some header =>
        if WellSized header (declared q) then
          .item (frameContent key (q.take (declared q))) (q.drop (declared q))
        else .halt (.aborted .nullPointer)
  else .more

/-! ### Input that arrives later -/

variable {q x : List UInt8}

theorem wordAt_append {off : Nat} (h : off + 4 ≤ q.length) : wordAt (q ++ x) off = wordAt q off := by
  unfold wordAt
  rw [List.drop_append_of_le_length (by omega), List.take_append_of_le_length]
  simp only [List.length_drop]
  omega

theorem frameType_append (h : 0 < q.length) : frameType (q ++ x) = frameType q := by
  cases q with
  | nil => simp at h
  | cons b q => rfl

theorem declared_append (h : sizeofBlock ≤ q.length) : declared (q ++ x) = declared q := by
  unfold sizeofBlock at h
  unfold declared
  rw [wordAt_append (by omega)]

theorem Complete.append (h : Complete q) : Complete (q ++ x) := by
  obtain ⟨hblock, hall⟩ := h
  refine ⟨?_, ?_⟩
  · rw [List.length_append]
    omega
  · rw [declared_append hblock, List.length_append]
    omega

/-- A frame that has arrived is not changed by what follows it. -/
theorem nextFrame_append {key : UInt32} (h : Complete q) :
    nextFrame key (q ++ x) =
      match nextFrame key q with
      | .more => .more
      | .item e rest => .item e (rest ++ x)
      | .halt v => .halt v := by
  have happend : Complete (q ++ x) := h.append
  have hpos : 0 < q.length := Nat.lt_of_lt_of_le (by decide) h.1
  simp only [nextFrame, happend, h, ite_true, declared_append h.1, frameType_append hpos]
  by_cases hzero : declared q = 0
  · simp only [hzero, ite_true]
  · simp only [hzero, ite_false]
    cases headerSize (frameType q) with
    | none => rfl
    | some header =>
      by_cases hsize : WellSized header (declared q)
      · simp only [hsize, ite_true]
        rw [List.take_append_of_le_length h.2, List.drop_append_of_le_length h.2]
      · simp only [hsize, ite_false]

theorem complete_of_ne_more (key : UInt32) (h : nextFrame key q ≠ .more) : Complete q := by
  by_contra hnot
  exact h (by simp only [nextFrame, hnot, ite_false])

/-- A frame that is read has arrived, is of one of the three types and well sized. -/
theorem nextFrame_item {key : UInt32} {e : Dispatch} {rest : List UInt8}
    (h : nextFrame key q = .item e rest) :
    Complete q ∧ 0 < declared q ∧ rest = q.drop (declared q) ∧
      e = frameContent key (q.take (declared q)) ∧
      ∃ header, headerSize (frameType q) = some header ∧ WellSized header (declared q) := by
  have hcomplete : Complete q := complete_of_ne_more key (h ▸ nofun)
  simp only [nextFrame, hcomplete, ite_true] at h
  by_cases hzero : declared q = 0
  · simp [hzero] at h
  · simp only [hzero, ite_false] at h
    cases hheader : headerSize (frameType q) with
    | none => simp [hheader] at h
    | some header =>
      by_cases hsize : WellSized header (declared q)
      · simp only [hheader, hsize, ite_true, Decoded.item.injEq] at h
        exact ⟨hcomplete, by omega, h.2.symm, h.1.symm, header, rfl, hsize⟩
      · simp [hheader, hsize] at h

/-- Reading a stream stops at a frame that has arrived: at one of an unknown type by returning
`false`, at one whose size is not checked by a fault. -/
theorem nextFrame_halt {key : UInt32} {v : Stop} (h : nextFrame key q = .halt v) :
    (v = .rejected ∧ declared q ≠ 0 ∧ headerSize (frameType q) = none) ∨
    ((∃ f, v = .aborted f) ∧ (declared q = 0 ∨
      ∃ header, headerSize (frameType q) = some header ∧ ¬WellSized header (declared q))) := by
  have hcomplete : Complete q := complete_of_ne_more key (h ▸ nofun)
  simp only [nextFrame, hcomplete, ite_true] at h
  by_cases hzero : declared q = 0
  · simp only [hzero, ite_true, Decoded.halt.injEq] at h
    exact .inr ⟨⟨_, h.symm⟩, .inl hzero⟩
  · simp only [hzero, ite_false] at h
    cases hheader : headerSize (frameType q) with
    | none =>
      simp only [hheader, Decoded.halt.injEq] at h
      exact .inl ⟨h.symm, hzero, rfl⟩
    | some header =>
      by_cases hsize : WellSized header (declared q)
      · simp [hheader, hsize] at h
      · simp only [hheader, hsize, ite_false, Decoded.halt.injEq] at h
        exact .inr ⟨⟨_, h.symm⟩, .inr ⟨header, rfl, hsize⟩⟩

theorem complete_iff {key : UInt32} : nextFrame key q ≠ .more ↔ Complete q := by
  refine ⟨complete_of_ne_more key, fun hcomplete hmore => ?_⟩
  simp only [nextFrame, hcomplete, ite_true] at hmore
  split at hmore
  · simp at hmore
  · split at hmore
    · simp at hmore
    · split at hmore <;> simp at hmore

/-- The frames of a stream, as a decoder. -/
def frames (key : UInt32) : Decoder UInt8 Dispatch Stop where
  next := nextFrame key
  item_append {q e rest} h x := by
    rw [nextFrame_append (complete_of_ne_more key (h ▸ nofun)), h]
  halt_append {q v} h x := by
    rw [nextFrame_append (complete_of_ne_more key (h ▸ nofun)), h]
  item_shorter {q e rest} h := by
    obtain ⟨⟨-, hall⟩, hpos, rfl, -⟩ := nextFrame_item h
    rw [List.length_drop]
    omega

end ZlNet.Engine
