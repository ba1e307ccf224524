import Mathlib.Data.List.Induction
import ZlNet.Engine.Receive

/-! What a connection makes of a stream: the same for every way of cutting it into chunks, all
packets of a stream of frames, and a clean rejection of a malformed frame unless its size is one of
those that `onUnserialize` does not check. -/

namespace ZlNet.Engine

open Network Lib Lib.Bytes

variable {host : Endian} {key : UInt32}

/-! ### Chunks -/

/-- Two connections stand alike, with the same undecoded bytes in their buffers. -/
inductive SameVerdict : Verdict → Verdict → Prop
  | accepting {q : List UInt8} {r r' : CRingBuffer} :
      r.Holds q → r'.Holds q → SameVerdict (.accepting r) (.accepting r')
  | rejected : SameVerdict .rejected .rejected
  | aborted (f : Fault) : SameVerdict (.aborted f) (.aborted f)

/-- Two ways of cutting a stream into chunks dispatch the same and end alike. -/
theorem receive_any_chunks {capacity capacity' : Nat} (hpos : 0 < capacity)
    (hlt : capacity < 2 ^ 32) (hpos' : 0 < capacity') (hlt' : capacity' < 2 ^ 32)
    {chunks chunks' : List (List UInt8)} {s s' : Receiver}
    (run : Run (Receiver.Step host key) (.start capacity) chunks s)
    (run' : Run (Receiver.Step host key) (.start capacity') chunks' s')
    (hsame : chunks.flatten = chunks'.flatten) :
    s.dispatched = s'.dispatched ∧ SameVerdict s.verdict s'.verdict := by
  have hreads := Receiver.run_reads hpos hlt run
  have hreads' := Receiver.run_reads hpos' hlt' run'
  rw [← hsame] at hreads'
  refine ⟨hreads.dispatched.trans hreads'.dispatched.symm, ?_⟩
  have hstands := hreads.stands
  have hstands' := hreads'.stands
  generalize ((frames key).drain chunks.flatten).2 = standing at hstands hstands'
  generalize s.verdict = v at hstands
  generalize s'.verdict = v' at hstands'
  cases hstands with
  | waiting hholds =>
    cases hstands' with
    | waiting hholds' => exact .accepting hholds hholds'
  | rejected =>
    cases hstands'
    exact .rejected
  | @aborted f =>
    cases hstands'
    exact .aborted f

/-! ### A stream of frames -/

/-- The stream that a list of packets is sent as. -/
def streamOf (sent : List (IOPacket IMessage × List UInt8)) : List UInt8 :=
  (sent.map fun s => frameOf s.1 s.2).flatten

theorem declared_frameOf {packet : IOPacket IMessage} {body : List UInt8}
    (h : Sendable packet body) (x : List UInt8) :
    declared (frameOf packet body ++ x) = (frameOf packet body).length := by
  obtain ⟨hcomplete, -, hrest, -⟩ := nextFrame_item (nextFrame_frameOf 0 h x)
  have hlen := congrArg List.length hrest
  have hle := hcomplete.2
  rw [List.length_append] at hle
  rw [List.length_drop, List.length_append] at hlen
  omega

/-- What has arrived of a stream of frames is some frames and a part of one. -/
theorem drain_streamOf (key : UInt32) {sent : List (IOPacket IMessage × List UInt8)}
    (hsent : ∀ s ∈ sent, Sendable s.1 s.2) {p x : List UInt8} (hp : p ++ x = streamOf sent) :
    ∃ es rest, (frames key).drain p = (es, .waiting rest) ∧ rest.length < 2 ^ 31 := by
  induction sent generalizing p with
  | nil =>
    obtain ⟨rfl, -⟩ := List.append_eq_nil_iff.mp hp
    exact ⟨[], [], (frames key).drain_more rfl, by decide⟩
  | cons first sent ih =>
    have hfirst := hsent first List.mem_cons_self
    have hshort := hfirst.short
    have hp : p ++ x = frameOf first.1 first.2 ++ streamOf sent := hp
    rcases Nat.lt_or_ge p.length (frameOf first.1 first.2).length with hlt | hge
    · have hnext : (frames key).next p = .more := by
        by_contra hne
        have hcomplete : Complete p := complete_of_ne_more key hne
        have hdeclared := declared_frameOf hfirst (streamOf sent)
        rw [← hp, declared_append hcomplete.1] at hdeclared
        have := hcomplete.2
        omega
      exact ⟨[], p, (frames key).drain_more hnext, by omega⟩
    · have hstarts : frameOf first.1 first.2 <+: p :=
        List.prefix_of_prefix_length_le (hp ▸ List.prefix_append _ _) (List.prefix_append p x) hge
      obtain ⟨p', rfl⟩ := hstarts
      rw [List.append_assoc] at hp
      obtain ⟨es, rest, hdrain, hrest⟩ := ih (fun s hs => hsent s (List.mem_cons_of_mem _ hs))
        (List.append_cancel_left hp)
      have hnext : (frames key).next (frameOf first.1 first.2 ++ p') = _ :=
        nextFrame_frameOf key hfirst p'
      exact ⟨received key first.1 first.2 :: es, rest,
        by rw [(frames key).drain_item hnext, hdrain], hrest⟩

/-- A whole stream of frames is read as its packets. -/
theorem drain_all {sent : List (IOPacket IMessage × List UInt8)}
    (hsent : ∀ s ∈ sent, Sendable s.1 s.2) :
    (frames key).drain (streamOf sent) =
      (sent.map fun s => received key s.1 s.2, .waiting []) := by
  induction sent with
  | nil => exact (frames key).drain_more rfl
  | cons first sent ih =>
    have hnext : (frames key).next (streamOf (first :: sent)) =
        .item (received key first.1 first.2) (streamOf sent) :=
      nextFrame_frameOf key (hsent first List.mem_cons_self) (streamOf sent)
    rw [(frames key).drain_item hnext, ih fun s hs => hsent s (List.mem_cons_of_mem _ hs)]
    rfl

/-- Chunks of a stream of frames always fit the buffer. -/
theorem run_of_streamOf (host : Endian) (key : UInt32) {capacity : Nat} (hpos : 0 < capacity) (hlt : capacity < 2 ^ 32)
    {sent : List (IOPacket IMessage × List UInt8)} (hsent : ∀ s ∈ sent, Sendable s.1 s.2)
    {chunks : List (List UInt8)} (hchunks : ∀ c ∈ chunks, c ≠ [] ∧ c.length < 2 ^ 31)
    (hstarts : chunks.flatten <+: streamOf sent) :
    ∃ s, Run (Receiver.Step host key) (.start capacity) chunks s := by
  induction chunks using List.reverseRecOn with
  | nil => exact ⟨_, .nil⟩
  | append_singleton chunks chunk ih =>
    obtain ⟨x, hx⟩ := hstarts
    rw [List.flatten_append, List.append_assoc] at hx
    obtain ⟨s, run⟩ := ih (fun c hc => hchunks c (List.mem_append_left _ hc)) ⟨_, hx⟩
    obtain ⟨es, rest, hdrain, hrest⟩ := drain_streamOf key hsent hx
    have hreads := Receiver.run_reads hpos hlt run
    obtain ⟨hne, hshort⟩ := hchunks chunk (by simp)
    refine ⟨s.receive host key chunk, run.snoc ⟨hne, fun buffer hbuffer => ?_, rfl⟩⟩
    have hstands := hreads.stands
    rw [hdrain, hbuffer] at hstands
    cases hstands with
    | waiting hholds =>
      rw [hholds.size_eq]
      omega

/-- The frame that `tcpSend` hands to the socket for a packet. -/
def sendFrame (host : Endian) (packet : IOPacket IMessage) : Except Fault (List UInt8) := do
  let (_, buffer) ← InnerProtocol.onSerialize host packet (.new 2048)
  return buffer.content

theorem sendFrames_eq (host : Endian) {sent : List (IOPacket IMessage × List UInt8)}
    (hsent : ∀ s ∈ sent, Sendable s.1 s.2) :
    sent.mapM (fun s => sendFrame host s.1) = .ok (sent.map fun s => frameOf s.1 s.2) := by
  induction sent with
  | nil => rfl
  | cons first sent ih =>
    obtain ⟨c, hc⟩ := InnerProtocol.onSerialize_eq host (hsent first List.mem_cons_self) 2048
    have hsend : sendFrame host first.1 = .ok (frameOf first.1 first.2) := by
      simp only [sendFrame, hc, ok_bind]
      rfl
    rw [List.mapM_cons, hsend, ok_bind, ih fun s hs => hsent s (List.mem_cons_of_mem _ hs)]
    rfl

/-- Packets that are serialized one after another, and received in chunks of any size that a read
from a socket can have, arrive as they were sent. -/
theorem inner_round_trip (host host' : Endian) (key : UInt32) {capacity : Nat}
    (hpos : 0 < capacity) (hlt : capacity < 2 ^ 32)
    {sent : List (IOPacket IMessage × List UInt8)} (hsent : ∀ s ∈ sent, Sendable s.1 s.2) :
    ∃ fs, sent.mapM (fun s => sendFrame host s.1) = .ok fs ∧
      ∀ chunks : List (List UInt8), (∀ c ∈ chunks, c ≠ [] ∧ c.length < 2 ^ 31) →
        chunks.flatten = fs.flatten →
        ∃ r, chunks.foldl (Receiver.receive host' key) (.start capacity) =
            ⟨sent.map fun s => received key s.1 s.2, .accepting r⟩ ∧ r.Holds [] := by
  refine ⟨_, sendFrames_eq host hsent, fun chunks hchunks hflatten => ?_⟩
  have hstream : chunks.flatten = streamOf sent := hflatten
  obtain ⟨s, run⟩ := run_of_streamOf host' key hpos hlt hsent hchunks
    (hstream ▸ List.prefix_rfl)
  have hreads := Receiver.run_reads hpos hlt run
  rw [hstream, drain_all hsent] at hreads
  rw [← Receiver.run_foldl run]
  obtain ⟨dispatched, verdict⟩ := s
  obtain ⟨hdispatched, hstands⟩ := hreads
  cases hstands with
  | @waiting _ r hholds => exact ⟨r, by simp only at hdispatched; rw [hdispatched], hholds⟩

/-- A call with a message of two bytes and a heartbeat. -/
def sample : List (IOPacket IMessage × List UInt8) :=
  [(⟨0, 5, 9, 0, some (SerializeMessage.toIMessage ⟨-7, [1, 2]⟩)⟩, [1, 2]),
    (⟨0, Heart, 0, 0, none⟩, [])]

theorem sample_sendable : ∀ s ∈ sample, Sendable s.1 s.2 := by
  intro s hs
  simp only [sample, List.mem_cons, List.not_mem_nil, or_false] at hs
  rcases hs with rfl | rfl
  · refine ⟨.inl (by decide), fun m hm => ?_, by decide⟩
    obtain rfl := Option.some.inj hm
    exact ⟨SerializeMessage.serializes _, by decide⟩
  · exact ⟨.inl (by decide), nofun, by decide⟩

theorem inner_round_trip_sample :
    ∃ r, [[0x81, 0, 0, 0], [19, 0, 0, 0, 5, 0, 0, 0, 9, 255, 255, 255, 249, 1],
        [2, 0x83, 0, 0, 0, 9, 0, 0, 0, 1]].foldl (Receiver.receive .big 7) (.start 4) =
      ⟨[.packet ⟨7, 5, 9, 0, some ⟨-7, [1, 2]⟩⟩, .heart], .accepting r⟩ ∧ r.Holds [] := by
  obtain ⟨fs, hfs, hreceive⟩ := inner_round_trip .little .big 7 (show 0 < 4 by decide)
    (by decide) sample_sendable
  rw [sendFrames_eq .little sample_sendable] at hfs
  obtain rfl := Except.ok.inj hfs
  exact hreceive _ (by decide) (by decide)

theorem receive_any_chunks_sample :
    ∃ s s', Run (Receiver.Step .little 7) (.start 4) [streamOf sample] s ∧
      Run (Receiver.Step .little 7) (.start 4) ((streamOf sample).map fun b => [b]) s' ∧
      s.dispatched = s'.dispatched ∧ SameVerdict s.verdict s'.verdict := by
  have hrun (chunks : List (List UInt8)) (hchunks : ∀ c ∈ chunks, c ≠ [] ∧ c.length < 2 ^ 31)
      (hstarts : chunks.flatten <+: streamOf sample) :
      ∃ s, Run (Receiver.Step .little 7) (.start 4) chunks s :=
    run_of_streamOf .little 7 (by decide) (by decide) sample_sendable hchunks hstarts
  obtain ⟨s, run⟩ := hrun [streamOf sample] (by decide) (by decide)
  obtain ⟨s', run'⟩ := hrun ((streamOf sample).map fun b => [b]) (by decide) (by decide)
  exact ⟨s, s', run, run', receive_any_chunks (by decide) (by decide) (by decide) (by decide) run
    run' (by decide)⟩

/-! ### Malformed frames -/

/-- A frame of one of the three types, of the size of its header or with an identity after it. -/
def WellFormed (q : List UInt8) : Prop :=
  ∃ header, headerSize (frameType q) = some header ∧ WellSized header (declared q)

/-- What a call should do: wait for a frame that has not arrived, return `false` on a malformed one,
and hand on a well-formed one, of at least a `Block`, before it goes on. -/
inductive Conforms (key : UInt32) :
    List UInt8 → List Dispatch → Except Fault (Bool × CRingBuffer) → Prop
  | wait {q : List UInt8} {r : CRingBuffer} :
      ¬Complete q → r.Holds q → Conforms key q [] (.ok (true, r))
  | reject {q : List UInt8} {r : CRingBuffer} :
      Complete q → ¬WellFormed q → Conforms key q [] (.ok (false, r))
  | frame {q : List UInt8} {es : List Dispatch} {result : Except Fault (Bool × CRingBuffer)} :
      Complete q → WellFormed q → sizeofBlock ≤ declared q →
      Conforms key (q.drop (declared q)) es result →
      Conforms key q (frameContent key (q.take (declared q)) :: es) result

/-- `rest` is what follows some well-formed frames at the start of `q`. -/
inductive Follows : List UInt8 → List UInt8 → Prop
  | refl (q : List UInt8) : Follows q q
  | frame {q rest : List UInt8} :
      Complete q → WellFormed q → Follows (q.drop (declared q)) rest → Follows q rest

/-- The sizes that `onUnserialize` does not check: zero for any type, and for each of the three
types a size below that of the header, or one to three bytes above it. -/
def Unchecked (q : List UInt8) : Prop :=
  declared q = 0 ∨ ∃ header, headerSize (frameType q) = some header ∧ ¬WellSized header (declared q)

theorem wellFormed_block {q : List UInt8} (h : WellFormed q) : sizeofBlock ≤ declared q := by
  obtain ⟨header, hheader, hwell⟩ := h
  have hle := InnerProtocol.wellSized_le hwell
  unfold headerSize sizeofHeaderCall sizeofHeaderCallback sizeofHeaderMessage at hheader
  unfold sizeofBlock
  grind

theorem conforms_ok {q : List UInt8} {es : List Dispatch}
    {result : Except Fault (Bool × CRingBuffer)} (h : Conforms key q es result) (f : Fault) :
    result ≠ .error f := by
  induction h with
  | wait => nofun
  | reject => nofun
  | frame _ _ _ _ ih => exact ih

theorem conforms_frame {q : List UInt8} {e : Dispatch} {es : List Dispatch}
    {result : Except Fault (Bool × CRingBuffer)} (h : Conforms key q (e :: es) result) :
    Conforms key (q.drop (declared q)) es result := by
  cases h with
  | frame _ _ _ hrest => exact hrest

theorem follows_malformed {q rest : List UInt8} (h : Follows q rest)
    (hq : ¬(Complete q ∧ WellFormed q)) : rest = q := by
  cases h with
  | refl => rfl
  | frame hcomplete hwell _ => exact absurd ⟨hcomplete, hwell⟩ hq

/-- The frames read from a stream conform exactly if no frame of an unchecked size follows
well-formed ones. -/
theorem drain_conforms {q : List UInt8} {result : Except Fault (Bool × CRingBuffer)}
    (hreturns : InnerProtocol.Returns ((frames key).drain q).2 result) :
    Conforms key q ((frames key).drain q).1 result ↔
      ∀ rest, Follows q rest → Complete rest → ¬Unchecked rest := by
  induction hlen : q.length using Nat.strongRecOn generalizing q with
  | _ n ih =>
    by_cases hcomplete : Complete q
    · cases hnext : nextFrame key q with
      | more => exact absurd hnext (complete_iff.mpr hcomplete)
      | halt v =>
        rw [(frames key).drain_halt hnext] at hreturns ⊢
        rcases nextFrame_halt hnext with ⟨rfl, hzero, hheader⟩ | ⟨⟨f, rfl⟩, hunchecked⟩
        · have hmalformed : ¬WellFormed q := fun ⟨header, hsome, _⟩ => by simp [hheader] at hsome
          cases hreturns
          apply iff_of_true (.reject hcomplete hmalformed)
          intro rest hfollows _
          rw [follows_malformed hfollows fun h => hmalformed h.2]
          rintro (h | ⟨header, hsome, _⟩)
          · exact hzero h
          · simp [hheader] at hsome
        · cases hreturns
          exact iff_of_false (fun h => conforms_ok h f rfl)
            fun h => h q (.refl q) hcomplete hunchecked
      | item e rest =>
        obtain ⟨-, hpos, hrest, he, header, hheader, hwell⟩ := nextFrame_item hnext
        have hshorter : rest.length < q.length := (frames key).item_shorter hnext
        rw [(frames key).drain_item hnext] at hreturns ⊢
        have hwellFormed : WellFormed q := ⟨header, hheader, hwell⟩
        have hunchecked : ¬Unchecked q := by
          rintro (hzero | ⟨header', hheader', hill⟩)
          · omega
          · rw [hheader] at hheader'
            exact hill (Option.some.inj hheader' ▸ hwell)
        subst hrest he
        have hiff := ih _ (hlen ▸ hshorter) hreturns rfl
        constructor
        · intro hconforms rest hfollows
          cases hfollows with
          | refl => exact fun _ => hunchecked
          | frame _ _ hnextFollows => exact hiff.mp (conforms_frame hconforms) rest hnextFollows
        · intro hchecked
          exact .frame hcomplete hwellFormed (wellFormed_block hwellFormed)
            (hiff.mpr fun rest hfollows => hchecked rest (.frame hcomplete hwellFormed hfollows))
    · have hnext : (frames key).next q = .more := by
        show nextFrame key q = .more
        simp only [nextFrame, hcomplete, ite_false]
      rw [(frames key).drain_more hnext] at hreturns ⊢
      cases hreturns with
      | waiting hholds =>
        apply iff_of_true (.wait hcomplete hholds)
        intro rest hfollows hrest
        have := follows_malformed hfollows (fun h => hcomplete h.1)
        exact absurd (this ▸ hrest) hcomplete

/-- A call conforms exactly if no frame of an unchecked size follows well-formed ones. -/
theorem onUnserialize_conforms {r : CRingBuffer} {q : List UInt8} (h : r.Holds q) :
    Conforms key q (InnerProtocol.onUnserialize host key r).1
        (InnerProtocol.onUnserialize host key r).2 ↔
      ∀ rest, Follows q rest → Complete rest → ¬Unchecked rest := by
  obtain ⟨hes, hreturns⟩ := InnerProtocol.onUnserialize_returns host key h
  rw [hes]
  exact drain_conforms hreturns

/-- A buffer of sixteen bytes that nothing has been read from. -/
def fresh (q : List UInt8) : CRingBuffer where
  capacity := 16
  front := 0
  end_ := q.length
  size := q.length
  buff := q ++ List.replicate (16 - q.length) 0

theorem fresh_holds {q : List UInt8} (h : q.length < 16) : (fresh q).Holds q where
  layout := Lib.Circular.Layout.of_prefix (by
    rw [ne_eq, List.replicate_eq_nil_iff]
    omega)
  capacity_eq := by
    simp only [fresh, List.length_append, List.length_replicate]
    omega
  size_eq := rfl
  bound := show 16 < 2 ^ 32 by decide

/-- A heartbeat conforms, and with a frame of declared size zero behind it does not. -/
theorem onUnserialize_conforms_heart :
    let heart : List UInt8 := [0x83, 0, 0, 0, 9, 0, 0, 0, 1]
    let zero : List UInt8 := [0x81, 0, 0, 0, 0]
    let call (q : List UInt8) := InnerProtocol.onUnserialize .little 7 (fresh q)
    Conforms 7 heart (call heart).1 (call heart).2 ∧
      ¬Conforms 7 (heart ++ zero) (call (heart ++ zero)).1 (call (heart ++ zero)).2 := by
  intro heart zero call
  have hheart : ¬Unchecked heart := by
    rintro (hzero | ⟨header, hheader, hill⟩)
    · exact absurd hzero (by decide)
    · obtain rfl : 9 = header := Option.some.inj hheader
      exact hill (.inl rfl)
  have hempty : ¬Complete [] := by decide
  refine ⟨(onUnserialize_conforms (fresh_holds (by decide))).mpr fun rest hfollows hrest => ?_,
    fun h => (onUnserialize_conforms (fresh_holds (by decide))).mp h zero ?_ (by decide) (.inl rfl)⟩
  · cases hfollows with
    | refl => exact hheart
    | frame _ _ h =>
      have hend : rest = [] := follows_malformed h fun h => hempty h.1
      exact absurd (hend ▸ hrest) hempty
  · exact .frame (by decide) ⟨9, rfl, .inl rfl⟩ (.refl zero)

/-- A stream that stops at its first frame with a fault ends the call with that fault. -/
theorem onUnserialize_aborts (host : Endian) (key : UInt32) {r : CRingBuffer} {q : List UInt8} {f : Fault} (h : r.Holds q)
    (hnext : nextFrame key q = .halt (.aborted f)) :
    InnerProtocol.onUnserialize host key r = ([], .error f) := by
  obtain ⟨hes, hreturns⟩ := InnerProtocol.onUnserialize_returns host key h
  rw [(frames key).drain_halt hnext] at hes hreturns
  apply Prod.ext hes
  generalize (InnerProtocol.onUnserialize host key r).2 = result at hreturns
  cases hreturns
  rfl

/-- A frame of declared size zero fails an assertion, and one that ends inside the identity of its
message uses a null pointer. -/
theorem onUnserialize_faults :
    let zero : List UInt8 := [0x81, 0, 0, 0, 0]
    let short : List UInt8 := [0x83, 0, 0, 0, 10, 0, 0, 0, 2, 5]
    ((fresh zero).Holds zero ∧ InnerProtocol.onUnserialize .little 7 (fresh zero) =
      ([], .error (.assertion .ringRead))) ∧
    ((fresh short).Holds short ∧ InnerProtocol.onUnserialize .little 7 (fresh short) =
      ([], .error .nullPointer)) ∧
    ¬∀ (host : Endian) (key : UInt32) (r : CRingBuffer) (q : List UInt8), r.Holds q →
      Conforms key q (InnerProtocol.onUnserialize host key r).1
        (InnerProtocol.onUnserialize host key r).2 := by
  intro zero short
  have hzero : (fresh zero).Holds zero := fresh_holds (by decide)
  have hshort : (fresh short).Holds short := fresh_holds (by decide)
  have hfault := onUnserialize_aborts .little 7 hzero rfl
  refine ⟨⟨hzero, hfault⟩, ⟨hshort, onUnserialize_aborts .little 7 hshort rfl⟩, fun h => ?_⟩
  exact conforms_ok (h .little 7 _ _ hzero) (.assertion .ringRead) (by rw [hfault])

end ZlNet.Engine
