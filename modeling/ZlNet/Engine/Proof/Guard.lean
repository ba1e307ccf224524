import ZlNet.Engine.Proof.Receive

/-! How much undecoded input a connection keeps.  `onUnserialize` waits for a frame of any size, so
only the sizes that the peer declares bound the receive buffer. -/

namespace ZlNet.Engine

open Network Lib Lib.Bytes
open InnerProtocol (MAX_BUFFER_SIZE)

variable {host : Endian} {key : UInt32} {q rest : List UInt8} {t : Receiver}

/-- A complete `Block` is at the start of `q`, and declares more than `MAX_BUFFER_SIZE`. -/
def Announces (q : List UInt8) : Prop := sizeofBlock ≤ q.length ∧ MAX_BUFFER_SIZE < declared q

/-- A connection that has received `q` and guards itself.  It has rejected the first frame that
declares too much, after handing on those before it, and keeps at most `MAX_BUFFER_SIZE` bytes. -/
structure Guarded (key : UInt32) (t : Receiver) (q : List UInt8) : Prop where
  rejects : ∀ rest, Follows q rest → Announces rest →
    ∃ es, (frames key).Items q es rest ∧ t = ⟨es, .rejected⟩
  bounded : ∀ buffer, t.verdict = .accepting buffer → buffer.size ≤ MAX_BUFFER_SIZE

/-- A frame of an unknown type that has arrived, which `onUnserialize` returns `false` for. -/
def Refused (q : List UInt8) : Prop := Complete q ∧ headerSize (frameType q) = none

/-- Well-formed frames are handed on. -/
theorem Follows.items (h : Follows q rest) : ∃ es, (frames key).Items q es rest := by
  induction h with
  | refl q => exact ⟨[], .nil q⟩
  | @frame q rest hcomplete hwell _ ih =>
    obtain ⟨es, hitems⟩ := ih
    have hpos : 0 < declared q := Nat.lt_of_lt_of_le (by decide) (wellFormed_block hwell)
    obtain ⟨header, hheader, hsized⟩ := hwell
    refine ⟨_, .cons (e := frameContent key (q.take (declared q))) ?_ hitems⟩
    show nextFrame key q = _
    simp only [nextFrame, hcomplete, ite_true, Nat.ne_of_gt hpos, ite_false, hheader, hsized]

/-- Frames that are handed on are well formed. -/
theorem follows_of_items {es : List Dispatch} (h : (frames key).Items q es rest) :
    Follows q rest := by
  induction h with
  | nil q => exact .refl q
  | cons hnext _ ih =>
    obtain ⟨hcomplete, -, rfl, -, header, hheader, hsized⟩ := nextFrame_item hnext
    exact .frame hcomplete ⟨header, hheader, hsized⟩ ih

theorem nextFrame_of_refused (h : Refused q) (hpos : 0 < declared q) :
    nextFrame key q = .halt .rejected := by
  simp only [nextFrame, h.1, ite_true, Nat.ne_of_gt hpos, ite_false, h.2]

/-- A stream that is rejected after some items is rejected for the frame behind them. -/
theorem refused_of_drain {es : List Dispatch} (hitems : (frames key).Items q es rest)
    (hdrain : (frames key).drain q = (es, .halted .rejected)) : Refused rest := by
  rw [Decoder.drain_items hitems, Prod.mk.injEq, List.append_right_eq_self] at hdrain
  obtain ⟨hes, hstanding⟩ := hdrain
  cases hnext : (frames key).next rest with
  | more =>
    rw [Decoder.drain_more hnext] at hstanding
    cases hstanding
  | item e rest' =>
    rw [Decoder.drain_item hnext] at hes
    cases hes
  | halt v =>
    rw [Decoder.drain_halt hnext] at hstanding
    cases hstanding
    have hnext : nextFrame key rest = .halt .rejected := hnext
    have hcomplete : Complete rest := complete_of_ne_more key (by simp [hnext])
    rcases nextFrame_halt hnext with ⟨-, -, hheader⟩ | ⟨⟨f, hf⟩, -⟩
    · exact ⟨hcomplete, hheader⟩
    · cases hf

/-- What has not arrived completely declares more than there is of it. -/
theorem length_le_of_more (hnext : nextFrame key q = .more) (hsmall : ¬Announces q) :
    q.length ≤ MAX_BUFFER_SIZE := by
  have hincomplete : ¬Complete q := fun hcomplete => complete_iff.mpr hcomplete hnext
  unfold Complete at hincomplete
  unfold Announces at hsmall
  by_cases hblock : sizeofBlock ≤ q.length
  · omega
  · unfold sizeofBlock at hblock
    unfold MAX_BUFFER_SIZE
    omega

/-- A connection that has read a stream guards itself if each frame that declares too much is
refused, and only then. -/
theorem Receiver.Reads.guarded_iff (h : t.Reads ((frames key).drain q)) :
    Guarded key t q ↔ ∀ rest, Follows q rest → Announces rest → Refused rest := by
  constructor
  · intro hguarded rest hfollows hannounces
    obtain ⟨es, hitems, rfl⟩ := hguarded.rejects rest hfollows hannounces
    have hes := h.dispatched
    have hstands := h.stands
    refine refused_of_drain hitems (Prod.ext hes.symm ?_)
    generalize ((frames key).drain q).2 = standing at hstands
    cases hstands
    rfl
  · intro hrefused
    constructor
    · intro rest hfollows hannounces
      obtain ⟨es, hitems⟩ : ∃ es, (frames key).Items q es rest := hfollows.items
      have hpos : 0 < declared rest := Nat.lt_of_le_of_lt (Nat.zero_le _) hannounces.2
      have hhalt : (frames key).next rest = .halt .rejected :=
        nextFrame_of_refused (hrefused rest hfollows hannounces) hpos
      have hdrain : (frames key).drain q = (es, .halted .rejected) := by
        rw [Decoder.drain_items hitems, Decoder.drain_halt hhalt, List.append_nil]
      obtain ⟨dispatched, verdict⟩ := t
      obtain ⟨hes, hstands⟩ := hdrain ▸ h
      cases hstands
      exact ⟨es, hitems, congrArg (Receiver.mk · .rejected) hes⟩
    · intro buffer hverdict
      rcases (frames key).drain_cases q with ⟨rest, hitems, hmore, hwaiting⟩ | ⟨-, v, -, -, hhalted⟩
      · have hstands := h.stands
        rw [hwaiting, hverdict] at hstands
        cases hstands with
        | waiting hholds =>
          rw [hholds.size_eq]
          apply length_le_of_more hmore
          intro hannounces
          exact complete_iff.mpr (hrefused rest (follows_of_items hitems) hannounces).1 hmore
      · have hstands := h.stands
        rw [hhalted, hverdict] at hstands
        cases hstands

/-- A connection guards itself throughout a run if, whenever a frame that declares more than
`MAX_BUFFER_SIZE` is reached, it is of an unknown type and has arrived with the end of its `Block`,
and only then. -/
theorem receive_guarded_iff {capacity : Nat} (hpos : 0 < capacity) (hlt : capacity < 2 ^ 32)
    {chunks : List (List UInt8)} {s : Receiver}
    (run : Run (Receiver.Step host key) (.start capacity) chunks s) :
    (∀ chunks' t, chunks' <+: chunks → Run (Receiver.Step host key) (.start capacity) chunks' t →
      Guarded key t chunks'.flatten) ↔
    ∀ chunks' rest, chunks' <+: chunks → Follows chunks'.flatten rest → Announces rest →
      Refused rest := by
  constructor
  · intro hguarded chunks' rest hpre
    obtain ⟨t, run'⟩ := run.of_prefix hpre
    exact (Receiver.run_reads hpos hlt run').guarded_iff.mp (hguarded chunks' t hpre run') rest
  · intro hrefused chunks' t hpre run'
    exact (Receiver.run_reads hpos hlt run').guarded_iff.mpr fun rest => hrefused chunks' rest hpre

/-- Chunks of less than `2^32` bytes together always fit the buffer. -/
theorem run_of_short (host : Endian) (key : UInt32) {capacity : Nat} (hpos : 0 < capacity)
    (hlt : capacity < 2 ^ 32) {chunks : List (List UInt8)} (hne : ∀ c ∈ chunks, c ≠ [])
    (hshort : chunks.flatten.length < 2 ^ 32) :
    ∃ s, Run (Receiver.Step host key) (.start capacity) chunks s := by
  induction chunks using List.reverseRecOn with
  | nil => exact ⟨_, .nil⟩
  | append_singleton chunks chunk ih =>
    have hsum : chunks.flatten.length + chunk.length < 2 ^ 32 := by simpa using hshort
    obtain ⟨s, run⟩ := ih (fun c hc => hne c (List.mem_append_left _ hc)) (by omega)
    refine ⟨s.receive host key chunk, run.snoc ⟨hne chunk (by simp), fun buffer hbuffer => ?_, rfl⟩⟩
    have hstands := (Receiver.run_reads hpos hlt run).stands
    rcases (frames key).drain_cases chunks.flatten with ⟨rest, hitems, -, hwaiting⟩ | ⟨-, v, -, -, hhalted⟩
    · rw [hwaiting, hbuffer] at hstands
      cases hstands with
      | waiting hholds =>
        have hle := hitems.length_le
        rw [hholds.size_eq]
        omega
    · rw [hhalted, hbuffer] at hstands
      cases hstands

def heartbeat : List UInt8 := [0x83, 0, 0, 0, 9, 0, 0, 0, 1]

/-- A connection that receives a heartbeat guards itself. -/
theorem receive_guarded_iff_heart :
    ∃ t, Run (Receiver.Step .little 7) (.start 4) [heartbeat] t ∧ Guarded 7 t heartbeat := by
  obtain ⟨t, run⟩ : ∃ t, Run (Receiver.Step .little 7) (.start 4) [heartbeat] t :=
    run_of_short .little 7 (by decide) (by decide) (by decide) (by decide)
  refine ⟨t, run, (receive_guarded_iff (by decide) (by decide) run).mpr ?_ _ t (List.prefix_refl _) run⟩
  intro chunks' rest hpre hfollows hannounces
  have hpre : chunks' <+: [] ++ [heartbeat] := hpre
  have hempty (hfollows : Follows [] rest) : False := by
    obtain rfl := follows_malformed hfollows fun h => absurd h.1 (by decide)
    exact absurd hannounces.1 (by decide)
  rcases List.prefix_concat_iff.mp hpre with rfl | hnil
  · cases hfollows with
    | refl => exact absurd hannounces.2 (by decide)
    | frame _ _ hfollows => exact (hempty hfollows).elim
  · obtain rfl := List.prefix_nil.mp hnil
    exact (hempty hfollows).elim

/-- A connection that receives a `Block` that declares 2 MiB, and a MiB after it, keeps them all. -/
theorem receive_unguarded :
    ∃ chunks s buffer, Run (Receiver.Step .little 7) (.start 4) chunks s ∧
      Announces chunks.flatten ∧ s.verdict = .accepting buffer ∧ MAX_BUFFER_SIZE < buffer.size ∧
      ¬Guarded 7 s chunks.flatten := by
  let block : List UInt8 := [0x83, 0, 0x20, 0, 0]
  let body : List UInt8 := List.replicate MAX_BUFFER_SIZE 0
  have hlength : (block ++ body).length = 5 + MAX_BUFFER_SIZE := by
    simp only [block, body, List.length_append, List.length_replicate]
    rfl
  have hdeclared : declared (block ++ body) = 2 * MAX_BUFFER_SIZE := declared_append (by decide)
  have hincomplete : ¬Complete (block ++ body) := by
    rintro ⟨-, hall⟩
    rw [hdeclared, hlength] at hall
    exact absurd hall (by decide)
  have hmore : (frames 7).next (block ++ body) = .more := by
    simp only [frames, nextFrame, hincomplete, ite_false]
  obtain ⟨s, run⟩ : ∃ s, Run (Receiver.Step .little 7) (.start 4) [block ++ body] s :=
    run_of_short .little 7 (by decide) (by decide) (by simp [block])
      (by simp [hlength, MAX_BUFFER_SIZE])
  have hstands := (Receiver.run_reads (by decide) (by decide) run).stands
  rw [List.flatten_singleton, Decoder.drain_more hmore] at hstands
  generalize hverdict : s.verdict = verdict at hstands
  cases hstands with
  | @waiting _ buffer hholds =>
    have hlt : MAX_BUFFER_SIZE < buffer.size := by
      rw [hholds.size_eq, hlength]
      exact Nat.lt_add_of_pos_left (by decide)
    refine ⟨_, s, buffer, run, ?_, hverdict, hlt, fun hguarded => ?_⟩
    · rw [List.flatten_singleton]
      exact ⟨by rw [hlength]; decide, by rw [hdeclared]; decide⟩
    · exact absurd (hguarded.bounded buffer hverdict) (Nat.not_le.mpr hlt)

end ZlNet.Engine
