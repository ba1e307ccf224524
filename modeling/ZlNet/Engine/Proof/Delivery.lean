import ZlNet.Engine.Proof.Stations

/-! Packets that the socket of one process takes arrive at the other end of its connection in the order
of the sends, each of them once and none that was not sent under the key of the connection. -/

namespace ZlNet.Engine

open Network Network.CNetwork Lib Lib.Bytes

/-- An object that was not made yet is not there. -/
theorem System.Coupled.absent {L : Type} [KeyPool] {σ : System L} {id : ObjectId} (h : σ.Coupled)
    (hid : σ.net.created ≤ id) : σ.net.heap id = none := by
  cases hheap : σ.net.heap id with
  | none => rfl
  | some o => exact absurd (h.inv.held id o hheap).1 (Nat.not_lt.mpr hid)

namespace Station

variable {L : Type} [KeyPool] {s : Station L} {a : SystemAction} {τ : System L} {id : ObjectId}

/-- What the sockets of a process have taken and what waits for them are the frames of packets that
its engine has sent under the keys of their connections, in the order of the sends. -/
structure Sound (s : Station L) : Prop where
  coupled : s.system.Coupled
  tidy : s.system.net.Tidy
  queued : s.system.Queued
  box : ∀ id, (s.system.net.heap id).isSome → s.box id = (s.system.net.pipe id).box
  stream : ∀ id, (s.box id).stream = (s.taken id).flatMap IOPacket.frame
  sendable : ∀ id, ∀ packet ∈ s.taken id,
    (packet.cmd ≠ 0 ∨ packet.callbackId ≠ 0) ∧ packet.frame.length < 2 ^ 31
  /-- Nothing has passed through a connection before it was made. -/
  fresh : ∀ id, s.system.net.created ≤ id →
    s.box id = .empty ∧ s.taken id = [] ∧ s.arrived id = [] ∧ s.posted id = []
  sends : ∀ id, ∃ key, (∀ o, s.system.net.heap id = some o → o.key = key) ∧
    (s.taken id).Sublist (sendsTo key s.system.handled)

/-- What a connection has read was posted frame by frame, up to the input that waits. -/
def Decodes (s : Station L) (id : ObjectId) : Prop :=
  ∃ key es rest, (∀ o, s.system.net.heap id = some o →
      o.key = key ∧ (s.system.net.pipe id).input = rest) ∧
    (frames key).drain (s.arrived id) = (es, .waiting rest) ∧
    s.posted id = es.filterMap Dispatch.message

/-- Before a step, a connection that is there after it has what it had. -/
theorem Sound.box_before (h : s.Sound) (hlater : s.system.net.Later τ.net)
    (hthere : (τ.net.heap id).isSome) : s.box id = (s.system.net.pipe id).box := by
  cases hheap : s.system.net.heap id with
  | some o => exact h.box id (by simp [hheap])
  | none =>
    obtain ⟨o', ho'⟩ := Option.isSome_iff_exists.mp hthere
    rcases hlater.keys id o' ho' with ⟨o, ho, -⟩ | hnew
    · cases hheap.symm.trans ho
    · rw [(h.fresh id hnew).1, pipe_none hheap]
      rfl

/-- The frames of the packets are codewords for what is read of them. -/
theorem Sound.codes (h : s.Sound) (id : ObjectId) (key : UInt32) :
    ∃ cs : List (List UInt8 × Dispatch), (∀ c ∈ cs, (frames key).Codes c.1 c.2) ∧
      (cs.map (·.1)).flatten = (s.box id).stream ∧
      cs.map (·.2) = (s.taken id).map (IOPacket.read key) := by
  refine ⟨(s.taken id).map fun packet => (packet.frame, packet.read key), fun c hc => ?_, ?_, ?_⟩
  · obtain ⟨packet, hpacket, rfl⟩ := List.mem_map.mp hc
    obtain ⟨haddressed, hshort⟩ := h.sendable id packet hpacket
    exact frame_codes haddressed hshort
  · rw [h.stream id, List.map_map]
    rfl
  · rw [List.map_map]
    rfl

/-- What has arrived of the bytes that the socket has taken is frames, and a part of one. -/
theorem Sound.waits (h : s.Sound) {bytes : List UInt8} (hbytes : bytes <+: (s.box id).sent)
    (key : UInt32) : ∃ es rest, (frames key).drain bytes = (es, .waiting rest) ∧
      es <+: (s.taken id).map (IOPacket.read key) := by
  obtain ⟨cs, hcodes, hstream, hitems⟩ := h.codes id key
  obtain ⟨es, rest, hdrain, hes, -⟩ := (frames key).drain_codes hcodes rfl
    (hstream ▸ hbytes.trans (Outbox.sent_prefix (s.box id)))
  exact ⟨es, rest, hdrain, hitems ▸ hes⟩

/-- When nothing waits for the socket any more, it has taken all frames. -/
theorem Sound.whole (h : s.Sound) (hpending : (s.box id).pending = []) (key : UInt32) :
    (frames key).drain (s.box id).sent = ((s.taken id).map (IOPacket.read key), .waiting []) := by
  obtain ⟨cs, hcodes, hstream, hitems⟩ := h.codes id key
  have hall : (s.box id).stream = (s.box id).sent := by
    rw [Outbox.stream, hpending, List.append_nil]
  rw [← hall, ← hstream, (frames key).drain_codes_all hcodes rfl, hitems]

/-- The packets that a socket has taken were sent under the key of its connection. -/
theorem Sound.sent (h : s.Sound) (id : ObjectId) :
    ∃ key, (∀ o, s.system.net.heap id = some o → o.key = key) ∧
      (s.taken id).Sublist (sendsTo key s.system.engine.sends) := by
  obtain ⟨key, hkey, hsub⟩ := h.sends id
  exact ⟨key, hkey, hsub.trans (((List.take_sublist _ _).filter _).map _)⟩

section

variable {s' : Station L} {o : IOObject}

/-- The same was sent with the wake-up object. -/
theorem Awake.sent (h : s.Awake o s')
    (hsent : ∃ key, (∀ o₁, s.system.net.heap id = some o₁ → o₁.key = key) ∧
      (s.taken id).Sublist (sendsTo key s.system.engine.sends)) :
    ∃ key, (∀ o₁, s'.system.net.heap id = some o₁ → o₁.key = key) ∧
      (s.taken id).Sublist (sendsTo key s.system.engine.sends) := by
  by_cases hid : id = 0
  · subst hid
    refine ⟨o.key, fun o₁ ho₁ => ?_, h.idle.2.1 ▸ List.nil_sublist _⟩
    rw [Option.some.inj (ho₁.symm.trans h.system.awaits.heap)]
  · obtain ⟨key, hkey, hsub⟩ := hsent
    exact ⟨key, h.key hid hkey, hsub⟩

/-- The same is read with the wake-up object. -/
theorem Awake.decodes (h : s.Awake o s') (hdecodes : s.Decodes id) : s'.Decodes id := by
  rw [Decodes, h.arrived, h.posted]
  by_cases hid : id = 0
  · subst hid
    obtain ⟨-, -, harrived, hposted⟩ := h.idle
    rw [harrived, hposted]
    refine ⟨o.key, [], [], fun o₁ ho₁ => ?_, (frames o.key).drain_more rfl, rfl⟩
    obtain rfl := Option.some.inj (ho₁.symm.trans h.system.awaits.heap)
    exact ⟨rfl, by rw [pipe_eq ho₁, h.empty]; rfl⟩
  · obtain ⟨key, es, rest, hheld, hdrain, hposted⟩ := hdecodes
    refine ⟨key, es, rest, fun o₁ ho₁ => ⟨?_, ?_⟩, hdrain, hposted⟩
    · exact h.key hid (fun o₂ ho₂ => (hheld o₂ ho₂).1) o₁ ho₁
    · rw [h.system.pipe hid]
      rcases h.system.heap_cases hid with
        ⟨-, hnone⟩ | ⟨o₂, o₃, hheap, -, -⟩
      · cases hnone.symm.trans ho₁
      · exact (hheld o₂ hheap).2

end

variable [IntrusiveNode L] {host : Endian}

/-- What was sent over a connection was sent with its key. -/
theorem Sound.sends_step (h : s.Sound) (hstep : s.system.Step a τ)
    (hlater : s.system.net.Later τ.net) (hgone : τ.net.heap id = none → s.system.takes a id = []) :
    ∃ key, (∀ o, τ.net.heap id = some o → o.key = key) ∧
      (s.taken id ++ s.system.takes a id).Sublist (sendsTo key τ.handled) := by
  obtain ⟨-, hnext⟩ := System.step_queued h.coupled h.queued hstep
  obtain ⟨key, hkey, hsub⟩ := h.sends id
  have hkept : (s.taken id).Sublist (sendsTo key τ.handled) := by
    rcases hnext with ⟨hhandled, -⟩ | ⟨sent, -, hhandled⟩
    · rwa [hhandled]
    · rw [hhandled, sendsTo, List.filter_append, List.map_append]
      exact hsub.trans (List.sublist_append_left _ _)
  cases hheap : τ.net.heap id with
  | none =>
    rw [hgone hheap, List.append_nil]
    exact ⟨key, fun _ hsome => (by cases hsome), hkept⟩
  | some o' =>
    rcases hlater.keys id o' hheap with ⟨o, ho, hsame⟩ | hnew
    · obtain rfl := hkey o ho
      refine ⟨o.key, fun _ hsome => Option.some.inj hsome ▸ hsame, ?_⟩
      rcases s.system.takes_cases a id with htakes | ⟨ans, packet, rfl, hpos, hsending, htakes⟩
      · rwa [htakes, List.append_nil]
      · obtain ⟨o₁, ho₁, hhead⟩ := System.sending_queued h.coupled.inv h.queued hsending
        obtain rfl := Option.some.inj (ho.symm.trans ho₁)
        rcases hnext with ⟨-, hnone⟩ | ⟨sent, hsent, hhandled⟩
        · rw [hnone id] at htakes
          cases htakes
        · obtain rfl := Option.some.inj (hhead.symm.trans hsent)
          rw [htakes, hhandled, sendsTo, List.filter_append, List.map_append]
          exact hsub.append (by simp)
    · -- the connection is new
      have htakes := (System.absent_idle h.coupled.inv (h.coupled.absent hnew) a).1
      rw [(h.fresh id hnew).2.1, htakes]
      exact ⟨o'.key, fun _ hsome => Option.some.inj hsome ▸ rfl, List.nil_sublist _⟩

theorem Sound.step (h : s.Sound) (hstep : s.system.Step a τ)
    (hserializes : s.system.Serializes host a) (horder : s.system.Orderly a) :
    (s.after a τ).Sound ∧ ∀ id, (s.box id).sent <+: ((s.after a τ).box id).sent := by
  obtain ⟨-, -, hcoupled⟩ := h.coupled.step hstep
  obtain ⟨htidy, hlater, hhandles⟩ :=
    System.step_handles h.coupled h.tidy h.queued hstep hserializes horder
  obtain ⟨hqueued, hnext⟩ := System.step_queued h.coupled h.queued hstep
  have hbox (id : ObjectId) : ((s.after a τ).box id).stream =
        (s.box id).stream ++ (s.system.takes a id).flatMap IOPacket.frame ∧
      (s.box id).sent <+: ((s.after a τ).box id).sent := by
    obtain ⟨hthere, hgone⟩ := hhandles id
    cases hheap : τ.net.heap id with
    | some o =>
      have hsome : (τ.net.heap id).isSome := by simp [hheap]
      have hhandle := hthere hsome
      have hafter : (s.after a τ).box id = (τ.net.pipe id).box := if_pos hsome
      rw [hafter, h.box_before hlater hsome]
      exact ⟨hhandle.stream, hhandle.sent⟩
    | none =>
      have hafter : (s.after a τ).box id = s.box id := if_neg (by simp [hheap])
      rw [hafter, (hgone hheap).1, List.flatMap_nil, List.append_nil]
      exact ⟨rfl, List.prefix_rfl⟩
  refine ⟨?_, fun id => (hbox id).2⟩
  exact {
    coupled := hcoupled
    tidy := htidy
    queued := hqueued
    box := fun id hthere => if_pos hthere
    stream := fun id => by
      rw [(hbox id).1, h.stream id, ← List.flatMap_append]
      rfl
    sendable := fun id packet hpacket => by
      rcases List.mem_append.mp hpacket with hpacket | hpacket
      · exact h.sendable id packet hpacket
      · rcases s.system.takes_cases a id with hnone | ⟨ans, packet', rfl, hpos, hsending, htakes⟩
        · rw [hnone] at hpacket
          cases hpacket
        · rw [htakes] at hpacket
          obtain rfl := List.mem_singleton.mp hpacket
          obtain ⟨-, haddressed, hshort, -⟩ :=
            System.sending_frame hstep.1 hserializes horder hpos hsending
          exact ⟨haddressed, hshort⟩
    fresh := fun id hid => by
      have hnone : τ.net.heap id = none := hcoupled.absent hid
      obtain ⟨hempty, htaken, harrived, hposted⟩ := h.fresh id (Nat.le_trans hlater.created hid)
      obtain ⟨htakes, hreads, hposts⟩ := (hhandles id).2 hnone
      have hafter : (s.after a τ).box id = s.box id := if_neg (by simp [hnone])
      refine ⟨hafter.trans hempty, ?_, ?_, ?_⟩
      · simp only [after, htaken, htakes, List.append_nil]
      · simp only [after, harrived, hreads, List.append_nil]
      · simp only [after, hposted, hposts, List.append_nil]
    sends := fun id => h.sends_step hstep hlater fun hnone => ((hhandles id).2 hnone).1 }

/-- What a connection reads is decoded as the next bytes after what it has read, if these make no
sense that stops it. -/
theorem Decodes.step (hdecodes : s.Decodes id) (h : s.Sound) (hstep : s.system.Step a τ)
    (hserializes : s.system.Serializes host a) (horder : s.system.Orderly a)
    (hwaits : ∀ key, ∃ es rest, (frames key).drain (s.arrived id ++ s.system.reads a id) =
      (es, .waiting rest)) : (s.after a τ).Decodes id := by
  obtain ⟨-, hlater, hhandles⟩ :=
    System.step_handles h.coupled h.tidy h.queued hstep hserializes horder
  obtain ⟨hthere, hgone⟩ := hhandles id
  obtain ⟨key, es, rest, hheld, hdrain, hposted⟩ := hdecodes
  unfold Decodes
  simp only [after]
  cases hheap : τ.net.heap id with
  | none =>
    obtain ⟨-, hreads, hposts⟩ := hgone hheap
    rw [hreads, hposts, List.append_nil, List.append_nil]
    exact ⟨key, es, rest, fun _ hsome => (by cases hsome), hdrain, hposted⟩
  | some o' =>
    have hhandle := hthere (by simp [hheap])
    rcases hlater.keys id o' hheap with ⟨o, ho, hsame⟩ | hnew
    · obtain ⟨rfl, hinput⟩ := hheld o ho
      by_cases hreads : s.system.reads a id = []
      · obtain ⟨hposts, hidle⟩ := hhandle.idle hreads
        rw [hreads, hposts, List.append_nil, List.append_nil]
        refine ⟨o.key, es, rest, fun _ hsome => ?_, hdrain, hposted⟩
        exact ⟨Option.some.inj hsome ▸ hsame, hidle.trans hinput⟩
      · obtain ⟨es₁, rest₁, hdrain₁⟩ := hwaits o.key
        have hfeed := (frames o.key).feed_drain (s.arrived id) (s.system.reads a id)
        rw [hdrain, hdrain₁, Decoder.feed] at hfeed
        obtain ⟨hes, hrest⟩ := Prod.mk.inj hfeed
        rw [← hinput] at hes hrest
        obtain ⟨hposts, hreading⟩ := hhandle.reading hreads o ho _ _ (Prod.ext rfl hrest)
        refine ⟨o.key, es₁, rest₁, fun _ hsome => ?_, hdrain₁, ?_⟩
        · exact ⟨Option.some.inj hsome ▸ hsame, hreading⟩
        · rw [hposted, hposts, ← List.filterMap_append, hes]
    · -- the connection is new, and has read nothing
      have hnone := h.coupled.absent hnew
      obtain ⟨-, -, harrived, hposted⟩ := h.fresh id hnew
      have hreads := (System.absent_idle h.coupled.inv hnone a).2.1
      obtain ⟨hposts, hidle⟩ := hhandle.idle hreads
      rw [hreads, hposts, harrived, hposted]
      refine ⟨o'.key, [], [], fun _ hsome => ?_, (frames o'.key).drain_more rfl, rfl⟩
      exact ⟨Option.some.inj hsome ▸ rfl, by rw [hidle, pipe_none hnone]; rfl⟩

end Station

namespace World

variable {N L : Type} [DecidableEq N] [KeyPool] [IntrusiveNode L] {host : N → Endian}
  {peer : N × ObjectId → Option (N × ObjectId)} {w w' : World N L} {n m : N} {id id' : ObjectId}

/-- Each process is sound, and what has arrived at each connection to one of them is a start of what
the socket at the other end has taken. -/
structure Sound (peer : N × ObjectId → Option (N × ObjectId)) (w : World N L) : Prop where
  station : ∀ n, (w n).Sound
  arrived : ∀ n id, ∀ e ∈ peer (n, id), (w n).arrived id <+: ((w e.1).box e.2).sent
  decodes : ∀ n id, peer (n, id) ≠ none → (w n).Decodes id

omit [DecidableEq N] in
theorem sound_unwoken {keys : N → UInt32} : Sound peer (unwoken keys : World N L) where
  station n :=
    { coupled := System.coupled_unwoken (keys n)
      tidy := tidy_empty.of_heap rfl rfl
      queued := List.suffix_rfl
      box := fun _ hthere => by cases hthere
      stream := fun _ => rfl
      sendable := fun _ _ hpacket => by cases hpacket
      fresh := fun _ _ => ⟨rfl, rfl, rfl, rfl⟩
      sends := fun _ => ⟨0, fun _ hheap => (by cases hheap), List.nil_sublist _⟩ }
  arrived _ _ _ _ := List.nil_prefix
  decodes n id _ := ⟨0, [], [], fun _ hheap => (by cases hheap), (frames 0).drain_more rfl, rfl⟩

theorem Sound.step {a : N × SystemAction} (h : Sound peer w) (hstep : Step host peer w a w')
    (horder : w.Orderly a) : Sound peer w' := by
  cases hstep with
  | @act n a τ hstep hserializes hreads =>
    obtain ⟨hsound, hgrows⟩ := (h.station n).step hstep hserializes horder
    have hother {m : N} (hne : m ≠ n) : Function.update w n ((w n).after a τ) m = w m :=
      Function.update_of_ne hne _ _
    have hself : Function.update w n ((w n).after a τ) n = (w n).after a τ :=
      Function.update_self _ _ _
    generalize Function.update w n ((w n).after a τ) = w' at hother hself ⊢
    have hgrows (m : N) (id : ObjectId) : ((w m).box id).sent <+: ((w' m).box id).sent := by
      by_cases heq : m = n
      · subst heq
        rw [hself]
        exact hgrows id
      · have hsame : (w' m).box = (w m).box := by rw [hother heq]
        exact hsame ▸ List.prefix_rfl
    -- with what is read, it is still a start of what the other end has sent
    have hstarts (id : ObjectId) (e : N × ObjectId) (he : e ∈ peer (n, id)) :
        (w n).arrived id ++ (w n).system.reads a id <+: ((w e.1).box e.2).sent := by
      by_cases hnone : (w n).system.reads a id = []
      · rw [hnone, List.append_nil]
        exact h.arrived n id e he
      · exact hreads id hnone e he
    refine ⟨fun m => ?_, fun m id e he => ?_, fun m id hpeer => ?_⟩
    · by_cases heq : m = n
      · subst heq
        exact hself ▸ hsound
      · exact hother heq ▸ h.station m
    · refine List.IsPrefix.trans ?_ (hgrows e.1 e.2)
      by_cases heq : m = n
      · subst heq
        exact (congrFun (congrArg Station.arrived hself) id) ▸ hstarts id e he
      · exact (congrFun (congrArg Station.arrived (hother heq)) id) ▸ h.arrived m id e he
    · by_cases heq : m = n
      · subst heq
        obtain ⟨e, he⟩ := Option.ne_none_iff_exists'.mp hpeer
        refine hself ▸
          (h.decodes m id hpeer).step (h.station m) hstep hserializes horder fun key => ?_
        obtain ⟨es, rest, hdrain, -⟩ := (h.station e.1).waits (hstarts id e he) key
        exact ⟨es, rest, hdrain⟩
      · exact hother heq ▸ h.decodes m id hpeer

theorem sound_run {keys : N → UInt32} {as : List (N × SystemAction)}
    (run : Run (fun w a w' => Step host peer w a w' ∧ w.Orderly a) (unwoken keys) as w) :
    Sound peer w :=
  run.invariant (Sound peer) (fun _ _ _ h hstep => h.step hstep.1 hstep.2) sound_unwoken

omit [DecidableEq N] [KeyPool] [IntrusiveNode L] in
theorem delivered_map (key : UInt32) (packets : List (IOPacket SerializeMessage)) :
    packets.filterMap (IOPacket.delivered key) =
      (packets.map (IOPacket.read key)).filterMap Dispatch.message := by
  rw [List.filterMap_map]
  rfl

omit [DecidableEq N] [IntrusiveNode L] in
/-- What a connection has posted is a start of what the socket at the other end has taken. -/
theorem Sound.posted_prefix (h : Sound peer w) (hpeer : peer (n, id) = some (m, id'))
    {key : UInt32} {es : List Dispatch} {rest : List UInt8}
    (hdrain : (frames key).drain ((w n).arrived id) = (es, .waiting rest))
    (hposted : (w n).posted id = es.filterMap Dispatch.message) :
    (w n).posted id <+: ((w m).taken id').filterMap (IOPacket.delivered key) := by
  obtain ⟨es₁, rest₁, hdrain₁, hes⟩ := (h.station m).waits (h.arrived n id _ hpeer) key
  obtain ⟨rfl, -⟩ := Prod.mk.inj (hdrain.symm.trans hdrain₁)
  rw [hposted, delivered_map]
  exact hes.filterMap _

/-- In every run of any number of processes, whose frames do not overtake one another, a process
gets from each connection what the socket at the other end of it has taken, in this order, each packet
once and whole, and all of it once it has arrived.  These are packets that were sent under the key of
that end, in the order of the sends.  Nothing that arrives makes the process reject or fail. -/
theorem delivered_between {as : List (N × SystemAction)} {w₀ : World N L} (hstarts : w₀.Starts)
    (run : Run (fun w a w' => Step host peer w a w' ∧ w.Orderly a) w₀ as w)
    (hpeer : peer (n, id) = some (m, id')) :
    ∃ key key', (∀ o, (w n).system.net.heap id = some o → o.key = key) ∧
      (∀ o, (w m).system.net.heap id' = some o → o.key = key') ∧
      ((w m).taken id').Sublist (sendsTo key' (w m).system.engine.sends) ∧
      (w n).posted id <+: ((w m).taken id').filterMap (IOPacket.delivered key) ∧
      (((w m).box id').pending = [] → (w n).arrived id = ((w m).box id').sent →
        (w n).posted id = ((w m).taken id').filterMap (IOPacket.delivered key)) ∧
      ∀ o bytes, (w n).system.net.heap id = some o →
        (w n).arrived id ++ bytes <+: ((w m).box id').sent →
        ∃ rest, (InnerProtocol.unserialize key ⟨o.inputBuffer.bytes ++ bytes⟩).2 =
          .ok (true, rest) := by
  obtain ⟨keys, objects, v, run, hawake⟩ := awake_run hstarts run
  have h := sound_run run
  obtain ⟨key, es, rest, hheld, hdrain, hposted⟩ :=
    (hawake n).decodes (h.decodes n id (by simp [hpeer]))
  obtain ⟨key', hkey', hsub⟩ := (hawake m).sent ((h.station m).sent id')
  rw [(hawake n).arrived] at hdrain
  rw [(hawake n).posted] at hposted
  rw [(hawake m).system.engine, (hawake m).taken, (hawake m).box, (hawake n).arrived,
    (hawake n).posted]
  refine ⟨key, key', fun o ho => (hheld o ho).1, hkey', hsub, ?_, ?_, ?_⟩
  · exact h.posted_prefix hpeer hdrain hposted
  · intro hpending harrived
    have hwhole := (h.station m).whole hpending key
    rw [← harrived, hdrain] at hwhole
    rw [hposted, delivered_map, (Prod.mk.inj hwhole).1]
  · intro o bytes ho hbytes
    obtain ⟨es₁, rest₁, hdrain₁, -⟩ := (h.station m).waits hbytes key
    have hfeed := (frames key).feed_drain ((v n).arrived id) bytes
    rw [hdrain, hdrain₁, Decoder.feed] at hfeed
    obtain ⟨-, hrest⟩ := Prod.mk.inj hfeed
    have hinput : o.inputBuffer.bytes = rest := by
      rw [← (hheld o ho).2, pipe_eq ho]
      rfl
    refine ⟨⟨rest₁⟩, ?_⟩
    have hdrained : (frames key).drain (rest ++ bytes) = (_, .waiting rest₁) := Prod.ext rfl hrest
    rw [hinput, InnerProtocol.unserialize, hdrained]

/-! ### Concrete runs -/

/-- The processes after an action that does not fail. -/
def next (w : World N L) (a : N × SystemAction) : World N L :=
  Function.update w a.1 ((w a.1).after a.2 ((w a.1).system.next a.2))

theorem step_next {a : SystemAction} (hc : (w n).system.Contract a)
    (hok : ((w n).system.exec a).toBool = true)
    (hserializes : (w n).system.Serializes (host n) a)
    (hreads : ∀ id, (w n).system.reads a id ≠ [] → ∀ e ∈ peer (n, id),
      (w n).arrived id ++ (w n).system.reads a id <+: ((w e.1).box e.2).sent)
    (horder : (w n).system.Orderly a) :
    Step host peer w (n, a) (w.next (n, a)) ∧ w.Orderly (n, a) :=
  ⟨.act (System.step_next hc hok) hserializes hreads, horder⟩

theorem step_engine (n : N) (a : Action SerializeMessage)
    (hc : (w n).system.Contract (.engine a))
    (hok : ((w n).system.exec (.engine a)).toBool = true) :
    Step host peer w (n, .engine a) (w.next (n, .engine a)) ∧ w.Orderly (n, .engine a) :=
  step_next hc hok trivial (fun _ hne => absurd rfl hne) trivial

/-- An event that sends `packet` over a connection with nothing that waits, if it sends anything. -/
theorem step_event (n : N) (ans : Answers) (packet : IOPacket SerializeMessage)
    (hc : (w n).system.Contract (.network (.dispatch ans)))
    (hok : ((w n).system.exec (.network (.dispatch ans))).toBool = true)
    (hnext : ∀ s ∈ (w n).system.queued.head?, s.2 = packet ∧ packet.frame.length < 2 ^ 31 ∧
      sendFrame (host n) packet.outgoing = .ok packet.frame ∧ ans.onSerialize = some packet.frame)
    (hpending : ∀ id ∈ (w n).system.net.addressee, ((w n).system.net.pipe id).box.pending = []) :
    Step host peer w (n, .network (.dispatch ans)) (w.next (n, .network (.dispatch ans))) ∧
      w.Orderly (n, .network (.dispatch ans)) := by
  have hsending (id : ObjectId) (p : IOPacket SerializeMessage)
      (hp : (w n).system.sending id = some p) :
      p = packet ∧ (w n).system.net.addressee = some id ∧
        ∃ s ∈ (w n).system.queued.head?, s.2 = packet := by
    unfold System.sending at hp
    split at hp
    · next hconnected =>
      obtain ⟨s, hs, rfl⟩ := Option.map_eq_some_iff.mp hp
      exact ⟨(hnext s hs).1, hconnected.1, s, hs, (hnext s hs).1⟩
    · cases hp
  refine step_next hc hok (fun id p hp => ?_) (fun _ hne => absurd rfl hne) fun id p hp => ?_
  · obtain ⟨rfl, -, s, hs, -⟩ := hsending id p hp
    exact ⟨_, (hnext s hs).2.2⟩
  · rcases (w n).system.takes_cases (.network (.dispatch ans)) id with
      hnone | ⟨_, p', -, -, hp', htakes⟩
    · rw [hnone] at hp
      cases hp
    · rw [htakes] at hp
      obtain rfl := List.mem_singleton.mp hp
      obtain ⟨rfl, hself, s, hs, -⟩ := hsending id p hp'
      exact ⟨(hnext s hs).2.1, hpending id hself⟩

theorem step_poll (n : N) (key : UInt32) (event : Record) (ans : Answers)
    (hc : (w n).system.Contract (.network (.poll key event ans)))
    (hok : ((w n).system.exec (.network (.poll key event ans))).toBool = true)
    (hreads : ∀ id ∈ (w n).system.net.getObject key, ∀ e ∈ peer (n, id),
      (w n).arrived id ++ (w n).system.net.incoming key event ans <+: ((w e.1).box e.2).sent)
    (hdrains : (w n).system.net.Drains (.poll key event ans)) :
    Step host peer w (n, .network (.poll key event ans))
        (w.next (n, .network (.poll key event ans))) ∧
      w.Orderly (n, .network (.poll key event ans)) := by
  refine step_next hc hok trivial (fun id hne e he => ?_) hdrains
  by_cases hget : (w n).system.net.getObject key = some id
  · rw [show (w n).system.reads (.network (.poll key event ans)) id = _ from if_pos hget]
    exact hreads id hget e he
  · exact absurd (if_neg hget) hne

/-- A message that is sent over a connection with the key 7. -/
def message : IOPacket SerializeMessage := ⟨7, 5, 0, 0, none⟩

def messageFrame : List UInt8 := [0x83, 0, 0, 0, 9, 0, 0, 0, 5]

/-- Of the two processes, the server is on a machine whose words start with their high bytes. -/
def hosts (server : Bool) : Endian := if server then .big else .little

/-- Connection 2 of the server, which has a listener too, is to connection 1 of the other. -/
def peers (e : Bool × ObjectId) : Option (Bool × ObjectId) :=
  if e = (true, 2) then some (false, 1) else if e = (false, 1) then some (true, 2) else none

/-- A connection is made, which the client waits for, and the message is sent over it.  The socket takes
it in two parts, and it is read when all of it has arrived. -/
def exchange : List (Bool × SystemAction) :=
  [(true, .engine .create), (true, .engine (.listen 80 0 5)),
    (true, .network (.dispatch { socket := 3 })),
    (false, .engine .create), (false, .engine (.connect ⟨1, 80⟩ 0 7)),
    (false, .network (.dispatch { socket := 3 })),
    (false, .network (.poll 7 { writable := true }
      { localName := some ⟨2, 81⟩, remoteName := some ⟨1, 80⟩, remoteNameAgain := some ⟨1, 80⟩ })),
    (true, .network (.poll 5 { readable := true }
      { accepted := some (4, ⟨2, 81⟩), key := 6, created := some 0 })),
    (false, .confirmConnect 7), (false, .engine (.send ⟨none, message, 0⟩)),
    (false, .network (.dispatch { onSerialize := some messageFrame, written := 4 })),
    (false, .network (.poll 7 { writable := true } { written := 5 })),
    (true, .network (.poll 6 { readable := true } { readv := some messageFrame }))]

/-- The two processes before their first step. -/
def start : World Bool (List HandlerId) := fun _ => { system := .started }

omit [DecidableEq N] [KeyPool] [IntrusiveNode L] in
theorem start_starts : @Starts Bool (List HandlerId) .list .lowBits start :=
  fun _ => ⟨1, 2, .started, by decide, by decide, System.started_init, rfl⟩

def exchanged : World Bool (List HandlerId) :=
  exchange.foldl (@next Bool (List HandlerId) _ .lowBits .list) start

omit [DecidableEq N] [KeyPool] [IntrusiveNode L] in
theorem exchanged_run : ∃ as, Run (fun w a w' =>
    @Step Bool (List HandlerId) .list .lowBits _ hosts peers w a w' ∧
      @Orderly Bool (List HandlerId) .lowBits w a) start as exchanged := by
  let _ := KeyPool.lowBits
  let _ := IntrusiveNode.list
  have h1 : Run (fun w a w' => Step hosts peers w a w' ∧ w.Orderly a) start _ _ :=
    Run.nil.snoc (step_engine true .create trivial rfl)
  have h2 := h1.snoc (step_engine true (.listen 80 0 5)
    ⟨by decide +kernel, free_of_outstanding [1] rfl (by simp; decide)⟩ (by decide +kernel))
  have h3 := h2.snoc (step_event true { socket := 3 } message (by rintro _ ⟨⟩)
    (by decide +kernel) (by decide +kernel) (by decide +kernel))
  have h4 := h3.snoc (step_engine false .create trivial rfl)
  have h5 := h4.snoc (step_engine false (.connect ⟨1, 80⟩ 0 7)
    ⟨by decide +kernel, free_of_outstanding [1] rfl (by simp; decide)⟩ (by decide +kernel))
  have h6 := h5.snoc (step_event false { socket := 3 } message (by rintro _ ⟨⟩)
    (by decide +kernel) (by decide +kernel) (by decide +kernel))
  have h7 := h6.snoc (step_poll false 7 { writable := true }
    { localName := some ⟨2, 81⟩, remoteName := some ⟨1, 80⟩, remoteNameAgain := some ⟨1, 80⟩ }
    ⟨.inl rfl, by unfold Found; decide +kernel⟩ (by decide +kernel) (by decide +kernel)
    (by unfold Drains; decide +kernel))
  have h8 := h7.snoc (step_poll true 5 { readable := true }
    { accepted := some (4, ⟨2, 81⟩), key := 6, created := some 0 }
    ⟨free_of_outstanding [5, 1] (by decide +kernel) (by simp; decide),
      by unfold Found; decide +kernel⟩
    (by decide +kernel) (by decide +kernel) (by unfold Drains; decide +kernel))
  have h9 := h8.snoc (step_next (n := false) (a := .confirmConnect 7) trivial (by decide +kernel) trivial
    (fun _ hne => absurd rfl hne) trivial)
  have h10 := h9.snoc (step_engine false (.send ⟨none, message, 0⟩)
    (by change ∀ p ∈ IOEngine.protocols _ _, _; decide +kernel) (by decide +kernel))
  have h11 := h10.snoc (step_event false { onSerialize := some messageFrame, written := 4 } message
    (by rintro _ ⟨⟩; decide) (by decide +kernel)
    (fun s hs => ⟨by revert s; decide +kernel, by decide +kernel,
      sendFrame_outgoing (by decide) (by decide +kernel), by decide +kernel⟩) (by decide +kernel))
  have h12 := h11.snoc (step_poll false 7 { writable := true } { written := 5 }
    ⟨.inl rfl, by unfold Found; decide +kernel⟩ (by decide +kernel) (by decide +kernel)
    (by unfold Drains; decide +kernel))
  have h13 := h12.snoc (step_poll true 6 { readable := true } { readv := some messageFrame }
    ⟨.inl rfl, by unfold Found; decide +kernel⟩ (by decide +kernel) (by decide +kernel)
    (by unfold Drains; decide +kernel))
  exact ⟨_, h13⟩

omit [DecidableEq N] [KeyPool] [IntrusiveNode L] in
theorem delivered_between_parts :
    ∃ as w, Run (fun w a w' => @Step Bool (List HandlerId) .list .lowBits _ hosts peers w a w' ∧
        @Orderly Bool (List HandlerId) .lowBits w a) start as w ∧
      (w true).posted 2 = [⟨6, 5, 0, 0, none⟩] := by
  let _ := KeyPool.lowBits
  let _ := IntrusiveNode.list
  obtain ⟨as, run⟩ := exchanged_run
  refine ⟨as, exchanged, run, ?_⟩
  obtain ⟨key, -, hkey, -, -, -, hall, -⟩ :=
    delivered_between start_starts run (rfl : peers (true, 2) = some (false, 1))
  have hsix {o : Option IOObject} (ho : ∀ o', o = some o' → o'.key = key)
      (hmap : o.map IOObject.key = some 6) : 6 = key := by
    obtain ⟨o', ho', hkey'⟩ := Option.map_eq_some_iff.mp hmap
    exact hkey'.symm.trans (ho o' ho')
  obtain rfl := hsix hkey (by decide +kernel)
  exact (hall (by decide +kernel) (by decide +kernel)).trans (by decide +kernel)

end World

end ZlNet.Engine
