import Mathlib.Data.List.Flatten
import ZlNet.Engine.Proof.Delivery

/-! Handlers are called with what the connections of their process have read, in the order in which it
was read, and so with what other processes have sent over these connections. -/

namespace ZlNet.Engine

open Network Network.CNetwork Lib Lib.Bytes

/-! ### The keys of packets -/

theorem nextFrame_uid {key : UInt32} {q rest : List UInt8} {e : Dispatch}
    {packet : IOPacket SerializeMessage} (hnext : nextFrame key q = .item e rest)
    (hmessage : e.message = some packet) : packet.uid = key := by
  have hitem : e = frameContent key (q.take (declared q)) := by
    unfold nextFrame at hnext
    split at hnext
    · split at hnext
      · cases hnext
      · split at hnext
        · cases hnext
        · split at hnext
          · exact (Decoded.item.inj hnext).1.symm
          · cases hnext
    · cases hnext
  rw [hitem, frameContent] at hmessage
  split at hmessage
  · obtain rfl := Option.some.inj hmessage
    rfl
  split at hmessage
  · obtain rfl := Option.some.inj hmessage
    rfl
  split at hmessage
  · cases hmessage
  · obtain rfl := Option.some.inj hmessage
    rfl

/-- What is read of a stream has the key of the connection. -/
theorem drain_uid {key : UInt32} {q : List UInt8} {packet : IOPacket SerializeMessage}
    (hpacket : packet ∈ ((frames key).drain q).1.filterMap Dispatch.message) :
    packet.uid = key := by
  obtain ⟨e, he, hmessage⟩ := List.mem_filterMap.mp hpacket
  exact (frames key).drain_all (P := fun e => ∀ p, e.message = some p → p.uid = key)
    (fun hnext p hp => nextFrame_uid hnext hp) q e he packet hmessage

namespace System

variable {L : Type} {σ : System L} {key : UInt32} {packets : List (IOPacket SerializeMessage)}

theorem unserialize_uid {buffer : IIOBuffer} {packet : IOPacket SerializeMessage}
    (hpacket : packet ∈ (InnerProtocol.unserialize key buffer).1.filterMap Dispatch.message) :
    packet.uid = key := by
  have hitems : (InnerProtocol.unserialize key buffer).1 = ((frames key).drain buffer.bytes).1 := by
    unfold InnerProtocol.unserialize
    generalize (frames key).drain buffer.bytes = drained
    obtain ⟨es, standing⟩ := drained
    rcases standing with rest | (_ | f)
    · rfl
    · rfl
    · rfl
  exact drain_uid (hitems ▸ hpacket)

variable [KeyPool]

theorem received_uid {event : Record} {ans : Answers}
    (hreceived : σ.received (.poll key event ans) = .ok packets) : ∀ p ∈ packets, p.uid = key := by
  rw [received] at hreceived
  split at hreceived
  · obtain rfl := Except.ok.inj hreceived
    exact fun p hp => by cases hp
  · obtain ⟨_, -, hreceived⟩ := of_bind_ok hreceived
    obtain rfl := Except.ok.inj hreceived
    exact fun p hp => unserialize_uid hp

/-- What a step posts has the key of the connection that reads it. -/
theorem posts_uid (hinv : σ.net.Inv) {a : SystemAction} {id : ObjectId} {o : IOObject}
    (hheap : σ.net.heap id = some o) : ∀ p ∈ σ.posts a id, p.uid = o.key := by
  intro p hp
  cases a with
  | network b =>
    cases b with
    | poll key event ans =>
      by_cases hget : σ.net.getObject key = some id
      · obtain ⟨o', hin, rfl⟩ := hinv.inTable_of_getObject hget
        obtain rfl := Option.some.inj (hheap.symm.trans hin.heap)
        rw [posts, if_pos hget] at hp
        cases hreceived : σ.received (.poll o.key event ans) with
        | ok packets =>
          rw [hreceived] at hp
          exact received_uid hreceived p hp
        | error f =>
          rw [hreceived] at hp
          cases hp
      · rw [posts, if_neg hget] at hp
        cases hp
    | dispatch | fire | listen | connect | push | pushKey | recycle => cases hp
  | engine | confirmListen | confirmConnect | clear | recycle => cases hp

/-- A step of the network thread reads nothing, or with the connection that a record is for. -/
theorem received_cases (hinv : σ.net.Inv) {b : Network.Action}
    (hreceived : σ.received b = .ok packets) :
    packets = [] ∨ ∃ id o, σ.net.heap id = some o ∧ σ.posts (.network b) id = packets := by
  cases b with
  | poll key event ans =>
    cases hget : σ.net.getObject key with
    | none =>
      have hinput : σ.input key event ans = none := by
        unfold input
        rw [hget]
        rfl
      rw [received, hinput] at hreceived
      exact .inl (Except.ok.inj hreceived).symm
    | some id =>
      obtain ⟨o, hin, rfl⟩ := hinv.inTable_of_getObject hget
      refine .inr ⟨id, o, hin.heap, ?_⟩
      rw [posts, if_pos hget, hreceived]
      rfl
  | dispatch | fire | listen | connect | push | pushKey | recycle =>
    exact .inl (Except.ok.inj hreceived).symm

end System

namespace Station

variable {L : Type} {s : Station L} {a : SystemAction} {τ : System L} {id : ObjectId} {key : UInt32}
  {calls calls' : List (IOPacket SerializeMessage)}

/-- With the packets that wait, the handlers of a kind were called with what connections have posted, in
this order. -/
def Ordered (s : Station L) (calls : List (IOPacket SerializeMessage)) : Prop :=
  ∀ key, key ≠ 0 → ((calls ++ s.system.engine.messages).filter fun packet =>
    packet.uid = key).Sublist (s.heard key)

variable [KeyPool]

theorem heard_grows (hcreated : s.system.net.created ≤ τ.net.created) :
    (s.heard key).Sublist ((s.after a τ).heard key) := by
  have hsub (id : ObjectId) : ((s.posted id).filter fun packet => packet.uid = key).Sublist
      (((s.after a τ).posted id).filter fun packet => packet.uid = key) :=
    (List.sublist_append_left _ _).filter _
  exact (List.Sublist.flatMap_right _ fun id _ => hsub id).trans
    ((List.range_sublist.mpr hcreated).flatMap _)

omit [KeyPool] in
/-- What was heard with a key was posted by the connections that have posted anything with it. -/
theorem heard_sublist (s : Station L) (key : UInt32) :
    (s.heard key).Sublist (((List.range s.system.net.created).filter fun id =>
      (s.posted id).any fun packet => packet.uid = key).flatMap s.posted) := by
  unfold heard
  induction List.range s.system.net.created with
  | nil => exact List.Sublist.refl _
  | cons id ids ih =>
    rw [List.flatMap_cons, List.filter_cons]
    split
    · rw [List.flatMap_cons]
      exact List.filter_sublist.append ih
    · next hnone =>
      have hnone : (s.posted id).filter (fun packet => packet.uid = key) = [] := by
        simpa using hnone
      rw [hnone]
      exact ih

/-- What a connection posts comes after all that was posted with its key, unless a connection that was
made after it has had this key. -/
theorem heard_posts (hcreated : s.system.net.created ≤ τ.net.created)
    (hid : id < s.system.net.created)
    (hlast : ∀ id', id < id' → ∀ packet ∈ s.posted id', packet.uid ≠ key) :
    (s.heard key ++ (s.system.posts a id).filter fun packet => packet.uid = key).Sublist
      ((s.after a τ).heard key) := by
  obtain ⟨later, hlater⟩ := Nat.exists_eq_add_of_le (Nat.succ_le_of_lt hid)
  have hheard : s.heard key = ((List.range id).flatMap fun id =>
      (s.posted id).filter fun packet => packet.uid = key) ++
        (s.posted id).filter fun packet => packet.uid = key := by
    have hnone : ((List.range later).map (id + 1 + ·)).flatMap (fun id =>
        (s.posted id).filter fun packet => packet.uid = key) = [] := by
      refine List.flatMap_eq_nil_iff.mpr fun id' hid' => List.filter_eq_nil_iff.mpr ?_
      obtain ⟨n, -, rfl⟩ := List.mem_map.mp hid'
      intro packet hpacket
      have hne := hlast (id + 1 + n) (Nat.lt_add_right n (Nat.lt_succ_self id)) packet hpacket
      simpa using hne
    rw [heard, hlater, List.range_add, List.flatMap_append, hnone, List.append_nil,
      List.range_succ, List.flatMap_append, List.flatMap_singleton]
  have hafter : ((s.after a τ).posted id).filter (fun packet => packet.uid = key) =
      (s.posted id).filter (fun packet => packet.uid = key) ++
        (s.system.posts a id).filter fun packet => packet.uid = key :=
    List.filter_append ..
  have hrange : (List.range (id + 1)).Sublist (List.range τ.net.created) :=
    List.range_sublist.mpr (Nat.le_trans (Nat.succ_le_of_lt hid) hcreated)
  refine List.Sublist.trans ?_ (hrange.flatMap _)
  rw [hheard, List.range_succ, List.flatMap_append, List.flatMap_singleton, hafter,
    List.append_assoc]
  refine List.Sublist.append (List.Sublist.flatMap_right _ fun id' _ => ?_) (List.Sublist.refl _)
  exact (List.sublist_append_left _ _).filter _

/-- Calls with the oldest packets that wait, and packets that are for no connection. -/
theorem Ordered.hands (h : s.Ordered calls) (hcreated : s.system.net.created ≤ τ.net.created)
    {new : List (IOPacket SerializeMessage)} (hnew : ∀ packet ∈ new, packet.uid = 0)
    (hcalls : (calls' ++ τ.engine.messages).Sublist (calls ++ s.system.engine.messages ++ new)) :
    (s.after a τ).Ordered calls' := by
  intro key hkey
  have hnone : (new.filter fun packet => packet.uid = key) = [] := by
    refine List.filter_eq_nil_iff.mpr fun packet hpacket => ?_
    rw [hnew packet hpacket]
    simpa using hkey.symm
  have hsub := hcalls.filter fun packet => packet.uid = key
  rw [List.filter_append _ new, hnone, List.append_nil] at hsub
  exact (hsub.trans (h key hkey)).trans (heard_grows hcreated)

/-- Packets that a connection posts. -/
theorem Ordered.reads (h : s.Ordered calls) (hcreated : s.system.net.created ≤ τ.net.created)
    (hid : id < s.system.net.created)
    (hkey : ∀ packet ∈ s.system.posts a id, packet.uid = key)
    (hlast : ∀ id', id < id' → ∀ packet ∈ s.posted id', packet.uid ≠ key)
    (hposts : τ.engine.messages = s.system.engine.messages ++ s.system.posts a id) :
    (s.after a τ).Ordered calls := by
  intro key' hkey'
  change ((calls ++ τ.engine.messages).filter _).Sublist _
  rw [hposts, ← List.append_assoc, List.filter_append _ (s.system.posts a id)]
  by_cases heq : key = key'
  · subst heq
    exact ((h key hkey').append_right _).trans (heard_posts hcreated hid hlast)
  · have hnone : ((s.system.posts a id).filter fun packet => packet.uid = key') = [] := by
      refine List.filter_eq_nil_iff.mpr fun packet hpacket => ?_
      rw [hkey packet hpacket]
      simpa using heq
    rw [hnone, List.append_nil]
    exact (h key' hkey').trans (heard_grows hcreated)

/-- Handlers are called in the order in which their packets were posted, and with what is for them.  A
connection that was made after another has posted nothing with the key that this one still has. -/
structure Arrives (s : Station L) [IntrusiveNode L] : Prop where
  callbacks : s.system.engine.callbacks.Inv
  routed : s.system.engine.Routed
  answered : s.system.engine.Matches
  handled : s.Ordered s.system.engine.handled
  replied : s.Ordered s.system.engine.replied
  apart : ∀ id o, s.system.net.heap id = some o →
    ∀ id', id < id' → ∀ packet ∈ s.posted id', packet.uid ≠ o.key
  keys : ∀ id, ∃ key, (∀ o, s.system.net.heap id = some o → o.key = key) ∧
    ∀ packet ∈ s.posted id, packet.uid = key

variable [IntrusiveNode L]

theorem Arrives.apart_step (h : s.Arrives) (hsound : s.Sound) (hlater : s.system.net.Later τ.net) :
    ∀ id o, τ.net.heap id = some o →
      ∀ id', id < id' → ∀ packet ∈ (s.after a τ).posted id', packet.uid ≠ o.key := by
  intro id o' ho' id' hlt packet hpacket
  rcases hlater.keys id o' ho' with ⟨o, ho, hkey⟩ | hnew
  · rw [hkey]
    rcases List.mem_append.mp hpacket with hpacket | hpacket
    · exact h.apart id o ho id' hlt packet hpacket
    · -- another connection has another key
      cases hheap : s.system.net.heap id' with
      | none =>
        rw [(System.absent_idle hsound.coupled.inv hheap a).2.2] at hpacket
        cases hpacket
      | some o₁ =>
        rw [System.posts_uid hsound.coupled.inv hheap packet hpacket]
        intro hsame
        obtain rfl := hsound.coupled.inv.unique id id' o o₁ ho hheap hsame.symm
        exact Nat.lt_irrefl _ hlt
  · -- nothing was made after a connection that is new
    have hid' : s.system.net.created ≤ id' := Nat.le_of_lt (Nat.lt_of_le_of_lt hnew hlt)
    obtain ⟨-, -, -, hposted⟩ := hsound.fresh id' hid'
    have hnothing := (System.absent_idle hsound.coupled.inv (hsound.coupled.absent hid') a).2.2
    change packet ∈ s.posted id' ++ s.system.posts a id' at hpacket
    rw [hposted, hnothing] at hpacket
    cases hpacket

/-- A connection keeps the key that its packets have. -/
theorem Arrives.keys_step (h : s.Arrives) (hsound : s.Sound) (hlater : s.system.net.Later τ.net)
    (id : ObjectId) : ∃ key, (∀ o, τ.net.heap id = some o → o.key = key) ∧
      ∀ packet ∈ (s.after a τ).posted id, packet.uid = key := by
  obtain ⟨key, hkey, hposted⟩ := h.keys id
  cases hheap : s.system.net.heap id with
  | some o =>
    obtain rfl := hkey o hheap
    refine ⟨o.key, fun o' ho' => ?_, fun packet hpacket => ?_⟩
    · rcases hlater.keys id o' ho' with ⟨o₁, ho₁, hsame⟩ | hnew
      · obtain rfl := Option.some.inj (hheap.symm.trans ho₁)
        exact hsame
      · cases hheap.symm.trans (hsound.coupled.absent hnew)
    · rcases List.mem_append.mp hpacket with hpacket | hpacket
      · exact hposted packet hpacket
      · exact System.posts_uid hsound.coupled.inv hheap packet hpacket
  | none =>
    have hsame : (s.after a τ).posted id = s.posted id := by
      change s.posted id ++ s.system.posts a id = _
      rw [(System.absent_idle hsound.coupled.inv hheap a).2.2, List.append_nil]
    rw [hsame]
    cases hthere : τ.net.heap id with
    | none => exact ⟨key, fun _ hsome => (by cases hsome), hposted⟩
    | some o' =>
      rcases hlater.keys id o' hthere with ⟨o, ho, -⟩ | hnew
      · cases hheap.symm.trans ho
      · -- the connection is new, and has posted nothing
        obtain ⟨-, -, -, hnothing⟩ := hsound.fresh id hnew
        refine ⟨o'.key, fun _ hsome => Option.some.inj hsome ▸ rfl, fun packet hpacket => ?_⟩
        rw [hnothing] at hpacket
        cases hpacket

theorem Arrives.step (h : s.Arrives) (hsound : s.Sound) (hlater : s.system.net.Later τ.net)
    (hstep : s.system.Step a τ) : (s.after a τ).Arrives := by
  have hapart := h.apart_step (a := a) hsound hlater
  have hkeys := h.keys_step (a := a) hsound hlater
  have hcreated := hlater.created
  -- what is posted leaves the calls of handlers as they are
  have hposting {packets : List (IOPacket SerializeMessage)}
      (hposts : s.system.engine.Posts τ.engine packets)
      (hpackets : packets = [] ∨ ∃ id o, s.system.net.heap id = some o ∧
        s.system.posts a id = packets) : (s.after a τ).Arrives := by
    obtain ⟨-, -, -, -, hcalled⟩ := Waiters.ext_iff.mp hposts.waiters
    have hnone : ∀ packet ∈ ([] : List (IOPacket SerializeMessage)), packet.uid = 0 :=
      fun _ hpacket => by cases hpacket
    have hkept {calls calls' : List (IOPacket SerializeMessage)} (hcalls : s.Ordered calls)
        (hsame : calls' = calls) : (s.after a τ).Ordered calls' := by
      subst hsame
      rcases hpackets with rfl | ⟨id, o, hheap, rfl⟩
      · refine hcalls.hands hcreated hnone ?_
        rw [hposts.messages, List.append_nil, List.append_nil]
      · exact hcalls.reads hcreated (hsound.coupled.inv.held id o hheap).1
          (System.posts_uid hsound.coupled.inv hheap) (h.apart id o hheap) hposts.messages
    exact {
      callbacks := IOEngine.callbacks_congr hposts.waiters ▸ h.callbacks
      routed := fun call hcall => by
        rw [show (s.after a τ).system.engine.packetHandlers = _ from hposts.packetHandlers]
        exact h.routed call (hposts.dispatched ▸ hcall)
      answered := h.answered.grows hposts.waiters hposts.events
      handled := hkept h.handled (congrArg (List.map Prod.snd) hposts.dispatched)
      replied := hkept h.replied
        (congrArg (fun called => (called.map Prod.snd).filter fun p => p.cmd = 0) hcalled)
      apart := hapart
      keys := hkeys }
  obtain ⟨hc, hexec⟩ := hstep
  cases a with
  | engine b =>
    obtain ⟨engine, hengine, hexec⟩ := of_bind_ok hexec
    obtain rfl := Except.ok.inj hexec
    have hstep : s.system.engine.Step b engine := (hsound.coupled.permitted hc hengine).1
    obtain ⟨new, hnew, hhandled⟩ :=
      IOEngine.step_calls (System.Contract.owns hc) hstep (IOEngine.exec_handled hengine)
    obtain ⟨new', hnew', hreplied⟩ := IOEngine.step_calls (System.Contract.owns hc) hstep
      (IOEngine.exec_replied h.answered h.callbacks hengine)
    exact {
      callbacks := (IOEngine.exec_changed h.callbacks hengine).inv h.callbacks
      routed := h.routed.step hengine
      answered := h.answered.step h.callbacks hengine
      handled := h.handled.hands hcreated hnew hhandled
      replied := h.replied.hands hcreated hnew' hreplied
      apart := hapart
      keys := hkeys }
  | network b =>
    obtain ⟨net, -, hexec⟩ := of_bind_ok hexec
    obtain ⟨packets, hreceived, hexec⟩ := of_bind_ok hexec
    obtain rfl := Except.ok.inj hexec
    exact hposting (s.system.hears_posts packets net)
      (System.received_cases hsound.coupled.inv hreceived)
  | confirmListen uid | confirmConnect uid =>
    obtain ⟨⟨confirmed, engine⟩, hconfirm, hexec⟩ := of_bind_ok hexec
    obtain rfl := Except.ok.inj hexec
    exact hposting (IOEngine.confirm_posts hconfirm) (.inl rfl)
  | clear group =>
    obtain rfl := Except.ok.inj hexec
    exact hposting (.refl _) (.inl rfl)
  | recycle p =>
    obtain rfl := Except.ok.inj hexec
    exact hposting ⟨rfl, rfl, rfl, List.prefix_rfl, rfl, (List.append_nil _).symm⟩ (.inl rfl)

omit [KeyPool] in
theorem arrives_unwoken (key : UInt32) : ({ system := .unwoken key } : Station L).Arrives where
  callbacks := IOEngine.inv_init
  routed _ hcall := by cases hcall
  answered := ⟨fun _ hcall => (by cases hcall), fun _ hbound => absurd rfl hbound⟩
  handled _ _ := List.nil_sublist _
  replied _ _ := List.nil_sublist _
  apart _ _ hheap := by cases hheap
  keys _ := ⟨0, fun _ hheap => (by cases hheap), fun _ hpacket => by cases hpacket⟩

end Station

namespace World

variable {N L : Type} [DecidableEq N] [KeyPool] [IntrusiveNode L] {host : N → Endian}
  {peer : N × ObjectId → Option (N × ObjectId)} {w w' : World N L} {n : N}

theorem arrives_run {keys : N → UInt32} {as : List (N × SystemAction)}
    (run : Run (fun w a w' => Step host peer w a w' ∧ w.Orderly a) (unwoken keys) as w) (n : N) :
    (w n).Arrives := by
  have hkept : Sound peer w ∧ ∀ n, (w n).Arrives := by
    refine run.invariant (fun w => Sound peer w ∧ ∀ n, (w n).Arrives) (fun w a w' h hstep => ?_)
      ⟨sound_unwoken, fun n => Station.arrives_unwoken (keys n)⟩
    obtain ⟨hsound, harrives⟩ := h
    refine ⟨hsound.step hstep.1 hstep.2, fun m => ?_⟩
    obtain ⟨hact, horder⟩ := hstep
    cases hact with
    | @act n a τ hsystem hserializes hreads =>
      have hn := hsound.station n
      obtain ⟨-, hlater, -⟩ :=
        System.step_handles hn.coupled hn.tidy hn.queued hsystem hserializes horder
      by_cases heq : m = n
      · subst heq
        rw [Function.update_self]
        exact (harrives m).step hn hlater hsystem
      · rw [Function.update_of_ne heq]
        exact harrives m
  exact hkept.2 n

/-- In every run of any number of processes, handlers are called, for each key, with what the connections
that had this key have posted, in this order and each packet at most once.  Where such a connection is to
another process, these are packets which that process has sent under the key of the other end of it.  A packet handler
gets packets of the command that it is bound to, and a callback handler what has the id of its request,
which was sent with this key. -/
theorem handled_in_order {as : List (N × SystemAction)} {w₀ : World N L} (hstarts : w₀.Starts)
    (run : Run (fun w a w' => Step host peer w a w' ∧ w.Orderly a) w₀ as w) (n : N)
    {key : UInt32} (hkey : key ≠ 0) :
    ∃ connections : List ObjectId, connections.Pairwise (· < ·) ∧
      ((w n).system.engine.handled.filter fun packet => packet.uid = key).Sublist
        (connections.flatMap (w n).posted) ∧
      ((w n).system.engine.replied.filter fun packet => packet.uid = key).Sublist
        (connections.flatMap (w n).posted) ∧
      (∀ id ∈ connections, (∀ o, (w n).system.net.heap id = some o → o.key = key) ∧
        (∀ packet ∈ (w n).posted id, packet.uid = key) ∧
        ∀ m id', peer (n, id) = some (m, id') →
          ∃ key', (∀ o, (w m).system.net.heap id' = some o → o.key = key') ∧
            ((w n).posted id).Sublist
              ((sendsTo key' (w m).system.engine.sends).filterMap (IOPacket.delivered key))) ∧
      (∀ call ∈ (w n).system.engine.dispatched,
        (w n).system.engine.packetHandlers call.2.cmd = some call.1) ∧
      ∀ call ∈ (w n).system.engine.called, call.2.uid = key →
        ((w n).system.engine.handler call.1).cbId = call.2.callbackId ∧
        ∃ request ∈ sendsTo key (w n).system.engine.sends,
          request.callbackId = call.2.callbackId ∧
          request.cmd = ((w n).system.engine.handler call.1).cmd := by
  obtain ⟨keys, objects, v, run, hawake⟩ := awake_run hstarts run
  have hsound := sound_run run
  have harrives := arrives_run run n
  rw [(hawake n).system.engine, (hawake n).posted]
  let had (id : ObjectId) : Bool := ((v n).posted id).any fun packet => packet.uid = key
  have hheard : ((v n).heard key).Sublist
      (((List.range (v n).system.net.created).filter had).flatMap (v n).posted) :=
    Station.heard_sublist (v n) key
  have hordered {calls : List (IOPacket SerializeMessage)} (h : (v n).Ordered calls) :
      (calls.filter fun packet => packet.uid = key).Sublist
        (((List.range (v n).system.net.created).filter had).flatMap (v n).posted) :=
    (((List.sublist_append_left _ _).filter _).trans (h key hkey)).trans hheard
  refine ⟨(List.range (v n).system.net.created).filter had, ?_, hordered harrives.handled,
    hordered harrives.replied, fun id hid => ?_, harrives.routed, fun call hcall huid => ?_⟩
  · exact List.pairwise_lt_range.filter _
  · obtain ⟨packet, hpacket, huid⟩ := List.any_eq_true.mp (List.mem_filter.mp hid).2
    have huid : packet.uid = key := of_decide_eq_true huid
    obtain ⟨key₁, hheap, hposted⟩ := harrives.keys id
    obtain rfl : key₁ = key := (hposted packet hpacket).symm.trans huid
    have hid : id ≠ 0 := by
      rintro rfl
      rw [(hawake n).idle.2.2.2] at hpacket
      cases hpacket
    refine ⟨(hawake n).key hid hheap, hposted, fun m id' hpeer => ?_⟩
    obtain ⟨key', hkey', hsent⟩ := (hawake m).sent ((hsound.station m).sent id')
    rw [(hawake m).system.engine]
    refine ⟨key', hkey', ?_⟩
    obtain ⟨key₂, es, rest, -, hdrain, hdecodes⟩ := hsound.decodes n id (by simp [hpeer])
    have hsame : packet.uid = key₂ := by
      refine drain_uid (q := (v n).arrived id) ?_
      rw [hdrain]
      exact hdecodes ▸ hpacket
    obtain rfl := huid.symm.trans hsame
    exact (hsound.posted_prefix hpeer hdrain hdecodes).sublist.trans (hsent.filterMap _)
  · obtain ⟨hbound, hid, hhandler⟩ := harrives.answered.answers call hcall
    obtain ⟨-, hrequest⟩ := harrives.answered.requests call.1 hbound
    rw [hhandler, huid, hid] at hrequest
    exact ⟨hid, hrequest hkey⟩

omit [DecidableEq N] [KeyPool] [IntrusiveNode L] in
/-- The packet handler of the server is called with the message. -/
theorem handled_in_order_message :
    ∃ as w, Run (fun w a w' => @Step Bool (List HandlerId) .list .lowBits _ hosts peers w a w' ∧
        @Orderly Bool (List HandlerId) .lowBits w a) start as w ∧
      (w true).system.engine.handled = [⟨6, 5, 0, 0, none⟩] ∧
      ∃ id, ⟨6, 5, 0, 0, none⟩ ∈ (w true).posted id := by
  let _ := KeyPool.lowBits
  let _ := IntrusiveNode.list
  obtain ⟨_, h13⟩ := exchanged_run
  have h14 := h13.snoc (step_engine true (.bindPacketHandler 5 0) trivial rfl)
  have h15 := h14.snoc (step_engine true (.dispatch (.notify ⟨.PacketListen, 5, 0, none, true⟩))
    (by change List.head? _ = some _; decide +kernel) (by decide +kernel))
  have h16 := h15.snoc (step_engine true (.dispatch (.notify ⟨.PacketAccept, 6, 1, some 0, true⟩))
    (by change List.head? _ = some _; decide +kernel) (by decide +kernel))
  have h17 := h16.snoc (step_engine true (.dispatch (.msg ⟨6, 5, 0, 0, none⟩))
    (by change List.head? _ = some _; decide +kernel) (by decide +kernel))
  refine ⟨_, _, h17, by decide +kernel, ?_⟩
  obtain ⟨connections, -, hhandled, -⟩ := handled_in_order start_starts h17 true (by decide : (6 : UInt32) ≠ 0)
  have hmem := hhandled.subset (show ⟨6, 5, 0, 0, none⟩ ∈ _ by decide +kernel)
  obtain ⟨id, -, hposted⟩ := List.mem_flatMap.mp hmem
  exact ⟨id, hposted⟩

end World

end ZlNet.Engine
