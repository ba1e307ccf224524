import ZlNet.Engine.Proof.Peers

/-! The nodes that a node is to be connected with.  The engine knows the connection of each, or the
timer opens a new one, as long as no connection is dropped before it is available. -/

namespace ZlNet.Engine

open Network Lib Lib.Bytes

namespace NetEngine

variable {L : Type} {tidy : Prop} {σ τ : NetEngine L} {p q : ProtocolId} {uid : UInt32}

/-- What a node keeps of other nodes is about protocols that its engine knows. -/
structure Current (σ : NetEngine L) : Prop where
  node : ∀ code n, σ.connetNodes code = some n →
    (σ.node n).uid = 0 ∨ σ.io.protocols (σ.node n).uid ≠ none
  connecting : ∀ uid, σ.connectingNodes uid ≠ none → σ.io.protocols uid ≠ none

structure Tracked (σ : NetEngine L) : Prop where
  connecting : ∀ uid, σ.connectingNodes uid ≠ none → ∃ p, σ.io.protocols uid = some p ∧
    (σ.io.protocol p).type = .CONNECTOR
  made : ∀ code n, σ.connetNodes code = some n → n < σ.nodes
  node : ∀ code n, σ.connetNodes code = some n →
    (σ.node n).uid = 0 ∨ σ.connectingNodes (σ.node n).uid = some n

theorem Tracked.current (h : σ.Tracked) : σ.Current where
  node code n hn := by
    rcases h.node code n hn with hzero | hconnecting
    · exact .inl hzero
    · obtain ⟨p, hfound, -⟩ := h.connecting _ (hconnecting ▸ Option.some_ne_none n)
      exact .inr (hfound ▸ Option.some_ne_none p)
  connecting uid hconnecting := by
    obtain ⟨p, hfound, -⟩ := h.connecting uid hconnecting
    exact hfound ▸ Option.some_ne_none p

theorem Tracked.none_of_free (h : σ.Tracked) (hfree : σ.io.protocols uid = none) :
    σ.connectingNodes uid = none := by
  by_contra hconnecting
  obtain ⟨p, hfound, -⟩ := h.connecting uid hconnecting
  simp [hfree] at hfound

/-! ### Connections that go -/

theorem removePeer_node (σ : NetEngine L) (p : ProtocolId) (uid : UInt32) (k : NodeId) :
    ((σ.removePeer p uid).node k).uid = 0 ∨
    (σ.removePeer p uid).node k = σ.node k := by
  unfold removePeer
  split
  · exact .inr rfl
  next n _ =>
  by_cases hk : k = n
  · subst hk
    exact .inl (congrArg Node.uid (setNode_self (σ := σ.nodeCall p (.onNodeDisConnect uid))))
  · exact .inr (setNode_ne (σ := σ.nodeCall p (.onNodeDisConnect uid)) hk)

/-- What `removePeer` leaves alone. -/
theorem removePeer_same (σ : NetEngine L) (p : ProtocolId) (uid : UInt32) :
    (σ.removePeer p uid).connectingNodes = σ.connectingNodes ∧
    (σ.removePeer p uid).connetNodes = σ.connetNodes ∧ (σ.removePeer p uid).nodes = σ.nodes := by
  unfold removePeer
  split
  · exact ⟨rfl, rfl, rfl⟩
  · exact ⟨rfl, rfl, rfl⟩

/-- Nobody is connecting with the uid of `p` any more. -/
structure Leaves (σ : NetEngine L) (p : ProtocolId) (τ : NetEngine L) : Prop where
  connecting : τ.connectingNodes = Function.update σ.connectingNodes (σ.io.protocol p).key none
  connet : τ.connetNodes = σ.connetNodes
  nodes : τ.nodes = σ.nodes
  node : ∀ k, (τ.node k).uid = 0 ∨ τ.node k = σ.node k ∧
    σ.connectingNodes (σ.io.protocol p).key ≠ some k

theorem onDisconnect_leaves {io : IOEngine L SerializeMessage} :
    σ.Leaves p ({ σ with io }.onDisconnect p (σ.io.protocol p).key) := by
  unfold onDisconnect
  split
  · next hnone =>
    have hnone : σ.connectingNodes (σ.io.protocol p).key = none := hnone
    obtain ⟨hconnecting, hconnet, hnodes⟩ :=
      removePeer_same { σ with io } p (σ.io.protocol p).key
    refine ⟨?_, hconnet, hnodes, fun k => ?_⟩
    · rw [hconnecting, ← hnone]
      exact (Function.update_eq_self ..).symm
    · rcases removePeer_node { σ with io } p (σ.io.protocol p).key k with hzero | hsame
      · exact .inl hzero
      · exact .inr ⟨hsame, by simp [hnone]⟩
  · next n hfound =>
    have hfound : σ.connectingNodes (σ.io.protocol p).key = some n := hfound
    let left : NetEngine L := { { σ with io } with
      connectingNodes := Function.update σ.connectingNodes (σ.io.protocol p).key none }
    obtain ⟨hconnecting, hconnet, hnodes⟩ :=
      removePeer_same (left.setNode n { σ.node n with uid := 0 }) p (σ.io.protocol p).key
    refine ⟨hconnecting, hconnet, hnodes, fun k => ?_⟩
    rcases removePeer_node (left.setNode n { σ.node n with uid := 0 }) p (σ.io.protocol p).key
      k with hzero | hsame
    · exact .inl hzero
    by_cases hk : k = n
    · subst hk
      refine .inl ?_
      rw [hsame, setNode_self]
    · refine .inr ⟨hsame.trans (setNode_ne hk), ?_⟩
      rw [hfound]
      exact fun heq => hk (Option.some.inj heq).symm

theorem ends_leaves {io : IOEngine L SerializeMessage} {calls : List Upcall} (h : σ.Tracked)
    (hwired : σ.io.Wired tidy) (hheld : p ∈ σ.io.outstanding) (hends : Ends (σ.io.protocol p) calls)
    (hquiet : (σ.io.protocol p).available = false → (σ.io.protocol p).type = .CONNECTOR →
      σ.connectingNodes (σ.io.protocol p).key = none) :
    σ.Leaves p ((calls.map (p, ·)).foldl gone { σ with io }) := by
  -- a node is connecting only with a connector
  have hnone (htype : (σ.io.protocol p).type ≠ .CONNECTOR) :
      σ.connectingNodes (σ.io.protocol p).key = none := by
    by_contra hconnecting
    obtain ⟨q, hfound, hconnector⟩ := h.connecting _ hconnecting
    obtain rfl := hwired.sound.known hheld hfound
    exact htype hconnector
  have same {τ : NetEngine L} (hconnecting : τ.connectingNodes = σ.connectingNodes)
      (hconnet : τ.connetNodes = σ.connetNodes) (hnodes : τ.nodes = σ.nodes)
      (hnode : ∀ k, (τ.node k).uid = 0 ∨ τ.node k = σ.node k)
      (hnone : σ.connectingNodes (σ.io.protocol p).key = none) : σ.Leaves p τ := by
    refine ⟨?_, hconnet, hnodes, fun k => (hnode k).imp_right fun hsame => ⟨hsame, by simp [hnone]⟩⟩
    rw [hconnecting, ← hnone]
    exact (Function.update_eq_self ..).symm
  cases hends with
  | quiet havail =>
    refine same rfl rfl rfl (fun _ => .inr rfl) ?_
    by_cases htype : (σ.io.protocol p).type = .CONNECTOR
    · exact hquiet havail htype
    · exact hnone htype
  | @unlisten htype uid =>
    have hnone := hnone (by rw [htype]; exact nofun)
    change σ.Leaves p ({ σ with io }.onUnlisten uid)
    unfold onUnlisten
    split
    · exact same rfl rfl rfl (fun _ => .inr rfl) hnone
    · exact same rfl rfl rfl (fun _ => .inr rfl) hnone
  | listen htype => exact same rfl rfl rfl (fun _ => .inr rfl) (hnone (by rw [htype]; exact nofun))
  | session _ htype =>
    let closing : NetEngine L := { { σ with io } with
      accpetedNodes := Function.update σ.accpetedNodes (σ.io.protocol p).key false }
    obtain ⟨hconnecting, hconnet, hnodes⟩ :=
      removePeer_same closing p (σ.io.protocol p).key
    exact same hconnecting hconnet hnodes (removePeer_node closing p _)
      (hnone (by rw [htype]; exact nofun))
  | connector => exact onDisconnect_leaves

/-! ### Moves -/

/-- A node that is connecting with a connection that stays known. -/
theorem Tracked.connecting_known (h : σ.Tracked) (hwired : σ.io.Wired tidy)
    (hlater : σ.io.connections.Later τ.io.connections) (hconnecting : σ.connectingNodes uid ≠ none)
    (hstays : ∀ p, σ.io.protocols uid = some p → τ.io.connections.Known p) :
    ∃ p, τ.io.protocols uid = some p ∧ (τ.io.protocol p).type = .CONNECTOR := by
  obtain ⟨p, hfound, htype⟩ := h.connecting uid hconnecting
  have hheld := (hwired.sound.entry uid p hfound).1
  refine ⟨p, found_of_known hwired hlater hfound (hstays p hfound), ?_⟩
  rw [show (τ.io.protocol p).type = _ from (hlater.keys p (hwired.sound.owned p hheld)).2]
  exact htype

theorem Tracked.calm (h : σ.Tracked) (hwired : σ.io.Wired tidy)
    (hlater : σ.io.connections.Later τ.io.connections)
    (hcalm : σ.io.connections.Calm τ.io.connections)
    (hconnecting : τ.connectingNodes = σ.connectingNodes) (hconnet : τ.connetNodes = σ.connetNodes)
    (hnodes : σ.nodes ≤ τ.nodes) (hnode : ∀ k < σ.nodes, (τ.node k).uid = (σ.node k).uid) :
    τ.Tracked where
  connecting uid hsome := by
    rw [hconnecting] at hsome
    exact h.connecting_known hwired hlater hsome fun p hp =>
      (hcalm p (hwired.sound.known_of_found hp)).1
  made code k hk := Nat.lt_of_lt_of_le (h.made code k (hconnet ▸ hk)) hnodes
  node code k hk := by
    rw [hconnet] at hk
    rw [hnode k (h.made code k hk), hconnecting]
    exact h.node code k hk

theorem Tracked.ended (h : σ.Tracked) (hwired : σ.io.Wired tidy)
    (hlater : σ.io.connections.Later τ.io.connections)
    (hdrops : σ.io.connections.Drops p τ.io.connections) (hleaves : σ.Leaves p τ) : τ.Tracked where
  connecting uid hsome := by
    rw [hleaves.connecting] at hsome
    by_cases huid : uid = (σ.io.protocol p).key
    · rw [huid, Function.update_self] at hsome
      exact absurd rfl hsome
    rw [Function.update_of_ne huid] at hsome
    refine h.connecting_known hwired hlater hsome fun q hq => ?_
    have hne : q ≠ p := by
      intro heq
      exact huid (heq ▸ (hwired.sound.entry uid q hq).2.symm)
    exact (hdrops.2 q hne (hwired.sound.known_of_found hq)).1
  made code k hk := by
    rw [hleaves.nodes]
    exact h.made code k (hleaves.connet ▸ hk)
  node code k hk := by
    rw [hleaves.connet] at hk
    rcases hleaves.node k with hzero | ⟨hsame, hother⟩
    · exact .inl hzero
    rw [hsame, hleaves.connecting]
    rcases h.node code k hk with hzero | hconnecting
    · exact .inl hzero
    · refine .inr ?_
      rw [Function.update_of_ne]
      · exact hconnecting
      · intro heq
        exact hother (heq ▸ hconnecting)

theorem Tracked.opened (h : σ.Tracked) {k : NodeId} (hwired : σ.io.Wired tidy)
    (hlater : σ.io.connections.Later τ.io.connections)
    (hcalm : σ.io.connections.Calm τ.io.connections) (hfree : σ.io.protocols uid = none)
    (hknown : τ.io.protocols uid = some p) (htype : (τ.io.protocol p).type = .CONNECTOR)
    (hconnecting : τ.connectingNodes = Function.update σ.connectingNodes uid (some k))
    (hconnet : τ.connetNodes = σ.connetNodes) (hnodes : τ.nodes = σ.nodes)
    (hnode : τ.node = Function.update σ.node k { σ.node k with uid }) : τ.Tracked where
  connecting uid' hsome := by
    by_cases huid : uid' = uid
    · exact ⟨p, huid ▸ hknown, htype⟩
    · rw [hconnecting, Function.update_of_ne huid] at hsome
      exact h.connecting_known hwired hlater hsome fun q hq =>
        (hcalm q (hwired.sound.known_of_found hq)).1
  made code m hm := by
    rw [hnodes]
    exact h.made code m (hconnet ▸ hm)
  node code m hm := by
    rw [hconnet] at hm
    rw [hconnecting, hnode]
    by_cases hk : m = k
    · subst hk
      refine .inr ?_
      rw [Function.update_self, Function.update_self]
    · rw [Function.update_of_ne hk]
      refine (h.node code m hm).imp_right fun hfound => ?_
      have hne : (σ.node m).uid ≠ uid := by
        intro heq
        simp [heq, h.none_of_free hfree] at hfound
      rw [Function.update_of_ne hne]
      exact hfound

theorem Tracked.listed (h : σ.Tracked) {code : UInt32} {node : Node} (huid : node.uid = 0) :
    { σ.setNode σ.nodes node with
      nodes := σ.nodes + 1
      connetNodes := Function.update σ.connetNodes code (some σ.nodes) }.Tracked := by
  have hfound {code' : UInt32} {k : NodeId}
      (hk : Function.update σ.connetNodes code (some σ.nodes) code' = some k) :
      k = σ.nodes ∨ σ.connetNodes code' = some k := by
    by_cases hcode : code' = code
    · rw [hcode, Function.update_self] at hk
      exact .inl (Option.some.inj hk).symm
    · rw [Function.update_of_ne hcode] at hk
      exact .inr hk
  refine ⟨h.connecting, fun code' k hk => ?_, fun code' k hk => ?_⟩
  · rcases hfound hk with rfl | hk
    · exact Nat.lt_succ_self _
    · exact Nat.lt_succ_of_lt (h.made code' k hk)
  · rcases hfound hk with rfl | hk
    · exact .inl ((congrArg Node.uid setNode_self).trans huid)
    · have hne : k ≠ σ.nodes := Nat.ne_of_lt (h.made code' k hk)
      rw [show (σ.setNode σ.nodes node).node k = σ.node k from setNode_ne hne]
      exact h.node code' k hk

theorem Move.tracked (h : σ.Tracked) (hwired : σ.io.Wired tidy) (hmove : Move True tidy σ τ) :
    τ.Tracked := by
  have hlater := hmove.later
  cases hmove with
  | calm _ _ hcalm => exact h.calm hwired hlater hcalm rfl rfl (Nat.le_refl _) fun _ _ => rfl
  | ended _ _ hheld hdrops hends hcareful =>
    refine h.ended hwired hlater ?_ (ends_leaves h hwired hheld hends (hcareful trivial))
    rw [foldl_gone_io]
    exact hdrops
  | opened _ _ hcalm hfree hknown htype hm =>
    have hm := hm.resolve_right (by simp [h.none_of_free hfree])
    subst hm
    exact h.opened hwired hlater hcalm hfree hknown htype rfl rfl rfl rfl
  | listed huid => exact h.listed huid
  | registered _ _ _ _ hio _ _ hconnet hconnecting hnodes huids =>
    exact h.calm hwired hlater (hio ▸ .refl _) hconnecting hconnet hnodes huids
  | own hio _ _ hconnet hconnecting hnodes hnode =>
    exact h.calm hwired hlater (hio ▸ .refl _) hconnecting hconnet (Nat.le_of_eq hnodes.symm)
      fun _ _ => by rw [hnode]

theorem Moves.tracked (h : σ.Tracked) (hwired : σ.io.Wired tidy) (hmoves : Moves True tidy σ τ) :
    τ.Tracked := by
  obtain ⟨-, hsteps⟩ := hmoves
  have hboth : τ.io.Wired tidy ∧ τ.Tracked := by
    induction hsteps with
    | refl => exact ⟨hwired, h⟩
    | tail _ hmove ih => exact ⟨hmove.wired ih.1, hmove.tracked ih.2 ih.1⟩
  exact hboth.2

/-! ### Runs -/

variable [IntrusiveNode L] {host : Endian} {as : List NetAction}

theorem tracked_init : (init : NetEngine L).Tracked where
  connecting _ hsome := absurd rfl hsome
  made _ _ hk := by cases hk
  node _ _ hk := by cases hk

theorem tracked_of_careful
    (run : Run (fun σ a τ => Permitted host σ a τ ∧ σ.Careful a) (init : NetEngine L) as σ) :
    σ.io.Wired False ∧ σ.Tracked := by
  refine run.invariant (fun σ => σ.io.Wired False ∧ σ.Tracked) ?_ ⟨wired_init, tracked_init⟩
  intro σ a τ h hstep
  have hmoves : Moves True False σ τ := step_moves h.1 hstep.1 (fun _ => hstep.2) False.elim
  exact ⟨hmoves.wired, hmoves.tracked h.2 h.1⟩

/-- In a run in which the condition holds, what a node keeps of other nodes is never stale. -/
theorem current_of_careful
    (run : Run (fun σ a τ => Permitted host σ a τ ∧ σ.Careful a) (init : NetEngine L) as σ) :
    σ.Current :=
  (tracked_of_careful run).2.current

/-! ### A node of a concrete run -/

/-- A node that connects with the node 7, is connected, and closes the connection. -/
theorem current_of_careful_close : ∃ (as : List NetAction) (σ : NetEngine (List HandlerId)),
    Run (@Permitted _ .list .little) (@init _ .list) as σ ∧ σ.connetNodes 7 = some 0 ∧
      σ.Current := by
  let _ := IntrusiveNode.list
  have hrun : Allowed .little Careful (init : NetEngine (List HandlerId))
      [.io .create, .connectNode 7 1 ⟨0, 80⟩ 0 5,
        .io (.post (.notify ⟨.PacketConnect, 5, 0, none, true⟩)),
        .confirm 5 (some ⟨.PacketConnect, 5, 0, none, true⟩), .io (.close 5)] := by
    refine ⟨nofun, by decide +kernel, ⟨trivial, trivial⟩, trivial,
      nofun, by decide +kernel,
        ⟨by decide +kernel, .inr (by decide +kernel)⟩, trivial,
      nofun, by decide +kernel,
        ⟨⟨by decide +kernel, by decide +kernel, by decide +kernel⟩, trivial⟩, trivial,
      nofun, by decide +kernel, trivial,
        fun p hp _ => .inr ⟨_, rfl, Option.some.inj (Eq.trans (by decide +kernel) hp),
          by decide +kernel, rfl, rfl⟩,
      nofun, by decide +kernel, ⟨trivial, trivial⟩, ?_, trivial⟩
    intro p hp havail
    have hp : 0 = p := Option.some.inj (Eq.trans (by decide +kernel) hp)
    subst hp
    exact absurd havail (by decide +kernel)
  exact ⟨_, _, permitted_of_allowed hrun, by decide +kernel, current_of_careful (run_of_allowed hrun)⟩

/-- A node that connects with the node 7, and is not connected in time. -/
theorem node_stale : ∃ (as : List NetAction) (σ : NetEngine (List HandlerId)),
    Run (@Permitted _ .list .little) (@init _ .list) as σ ∧ ¬σ.Current := by
  let _ := IntrusiveNode.list
  have hrun : Allowed .little (fun _ _ => True) (init : NetEngine (List HandlerId))
      [.io .create, .connectNode 7 1 ⟨0, 80⟩ 0 5, .confirm 5 none] :=
    ⟨nofun, by decide +kernel, ⟨trivial, trivial⟩, trivial,
      nofun, by decide +kernel,
        ⟨by decide +kernel, .inr (by decide +kernel)⟩, trivial,
      nofun, by decide +kernel, trivial, trivial, trivial⟩
  refine ⟨_, _, permitted_of_allowed hrun, fun h => ?_⟩
  exact absurd (h.connecting 5 (by decide +kernel)) (by decide +kernel)

end NetEngine

end ZlNet.Engine
