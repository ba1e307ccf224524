import ZlNet.Engine.Proof.NodeLoop

/-! The peers of a node.  A connection has no peer, then one, and then none again, and users are told
so once each. -/

namespace ZlNet.Engine

open Network Lib Lib.Bytes

namespace NetEngine

variable {L : Type} {careful tidy : Prop} {σ τ : NetEngine L} {p q : ProtocolId} {uid : UInt32}

/-- What users are told of the peer of `p`. -/
def calls (σ : NetEngine L) (p : ProtocolId) : List NodeCall :=
  (σ.nodeCalls.filter (·.1 = p)).map (·.2)

/-- Whether `p` has, or had, a peer. -/
inductive Stage (σ : NetEngine L) (p : ProtocolId) : Prop
  | never (hcalls : σ.calls p = [])
      (hpeer : ∀ uid, σ.io.protocols uid = some p → σ.peersByUid uid = none)
  | now (code type : UInt32)
      (hcalls : σ.calls p = [.onNodeConnect (σ.io.protocol p).key code type])
      (hknown : σ.io.connections.Known p) (hpeer : σ.peersByUid (σ.io.protocol p).key ≠ none)
  | past (code type : UInt32)
      (hcalls : σ.calls p = [.onNodeConnect (σ.io.protocol p).key code type,
        .onNodeDisConnect (σ.io.protocol p).key])
      (hsettled : σ.io.connections.Settled p) (hgone : ¬σ.io.connections.Known p)

structure Bracketed (σ : NetEngine L) : Prop where
  peer : ∀ uid, σ.peersByUid uid ≠ none → ∃ p, σ.io.protocols uid = some p ∧
    (σ.io.protocol p).available = true ∧ (σ.io.protocol p).type ≠ .LISTENER
  stage : ∀ p, σ.Stage p

/-- The peer of a protocol that owns its key is its own. -/
theorem Bracketed.known (h : σ.Bracketed) (hwired : σ.io.Wired tidy) (hheld : p ∈ σ.io.outstanding)
    (hpeer : σ.peersByUid (σ.io.protocol p).key ≠ none) : σ.io.connections.Known p ∧
      (σ.io.protocol p).available = true ∧ (σ.io.protocol p).type ≠ .LISTENER := by
  obtain ⟨q, hq, havail, htype⟩ := h.peer _ hpeer
  obtain rfl := hwired.sound.known hheld hq
  exact ⟨hq, havail, htype⟩

/-- Nothing changes for a protocol if it stays known, and no peer is added. -/
theorem Stage.carry (h : σ.Stage p) (hbracketed : σ.Bracketed) (hwired : σ.io.Wired tidy)
    (hlater : σ.io.connections.Later τ.io.connections) (hcalls : τ.calls p = σ.calls p)
    (hpeers : ∀ uid, τ.peersByUid uid ≠ none → σ.peersByUid uid ≠ none ∧
      ∀ q, σ.io.protocols uid = some q → τ.io.protocols uid = some q)
    (hself : σ.io.connections.Known p → τ.io.connections.Known p ∧
      τ.peersByUid (σ.io.protocol p).key = σ.peersByUid (σ.io.protocol p).key) : τ.Stage p := by
  cases h with
  | never hnone hpeer =>
    refine .never (hcalls.trans hnone) fun uid hknown => ?_
    by_contra hsome
    obtain ⟨hold, hsame⟩ := hpeers uid hsome
    obtain ⟨q, hq, -⟩ := hbracketed.peer uid hold
    obtain rfl := Option.some.inj ((hsame q hq).symm.trans hknown)
    exact hold (hpeer uid hq)
  | now code type hone hknown hpeer =>
    obtain ⟨hknown', hsame⟩ := hself hknown
    have hkey := (hlater.keys p (hwired.sound.settled hknown).1).1
    refine .now code type ?_ hknown' ?_
    · rw [hcalls, hone, show (τ.io.protocol p).key = _ from hkey]
      rfl
    · rw [show (τ.io.protocol p).key = _ from hkey]
      exact hsame ▸ hpeer
  | past code type htwo hsettled hgone =>
    obtain ⟨hsettled', hknown⟩ := hlater.settled p hsettled
    have hkey := (hlater.keys p hsettled.1).1
    refine .past code type ?_ hsettled' (hgone ∘ hknown)
    rw [hcalls, htwo, show (τ.io.protocol p).key = _ from hkey]
    rfl

/-! ### Connections that go -/

theorem removePeer_peers :
    (σ.removePeer p uid).peersByUid = Function.update σ.peersByUid uid none := by
  unfold removePeer
  split
  · next hnone =>
    rw [← hnone]
    exact (Function.update_eq_self ..).symm
  · rfl

theorem removePeer_calls : (σ.removePeer p uid).nodeCalls =
    σ.nodeCalls ++ if σ.peersByUid uid = none then [] else [(p, .onNodeDisConnect uid)] := by
  unfold removePeer
  split
  · next hnone => simp [hnone]
  · next hsome => simp [hsome, nodeCall, setNode]

/-- What `onClose` and `onDisconnect` do to the peer of a connection. -/
structure Removes (σ : NetEngine L) (p : ProtocolId) (τ : NetEngine L) : Prop where
  peers : τ.peersByUid = Function.update σ.peersByUid (σ.io.protocol p).key none
  calls : τ.nodeCalls = σ.nodeCalls ++ if σ.peersByUid (σ.io.protocol p).key = none then []
    else [(p, .onNodeDisConnect (σ.io.protocol p).key)]

theorem onDisconnect_removes {io : IOEngine L SerializeMessage} :
    σ.Removes p ({ σ with io }.onDisconnect p (σ.io.protocol p).key) := by
  unfold onDisconnect
  split
  · exact ⟨removePeer_peers, removePeer_calls⟩
  · exact ⟨removePeer_peers, removePeer_calls⟩

theorem ends_removes {io : IOEngine L SerializeMessage} {calls : List Upcall}
    (hends : Ends (σ.io.protocol p) calls) (hbracketed : σ.Bracketed) (hwired : σ.io.Wired tidy)
    (hheld : p ∈ σ.io.outstanding) :
    σ.Removes p ((calls.map (p, ·)).foldl gone { σ with io }) := by
  have quiet {τ : NetEngine L} (hpeers : τ.peersByUid = σ.peersByUid)
      (hcalls : τ.nodeCalls = σ.nodeCalls) (hnone : σ.peersByUid (σ.io.protocol p).key = none) :
      σ.Removes p τ := by
    refine ⟨?_, by simp [hcalls, hnone]⟩
    rw [hpeers, ← hnone]
    exact (Function.update_eq_self ..).symm
  cases hends with
  | quiet havail =>
    refine quiet rfl rfl (by_contra fun hpeer => ?_)
    obtain ⟨-, havail', -⟩ := hbracketed.known hwired hheld hpeer
    exact absurd (havail.symm.trans havail') Bool.false_ne_true
  | @unlisten htype uid =>
    have hsame : ({ σ with io }.onUnlisten uid).peersByUid = σ.peersByUid ∧
        ({ σ with io }.onUnlisten uid).nodeCalls = σ.nodeCalls := by
      unfold onUnlisten
      split
      · exact ⟨rfl, rfl⟩
      · exact ⟨rfl, rfl⟩
    exact quiet hsame.1 hsame.2 (by_contra fun hpeer =>
      (hbracketed.known hwired hheld hpeer).2.2 htype)
  | listen htype =>
    exact quiet rfl rfl (by_contra fun hpeer => (hbracketed.known hwired hheld hpeer).2.2 htype)
  | session => exact ⟨removePeer_peers, removePeer_calls⟩
  | connector => exact onDisconnect_removes

/-! ### Moves -/

theorem calls_append {calls : List (ProtocolId × NodeCall)}
    (h : τ.nodeCalls = σ.nodeCalls ++ calls) :
    τ.calls p = σ.calls p ++ (calls.filter (·.1 = p)).map (·.2) := by
  rw [NetEngine.calls, h, List.filter_append, List.map_append]
  rfl

/-- A protocol that stays known stays where it is found. -/
theorem found_of_known (hwired : σ.io.Wired tidy) (hlater : σ.io.connections.Later τ.io.connections)
    (hfound : σ.io.protocols uid = some p) (hknown : τ.io.connections.Known p) :
    τ.io.protocols uid = some p := by
  obtain ⟨hheld, hkey⟩ := hwired.sound.entry uid p hfound
  have hkey' : (τ.io.connections.protocol p).key = uid :=
    (hlater.keys p (hwired.sound.owned p hheld)).1.trans hkey
  rw [← hkey']
  exact hknown

/-- A peer of a connection that stays known. -/
theorem Bracketed.peer_known (h : σ.Bracketed) (hwired : σ.io.Wired tidy)
    (hlater : σ.io.connections.Later τ.io.connections) (hpeer : σ.peersByUid uid ≠ none)
    (hstays : ∀ p, σ.io.protocols uid = some p → τ.io.connections.Known p ∧
      ((σ.io.protocol p).available = true → (τ.io.protocol p).available = true)) :
    ∃ p, τ.io.protocols uid = some p ∧ (τ.io.protocol p).available = true ∧
      (τ.io.protocol p).type ≠ .LISTENER := by
  obtain ⟨p, hfound, havail, htype⟩ := h.peer uid hpeer
  have hheld := (hwired.sound.entry uid p hfound).1
  obtain ⟨hknown, havail'⟩ := hstays p hfound
  refine ⟨p, found_of_known hwired hlater hfound hknown, havail' havail, ?_⟩
  rw [show (τ.io.protocol p).type = _ from (hlater.keys p (hwired.sound.owned p hheld)).2]
  exact htype

theorem Bracketed.calm (h : σ.Bracketed) (hwired : σ.io.Wired tidy)
    (hlater : σ.io.connections.Later τ.io.connections)
    (hcalm : σ.io.connections.Calm τ.io.connections) (hpeers : τ.peersByUid = σ.peersByUid)
    (hcalls : τ.nodeCalls = σ.nodeCalls) : τ.Bracketed where
  peer uid hpeer := by
    rw [hpeers] at hpeer
    exact h.peer_known hwired hlater hpeer fun p hp => hcalm p (hwired.sound.known_of_found hp)
  stage p := by
    refine (h.stage p).carry h hwired hlater (by rw [calls, calls, hcalls]) ?_ ?_
    · intro uid hpeer
      rw [hpeers] at hpeer
      refine ⟨hpeer, fun q hq => found_of_known hwired hlater hq ?_⟩
      exact (hcalm q (hwired.sound.known_of_found hq)).1
    · intro hknown
      exact ⟨(hcalm p hknown).1, by rw [hpeers]⟩

/-- A peer goes with its connection, and only once. -/
theorem Stage.removed (h : σ.Stage p) (hbracketed : σ.Bracketed) (hwired : σ.io.Wired tidy)
    (hwired' : τ.io.Wired tidy) (hlater : σ.io.connections.Later τ.io.connections)
    (hheld : p ∈ σ.io.outstanding) (hgone : ¬τ.io.connections.Known p)
    (hremoves : σ.Removes p τ) : τ.Stage p := by
  have hkey : (τ.io.protocol p).key = (σ.io.protocol p).key :=
    (hlater.keys p (hwired.sound.owned p hheld)).1
  have hcalls := calls_append (p := p) hremoves.calls
  cases h with
  | never hnone hpeer =>
    have hpeer : σ.peersByUid (σ.io.protocol p).key = none := by
      by_contra hsome
      exact hsome (hpeer _ (hbracketed.known hwired hheld hsome).1)
    refine .never (by simp [hcalls, hpeer, hnone]) fun uid hfound => ?_
    exact absurd (hwired'.sound.known_of_found hfound) hgone
  | now code type hone hknown hpeer =>
    refine .past code type ?_ (hlater.settled p (hwired.sound.settled hknown)).1 hgone
    simp [hcalls, hpeer, hone, hkey]
  | past code type htwo hsettled hgone' =>
    have hpeer : σ.peersByUid (σ.io.protocol p).key = none := by
      by_contra hsome
      exact hgone' (hbracketed.known hwired hheld hsome).1
    refine .past code type ?_ (hlater.settled p hsettled).1 hgone
    simp [hcalls, hpeer, htwo, hkey]

theorem Bracketed.ended (h : σ.Bracketed) (hwired : σ.io.Wired tidy) (hwired' : τ.io.Wired tidy)
    (hlater : σ.io.connections.Later τ.io.connections) (hheld : p ∈ σ.io.outstanding)
    (hdrops : σ.io.connections.Drops p τ.io.connections) (hremoves : σ.Removes p τ) :
    τ.Bracketed := by
  obtain ⟨hgone, hstays⟩ := hdrops
  have hpeer {uid : UInt32} (hpeer : τ.peersByUid uid ≠ none) :
      uid ≠ (σ.io.protocol p).key ∧ σ.peersByUid uid ≠ none := by
    rw [hremoves.peers] at hpeer
    by_cases huid : uid = (σ.io.protocol p).key
    · rw [huid, Function.update_self] at hpeer
      exact absurd rfl hpeer
    · rw [Function.update_of_ne huid] at hpeer
      exact ⟨huid, hpeer⟩
  -- what is found under another uid is another protocol
  have hother {uid : UInt32} {q : ProtocolId} (huid : uid ≠ (σ.io.protocol p).key)
      (hfound : σ.io.protocols uid = some q) : q ≠ p := by
    intro heq
    exact huid (heq ▸ (hwired.sound.entry uid q hfound).2.symm)
  constructor
  case peer =>
    intro uid hsome
    obtain ⟨huid, hold⟩ := hpeer hsome
    exact h.peer_known hwired hlater hold fun q hq =>
      hstays q (hother huid hq) (hwired.sound.known_of_found hq)
  case stage =>
    intro q
    by_cases hq : q = p
    · subst hq
      exact (h.stage q).removed h hwired hwired' hlater hheld hgone hremoves
    · refine (h.stage q).carry h hwired hlater ?_ ?_ ?_
      · rw [calls_append hremoves.calls]
        split
        · exact List.append_nil _
        · simp [Ne.symm hq]
      · intro uid hsome
        obtain ⟨huid, hold⟩ := hpeer hsome
        refine ⟨hold, fun r hr => found_of_known hwired hlater hr ?_⟩
        exact (hstays r (hother huid hr) (hwired.sound.known_of_found hr)).1
      · intro hknown
        refine ⟨(hstays q hq hknown).1, ?_⟩
        rw [hremoves.peers]
        refine Function.update_of_ne ?_ ..
        intro hkey
        exact hq (hwired.sound.unique q (hwired.sound.held hknown) p hheld hkey)

theorem Bracketed.registered (h : σ.Bracketed) {code type : UInt32} {k : NodeId}
    (hwired : σ.io.Wired tidy) (hknown : σ.io.protocols uid = some p)
    (havail : (σ.io.protocol p).available = true) (htype : (σ.io.protocol p).type ≠ .LISTENER)
    (hpeer : σ.peersByUid uid = none) (hio : τ.io = σ.io)
    (hpeers : τ.peersByUid = Function.update σ.peersByUid uid (some k))
    (hcalls : τ.nodeCalls = σ.nodeCalls ++ [(p, .onNodeConnect uid code type)]) :
    τ.Bracketed := by
  have hkey : (σ.io.protocol p).key = uid := (hwired.sound.entry uid p hknown).2
  constructor
  case peer =>
    intro uid' hsome
    rw [hio]
    by_cases huid : uid' = uid
    · exact ⟨p, huid ▸ hknown, havail, htype⟩
    · rw [hpeers, Function.update_of_ne huid] at hsome
      exact h.peer uid' hsome
  case stage =>
    intro q
    have hcalls := calls_append (p := q) hcalls
    by_cases hq : q = p
    · subst hq
      have hnone : σ.calls q = [] := by
        cases h.stage q with
        | never hnone => exact hnone
        | now _ _ _ _ hsome => exact absurd (hkey ▸ hpeer) hsome
        | past _ _ _ _ hgone => exact absurd (hwired.sound.known_of_found hknown) hgone
      refine .now code type ?_ ?_ ?_
      · simp [hcalls, hnone, hio, hkey]
      · rw [hio]
        exact hwired.sound.known_of_found hknown
      · rw [hio, hkey, hpeers, Function.update_self]
        exact Option.some_ne_none k
    · have hsame : τ.calls q = σ.calls q := by simp [hcalls, Ne.symm hq]
      cases h.stage q with
      | never hnone hpeer' =>
        refine .never (hsame.trans hnone) fun uid' hfound => ?_
        rw [hio] at hfound
        rw [hpeers, Function.update_of_ne]
        · exact hpeer' uid' hfound
        · intro huid
          exact hq (Option.some.inj (hfound.symm.trans (huid ▸ hknown)))
      | now code type hone hknown' hsome =>
        refine .now code type (by rw [hsame, hone, hio]) (hio ▸ hknown') ?_
        rw [hio, hpeers]
        by_cases huid : (σ.io.protocol q).key = uid
        · rw [huid, Function.update_self]
          exact Option.some_ne_none k
        · rwa [Function.update_of_ne huid]
      | past code type htwo hsettled hgone =>
        exact .past code type (by rw [hsame, htwo, hio]) (hio ▸ hsettled) (hio ▸ hgone)

theorem Move.nodeCalls (h : σ.Bracketed) (hwired : σ.io.Wired True) (hmove : Move careful True σ τ) :
    σ.nodeCalls <+: τ.nodeCalls := by
  cases hmove with
  | calm => exact List.prefix_rfl
  | ended _ _ hheld _ hends =>
    rw [(ends_removes hends h hwired hheld).calls]
    exact List.prefix_append ..
  | opened => exact List.prefix_rfl
  | listed => exact List.prefix_rfl
  | registered _ _ _ _ _ _ hcalls =>
    rw [hcalls]
    exact List.prefix_append ..
  | own _ _ hcalls => exact hcalls ▸ List.prefix_rfl

variable [IntrusiveNode L] {host : Endian} {as bs : List NetAction}

/-- The pong of the node 7, on the connection 5. -/
def pong7 : IOPacket SerializeMessage :=
  ⟨5, Pong, 0, 0, some ⟨0, [0, 0, 0, 7, 0, 0, 0, 1, 0, 0, 0, 0, 0, 0, 0, 0, 0, 0, 0, 0]⟩⟩

/-- A node that connects with the node 7, which answers with a pong. -/
def answeredActions : List NetAction :=
  [.onInit, .io .create, .connectNode 7 1 ⟨0, 80⟩ 0 5,
    .io (.post (.notify ⟨.PacketConnect, 5, 0, none, true⟩)),
    .io (.dispatch (.notify ⟨.PacketConnect, 5, 0, none, true⟩)),
    .io (.post (.msg pong7)), .io (.dispatch (.msg pong7))]

def answered7 : NetEngine (List HandlerId) :=
  let _ := IntrusiveNode.list
  answeredActions.foldl (next .little) init

theorem answered7_allowed : @Allowed _ .list .little (fun σ a => σ.Tidy a) (@init _ .list)
    answeredActions :=
  let _ := IntrusiveNode.list
  ⟨nofun, by decide +kernel, trivial, trivial,
    nofun, by decide +kernel, ⟨trivial, trivial⟩, trivial,
    nofun, by decide +kernel,
      ⟨by decide +kernel, .inr (by decide +kernel)⟩, .inr (by rintro _ ⟨⟩),
    nofun, by decide +kernel,
      ⟨⟨by decide +kernel, by decide +kernel, by decide +kernel⟩, trivial⟩, trivial,
    by rintro _ ⟨⟩; decide +kernel, by decide +kernel, ⟨trivial, trivial⟩, trivial,
    nofun, by decide +kernel,
      ⟨trivial, 0, by decide +kernel, by decide +kernel, by decide +kernel⟩, trivial,
    by rintro _ ⟨⟩; decide +kernel, by decide +kernel, ⟨trivial, trivial⟩, trivial, trivial⟩

theorem answered7_run : Run (@Permitted _ .list .little) (@init _ .list) answeredActions answered7 :=
  let _ := IntrusiveNode.list
  permitted_of_allowed answered7_allowed

/-- A pong of the node 7 for the node 8, on the connection 3. -/
def pong8 : IOPacket SerializeMessage :=
  ⟨3, Pong, 0, 0, some ⟨0, [0, 0, 0, 7, 0, 0, 0, 1, 0, 0, 0, 0, 0, 0, 0, 8, 0, 0, 0, 2]⟩⟩

/-- A node gives up its connection with the node 7, and hears that it began and ended.  A pong still
comes on it. -/
def endedActions : List NetAction :=
  [.onInit, .io .create, .connectNode 7 1 ⟨0, 80⟩ 0 3, .confirm 3 none,
    .io (.post (.notify ⟨.PacketConnect, 3, 0, none, true⟩)),
    .io (.post (.notify ⟨.PacketDisconnect, 3, 0, none, false⟩)), .io (.post (.msg pong8)),
    .io (.dispatch (.notify ⟨.PacketConnect, 3, 0, none, true⟩)),
    .io (.dispatch (.notify ⟨.PacketDisconnect, 3, 0, none, false⟩))]

def ended : NetEngine (List HandlerId) :=
  let _ := IntrusiveNode.list
  endedActions.foldl (next .little) init

end NetEngine

end ZlNet.Engine
