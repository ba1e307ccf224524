import ZlNet.Engine.Proof.Settled

/-! Sessions that nobody can close.  A session that the network has accepted is in the table of the
engine, or the engine has asked the network to close it, as long as the engine does not discard it:
a `PacketAccept` whose listener has gone is dropped, and its session stays open in the network. -/

namespace ZlNet.Engine

open Network Lib

/-- A step of the engine, or a part of `confirmListen` or `confirmConnect`: these poll a notification
from any place in the queue, and then close what is not confirmed. -/
inductive Turn (μ : Type)
  | act (a : Action μ)
  | poll (n : IONotify)
  | giveUp (p : ProtocolId)

namespace IOEngine

open Connections

variable {L μ : Type} {σ τ : IOEngine L μ} {p q : ProtocolId} {key uid : UInt32} {n : IONotify}

def giveUp (σ : IOEngine L μ) (p : ProtocolId) : IOEngine L μ :=
  (σ.removeProtocol (σ.protocol p).key).pushEvent (.close (σ.protocol p).key)

/-- The session of `p` has ended in the network, which tells its protocol so. -/
def Ended (p : ProtocolId) (t : Turn μ) : Prop :=
  ∃ n, t = .act (.post (.notify n)) ∧ n.type = .PacketClose ∧ n.protocol = p

/-- What a step can do to the table and to the notifications, as far as sessions go. -/
structure Passed (c : Connections) (t : Turn μ) (c' : Connections) : Prop where
  sound : c'.Sound
  created : c.created ≤ c'.created
  keys : ∀ p, (c.protocol p).key ≠ 0 →
    (c'.protocol p).key = (c.protocol p).key ∧ (c'.protocol p).type = (c.protocol p).type
  notices : ∀ n ∈ c'.notices, n ∈ c.notices ∨
    t = .act (.post (.notify n)) ∧ n.type ≠ .PacketAccept ∨
    n.type = .PacketAccept ∧ n.protocol = c.created
  known : ∀ p, c.Known p → (c.protocol p).type = .SESSION →
    c'.Known p ∨ t = .act (.close (c.protocol p).key) ∨
      ∃ n ∈ c.notices, n.type = .PacketClose ∧ n.protocol = p

/-- A session leaves the table with its `PacketClose` only. -/
theorem handled_known {c c' : Connections} (h : c.Popped n) (hhandled : Handled c n c')
    (hp : c.Known p) (htype : (c.protocol p).type = .SESSION) :
    c'.Known p ∨ n.type = .PacketClose ∧ n.protocol = p := by
  have hkeep {available : Bool} {entry : Option ProtocolId} {calls : List Upcall}
      (hentry : entry = none ∨ entry = some n.protocol)
      (hself : p = n.protocol → entry = some p) :
      (c.touch n.protocol available entry calls).Known p := by
    by_cases heq : p = n.protocol
    · subst heq
      rw [hself rfl]
      exact touch_known
    · exact (h.sound.touch_known_ne h.held hentry heq).mpr hp
  have hother {type : EIOOBJECT_TYPE} (hn : (c.protocol n.protocol).type = type)
      (hne : type ≠ .SESSION) : p ≠ n.protocol := by
    rintro rfl
    exact hne (hn.symm.trans htype)
  cases hhandled with
  | ignored => exact .inl hp
  | listened => exact .inl (hkeep (.inr rfl) fun heq => by rw [heq])
  | connected => exact .inl (hkeep (.inr rfl) fun heq => by rw [heq])
  | accepted => exact .inl (hkeep (.inr rfl) fun heq => by rw [heq])
  | unlistened hunlisten =>
    have hlistener : (c.protocol n.protocol).type = .LISTENER := h.type (by rw [hunlisten]; rfl)
    exact .inl (hkeep (.inl rfl) fun heq => absurd heq (hother hlistener (by decide)))
  | disconnected hdisconnect =>
    have hconnector : (c.protocol n.protocol).type = .CONNECTOR :=
      h.type (by rw [hdisconnect]; rfl)
    exact .inl (hkeep (.inl rfl) fun heq => absurd heq (hother hconnector (by decide)))
  | closed hclose =>
    by_cases heq : n.protocol = p
    · exact .inr ⟨hclose, heq⟩
    · exact .inl (hkeep (.inl rfl) fun heq' => absurd heq'.symm heq)

theorem handled_notices {c c' : Connections} (hhandled : Handled c n c') :
    c'.notices = c.notices ∧ c'.created = c.created := by
  cases hhandled with
  | ignored => exact ⟨rfl, rfl⟩
  | _ => exact ⟨rfl, rfl⟩

/-- A notification is handled, from any place in the queue. -/
theorem handled_passed {c c' : Connections} {rest : List IONotify} {t : Turn μ} (h : c.Sound)
    (hperm : c.notices.Perm (n :: rest)) (hsub : rest.Sublist c.notices)
    (hhandled : Handled { c with notices := rest } n c') : Passed c t c' where
  sound := hhandled.sound (h.extract hperm hsub)
  created := Nat.le_of_eq (handled_notices hhandled).2.symm
  keys := (hhandled.later h hperm hsub).keys
  notices n' hn' := by
    rw [(handled_notices hhandled).1] at hn'
    exact .inl (hsub.subset hn')
  known p hp htype := by
    rcases handled_known (h.extract hperm hsub) hhandled hp htype with hknown | hclose
    · exact .inl hknown
    · exact .inr (.inr ⟨n, hperm.mem_iff.mpr List.mem_cons_self, hclose⟩)

/-- A protocol leaves the table that is no session, or that the step closes. -/
theorem touch_passed {c : Connections} {available : Bool} {calls : List Upcall} {t : Turn μ}
    (h : c.Sound) (hheld : q ∈ c.outstanding)
    (hclose : (c.protocol q).type = .SESSION → t = .act (.close (c.protocol q).key)) :
    Passed c t (c.touch q available none calls) where
  sound := h.touch_none hheld
  created := Nat.le_refl _
  keys _ _ := ⟨touch_key, touch_type⟩
  notices _ hn := .inl hn
  known p hp htype := by
    by_cases heq : p = q
    · subst heq
      exact .inr (.inl (hclose htype))
    · exact .inl ((h.touch_known_ne hheld (.inl rfl) heq).mpr hp)

/-- The table and the protocols stay as they are. -/
theorem same_passed {c c' : Connections} {t : Turn μ} (hsound : c'.Sound)
    (hcreated : c.created ≤ c'.created) (hprotocols : c'.protocols = c.protocols)
    (hprotocol : c'.protocol = c.protocol)
    (hnotices : ∀ n ∈ c'.notices, n ∈ c.notices ∨
      t = .act (.post (.notify n)) ∧ n.type ≠ .PacketAccept) : Passed c t c' where
  sound := hsound
  created := hcreated
  keys _ _ := by
    rw [hprotocol]
    exact ⟨rfl, rfl⟩
  notices n hn := (hnotices n hn).imp_right .inl
  known p hp _ := by
    rw [Known, hprotocols, hprotocol]
    exact .inl hp

theorem refl_passed {c : Connections} {t : Turn μ} (h : c.Sound) : Passed c t c :=
  same_passed h (Nat.le_refl _) rfl rfl fun _ hn => .inl hn

theorem open_passed (h : σ.connections.Sound) (hmade : p < σ.created) (hfree : σ.Free key)
    {type : EIOOBJECT_TYPE} (htype : type ≠ .SESSION) (event : Event μ) {t : Turn μ} :
    Passed σ.connections t (if (σ.protocol p).key ≠ 0 then σ else if key = 0 then σ
      else σ.takeKey p type key event).connections := by
  apply takeKey_guard (P := fun τ => Passed σ.connections t τ.connections) (refl_passed h)
  intro hblank hkey
  have hfree := hfree.resolve_left hkey
  obtain ⟨hsound, hlater, hcalm, -, -, -⟩ :=
    h.opened hblank hmade hkey hfree htype (takeKey_connections h hblank hfree type event)
  have hsame : (σ.takeKey p type key event).connections.notices = σ.connections.notices ∧
      (σ.takeKey p type key event).connections.created = σ.created := by
    rw [takeKey_connections h hblank hfree type event]
    exact ⟨rfl, rfl⟩
  refine ⟨hsound, Nat.le_of_eq hsame.2.symm, hlater.keys, fun n hn => ?_, fun q hq _ => ?_⟩
  · rw [hsame.1] at hn
    exact .inl hn
  · exact .inl (hcalm q hq).1

theorem accept_passed (h : σ.connections.Sound) (hkey : key ≠ 0) (hfree : σ.Free key)
    (fromProtocol : ProtocolId) {t : Turn μ} :
    Passed σ.connections t (σ.accept key fromProtocol).connections := by
  have hfree := hfree.resolve_left hkey
  have hconn := accept_connections (σ := σ) key fromProtocol
  obtain ⟨hlater, hcalm⟩ := h.made_later hconn
  refine ⟨?_, Nat.le_succ _, hlater.keys, fun n hn => ?_, fun q hq _ => .inl (hcalm q hq).1⟩
  · rw [hconn]
    exact (Change.made hkey hfree).sound h
  · rw [hconn] at hn
    rcases List.mem_append.mp hn with hn | hn
    · exact .inl hn
    · obtain rfl := List.mem_singleton.mp hn
      exact .inr (.inr ⟨rfl, rfl⟩)

theorem close_passed (h : σ.connections.Sound) (hclose : σ.close uid = .ok τ) :
    Passed σ.connections (.act (.close uid) : Turn μ) τ.connections := by
  rcases close_cases h hclose with hsame | ⟨q, calls, hfound, -, hconn⟩
  · subst hsame
    exact refl_passed h
  · obtain ⟨hheld, rfl⟩ : q ∈ σ.outstanding ∧ (σ.protocol q).key = uid := h.entry uid q hfound
    rw [hconn]
    exact touch_passed h hheld fun _ => rfl

theorem giveUp_passed (h : σ.connections.Sound) (hheld : p ∈ σ.outstanding)
    (htype : (σ.protocol p).type ≠ .SESSION) {t : Turn μ} :
    Passed σ.connections t (σ.giveUp p).connections := by
  have hconn : (σ.giveUp p).connections =
      σ.connections.touch p (σ.protocol p).available none [] :=
    Connections.ext rfl (Function.update_eq_self ..).symm rfl rfl rfl (List.append_nil _).symm
  rw [hconn]
  exact touch_passed h hheld fun hsession => absurd hsession htype

variable [IntrusiveNode L] {t : Turn μ}

/-- What the network and the owners of protocols keep to.  What users wait for the confirmation of is a
listener or a connector. -/
def Turns (σ : IOEngine L μ) : Turn μ → IOEngine L μ → Prop
  | .act a, τ => σ.Permitted a τ
  | .poll n, τ => ∃ queue, σ.msgqueue.Perm (.notify n :: queue) ∧ queue.Sublist σ.msgqueue ∧
      (σ.protocol n.protocol).type ≠ .SESSION ∧
      { σ with msgqueue := queue }.dispatchIOPacket (.notify n) = .ok τ
  | .giveUp p, τ => p ∈ σ.outstanding ∧ (σ.protocol p).type ≠ .SESSION ∧ τ = σ.giveUp p

/-- A notification is handled, and the rest of the queue stays. -/
theorem notify_passed (h : σ.connections.Sound) {queue : List (Packet μ)}
    (hperm : σ.msgqueue.Perm (.notify n :: queue)) (hsub : queue.Sublist σ.msgqueue)
    (hexec : { σ with msgqueue := queue }.dispatchIOPacket (.notify n) = .ok τ) :
    Passed σ.connections t τ.connections := by
  have hperm' : σ.connections.notices.Perm (n :: queue.filterMap Packet.notice) :=
    hperm.filterMap Packet.notice
  have hsub' : (queue.filterMap Packet.notice).Sublist σ.connections.notices := hsub.filterMap _
  have hhandled := dispatchNotify_handled (σ := { σ with msgqueue := queue }) (h.extract hperm' hsub')
  rw [Handles, hexec] at hhandled
  exact handled_passed h hperm' hsub' hhandled

theorem step_passed {a : Action μ} (h : σ.connections.Sound) (hstep : σ.Permitted a τ) :
    Passed σ.connections (.act a) τ.connections := by
  have hsound := (step_change h hstep).sound h
  obtain ⟨⟨hhead, hexec⟩, hcontract⟩ := hstep
  have same (hconn : τ.connections = σ.connections) :
      Passed σ.connections (.act a) τ.connections := by
    rw [hconn]
    exact refl_passed h
  cases a with
  | create =>
    obtain rfl := Except.ok.inj hexec
    have hprotocol : σ.create.protocol = σ.protocol :=
      (congrArg Connections.protocol (create_connections h) :)
    exact same_passed hsound (Nat.le_succ _) rfl hprotocol fun _ hn => .inl hn
  | listen port p key =>
    obtain rfl := Except.ok.inj hexec
    exact open_passed h hcontract.1 hcontract.2 (by decide) _
  | connect address p key =>
    obtain rfl := Except.ok.inj hexec
    exact open_passed h hcontract.1 hcontract.2 (by decide) _
  | close uid => exact close_passed h hexec
  | bindPacketHandler cmd handler =>
    obtain rfl := Except.ok.inj hexec
    apply same
    unfold bindPacketHandler
    split
    · rfl
    · rfl
  | send request => exact same (send_connections hexec)
  | accept key fromProtocol =>
    obtain rfl := Except.ok.inj hexec
    exact accept_passed h hcontract.1 hcontract.2 fromProtocol
  | post packet =>
    obtain rfl := Except.ok.inj hexec
    cases packet with
    | msg packet => exact same (postMsg_connections packet)
    | notify n =>
      refine same_passed hsound (Nat.le_refl _) rfl rfl fun n' hn' => ?_
      rw [postPacket_connections] at hn'
      rcases List.mem_append.mp hn' with hn' | hn'
      · exact .inl hn'
      · obtain rfl := List.mem_singleton.mp hn'
        refine .inr ⟨rfl, fun haccept => ?_⟩
        simp [Contract, haccept, EPacketType.about] at hcontract
  | dispatch packet =>
    obtain ⟨queue, hqueue⟩ := List.head?_eq_some_iff.mp (hhead packet rfl)
    simp only [exec, hqueue, List.tail_cons] at hexec
    cases packet with
    | notify n => exact notify_passed h (hqueue ▸ .refl _) (hqueue ▸ List.sublist_cons_self ..) hexec
    | msg packet =>
      apply same
      rw [onIOPacket_connections (σ := { σ with msgqueue := queue }) hexec]
      refine Connections.ext rfl rfl rfl rfl ?_ rfl
      change queue.filterMap Packet.notice = σ.msgqueue.filterMap Packet.notice
      rw [hqueue]
      rfl
  | timeout now =>
    obtain rfl := Except.ok.inj hexec
    exact same (timeout_connections now)
  | recycle p =>
    obtain rfl := Except.ok.inj hexec
    exact same_passed hsound (Nat.le_refl _) rfl rfl fun _ hn => .inl hn

theorem turn_passed (h : σ.connections.Sound) (hturn : σ.Turns t τ) :
    Passed σ.connections t τ.connections := by
  cases t with
  | act a => exact step_passed h hturn
  | poll n =>
    obtain ⟨queue, hperm, hsub, -, hexec⟩ := hturn
    exact notify_passed h hperm hsub hexec
  | giveUp p =>
    obtain ⟨hheld, htype, rfl⟩ := hturn
    exact giveUp_passed h hheld htype

theorem sound_turns {ts : List (Turn μ)} (h : σ.connections.Sound) (run : Run Turns σ ts τ) :
    τ.connections.Sound :=
  run.invariant (fun τ => τ.connections.Sound) (fun _ _ _ h hturn => (turn_passed h hturn).sound) h

/-! ### Closes that are asked for -/

/-- The network is asked to close `uid`: by `close`, of a protocol that is found, or of a listener or
a connector that was not confirmed. -/
def AskedBy (σ : IOEngine L μ) (t : Turn μ) (uid : UInt32) : Prop :=
  t = .act (.close uid) ∧ σ.protocols uid ≠ none ∨
    ∃ q ∈ σ.outstanding, (σ.protocol q).type ≠ .SESSION ∧ (σ.protocol q).key = uid

theorem turn_continues (hturn : σ.Turns t τ) : σ.Continues (σ.AskedBy t) τ := by
  cases t with
  | act a =>
    refine (exec_continues hturn.1.2).mono fun uid hasks => ?_
    obtain ⟨rfl, hfound⟩ := hasks
    exact .inl ⟨rfl, hfound⟩
  | poll n =>
    obtain ⟨queue, -, -, -, hexec⟩ := hturn
    obtain ⟨htimeout, hevents⟩ :=
      (dispatchNotify_goes (σ := { σ with msgqueue := queue }) n).of_ok hexec
    exact ⟨htimeout, hevents⟩
  | giveUp p =>
    obtain ⟨hheld, htype, rfl⟩ := hturn
    refine .push rfl rfl fun uid huid => .inr ⟨p, hheld, htype, ?_⟩
    exact Event.close.inj huid

omit [IntrusiveNode L] in
theorem close_asks (hfound : σ.protocols uid = some p) (hclose : σ.close uid = .ok τ) :
    τ.events = σ.events ++ [.close uid] := by
  simp only [close, getProtocol, hfound] at hclose
  split at hclose
  · obtain rfl := Except.ok.inj hclose
    rfl
  split at hclose
  · obtain rfl := Except.ok.inj hclose
    rfl
  · obtain rfl := Except.ok.inj hclose
    rfl
  · obtain rfl := Except.ok.inj hclose
    rfl
  · cases hclose

/-! ### Sessions -/

variable {start : Nat}

/-- The session `p` is in the table, or the network was asked to close its key, after the first
`start` events. -/
def Attended (σ : IOEngine L μ) (p : ProtocolId) (key : UInt32) (start : Nat) : Prop :=
  σ.protocols key = some p ∨ .close key ∈ σ.events.drop start

/-- The network has accepted the session `p` after `start` events, and has not ended it. -/
structure Open (σ : IOEngine L μ) (p : ProtocolId) (key : UInt32) (start : Nat) : Prop where
  nonzero : key ≠ 0
  key : (σ.protocol p).key = key
  type : (σ.protocol p).type = .SESSION
  quiet : ∀ n ∈ σ.connections.notices, n.type = .PacketClose → n.protocol ≠ p
  start : start ≤ σ.events.length

theorem Open.turn (ho : σ.Open p key start) (h : σ.connections.Sound) (hturn : σ.Turns t τ)
    (hended : ¬Ended p t) : τ.Open p key start := by
  have hpassed := turn_passed h hturn
  obtain ⟨hkey, htype⟩ : (τ.protocol p).key = (σ.protocol p).key ∧
    (τ.protocol p).type = (σ.protocol p).type := hpassed.keys p (fun hzero =>
      ho.nonzero (ho.key.symm.trans hzero))
  refine ⟨ho.nonzero, hkey.trans ho.key, htype.trans ho.type, fun n hn hclose => ?_,
    ho.start.trans (turn_continues hturn).initial.length_le⟩
  rcases hpassed.notices n hn with hn | ⟨rfl, -⟩ | ⟨haccept, -⟩
  · exact ho.quiet n hn hclose
  · exact fun heq => hended ⟨n, rfl, hclose, heq⟩
  · simp [hclose] at haccept

/-- A session that is attended to stays so until it has ended. -/
theorem Attended.turn (hp : σ.Attended p key start) (ho : σ.Open p key start)
    (h : σ.connections.Sound) (hturn : σ.Turns t τ) : τ.Attended p key start := by
  rcases hp with hfound | hasked
  · have hknown : σ.connections.Known p := by
      change σ.protocols (σ.protocol p).key = some p
      rw [ho.key]
      exact hfound
    have hpassed := turn_passed h hturn
    obtain ⟨hkey, -⟩ : (τ.protocol p).key = (σ.protocol p).key ∧ _ :=
      hpassed.keys p (fun hzero => ho.nonzero (ho.key.symm.trans hzero))
    rcases hpassed.known p hknown ho.type with hknown' | rfl | ⟨n, hn, hclose, heq⟩
    · have hknown' : τ.protocols (τ.protocol p).key = some p := hknown'
      rw [hkey, ho.key] at hknown'
      exact .inl hknown'
    · have hexec : σ.close (σ.protocol p).key = .ok τ := hturn.1.2
      have hevents : τ.events = σ.events ++ [.close (σ.protocol p).key] := close_asks hknown hexec
      rw [ho.key] at hevents
      refine .inr ?_
      rw [hevents, List.drop_append_of_le_length ho.start]
      exact List.mem_append_right _ (List.mem_singleton.mpr rfl)
    · exact absurd heq (ho.quiet n hn hclose)
  · obtain ⟨es, hevents⟩ := (turn_continues hturn).initial
    refine .inr ?_
    rw [← hevents, List.drop_append_of_le_length ho.start]
    exact List.mem_append_left _ hasked

theorem attended_run {ts : List (Turn μ)} (h : σ.connections.Sound) (ho : σ.Open p key start)
    (hp : σ.Attended p key start) (run : Run Turns σ ts τ) (hended : ∀ t ∈ ts, ¬Ended p t) :
    τ.Open p key start ∧ τ.Attended p key start := by
  induction run with
  | nil => exact ⟨ho, hp⟩
  | @snoc ts σ' τ t hprev hturn ih =>
    obtain ⟨ho', hp'⟩ := ih fun t ht => hended t (List.mem_append_left _ ht)
    have h' := sound_turns h hprev
    exact ⟨ho'.turn h' hturn (hended t (by simp)), hp'.turn ho' h' hturn⟩

/-- Until the engine handles its `PacketAccept`, nobody asks for a close of a session. -/
structure Waiting (σ : IOEngine L μ) (p : ProtocolId) (key : UInt32) (start : Nat) : Prop where
  opened : σ.Open p key start
  made : p < σ.created
  unasked : (∃ n ∈ σ.connections.notices, n.type = .PacketAccept ∧ n.protocol = p) →
    .close key ∉ σ.events.drop start

theorem Waiting.turn (hw : σ.Waiting p key start) (h : σ.connections.Sound) (hturn : σ.Turns t τ)
    (hended : ¬Ended p t) : τ.Waiting p key start := by
  have hpassed := turn_passed h hturn
  refine ⟨hw.opened.turn h hturn hended, hw.made.trans_le hpassed.created, ?_⟩
  rintro ⟨n, hn, haccept, rfl⟩ hasked
  have hold : n ∈ σ.connections.notices := by
    rcases hpassed.notices n hn with hn | ⟨-, hne⟩ | ⟨-, heq⟩
    · exact hn
    · exact absurd haccept hne
    · exact absurd heq (Nat.ne_of_lt hw.made)
  have hheld := (h.notice n hold).1
  have hgone := h.waiting n hold haccept
  obtain ⟨-, es, hevents, hes⟩ := turn_continues hturn
  rw [hevents, List.drop_append_of_le_length hw.opened.start] at hasked
  rcases List.mem_append.mp hasked with hasked | hasked
  · exact hw.unasked ⟨n, hold, haccept, rfl⟩ hasked
  rcases hes key hasked with ⟨-, hfound⟩ | ⟨q, hq, htype, hkey⟩
  · obtain ⟨q, hq⟩ := Option.ne_none_iff_exists'.mp hfound
    have hq : σ.connections.protocols (σ.protocol n.protocol).key = some q := by
      rw [hw.opened.key]
      exact hq
    obtain rfl := h.known hheld hq
    exact hgone hq
  · obtain rfl := h.unique q hq n.protocol hheld (hkey.trans hw.opened.key.symm)
    exact htype hw.opened.type

theorem waiting_run {ts : List (Turn μ)} (h : σ.connections.Sound) (hw : σ.Waiting p key start)
    (run : Run Turns σ ts τ) (hended : ∀ t ∈ ts, ¬Ended p t) : τ.Waiting p key start := by
  induction run with
  | nil => exact hw
  | @snoc ts σ' τ t hprev hturn ih =>
    have hw' := ih fun t ht => hended t (List.mem_append_left _ ht)
    exact hw'.turn (sound_turns h hprev) hturn (hended t (by simp))

/-! ### Accepted sessions -/

/-- The listener of an accepted session is in the table and available. -/
def Listening (σ : IOEngine L μ) (fromProtocol : ProtocolId) : Prop :=
  σ.getProtocol (σ.protocol fromProtocol).key = some fromProtocol ∧
    (σ.protocol fromProtocol).available = true

variable {fromProtocol : ProtocolId}

omit [IntrusiveNode L] in
theorem accept_waiting (h : σ.connections.Sound) (hkey : key ≠ 0) :
    (σ.accept key fromProtocol).Waiting σ.created key (σ.accept key fromProtocol).events.length := by
  have hprotocol : (σ.accept key fromProtocol).protocol σ.created = { type := .SESSION, key } :=
    Function.update_self ..
  have hnew : ∀ n ∈ σ.connections.notices, n.protocol ≠ σ.created := by
    rintro n hn heq
    have hmade := h.made _ (h.owned _ (h.notice n hn).1)
    exact absurd heq (Nat.ne_of_lt hmade)
  refine ⟨⟨hkey, by rw [hprotocol], by rw [hprotocol], fun n hn hclose => ?_, Nat.le_refl _⟩,
    Nat.lt_succ_self _, fun _ hasked => ?_⟩
  · rw [accept_connections] at hn
    rcases List.mem_append.mp hn with hn | hn
    · exact hnew n hn
    · obtain rfl := List.mem_singleton.mp hn
      cases hclose
  · rw [List.drop_length] at hasked
    cases hasked

/-- What the engine does with a `PacketAccept`. -/
theorem onIOAccept_attended_iff (hw : σ.Waiting p key start) (h : σ.connections.Sound)
    (hturn : σ.Turns (.act (.dispatch (.notify ⟨.PacketAccept, key, p, some fromProtocol, true⟩))) τ) :
    τ.Attended p key start ↔ σ.Listening fromProtocol := by
  obtain ⟨queue, hqueue⟩ := List.head?_eq_some_iff.mp (hturn.1.1 _ rfl)
  have hexec : { σ with msgqueue := σ.msgqueue.tail }.onIOAccept
      ⟨.PacketAccept, key, p, some fromProtocol, true⟩ = .ok τ := hturn.1.2
  have hmem : (⟨.PacketAccept, key, p, some fromProtocol, true⟩ : IONotify) ∈
      σ.connections.notices :=
    List.mem_filterMap.mpr ⟨_, by rw [hqueue]; exact List.mem_cons_self, rfl⟩
  have hnone : σ.protocols key = none := by
    have hnone := h.none_of_not_known (h.notice _ hmem).1 (h.waiting _ hmem rfl)
    rw [← hw.opened.key]
    exact hnone
  have hunasked := hw.unasked ⟨_, hmem, rfl, rfl⟩
  have hdiscarded (hτ : τ.protocols = σ.protocols) (hevents : τ.events = σ.events) :
      ¬τ.Attended p key start := by
    rintro (hfound | hasked)
    · rw [hτ, hnone] at hfound
      cases hfound
    · exact hunasked (hevents ▸ hasked)
  simp only [onIOAccept] at hexec
  split at hexec
  · next hother =>
    obtain rfl := Except.ok.inj hexec
    exact iff_of_false (hdiscarded rfl rfl) fun hlistening => hother hlistening.1
  next hfound =>
  split at hexec
  · next hquiet =>
    obtain rfl := Except.ok.inj hexec
    refine iff_of_false (hdiscarded rfl rfl) fun hlistening => ?_
    have havail : (σ.protocol fromProtocol).available = true := hlistening.2
    simp [havail] at hquiet
  next havail =>
  have hkey : (σ.protocol p).key = key := hw.opened.key
  rw [show (σ.protocol p).key = key from hkey] at hexec
  split at hexec
  · obtain rfl := Except.ok.inj hexec
    refine iff_of_true (.inl (Function.update_self ..)) ⟨not_not.mp hfound, by simpa using havail⟩
  · next hfree => exact absurd hnone hfree

/-- A session that the network has accepted and not ended, and whose `PacketAccept` the engine handles:
in every state of every run from there on it is in the table, or the network was asked to close it, if
and only if its listener was in the table and available. -/
theorem session_attended_iff {ts us : List (Turn μ)} {σ' υ : IOEngine L μ}
    (run : Run Turns init ts σ) (haccept : σ.Turns (.act (.accept key fromProtocol)) σ')
    (run' : Run Turns σ' us υ) (hended : ∀ t ∈ us, ¬Ended σ.created t)
    (hturn : υ.Turns
      (.act (.dispatch (.notify ⟨.PacketAccept, key, σ.created, some fromProtocol, true⟩))) τ) :
    (∀ vs ω, Run Turns τ vs ω → (∀ t ∈ vs, ¬Ended σ.created t) →
      ω.Attended σ.created key σ'.events.length) ↔ υ.Listening fromProtocol := by
  have hσ := sound_turns sound_init run
  have hσ' := (turn_passed hσ haccept).sound
  have hυ := sound_turns hσ' run'
  obtain ⟨⟨-, hexec⟩, hkey, -⟩ := haccept
  obtain rfl := Except.ok.inj hexec
  have hwaiting := waiting_run hσ' (accept_waiting hσ hkey) run' hended
  rw [← onIOAccept_attended_iff hwaiting hυ hturn]
  constructor
  · exact fun hattended => hattended [] τ .nil (by simp)
  · intro hattended vs ω run'' hended'
    have hopen := hwaiting.opened.turn hυ hturn (by rintro ⟨n, hn, -⟩; cases hn)
    exact (attended_run (turn_passed hυ hturn).sound hopen hattended run'' hended').2

/-! ### A listener of a concrete run -/

def listenActions : List (Action Unit) :=
  let listening : Packet Unit := .notify ⟨.PacketListen, 1, 0, none, true⟩
  [.create, .listen 80 0 1, .post listening, .dispatch listening]

/-- The engine with a listener, its protocol 0, that is available under the key 1. -/
def listened : IOEngine (List HandlerId) Unit :=
  let _ := IntrusiveNode.list
  listenActions.foldl next init

theorem listened_run :
    @Run _ _ (@Turns _ _ .list) (@init _ _ .list) (listenActions.map .act) listened := by
  let _ := IntrusiveNode.list
  have h1 := Run.nil.snoc (show Turns (init : IOEngine (List HandlerId) Unit) (.act .create) _ from
    ⟨⟨by rintro _ ⟨⟩, rfl⟩, trivial⟩)
  have h2 := h1.snoc (show Turns _ (.act (.listen 80 0 1)) _ from
    ⟨⟨by rintro _ ⟨⟩, rfl⟩, by decide, .inr (by decide)⟩)
  have h3 := h2.snoc (show Turns _ (.act (.post (.notify ⟨.PacketListen, 1, 0, none, true⟩))) _ from
    ⟨⟨by rintro _ ⟨⟩, rfl⟩, by decide, by decide, by decide⟩)
  have h4 := h3.snoc (show Turns _ (.act (.dispatch (.notify ⟨.PacketListen, 1, 0, none, true⟩))) _
    from ⟨⟨by rintro _ ⟨⟩; rfl, rfl⟩, trivial⟩)
  exact h4

/-- The listener is there when the engine handles the `PacketAccept`. -/
theorem session_attended_iff_listening : ∃ (ts : List (Turn Unit))
    (τ : IOEngine (List HandlerId) Unit), @Run _ _ (@Turns _ _ .list) (@init _ _ .list) ts τ ∧
    ∀ vs ω, @Run _ _ (@Turns _ _ .list) τ vs ω → (∀ t ∈ vs, ¬Ended 1 t) → ω.Attended 1 2 1 := by
  let _ := IntrusiveNode.list
  have haccept : Turns listened (.act (.accept 2 0)) _ :=
    ⟨⟨by rintro _ ⟨⟩, rfl⟩, by decide, .inr (by decide)⟩
  have hturn : Turns (listened.accept 2 0)
      (.act (.dispatch (.notify ⟨.PacketAccept, 2, 1, some 0, true⟩))) _ :=
    ⟨⟨by rintro _ ⟨⟩; rfl, rfl⟩, trivial⟩
  have hattended := (session_attended_iff listened_run haccept .nil (by simp) hturn).mpr
    ⟨by decide, by decide⟩
  exact ⟨_, _, (listened_run.snoc haccept).snoc hturn, hattended⟩

/-- The listener is closed before the engine handles the `PacketAccept`.  The engine then drops the
session, which the network has not ended, and does not ask for a close of its key. -/
theorem session_orphaned : ∃ (ts : List (Turn Unit)) (τ : IOEngine (List HandlerId) Unit),
    @Run _ _ (@Turns _ _ .list) (@init _ _ .list) ts τ ∧
    ts = listenActions.map .act ++ [.act (.accept 2 0), .act (.close 1),
      .act (.dispatch (.notify ⟨.PacketAccept, 2, 1, some 0, true⟩))] ∧
    (∀ t ∈ ts, ¬Ended 1 t) ∧ (τ.protocol 1).key = 2 ∧ τ.protocols 2 = none ∧
      .close 2 ∉ τ.events := by
  let _ := IntrusiveNode.list
  have h1 := listened_run.snoc (show Turns _ (.act (.accept 2 0)) _ from
    ⟨⟨by rintro _ ⟨⟩, rfl⟩, by decide, .inr (by decide)⟩)
  have h2 := h1.snoc (show Turns _ (.act (.close 1)) _ from ⟨⟨by rintro _ ⟨⟩, rfl⟩, trivial⟩)
  have h3 := h2.snoc (show Turns _ (.act (.dispatch (.notify ⟨.PacketAccept, 2, 1, some 0, true⟩))) _
    from ⟨⟨by rintro _ ⟨⟩; rfl, rfl⟩, trivial⟩)
  refine ⟨_, _, h3, rfl, ?_, ?_, ?_, ?_⟩
  · rintro t ht ⟨n, rfl, hn, -⟩
    obtain rfl : n = ⟨.PacketListen, 1, 0, none, true⟩ := by simpa [listenActions] using ht
    cases hn
  · decide
  · decide
  · decide

end IOEngine

end ZlNet.Engine
