import ZlNet.Engine.Proof.Table

/-! What stays true of a protocol once users know it.  Nothing makes a protocol known again after it
has left the table, and a protocol keeps its key and its type. -/

namespace ZlNet.Engine

open Network

namespace Connections

variable {c c' c'' : Connections} {p q : ProtocolId} {key : UInt32} {entry : Option ProtocolId}
  {available : Bool} {calls : List Upcall} {n : IONotify} {rest : List IONotify}

/-- `p` has a key, and nothing that waits in the queue tells that it was accepted. -/
def Settled (c : Connections) (p : ProtocolId) : Prop :=
  (c.protocol p).key ≠ 0 ∧ ∀ n ∈ c.notices, n.type = .PacketAccept → n.protocol ≠ p

/-- What holds of all states that come later in a run. -/
structure Later (c c' : Connections) : Prop where
  keys : ∀ p, (c.protocol p).key ≠ 0 →
    (c'.protocol p).key = (c.protocol p).key ∧ (c'.protocol p).type = (c.protocol p).type
  settled : ∀ p, c.Settled p → c'.Settled p ∧ (c'.Known p → c.Known p)

theorem Later.refl (c : Connections) : c.Later c :=
  ⟨fun _ _ => ⟨rfl, rfl⟩, fun _ hp => ⟨hp, id⟩⟩

theorem Later.trans (h : c.Later c') (h' : c'.Later c'') : c.Later c'' where
  keys p hp := by
    obtain ⟨hkey, htype⟩ := h.keys p hp
    obtain ⟨hkey', htype'⟩ := h'.keys p (by rwa [hkey])
    exact ⟨hkey'.trans hkey, htype'.trans htype⟩
  settled p hp := by
    obtain ⟨hp', hknown⟩ := h.settled p hp
    obtain ⟨hp'', hknown'⟩ := h'.settled p hp'
    exact ⟨hp'', hknown ∘ hknown'⟩

theorem Sound.settled (h : c.Sound) (hknown : c.Known p) : c.Settled p :=
  ⟨h.owned p (h.held hknown), h.no_accept (.inl hknown)⟩

theorem Sound.known_of_found (h : c.Sound) (hfound : c.protocols key = some p) : c.Known p := by
  rw [Known, (h.entry key p hfound).2]
  exact hfound

/-- What is known stays known, and available if it was. -/
def Calm (c c' : Connections) : Prop :=
  ∀ p, c.Known p → c'.Known p ∧ ((c.protocol p).available = true → (c'.protocol p).available = true)

theorem Calm.refl (c : Connections) : c.Calm c := fun _ hp => ⟨hp, id⟩

theorem Calm.trans (h : c.Calm c') (h' : c'.Calm c'') : c.Calm c'' := by
  intro p hp
  obtain ⟨hp', havail⟩ := h p hp
  obtain ⟨hp'', havail'⟩ := h' p hp'
  exact ⟨hp'', havail' ∘ havail⟩

/-- `p` is not known any more, and nothing changes for those that are known besides it. -/
def Drops (c : Connections) (p : ProtocolId) (c' : Connections) : Prop :=
  ¬c'.Known p ∧ ∀ q, q ≠ p → c.Known q →
    c'.Known q ∧ ((c.protocol q).available = true → (c'.protocol q).available = true)

/-! ### Changes of one protocol -/

theorem Sound.touch_later (h : c.Sound) (hp : p ∈ c.outstanding)
    (hentry : entry = none ∨ entry = some p ∧ c.Known p) :
    c.Later (c.touch p available entry calls) where
  keys _ _ := ⟨touch_key, touch_type⟩
  settled q hq := by
    refine ⟨⟨by rw [touch_key]; exact hq.1, hq.2⟩, ?_⟩
    intro hknown
    by_cases heq : q = p
    · subst heq
      rcases hentry with rfl | ⟨-, hknown⟩
      · exact absurd hknown touch_gone
      · exact hknown
    · exact (h.touch_known_ne hp (hentry.imp_right And.left) heq).mp hknown

theorem Sound.touch_none (h : c.Sound) (hp : p ∈ c.outstanding) :
    (c.touch p available none calls).Sound := h.touch hp (.inl rfl) nofun

theorem Sound.touch_calm (h : c.Sound) (hp : p ∈ c.outstanding)
    (havail : (c.protocol p).available = true → available = true) :
    c.Calm (c.touch p available (some p) calls) := by
  intro q hq
  by_cases heq : q = p
  · subst heq
    rw [touch_available]
    exact ⟨touch_known, havail⟩
  · rw [h.touch_known_ne hp (.inr rfl) heq, touch_protocol_ne heq]
    exact ⟨hq, id⟩

theorem Sound.touch_drops (h : c.Sound) (hp : p ∈ c.outstanding) :
    c.Drops p (c.touch p available none calls) := by
  refine ⟨touch_gone, fun q hne hq => ?_⟩
  rw [h.touch_known_ne hp (.inl rfl) hne, touch_protocol_ne hne]
  exact ⟨hq, id⟩

theorem own_later (hblank : (c.protocol p).key = 0)
    {type : EIOOBJECT_TYPE} : c.Later (c.own p type key) := by
  have hne {q : ProtocolId} (hq : (c.protocol q).key ≠ 0) : q ≠ p := by
    intro heq
    exact hq (heq ▸ hblank)
  constructor
  · intro q hq
    rw [own_ne (hne hq)]
    exact ⟨rfl, rfl⟩
  · intro q hq
    refine ⟨⟨?_, hq.2⟩, ?_⟩
    · rw [own_ne (hne hq.1)]
      exact hq.1
    · exact (own_known_ne (hne hq.1)).mp

theorem Sound.own_calm (h : c.Sound) (hblank : (c.protocol p).key = 0) {type : EIOOBJECT_TYPE} :
    c.Calm (c.own p type key) := by
  intro q hq
  have hne : q ≠ p := by
    intro heq
    exact h.owned q (h.held hq) (heq ▸ hblank)
  rw [own_known_ne hne, own_ne hne]
  exact ⟨hq, id⟩

/-- The protocols and the table stay as they are. -/
theorem same_calm (hprotocols : c'.protocols = c.protocols) (hprotocol : c'.protocol = c.protocol) :
    c.Calm c' := by
  intro p hp
  rw [Known, hprotocols, hprotocol]
  exact ⟨hp, id⟩

theorem same_later (hprotocols : c'.protocols = c.protocols) (hprotocol : c'.protocol = c.protocol)
    (hnotices : ∀ n ∈ c'.notices, n.type = .PacketAccept → n ∈ c.notices) : c.Later c' := by
  refine ⟨fun p _ => by rw [hprotocol]; exact ⟨rfl, rfl⟩, fun p hp => ⟨⟨?_, ?_⟩, ?_⟩⟩
  · rw [hprotocol]
    exact hp.1
  · intro n hn haccept
    exact hp.2 n (hnotices n hn haccept) haccept
  · rw [Known, hprotocols, hprotocol]
    exact id

/-! ### New protocols -/

/-- A protocol that has just got its key, and is put in the table. -/
theorem Sound.opened (h : c.Sound) (hblank : (c.protocol p).key = 0) (hmade : p < c.created)
    (hkey : key ≠ 0) (hfree : ∀ q ∈ c.outstanding, (c.protocol q).key ≠ key) {type : EIOOBJECT_TYPE}
    (htype : type ≠ .SESSION) {c' : Connections}
    (hc' : c' = (c.own p type key).touch p false (some p) []) :
    c'.Sound ∧ c.Later c' ∧ c.Calm c' ∧ c'.protocols key = some p ∧ (c'.protocol p).key = key ∧
      (c'.protocol p).type = type := by
  have hown := h.own hblank hmade hkey hfree type
  have hblank' : c.protocol p = {} := h.blank p hblank
  have hself : ((c.own p type key).protocol p).type = type := by rw [own_self]
  have hunavail : ((c.own p type key).protocol p).available = false := by rw [own_self]
  subst hc'
  have hknown : ((c.own p type key).touch p false (some p) []).protocols key = some p := by
    rw [Connections.touch, own_self]
    exact Function.update_self ..
  have hgone : c.Later (c.own p type key) := own_later hblank
  refine ⟨?_, ⟨?_, ?_⟩, ?_, hknown, ?_, ?_⟩
  · refine hown.touch List.mem_cons_self (.inr rfl) fun _ => hown.no_accept (.inr ?_)
    rw [hself]
    exact htype
  · intro q hq
    rw [touch_key, touch_type]
    exact hgone.keys q hq
  · intro q hq
    have hne : q ≠ p := by
      intro heq
      exact hq.1 (heq ▸ hblank)
    refine ⟨⟨?_, hq.2⟩, ?_⟩
    · rw [touch_key, own_ne hne]
      exact hq.1
    · rw [hown.touch_known_ne List.mem_cons_self (.inr rfl) hne, own_known_ne hne]
      exact id
  · refine (h.own_calm hblank).trans (hown.touch_calm List.mem_cons_self ?_)
    intro havail
    exact absurd (hunavail.symm.trans havail) Bool.false_ne_true
  · rw [touch_key, own_self]
  · rw [touch_type, own_self]

/-- A protocol that the network has made for a connection. -/
theorem Sound.made_later (h : c.Sound) {fromProtocol : ProtocolId} {c' : Connections}
    (hc' : c' = { { c with created := c.created + 1 }.own c.created .SESSION key with
      notices := c.notices ++ [⟨.PacketAccept, key, c.created, some fromProtocol, true⟩] }) :
    c.Later c' ∧ c.Calm c' := by
  subst hc'
  have hblank : (c.protocol c.created).key = 0 :=
    by_contra fun hne => absurd (h.made _ hne) (Nat.lt_irrefl _)
  have hlater : c.Later (c.own c.created .SESSION key) := own_later hblank
  refine ⟨⟨hlater.keys, fun q hq => ?_⟩, h.own_calm hblank⟩
  obtain ⟨hq', hknown⟩ := hlater.settled q hq
  refine ⟨⟨hq'.1, fun n hn haccept => ?_⟩, hknown⟩
  rcases List.mem_append.mp hn with hn | hn
  · exact hq.2 n hn haccept
  · obtain rfl := List.mem_singleton.mp hn
    intro heq
    exact hq.1 (heq ▸ hblank)

/-! ### The queue -/

/-- Whatever is done with a notification that is taken from the queue. -/
theorem Handled.later (h : c.Sound) (hperm : c.notices.Perm (n :: rest))
    (hsub : rest.Sublist c.notices) (hhandled : Handled { c with notices := rest } n c') :
    c.Later c' := by
  have hpopped := h.extract hperm hsub
  have hlater : c.Later { c with notices := rest } :=
    same_later rfl rfl fun n hn _ => hsub.subset hn
  cases hhandled with
  | ignored => exact hlater
  | listened _ hknown =>
    exact hlater.trans (hpopped.sound.touch_later hpopped.held (.inr ⟨rfl, hknown⟩))
  | connected _ hknown =>
    exact hlater.trans (hpopped.sound.touch_later hpopped.held (.inr ⟨rfl, hknown⟩))
  | unlistened => exact hlater.trans (hpopped.sound.touch_later hpopped.held (.inl rfl))
  | closed => exact hlater.trans (hpopped.sound.touch_later hpopped.held (.inl rfl))
  | disconnected => exact hlater.trans (hpopped.sound.touch_later hpopped.held (.inl rfl))
  | accepted haccept =>
    refine ⟨fun q _ => ⟨touch_key, touch_type⟩, fun q hq => ?_⟩
    have hne : q ≠ n.protocol := by
      intro heq
      exact hq.2 n (hperm.mem_iff.mpr List.mem_cons_self) haccept heq.symm
    refine ⟨⟨?_, (hlater.settled q hq).1.2⟩, ?_⟩
    · rw [touch_key]
      exact hq.1
    · exact (hpopped.sound.touch_known_ne hpopped.held (.inr rfl) hne).mp

end Connections

namespace IOEngine

open Connections Lib

variable {L μ : Type} {tidy : Prop} {σ τ υ : IOEngine L μ} {p : ProtocolId} {uid : UInt32}
  {n : IONotify}

/-- No packet that waits in the queue is for a listener. -/
def Addressed (σ : IOEngine L μ) : Prop :=
  ∀ packet, .msg packet ∈ σ.msgqueue → ∀ p ∈ σ.outstanding,
    (σ.protocol p).key = packet.uid → (σ.protocol p).type ≠ .LISTENER

/-- What the steps of a node keep.  In a `tidy` run they also keep keys apart: none is given as long as
a packet for it waits. -/
structure Wired (tidy : Prop) (σ : IOEngine L μ) : Prop where
  sound : σ.connections.Sound
  addressed : tidy → σ.Addressed

/-- Packets of data are taken out of the queue, and those that are put in it are for nobody. -/
def Drains (σ τ : IOEngine L μ) : Prop :=
  ∀ packet, .msg packet ∈ τ.msgqueue → .msg packet ∈ σ.msgqueue ∨ packet.uid = 0

/-- A packet that waits in the queue has waited for the same protocol before. -/
def Retains (σ τ : IOEngine L μ) : Prop :=
  ∀ packet, .msg packet ∈ τ.msgqueue → ∀ q ∈ τ.outstanding, (τ.protocol q).key = packet.uid →
    .msg packet ∈ σ.msgqueue ∧ q ∈ σ.outstanding ∧ (σ.protocol q).key = packet.uid

theorem Retains.refl (σ : IOEngine L μ) : σ.Retains σ :=
  fun _ hpacket _ hq hkey => ⟨hpacket, hq, hkey⟩

theorem Retains.trans (h : σ.Retains τ) (h' : τ.Retains υ) : σ.Retains υ := by
  intro packet hpacket q hq hkey
  obtain ⟨hpacket, hq, hkey⟩ := h' packet hpacket q hq hkey
  exact h packet hpacket q hq hkey

/-- Nothing changes for a packet unless a protocol gets a key. -/
theorem Wired.retains (h : σ.Wired tidy) (hlater : σ.connections.Later τ.connections)
    (hheld : ∀ p ∈ τ.outstanding, p ∈ σ.outstanding) (hdrains : σ.Drains τ) : σ.Retains τ := by
  intro packet hpacket q hq hkey
  have howned : (σ.protocol q).key ≠ 0 := h.sound.owned q (hheld q hq)
  have hsame : (τ.protocol q).key = (σ.protocol q).key := (hlater.keys q howned).1
  rw [hsame] at hkey
  rcases hdrains packet hpacket with hpacket | hzero
  · exact ⟨hpacket, hheld q hq, hkey⟩
  · exact absurd (hkey.trans hzero) howned

theorem Wired.of_retains (h : σ.Wired tidy) (hsound : τ.connections.Sound)
    (hlater : σ.connections.Later τ.connections) (hretains : tidy → σ.Retains τ) : τ.Wired tidy := by
  refine ⟨hsound, fun htidy packet hpacket q hq hkey => ?_⟩
  obtain ⟨hpacket, hheld, hkey⟩ := hretains htidy packet hpacket q hq hkey
  have htype : (τ.protocol q).type = (σ.protocol q).type :=
    (hlater.keys q (h.sound.owned q hheld)).2
  rw [htype]
  exact h.addressed htidy packet hpacket q hheld hkey

theorem Wired.next (h : σ.Wired tidy) (hsound : τ.connections.Sound)
    (hlater : σ.connections.Later τ.connections) (hheld : ∀ p ∈ τ.outstanding, p ∈ σ.outstanding)
    (hdrains : σ.Drains τ) : τ.Wired tidy :=
  h.of_retains hsound hlater fun _ => h.retains hlater hheld hdrains

/-- What is left alone by what is not about callbacks and packets of data. -/
structure Plain (σ τ : IOEngine L μ) : Prop where
  msgqueue : τ.msgqueue = σ.msgqueue
  dispatched : τ.dispatched = σ.dispatched

theorem Plain.refl (σ : IOEngine L μ) : σ.Plain σ := ⟨rfl, rfl⟩

theorem Plain.drains (h : σ.Plain τ) : σ.Drains τ := by
  intro packet hpacket
  rw [h.msgqueue] at hpacket
  exact .inl hpacket

theorem Talks.plain (h : σ.Talks τ) : σ.Plain τ :=
  ⟨(congrArg IOEngine.msgqueue h :), (congrArg IOEngine.dispatched h :)⟩

theorem close_plain (hclose : σ.close uid = .ok τ) : σ.Plain τ := by
  have htalks := close_talks (σ := σ) uid
  rw [hclose] at htalks
  rcases htalks with rfl | ⟨-, htalks⟩
  · exact .refl τ
  · exact ⟨htalks.plain.msgqueue, htalks.plain.dispatched⟩

variable [IntrusiveNode L]

theorem dispatchNotify_plain (hexec : σ.dispatchIOPacket (.notify n) = .ok τ) : σ.Plain τ := by
  have htalks := dispatchNotify_talks (σ := σ) n
  rw [hexec] at htalks
  exact htalks.plain

/-- A packet of data is for the packet handler of its command, only if its protocol is available. -/
theorem onIOPacket_dispatched {packet : IOPacket μ} (hpacket : σ.onIOPacket packet = .ok τ) :
    τ.msgqueue = σ.msgqueue ∧ (τ.dispatched = σ.dispatched ∨
      σ.isAvailable packet.uid = true ∧ ∃ handler, σ.packetHandlers packet.cmd = some handler ∧
        τ.dispatched = σ.dispatched ++ [(handler, packet)]) := by
  cases onIOPacket_cases hpacket with
  | dropped => exact ⟨rfl, .inl rfl⟩
  | completed => exact ⟨rfl, .inl rfl⟩
  | dispatched havail =>
    unfold dispatchPacket
    split
    · exact ⟨rfl, .inl rfl⟩
    · next handler hhandler => exact ⟨rfl, .inr ⟨havail, handler, hhandler, rfl⟩⟩

end IOEngine

end ZlNet.Engine
