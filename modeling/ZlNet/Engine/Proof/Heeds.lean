import ZlNet.Engine.Proof.Origin
import ZlNet.Engine.System
import ZlNet.Network.Proof.Upheld

/-! What the engine has handled of all that the network has told a protocol, and what is still in its
queue.  A protocol that is in the table and available has heard that it has something and not yet that
it has gone. -/

namespace ZlNet.Engine

open Lib Network

/-- The protocol has a listener or a connection from this notification on. -/
def IONotify.Starts (n : IONotify) : Prop :=
  n.type = .PacketAccept ∨ (n.type = .PacketListen ∨ n.type = .PacketConnect) ∧ n.success = true

/-- What the protocol had has gone. -/
def IONotify.Stops (n : IONotify) : Prop :=
  n.type = .PacketUnlisten ∨ n.type = .PacketClose ∨ n.type = .PacketDisconnect

/-- What a protocol posts of a call. -/
abbrev posted (call : IOProtocol × Notice) : IONotify := notification call.1 call.2

section

variable {p : IOProtocol} {notice : Notice}

@[simp] theorem notification_protocol : (notification p notice).protocol = p.id := by
  cases notice <;> rfl

@[simp] theorem notification_uid : (notification p notice).uid = p.key := by
  cases notice <;> rfl

theorem notification_starts : (notification p notice).Starts ↔ notice.Starts := by
  cases notice with
  | onListen success => cases success <;> simp [notification, IONotify.Starts, Notice.Starts]
  | onUnlisten => simp [notification, IONotify.Starts, Notice.Starts]
  | onAccept fromProtocol => simp [notification, IONotify.Starts, Notice.Starts]
  | onClose => simp [notification, IONotify.Starts, Notice.Starts]
  | onConnect success => cases success <;> simp [notification, IONotify.Starts, Notice.Starts]
  | onDisConnect => simp [notification, IONotify.Starts, Notice.Starts]

theorem notification_stops : (notification p notice).Stops ↔ notice.Stops := by
  cases notice <;> simp [notification, IONotify.Stops, Notice.Stops]

end

/-! ### A notification is handled -/

namespace Connections

variable {c c' : Connections} {p q : ProtocolId} {n : IONotify}

/-- Who is known and available after a notification was known and as available before it, or it is the
start. -/
theorem Handled.back (h : Handled c n c') (hknown : c'.Known n.protocol) :
    c.Known n.protocol ∧ (c'.protocol n.protocol).available = (c.protocol n.protocol).available ∨
      (c'.protocol n.protocol).available = true ∧ n.Starts := by
  have hsuccess (htype : n.type = .PacketListen ∨ n.type = .PacketConnect)
      (hold : c.Known n.protocol) (available : Bool)
      (heq : available = (n.success || (c.protocol n.protocol).available)) :
      c.Known n.protocol ∧ available = (c.protocol n.protocol).available ∨
        available = true ∧ n.Starts := by
    cases hs : n.success with
    | true => exact .inr ⟨by simp [heq, hs], .inr ⟨htype, hs⟩⟩
    | false => exact .inl ⟨hold, by simp [heq, hs]⟩
  cases h with
  | ignored => exact .inl ⟨hknown, rfl⟩
  | listened htype hold => exact hsuccess (.inl htype) hold _ touch_available
  | connected htype hold => exact hsuccess (.inr htype) hold _ touch_available
  | accepted htype => exact .inr ⟨touch_available, .inl htype⟩
  | unlistened => exact absurd hknown touch_gone
  | closed => exact absurd hknown touch_gone
  | disconnected => exact absurd hknown touch_gone

/-- Nothing changes for other protocols. -/
theorem Handled.other (h : Handled c n c') (hpopped : c.Popped n) (hne : q ≠ n.protocol) :
    (c'.Known q ↔ c.Known q) ∧ c'.protocol q = c.protocol q := by
  have htouch {available : Bool} {entry : Option ProtocolId} {calls : List Upcall}
      (hentry : entry = none ∨ entry = some n.protocol) :
      ((c.touch n.protocol available entry calls).Known q ↔ c.Known q) ∧
        (c.touch n.protocol available entry calls).protocol q = c.protocol q :=
    ⟨hpopped.sound.touch_known_ne hpopped.held hentry hne, touch_protocol_ne hne⟩
  cases h with
  | ignored => exact ⟨Iff.rfl, rfl⟩
  | listened => exact htouch (.inr rfl)
  | connected => exact htouch (.inr rfl)
  | accepted => exact htouch (.inr rfl)
  | unlistened => exact htouch (.inl rfl)
  | closed => exact htouch (.inl rfl)
  | disconnected => exact htouch (.inl rfl)

theorem Handled.notices (h : Handled c n c') : c'.notices = c.notices := by
  cases h <;> rfl

theorem Handled.keys (h : Handled c n c') (q : ProtocolId) :
    (c'.protocol q).key = (c.protocol q).key ∧ (c'.protocol q).type = (c.protocol q).type := by
  cases h with
  | ignored => exact ⟨rfl, rfl⟩
  | _ => exact ⟨touch_key, touch_type⟩

end Connections

namespace IOEngine

variable {L μ : Type} [IntrusiveNode L] {σ τ : IOEngine L μ} {n : IONotify}

/-- After a stop the protocol is not known as available. -/
theorem stops_effect (h : σ.connections.Popped n) (hstops : n.Stops)
    (hexec : σ.dispatchIOPacket (.notify n) = .ok τ) :
    ¬(τ.connections.Known n.protocol ∧ (τ.protocol n.protocol).available = true) := by
  rintro ⟨hknown, havail⟩
  simp only [dispatchIOPacket] at hexec
  rcases hstops with htype | htype | htype
  · rw [htype] at hexec
    obtain rfl := Except.ok.inj hexec
    have huid : n.uid = (σ.protocol n.protocol).key := h.uid
    cases hfound : σ.getProtocol n.uid with
    | none =>
      simp only [onIOUnListen, hfound] at hknown
      have hnone : σ.protocols (σ.protocol n.protocol).key = none := huid ▸ hfound
      exact absurd (hnone.symm.trans hknown) (by simp)
    | some p =>
      obtain rfl := h.sound.known h.held (h.uid ▸ hfound)
      simp only [onIOUnListen, hfound] at havail
      split at havail
      · next hunavail => simp [havail] at hunavail
      · simp [upcall, removeProtocol, unsetAvailable, setProtocol] at havail
  · rw [htype] at hexec
    obtain rfl := Except.ok.inj hexec
    simp only [onIOClose] at havail
    split at havail
    · next hunavail => simp [havail] at hunavail
    · simp [upcall, removeProtocol, unsetAvailable, setProtocol] at havail
  · rw [htype] at hexec
    obtain rfl := Except.ok.inj hexec
    simp only [onIODisconnect] at hknown havail
    split at havail
    · next hnone =>
      rw [if_pos hnone] at hknown
      exact absurd (hnone.symm.trans hknown) (by simp)
    · split at havail
      · next hunavail => simp [havail] at hunavail
      · simp [upcall, removeProtocol, unsetAvailable, setProtocol] at havail

/-- After a start the protocol is available, if it is known. -/
theorem starts_effect (h : σ.connections.Popped n) (hstarts : n.Starts)
    (hexec : σ.dispatchIOPacket (.notify n) = .ok τ) (hknown : τ.connections.Known n.protocol) :
    (τ.protocol n.protocol).available = true := by
  rcases hstarts with haccept | ⟨htype | htype, hsuccess⟩
  · have hhandled := dispatchNotify_handled h
    rw [hexec] at hhandled
    rcases Connections.Handled.back hhandled hknown with ⟨hold, -⟩ | ⟨havail, -⟩
    · exact absurd hold (h.waiting haccept)
    · exact havail
  · simp only [dispatchIOPacket, htype] at hexec
    obtain rfl := Except.ok.inj hexec
    simp only [onIOListen] at hknown ⊢
    split
    · next hnone =>
      rw [if_pos hnone] at hknown
      have hknown : σ.getProtocol (σ.protocol n.protocol).key = some n.protocol := hknown
      exact absurd (h.uid ▸ hknown) hnone
    · simp [hsuccess, upcall, setAvailable, setProtocol]
  · simp only [dispatchIOPacket, htype] at hexec
    obtain rfl := Except.ok.inj hexec
    simp only [onIOConnect] at hknown ⊢
    split
    · next hnone =>
      rw [if_pos hnone] at hknown
      exact absurd (hnone.symm.trans hknown) (by simp)
    · simp [hsuccess, upcall, setAvailable, setProtocol]

end IOEngine

/-! ### What is heard of a protocol -/

/-- Of what `p` was told, the engine has handled `done`, and `pending` is in its queue. -/
structure Heeds (c : Connections) (p : ProtocolId) (done pending : List (IOProtocol × Notice)) :
    Prop where
  told : ∀ call ∈ done ++ pending, call.1.id = p ∧ call.1.key = (c.protocol p).key ∧
    call.1.type = (c.protocol p).type
  pending : c.notices.filter (fun n => n.protocol = p) = pending.map posted
  live : c.Known p → (c.protocol p).available = true →
    (∃ call ∈ done, call.2.Starts) ∧ ∀ call ∈ done, ¬call.2.Stops
  idle : c.Known p → (c.protocol p).available = false → ∀ call ∈ done, ¬call.2.Starts

namespace Heeds

open Connections

variable {c c' : Connections} {p : ProtocolId} {done pending new : List (IOProtocol × Notice)}
  {call : IOProtocol × Notice} {n : IONotify} {rest : List IONotify}

/-- What is pending is in the queue. -/
theorem queued (h : Heeds c p done pending) (hcall : call ∈ pending) :
    posted call ∈ c.notices ∧ (posted call).protocol = p := by
  have hmem : posted call ∈ c.notices.filter fun n => n.protocol = p := by
    rw [h.pending]
    exact List.mem_map_of_mem hcall
  obtain ⟨hmem, hprotocol⟩ := List.mem_filter.mp hmem
  exact ⟨hmem, of_decide_eq_true hprotocol⟩

/-- A protocol that was told nothing. -/
theorem fresh (hnotice : ∀ n ∈ c.notices, n.protocol ≠ p)
    (hunavailable : (c.protocol p).available = false) : Heeds c p [] [] where
  told call hcall := absurd hcall List.not_mem_nil
  pending := List.filter_eq_nil_iff.mpr fun n hn => by simpa using hnotice n hn
  live _ havail := absurd (hunavailable.symm.trans havail) Bool.false_ne_true
  idle _ _ call hcall := absurd hcall List.not_mem_nil

/-- Nothing happens to `p`. -/
theorem calm (h : Heeds c p done pending) (hkey : (c'.protocol p).key = (c.protocol p).key)
    (htype : (c'.protocol p).type = (c.protocol p).type)
    (hqueue : c'.notices.filter (fun n => n.protocol = p) = c.notices.filter (fun n => n.protocol = p))
    (hknown : c'.Known p →
      c.Known p ∧ (c'.protocol p).available = (c.protocol p).available) :
    Heeds c' p done pending where
  told call hcall := by
    rw [hkey, htype]
    exact h.told call hcall
  pending := hqueue.trans h.pending
  live hp havail := by
    obtain ⟨hold, hsame⟩ := hknown hp
    exact h.live hold (hsame ▸ havail)
  idle hp havail := by
    obtain ⟨hold, hsame⟩ := hknown hp
    exact h.idle hold (hsame ▸ havail)

/-- A step that handles no notification and gets none. -/
theorem quiet (h : Heeds c p done pending) (hc : c.Sound) (hp : p ∈ c.outstanding)
    (hchange : Change c none c') (hsame : c'.notices = c.notices) : Heeds c' p done pending := by
  have howned := hc.owned p hp
  obtain ⟨hkey, htype⟩ := hchange.keys howned (hc.made p howned)
  refine h.calm hkey htype (by rw [hsame]) ?_
  cases hchange with
  | same => exact fun hp => ⟨hp, rfl⟩
  | create => exact fun hp => ⟨hp, rfl⟩
  | recycled => exact fun hp => ⟨hp, rfl⟩
  | posted => exact absurd hsame (by simp)
  | made => exact absurd hsame (by simp)
  | @opened q type key hblank hmade hne hfree =>
    have hpq : p ≠ q := by
      rintro rfl
      exact howned hblank
    have hown := hc.own hblank hmade hne hfree type
    intro hknown
    rw [hown.touch_known_ne List.mem_cons_self (.inr rfl) hpq, own_known_ne hpq] at hknown
    rw [touch_protocol_ne hpq, own_ne hpq]
    exact ⟨hknown, rfl⟩
  | @closed q calls hq =>
    intro hknown
    by_cases hpq : p = q
    · subst hpq
      exact absurd hknown touch_gone
    · rw [hc.touch_known_ne (hc.held hq) (.inl rfl) hpq] at hknown
      rw [touch_protocol_ne hpq]
      exact ⟨hknown, rfl⟩

/-- Notifications are posted, those of `p` at the end of what it was told. -/
theorem hear (h : Heeds c p done pending)
    (hnew : ∀ call ∈ new, call.1.id = p ↔ call.1.key = (c.protocol p).key)
    (htype : ∀ call ∈ new, call.1.id = p → call.1.type = (c.protocol p).type) :
    Heeds { c with notices := c.notices ++ new.map posted } p done
      (pending ++ new.filter fun call => call.1.key = (c.protocol p).key) where
  told call hcall := by
    rw [← List.append_assoc] at hcall
    rcases List.mem_append.mp hcall with hcall | hcall
    · exact h.told call hcall
    · obtain ⟨hcall, hkey⟩ := List.mem_filter.mp hcall
      have hkey : call.1.key = (c.protocol p).key := of_decide_eq_true hkey
      have hid := (hnew call hcall).mpr hkey
      exact ⟨hid, hkey, htype call hcall hid⟩
  pending := by
    rw [List.filter_append, h.pending, List.map_append, List.filter_map]
    congr 2
    apply List.filter_congr
    intro call hcall
    simp [posted, hnew call hcall]
  live := h.live
  idle := h.idle

/-- The engine handles the oldest of its notifications, which no stop came before for its protocol. -/
theorem handle {L μ : Type} [IntrusiveNode L] {σ τ : IOEngine L μ}
    (h : Heeds { σ.connections with notices := n :: σ.connections.notices } p done pending)
    (hpopped : σ.connections.Popped n) (hexec : σ.dispatchIOPacket (.notify n) = .ok τ)
    (hlast : ∀ ms call ns, done ++ pending = ms ++ call :: ns → ∀ m ∈ ms, ¬m.2.Stops) :
    ∃ done' pending', done' ++ pending' = done ++ pending ∧
      Heeds τ.connections p done' pending' := by
  have hhandled : Handled σ.connections n τ.connections := by
    have hhandled := IOEngine.dispatchNotify_handled hpopped
    rwa [hexec] at hhandled
  obtain ⟨hkey, htype⟩ := hhandled.keys p
  by_cases heq : n.protocol = p
  · subst heq
    have hqueue := h.pending
    rw [List.filter_cons_of_pos (by simp)] at hqueue
    obtain ⟨call, pending', rfl, rfl, hrest⟩ := List.map_eq_cons_iff.mp hqueue.symm
    have hsplit : done ++ [call] ++ pending' = done ++ call :: pending' := by simp
    have hdone : ∀ m ∈ done, ¬m.2.Stops := hlast done call pending' rfl
    have hwas (hknown : τ.connections.Known (posted call).protocol) :=
      hhandled.back hknown
    refine ⟨done ++ [call], pending', hsplit, ?_, ?_, ?_, ?_⟩
    · intro call' hcall'
      rw [hkey, htype]
      exact h.told call' (hsplit ▸ hcall')
    · rw [hhandled.notices]
      exact hrest.symm
    · intro hknown havail
      have hstop : ¬call.2.Stops := fun hstops =>
        IOEngine.stops_effect hpopped (notification_stops.mpr hstops) hexec ⟨hknown, havail⟩
      refine ⟨?_, ?_⟩
      · rcases hwas hknown with ⟨hold, hsame⟩ | ⟨-, hstarts⟩
        · obtain ⟨⟨call', hcall', hstart⟩, -⟩ := h.live hold (hsame ▸ havail)
          exact ⟨call', List.mem_append_left _ hcall', hstart⟩
        · exact ⟨call, by simp, notification_starts.mp hstarts⟩
      · intro m hm
        rcases List.mem_append.mp hm with hm | hm
        · exact hdone m hm
        · rwa [List.mem_singleton.mp hm]
    · intro hknown hunavail m hm
      rcases List.mem_append.mp hm with hm | hm
      · rcases hwas hknown with ⟨hold, hsame⟩ | ⟨havail, -⟩
        · exact h.idle hold (hsame ▸ hunavail) m hm
        · exact absurd (hunavail.symm.trans havail) Bool.false_ne_true
      · rw [List.mem_singleton.mp hm]
        intro hstart
        have havail := IOEngine.starts_effect hpopped (notification_starts.mpr hstart) hexec hknown
        exact absurd (hunavail.symm.trans havail) Bool.false_ne_true
  · obtain ⟨hknown, hsame⟩ := hhandled.other hpopped (Ne.symm heq)
    refine ⟨done, pending, rfl, h.calm hkey htype ?_ ?_⟩
    · rw [hhandled.notices, List.filter_cons_of_neg (by simpa using heq)]
    · intro hp
      exact ⟨hknown.mp hp, congrArg Protocol.available hsame⟩

end Heeds

end ZlNet.Engine
