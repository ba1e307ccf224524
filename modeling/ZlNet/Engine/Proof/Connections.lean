import ZlNet.Engine.Proof.Table

/-! The connections of the engine.  A session or a connector is fresh until its users are told that
it is there, then up, with its protocol available and in the table, and then down. -/

namespace ZlNet.Engine

open Lib Network

/-- The calls that tell that a connection is there. -/
def Upcall.opens : Upcall → Bool
  | .onAccept _ _ => true
  | .onConnect _ success => success
  | .onListen _ _ | .onUnlisten _ | .onClose _ | .onDisconnect _ => false

/-- The calls that tell that it has gone. -/
def Upcall.closes : Upcall → Bool
  | .onClose _ | .onDisconnect _ => true
  | .onListen _ _ | .onUnlisten _ | .onAccept _ _ | .onConnect _ _ => false

/-- The type and the uid of the protocol that a call is about. -/
def Upcall.about : Upcall → EIOOBJECT_TYPE × UInt32
  | .onListen uid _ | .onUnlisten uid => (.LISTENER, uid)
  | .onAccept uid _ | .onClose uid => (.SESSION, uid)
  | .onConnect uid _ | .onDisconnect uid => (.CONNECTOR, uid)

namespace Connections

variable {c : Connections} {p q : ProtocolId} {key : UInt32} {entry : Option ProtocolId}
  {available : Bool} {calls : List Upcall} {n : IONotify}

/-- How often users were told that the connection of `p` is there. -/
def ups (c : Connections) (p : ProtocolId) : Nat :=
  c.upcalls.countP fun call => call.1 = p && call.2.opens

/-- How often users were told that the connection of `p` has gone. -/
def downs (c : Connections) (p : ProtocolId) : Nat :=
  c.upcalls.countP fun call => call.1 = p && call.2.closes

inductive Phase (c : Connections) (p : ProtocolId) : Prop
  | fresh (hups : c.ups p = 0) (hdowns : c.downs p = 0)
      (havailable : (c.protocol p).type ≠ .LISTENER → (c.protocol p).available = false)
  | up (hups : 0 < c.ups p) (hdowns : c.downs p = 0) (htype : (c.protocol p).type ≠ .LISTENER)
      (havailable : (c.protocol p).available = true) (hknown : c.Known p)
  | down (hups : 0 < c.ups p) (hdowns : c.downs p = 1) (htype : (c.protocol p).type ≠ .LISTENER)
      (hkey : (c.protocol p).key ≠ 0) (hgone : ¬c.Known p)

theorem Phase.congr {c' : Connections} (h : c.Phase p) (hups : c'.ups p = c.ups p)
    (hdowns : c'.downs p = c.downs p) (hprotocol : c'.protocol p = c.protocol p)
    (hknown : c'.Known p ↔ c.Known p) : c'.Phase p := by
  cases h with
  | fresh hups' hdowns' havailable =>
    exact .fresh (hups.trans hups') (hdowns.trans hdowns') (by rwa [hprotocol])
  | up hups' hdowns' htype havailable hk =>
    exact .up (by rwa [hups]) (hdowns.trans hdowns') (by rwa [hprotocol]) (by rwa [hprotocol])
      (hknown.mpr hk)
  | down hups' hdowns' htype hkey hgone =>
    exact .down (by rwa [hups]) (hdowns.trans hdowns') (by rwa [hprotocol]) (by rwa [hprotocol])
      (hknown.not.mpr hgone)

/-- A notification is one of those that are posted to its protocol, or tells that it was accepted
while nobody knows it yet. -/
def Apt (c : Connections) (n : IONotify) : Prop :=
  n.type.about = some (c.protocol n.protocol).type ∨
    n.type = .PacketAccept ∧ (c.protocol n.protocol).type = .SESSION ∧ c.ups n.protocol = 0 ∧
      ¬c.Known n.protocol

structure Inv (c : Connections) : Prop where
  entry : ∀ uid p, c.protocols uid = some p → p ∈ c.outstanding ∧ (c.protocol p).key = uid
  owned : ∀ p ∈ c.outstanding, (c.protocol p).key ≠ 0
  unique : ∀ p ∈ c.outstanding, ∀ q ∈ c.outstanding,
    (c.protocol p).key = (c.protocol q).key → p = q
  blank : ∀ p, (c.protocol p).key = 0 → c.protocol p = {}
  made : ∀ p, (c.protocol p).key ≠ 0 → p < c.created
  notice : ∀ n ∈ c.notices, n.protocol ∈ c.outstanding ∧ n.uid = (c.protocol n.protocol).key ∧
    c.Apt n
  once : ((c.notices.filter fun n => n.type = .PacketAccept).map (·.protocol)).Nodup
  told : ∀ call ∈ c.upcalls, (c.protocol call.1).key ≠ 0 ∧
    call.2.about = ((c.protocol call.1).type, (c.protocol call.1).key)
  phase : ∀ p, c.Phase p

theorem touch_ups_self :
    (c.touch p available entry calls).ups p = c.ups p + calls.countP Upcall.opens := by
  simp [ups, touch, List.countP_map, Function.comp_def]

theorem touch_downs_self :
    (c.touch p available entry calls).downs p = c.downs p + calls.countP Upcall.closes := by
  simp [downs, touch, List.countP_map, Function.comp_def]

theorem touch_ups_ne (hne : q ≠ p) : (c.touch p available entry calls).ups q = c.ups q := by
  simp [ups, touch, List.countP_map, Function.comp_def, hne.symm]

theorem touch_downs_ne (hne : q ≠ p) : (c.touch p available entry calls).downs q = c.downs q := by
  simp [downs, touch, List.countP_map, Function.comp_def, hne.symm]

theorem Inv.sound (h : c.Inv) : c.Sound where
  entry := h.entry
  owned := h.owned
  unique := h.unique
  blank := h.blank
  made := h.made
  notice n hn := by
    obtain ⟨hheld, huid, hapt⟩ := h.notice n hn
    refine ⟨hheld, huid, ?_⟩
    rcases hapt with habout | ⟨haccept, htype, -⟩
    · exact .inl habout
    · exact .inr ⟨haccept, htype⟩
  waiting n hn haccept := by
    rcases (h.notice n hn).2.2 with habout | ⟨-, -, -, hunknown⟩
    · simp [haccept, EPacketType.about] at habout
    · exact hunknown
  once := h.once

theorem Inv.accept_ups (h : c.Inv) (hn : n ∈ c.notices) (haccept : n.type = .PacketAccept) :
    c.ups n.protocol = 0 := by
  rcases (h.notice n hn).2.2 with habout | ⟨-, -, hups, -⟩
  · simp [haccept, EPacketType.about] at habout
  · exact hups

/-- Besides a sound table, the invariant says what users were told. -/
theorem Sound.inv (h : c.Sound)
    (hups : ∀ n ∈ c.notices, n.type = .PacketAccept → c.ups n.protocol = 0)
    (htold : ∀ call ∈ c.upcalls, (c.protocol call.1).key ≠ 0 ∧
      call.2.about = ((c.protocol call.1).type, (c.protocol call.1).key))
    (hphase : ∀ p, c.Phase p) : c.Inv where
  entry := h.entry
  owned := h.owned
  unique := h.unique
  blank := h.blank
  made := h.made
  notice n hn := by
    obtain ⟨hheld, huid, hfits⟩ := h.notice n hn
    refine ⟨hheld, huid, ?_⟩
    rcases hfits with habout | ⟨haccept, htype⟩
    · exact .inl habout
    · exact .inr ⟨haccept, htype, hups n hn haccept, h.waiting n hn haccept⟩
  once := h.once
  told := htold
  phase := hphase

theorem Inv.touch (h : c.Inv) (hp : p ∈ c.outstanding) (hentry : entry = none ∨ entry = some p)
    (hnone : ∀ n ∈ c.notices, n.type = .PacketAccept → n.protocol ≠ p)
    (hcalls : ∀ call ∈ calls, call.about = ((c.protocol p).type, (c.protocol p).key))
    (hphase : (c.touch p available entry calls).Phase p) :
    (c.touch p available entry calls).Inv := by
  apply (h.sound.touch hp hentry fun _ => hnone).inv
  · intro n hn haccept
    rw [touch_ups_ne (hnone n hn haccept)]
    exact h.accept_ups hn haccept
  · intro call hcall
    rw [touch_key, touch_type]
    rcases List.mem_append.mp hcall with hcall | hcall
    · exact h.told call hcall
    · obtain ⟨call, hmem, rfl⟩ := List.mem_map.mp hcall
      exact ⟨h.owned p hp, hcalls call hmem⟩
  · intro q
    by_cases hq : q = p
    · rw [hq]
      exact hphase
    · exact (h.phase q).congr (touch_ups_ne hq) (touch_downs_ne hq) (touch_protocol_ne hq)
        (h.sound.touch_known_ne hp hentry hq)

/-- The invariant holds after a step from `c` to `c'`, no call is undone, and a protocol with a key
keeps it. -/
structure Leads (c c' : Connections) : Prop where
  inv : c'.Inv
  upcalls : c.upcalls <+: c'.upcalls
  keys : ∀ p, (c.protocol p).key ≠ 0 →
    (c'.protocol p).key = (c.protocol p).key ∧ (c'.protocol p).type = (c.protocol p).type

theorem Inv.refl (h : c.Inv) : c.Leads c := ⟨h, List.prefix_rfl, fun _ _ => ⟨rfl, rfl⟩⟩

theorem Leads.trans {c₁ c₂ c₃ : Connections} (h : c₁.Leads c₂) (h' : c₂.Leads c₃) :
    c₁.Leads c₃ where
  inv := h'.inv
  upcalls := h.upcalls.trans h'.upcalls
  keys p hp := by
    obtain ⟨hkey, htype⟩ := h.keys p hp
    obtain ⟨hkey', htype'⟩ := h'.keys p (by rwa [hkey])
    exact ⟨hkey'.trans hkey, htype'.trans htype⟩

theorem Leads.ups_le {c c' : Connections} (h : c.Leads c') (p : ProtocolId) : c.ups p ≤ c'.ups p :=
  h.upcalls.sublist.countP_le

theorem Leads.downs_le {c c' : Connections} (h : c.Leads c') (p : ProtocolId) :
    c.downs p ≤ c'.downs p :=
  h.upcalls.sublist.countP_le

theorem Inv.leads_touch (h : c.Inv) (hp : p ∈ c.outstanding)
    (hentry : entry = none ∨ entry = some p)
    (hnone : ∀ n ∈ c.notices, n.type = .PacketAccept → n.protocol ≠ p)
    (hcalls : ∀ call ∈ calls, call.about = ((c.protocol p).type, (c.protocol p).key))
    (hphase : (c.touch p available entry calls).Phase p) :
    c.Leads (c.touch p available entry calls) :=
  ⟨h.touch hp hentry hnone hcalls hphase, List.prefix_append .., fun _ _ => ⟨touch_key, touch_type⟩⟩

/-! ### What a step does to a protocol -/

/-- Nothing is told of a protocol that is fresh and stays so. -/
theorem Phase.fresh_touch (hp : c.Phase p) (hups : c.ups p = 0)
    (hopens : calls.countP Upcall.opens = 0) (hcloses : calls.countP Upcall.closes = 0)
    (havailable : (c.protocol p).type ≠ .LISTENER → available = false) :
    (c.touch p available entry calls).Phase p := by
  have hdowns : c.downs p = 0 := by
    cases hp with
    | fresh _ hdowns _ => exact hdowns
    | up h => omega
    | down h => omega
  refine .fresh ?_ ?_ ?_
  · rw [touch_ups_self, hups, hopens]
  · rw [touch_downs_self, hdowns, hcloses]
  · rwa [touch_type, touch_available]

/-- A connection that is there, or that users are told is there now, stays there while nothing tells
them otherwise. -/
theorem Phase.up_touch (htype : (c.protocol p).type ≠ .LISTENER)
    (hdowns : c.downs p = 0) (hopens : 0 < c.ups p + calls.countP Upcall.opens)
    (hcloses : calls.countP Upcall.closes = 0) :
    (c.touch p true (some p) calls).Phase p := by
  refine .up ?_ ?_ ?_ touch_available ?_
  · rwa [touch_ups_self]
  · rw [touch_downs_self, hdowns, hcloses]
  · rwa [touch_type]
  · unfold Known
    rw [touch_key]
    exact Function.update_self ..

/-- A connection that is there goes when users are told so once. -/
theorem Phase.down_touch (h : c.Inv) (hp : c.Phase p) (havail : (c.protocol p).available = true)
    (htype : (c.protocol p).type ≠ .LISTENER) (hknown : c.Known p)
    (hopens : calls.countP Upcall.opens = 0) (hcloses : calls.countP Upcall.closes = 1) :
    (c.touch p available none calls).Phase p := by
  cases hp with
  | fresh _ _ havailable => simp [havailable htype] at havail
  | down _ _ _ _ hgone => exact absurd hknown hgone
  | up hups hdowns _ _ _ =>
    refine .down ?_ ?_ ?_ ?_ ?_
    · rw [touch_ups_self, hopens]
      exact hups
    · rw [touch_downs_self, hdowns, hcloses]
    · rwa [touch_type]
    · rw [touch_key]
      exact h.owned p (h.entry _ p hknown).1
    · unfold Known
      rw [touch_key]
      simp [touch]

/-! ### What the invariant says of a protocol -/

theorem Inv.ups_listener (h : c.Inv) (htype : (c.protocol p).type = .LISTENER) : c.ups p = 0 := by
  cases h.phase p with
  | fresh hups _ _ => exact hups
  | up _ _ hne _ _ => exact absurd htype hne
  | down _ _ hne _ _ => exact absurd htype hne

/-- A notification that was just taken out of the queue. -/
structure Taken (c : Connections) (n : IONotify) : Prop where
  inv : c.Inv
  held : n.protocol ∈ c.outstanding
  uid : n.uid = (c.protocol n.protocol).key
  apt : c.Apt n
  only : n.type = .PacketAccept →
    ∀ n' ∈ c.notices, n'.type = .PacketAccept → n'.protocol ≠ n.protocol

theorem Inv.taken {rest : List IONotify} (h : c.Inv) (hnotices : c.notices = n :: rest) :
    { c with notices := rest }.Taken n := by
  have hpopped := h.sound.popped hnotices
  obtain ⟨hheld, huid, hapt⟩ := h.notice n (by simp [hnotices])
  refine ⟨hpopped.sound.inv ?_ h.told ?_, hheld, huid, hapt, hpopped.only⟩
  · intro n' hn' haccept
    exact h.accept_ups (by simp [hnotices, show n' ∈ rest from hn']) haccept
  · intro p
    exact (h.phase p).congr rfl rfl rfl Iff.rfl

/-! ### New protocols and notifications -/

theorem Inv.create (h : c.Inv) : c.Leads { c with created := c.created + 1 } := by
  refine ⟨{ h with made := ?_, notice := h.notice, phase := ?_ }, List.prefix_rfl, fun _ _ => ⟨rfl, rfl⟩⟩
  · intro p hp
    exact Nat.lt_succ_of_lt (h.made p hp)
  · intro p
    exact (h.phase p).congr rfl rfl rfl Iff.rfl

theorem Inv.fresh (h : c.Inv) (hkey : (c.protocol p).key = 0) : c.ups p = 0 ∧ c.downs p = 0 := by
  cases h.phase p with
  | fresh hups hdowns _ => exact ⟨hups, hdowns⟩
  | up _ _ _ _ hknown => exact absurd hkey (h.owned p (h.sound.held hknown))
  | down _ _ _ hne _ => exact absurd hkey hne

theorem Inv.own_inv (h : c.Inv) (hblank : (c.protocol p).key = 0) (hmade : p < c.created)
    (hkey : key ≠ 0) (hfree : ∀ q ∈ c.outstanding, (c.protocol q).key ≠ key)
    (type : EIOOBJECT_TYPE) : (c.own p type key).Inv := by
  apply (h.sound.own hblank hmade hkey hfree type).inv
  · intro n hn haccept
    exact h.accept_ups hn haccept
  · intro call hcall
    obtain ⟨hkeyed, habout⟩ := h.told call hcall
    have hcall : call.1 ≠ p := fun heq => hkeyed (heq ▸ hblank)
    rw [own_ne hcall]
    exact ⟨hkeyed, habout⟩
  · intro q
    by_cases heq : q = p
    · subst heq
      obtain ⟨hups, hdowns⟩ := h.fresh hblank
      exact .fresh hups hdowns fun _ => by rw [own_self]
    · exact (h.phase q).congr rfl rfl (own_ne heq) (own_known_ne heq)

theorem Inv.own (h : c.Inv) (hblank : (c.protocol p).key = 0) (hmade : p < c.created)
    (hkey : key ≠ 0) (hfree : ∀ q ∈ c.outstanding, (c.protocol q).key ≠ key)
    (type : EIOOBJECT_TYPE) : c.Leads (c.own p type key) := by
  refine ⟨h.own_inv hblank hmade hkey hfree type, List.prefix_rfl, ?_⟩
  intro q hq
  have hne : q ≠ p := by
    rintro rfl
    exact hq hblank
  rw [own_ne hne]
  exact ⟨rfl, rfl⟩

/-- The table, the notifications or the owners of protocols change, and users are told nothing. -/
theorem Inv.quiet {notices : List IONotify} {outstanding : List ProtocolId} (h : c.Inv)
    (hsound : { c with notices, outstanding }.Sound)
    (hups : ∀ n ∈ notices, n.type = .PacketAccept → c.ups n.protocol = 0) :
    c.Leads { c with notices, outstanding } := by
  refine ⟨hsound.inv hups h.told ?_, List.prefix_rfl, fun _ _ => ⟨rfl, rfl⟩⟩
  intro p
  exact (h.phase p).congr rfl rfl rfl Iff.rfl

/-! ### What a step does to users -/

/-- A connector is told whether it is connected, or told so again. -/
theorem Phase.connected_touch (hp : c.Phase p) {success : Bool} (hknown : c.Known p)
    (htype : (c.protocol p).type = .CONNECTOR) :
    (c.touch p (success || (c.protocol p).available) (some p)
      [.onConnect (c.protocol p).key success]).Phase p := by
  have hne : (c.protocol p).type ≠ .LISTENER := by simp [htype]
  cases hp with
  | fresh hups hdowns havailable =>
    cases success with
    | true => exact Phase.up_touch hne hdowns (by simp [Upcall.opens]) rfl
    | false =>
      exact Phase.fresh_touch (.fresh hups hdowns havailable) hups rfl rfl havailable
  | up hups hdowns _ havailable _ =>
    rw [havailable, Bool.or_true]
    exact Phase.up_touch hne hdowns (by omega) rfl
  | down _ _ _ _ hgone => exact absurd hknown hgone

/-- A `PacketClose` of a protocol that is available finds it in the table. -/
def ClosesKnown (c : Connections) (n : IONotify) : Prop :=
  n.type = .PacketClose → (c.protocol n.protocol).available = true → c.Known n.protocol

theorem Handled.leads (h : c.Taken n) (hcond : c.ClosesKnown n) {c' : Connections}
    (hpopped : c.Popped n) (hhandled : Handled c n c') : c.Leads c' := by
  have hphase := h.inv.phase n.protocol
  cases hhandled with
  | ignored => exact h.inv.refl
  | listened htype hknown =>
    have hlistener := hpopped.type (show n.type.about = some .LISTENER by rw [htype]; rfl)
    apply h.inv.leads_touch h.held (.inr rfl) (h.inv.sound.no_accept (.inl hknown))
    · simpa [Upcall.about, hlistener] using h.uid
    · exact hphase.fresh_touch (h.inv.ups_listener hlistener) rfl rfl fun hne => absurd hlistener hne
  | unlistened htype hknown =>
    have hlistener := hpopped.type (show n.type.about = some .LISTENER by rw [htype]; rfl)
    apply h.inv.leads_touch h.held (.inl rfl) (h.inv.sound.no_accept (.inl hknown))
    · simpa [Upcall.about, hlistener] using h.uid
    · exact hphase.fresh_touch (h.inv.ups_listener hlistener) rfl rfl fun _ => rfl
  | accepted htype hgone =>
    have hsession := hpopped.session htype
    rcases h.apt with habout | ⟨-, -, hups, -⟩
    · simp [htype, EPacketType.about] at habout
    have hdowns : c.downs n.protocol = 0 := by
      cases hphase with
      | fresh _ hdowns _ => exact hdowns
      | up hpos => omega
      | down hpos => omega
    apply h.inv.leads_touch h.held (.inr rfl) (h.only htype)
    · simp [Upcall.about, hsession]
    · exact Phase.up_touch (by simp [hsession]) hdowns (by simp [Upcall.opens]) rfl
  | closed htype havail =>
    have hsession := hpopped.type (show n.type.about = some .SESSION by rw [htype]; rfl)
    have hknown := hcond htype havail
    apply h.inv.leads_touch h.held (.inl rfl) (h.inv.sound.no_accept (.inl hknown))
    · simp [Upcall.about, hsession]
    · exact hphase.down_touch h.inv havail (by simp [hsession]) hknown rfl rfl
  | connected htype hknown =>
    have hconnector := hpopped.type (show n.type.about = some .CONNECTOR by rw [htype]; rfl)
    apply h.inv.leads_touch h.held (.inr rfl) (h.inv.sound.no_accept (.inl hknown))
    · simp [Upcall.about, hconnector]
    · exact hphase.connected_touch hknown hconnector
  | disconnected htype hknown havail =>
    have hconnector := hpopped.type (show n.type.about = some .CONNECTOR by rw [htype]; rfl)
    apply h.inv.leads_touch h.held (.inl rfl) (h.inv.sound.no_accept (.inl hknown))
    · simp [Upcall.about, hconnector]
    · exact hphase.down_touch h.inv havail (by simp [hconnector]) hknown rfl rfl

theorem Closing.leads (h : c.Inv) (hknown : c.Known p) (hcalls : Closing (c.protocol p) calls) :
    c.Leads (c.touch p (c.protocol p).available none calls) := by
  have hphase := h.phase p
  have hheld := h.sound.held hknown
  apply h.leads_touch hheld (.inl rfl) (h.sound.no_accept (.inl hknown))
  · intro call hcall
    cases hcalls with
    | quiet => cases hcall
    | listener _ htype | session _ htype | connector _ htype =>
      obtain rfl := List.mem_singleton.mp hcall
      rw [htype]
      rfl
  · cases hcalls with
    | quiet havail =>
      rw [havail]
      cases hphase with
      | fresh hups _ _ => exact (h.phase p).fresh_touch hups rfl rfl fun _ => rfl
      | up _ _ _ htrue _ => exact absurd (htrue.symm.trans havail) (by decide)
      | down _ _ _ _ hgone => exact absurd hknown hgone
    | listener _ htype =>
      exact hphase.fresh_touch (h.ups_listener htype) rfl rfl fun hne => absurd htype hne
    | session havail htype => exact hphase.down_touch h havail (by simp [htype]) hknown rfl rfl
    | connector havail htype => exact hphase.down_touch h havail (by simp [htype]) hknown rfl rfl

theorem Change.leads (h : c.Inv) {taken : Option IONotify} {c' : Connections}
    (hchange : Change c taken c') (hcond : ∀ n, taken = some n → c.ClosesKnown n) : c.Leads c' := by
  cases hchange with
  | same => exact h.refl
  | create => exact h.create
  | @opened p type key hblank hmade hkey hfree htype =>
    have hown := h.own hblank hmade hkey hfree type
    obtain ⟨hups, -⟩ := h.fresh hblank
    refine hown.trans (hown.inv.leads_touch List.mem_cons_self (.inr rfl) ?_ (by simp) ?_)
    · rintro n hn - rfl
      exact h.owned _ (h.notice n hn).1 hblank
    · exact (hown.inv.phase p).fresh_touch hups rfl rfl fun _ => rfl
  | @made key _ hkey hfree =>
    have hblank : (c.protocol c.created).key = 0 :=
      by_contra fun hne => absurd (h.made _ hne) (Nat.lt_irrefl _)
    have hcreate : c.Leads { c with created := c.created + 1 } := h.create
    have hown := hcreate.inv.own hblank (Nat.lt_succ_self _) hkey hfree .SESSION
    refine (hcreate.trans hown).trans (hown.inv.quiet ((Change.made hkey hfree).sound h.sound) ?_)
    intro n hn haccept
    rcases List.mem_append.mp hn with hn | hn
    · exact h.accept_ups hn haccept
    · obtain rfl := List.mem_singleton.mp hn
      exact (h.fresh hblank).1
  | @posted n hheld huid habout =>
    refine h.quiet ((Change.posted hheld huid habout).sound h.sound) fun n' hn' haccept => ?_
    rcases List.mem_append.mp hn' with hn' | hn'
    · exact h.accept_ups hn' haccept
    · obtain rfl := List.mem_singleton.mp hn'
      simp [haccept, EPacketType.about] at habout
  | recycled htable hnotices =>
    exact h.quiet ((Change.recycled htable hnotices).sound h.sound) fun _ => h.accept_ups
  | closed hknown hcalls => exact hcalls.leads h hknown
  | @handled n rest _ hnotices hhandled =>
    have htaken := h.taken hnotices
    have hpop : c.Leads { c with notices := rest } :=
      ⟨htaken.inv, List.prefix_rfl, fun _ _ => ⟨rfl, rfl⟩⟩
    exact hpop.trans (hhandled.leads htaken (hcond n rfl) (h.sound.popped hnotices))

end Connections

namespace IOEngine

open Connections

variable {L μ : Type} {σ τ : IOEngine L μ} {p : ProtocolId} {uid key : UInt32} {n : IONotify}

/-! ### Steps and runs -/

/-- A `PacketClose` of a protocol that is available finds the protocol in the table. -/
def CloseKnown (σ : IOEngine L μ) : Action μ → Prop
  | .dispatch (.notify n) => n.type = .PacketClose → (σ.protocol n.protocol).available = true →
      σ.getProtocol (σ.protocol n.protocol).key = some n.protocol
  | .create | .listen _ _ _ | .connect _ _ _ | .close _ | .bindPacketHandler _ _ | .send _
  | .accept _ _ | .post _ | .dispatch (.msg _) | .timeout _ | .recycle _ => True

variable [IntrusiveNode L] {a : Action μ}

/-- Every step that the network and the owners of protocols may make, and that handles a
`PacketClose` only as the condition says, keeps the invariant. -/
theorem step_leads (h : σ.connections.Inv) (hstep : σ.Permitted a τ) (hcond : σ.CloseKnown a) :
    σ.connections.Leads τ.connections := by
  apply (step_change h.sound hstep).leads h
  intro n hn
  cases a with
  | dispatch packet =>
    cases packet with
    | notify n =>
      obtain rfl := Option.some.inj hn
      exact hcond
    | msg => cases hn
  | _ => cases hn

theorem connections_init : (init : IOEngine L μ).connections.Inv where
  entry uid p h := by cases h
  owned p h := by cases h
  unique p h := by cases h
  blank _ _ := rfl
  made p h := absurd rfl h
  notice n h := by cases h
  once := List.nodup_nil
  told call h := by cases h
  phase _ := .fresh rfl rfl fun _ => rfl

/-- A step of a run in which the condition holds. -/
def Orderly (σ : IOEngine L μ) (a : Action μ) (τ : IOEngine L μ) : Prop :=
  σ.Permitted a τ ∧ σ.CloseKnown a

theorem permitted_run {as : List (Action μ)} (run : Run Orderly σ as τ) : Run Permitted σ as τ :=
  run.mono fun _ _ _ hstep => hstep.1

theorem orderly_run {as : List (Action μ)} (h : σ.connections.Inv) (run : Run Orderly σ as τ) :
    σ.connections.Leads τ.connections :=
  run.invariant (fun τ => σ.connections.Leads τ.connections)
    (fun _ _ _ hleads hstep =>
      hleads.trans (step_leads hleads.inv hstep.1 hstep.2)) h.refl

/-- A step that ends a connection: its users close it, or the engine handles the notification that
it has gone. -/
def Ends (p : ProtocolId) (key : UInt32) : Action μ → Prop
  | .close uid => uid = key
  | .dispatch (.notify n) =>
    n.protocol = p ∧ (n.type = .PacketClose ∨ n.type = .PacketDisconnect)
  | .create | .listen _ _ _ | .connect _ _ _ | .bindPacketHandler _ _ | .send _ | .accept _ _
  | .post _ | .dispatch (.msg _) | .timeout _ | .recycle _ => False

omit [IntrusiveNode L] in
theorem downs_pos_of_upcall {call : Upcall} (hcall : (p, call) ∈ σ.upcalls)
    (hcloses : call.closes = true) : 0 < σ.connections.downs p :=
  List.countP_pos_iff.mpr ⟨_, hcall, by simp [hcloses]⟩

/-- Users of a connection that is there are told at its end that it has gone. -/
theorem ends_down (hup : σ.connections.Phase p) (hups : 0 < σ.connections.ups p)
    (hdowns : σ.connections.downs p = 0) (hends : Ends p (σ.protocol p).key a)
    (hexec : σ.exec a = .ok τ) : 0 < τ.connections.downs p := by
  obtain ⟨havail, htype, hknown⟩ : (σ.protocol p).available = true ∧
      (σ.protocol p).type ≠ .LISTENER ∧ σ.protocols (σ.protocol p).key = some p := by
    cases hup with
    | fresh hnone => omega
    | up _ _ htype havail hknown => exact ⟨havail, htype, hknown⟩
    | down _ hone => omega
  cases a with
  | close uid =>
    obtain rfl : uid = (σ.protocol p).key := hends
    simp only [exec, close, getProtocol, hknown, pushEvent, havail, Bool.not_true,
      Bool.false_eq_true, if_false] at hexec
    split at hexec
    · next hlistener => exact absurd hlistener htype
    · obtain rfl := Except.ok.inj hexec
      exact downs_pos_of_upcall (List.mem_append_right _ (List.mem_singleton.mpr rfl)) rfl
    · obtain rfl := Except.ok.inj hexec
      exact downs_pos_of_upcall (List.mem_append_right _ (List.mem_singleton.mpr rfl)) rfl
    · cases hexec
  | dispatch packet =>
    cases packet with
    | msg packet => cases hends
    | notify n =>
      obtain ⟨rfl, hclose | hdisconnect⟩ := hends
      · simp only [exec, dispatchIOPacket, hclose, onIOClose, havail, Bool.not_true,
          Bool.false_eq_true, if_false] at hexec
        obtain rfl := Except.ok.inj hexec
        exact downs_pos_of_upcall (List.mem_append_right _ (List.mem_singleton.mpr rfl)) rfl
      · simp only [exec, dispatchIOPacket, hdisconnect, onIODisconnect, hknown, havail,
          Bool.not_true, Bool.false_eq_true, if_false, reduceCtorEq] at hexec
        obtain rfl := Except.ok.inj hexec
        exact downs_pos_of_upcall (List.mem_append_right _ (List.mem_singleton.mpr rfl)) rfl
  | _ => cases hends

theorem ends_run {bs : List (Action μ)} (h : σ.connections.Inv) (hkey : (σ.protocol p).key ≠ 0)
    (hups : 0 < σ.connections.ups p) (run : Run Orderly σ bs τ)
    (hends : ∃ a ∈ bs, Ends p (σ.protocol p).key a) : 0 < τ.connections.downs p := by
  induction run with
  | nil =>
    obtain ⟨a, ha, -⟩ := hends
    cases ha
  | @snoc as σ₁ τ a hprev hlast ih =>
    have hleads := orderly_run h hprev
    have hmono := (step_leads hleads.inv hlast.1 hlast.2).downs_le p
    obtain ⟨b, hb, hends⟩ := hends
    rcases List.mem_append.mp hb with hb | hb
    · exact Nat.lt_of_lt_of_le (ih ⟨b, hb, hends⟩) hmono
    · obtain rfl := List.mem_singleton.mp hb
      by_cases hdowns : σ₁.connections.downs p = 0
      · refine ends_down (hleads.inv.phase p) (Nat.lt_of_lt_of_le hups (hleads.ups_le p)) hdowns
          ?_ hlast.1.1.2
        rw [show (σ₁.protocol p).key = _ from (hleads.keys p hkey).1]
        exact hends
      · exact Nat.lt_of_lt_of_le (Nat.pos_of_ne_zero hdowns) hmono

/-- The call that tells that the connection of `p` has gone. -/
def gone (σ : IOEngine L μ) (p : ProtocolId) : Upcall :=
  if (σ.protocol p).type = .SESSION then .onClose (σ.protocol p).key
  else .onDisconnect (σ.protocol p).key

omit [IntrusiveNode L] in
theorem count_gone (h : σ.connections.Inv) :
    σ.upcalls.count (p, σ.gone p) = σ.connections.downs p := by
  apply List.countP_congr
  intro call hcall
  obtain ⟨q, call⟩ := call
  have habout : call.about = ((σ.protocol q).type, (σ.protocol q).key) := (h.told _ hcall).2
  rw [beq_iff_eq, Bool.and_eq_true, decide_eq_true_eq, Prod.mk.injEq]
  apply and_congr_right
  intro hq
  subst hq
  constructor
  · rintro rfl
    unfold gone
    split <;> rfl
  · intro hcloses
    cases call with
    | onClose uid =>
      obtain ⟨htype, rfl⟩ := Prod.mk.inj habout
      exact (if_pos htype.symm).symm
    | onDisconnect uid =>
      obtain ⟨htype, rfl⟩ := Prod.mk.inj habout
      refine (if_neg ?_).symm
      rw [← htype]
      decide
    | _ => cases hcloses

/-- In a run in which the condition holds, users are told at most once that a connection has gone,
and exactly once as soon as they closed it or the engine handled the notification that it has. -/
theorem gone_once {as bs : List (Action μ)} {call : Upcall} (run : Run Orderly init as σ)
    (hcall : (p, call) ∈ σ.upcalls) (hopens : call.opens = true) (run' : Run Orderly σ bs τ) :
    τ.upcalls.count (p, σ.gone p) ≤ 1 ∧
      ((∃ a ∈ bs, Ends p (σ.protocol p).key a) → τ.upcalls.count (p, σ.gone p) = 1) := by
  have hinv := (orderly_run connections_init run).inv
  have hups : 0 < σ.connections.ups p := List.countP_pos_iff.mpr ⟨_, hcall, by simp [hopens]⟩
  obtain ⟨hkey, -⟩ := hinv.told _ hcall
  have hgone (τ : IOEngine L μ) (hleads : σ.connections.Leads τ.connections) :
      τ.upcalls.count (p, σ.gone p) = τ.connections.downs p := by
    obtain ⟨hsame, htype⟩ := hleads.keys p hkey
    have heq : τ.gone p = σ.gone p := by
      unfold gone
      rw [show (τ.protocol p).key = _ from hsame, show (τ.protocol p).type = _ from htype]
      rfl
    rw [← heq, count_gone hleads.inv]
  have hle (τ : IOEngine L μ) (hleads : σ.connections.Leads τ.connections) :
      τ.connections.downs p ≤ 1 := by
    cases hleads.inv.phase p with
    | fresh hnone => exact absurd (hleads.ups_le p) (by omega)
    | up _ hdowns => omega
    | down _ hdowns => omega
  have hleads := orderly_run hinv run'
  rw [hgone τ hleads]
  exact ⟨hle τ hleads, fun hends =>
    Nat.le_antisymm (hle τ hleads) (ends_run hinv hkey hups run' hends)⟩

/-! ### A session of a concrete run -/

/-- The engine after it has accepted a session, which is its protocol 1, with the key 2. -/
def accepted : IOEngine (List HandlerId) Unit :=
  let _ := IntrusiveNode.list
  let listening : Packet Unit := .notify ⟨.PacketListen, 1, 0, none, true⟩
  let accepting : Packet Unit := .notify ⟨.PacketAccept, 2, 1, some 0, true⟩
  [.create, .listen 80 0 1, .post listening, .dispatch listening, .accept 2 0,
    .dispatch accepting].foldl next init

theorem accepted_run : ∃ as, @Run _ _ (@Orderly _ _ .list) (@init _ _ .list) as accepted := by
  let _ := IntrusiveNode.list
  have h1 := Run.nil.snoc (show Orderly (init : IOEngine (List HandlerId) Unit) .create _ from
    ⟨⟨⟨by rintro _ ⟨⟩, rfl⟩, trivial⟩, trivial⟩)
  have h2 := h1.snoc (show Orderly _ (.listen 80 0 1) _ from
    ⟨⟨⟨by rintro _ ⟨⟩, rfl⟩, by decide, .inr (by decide)⟩, trivial⟩)
  have h3 := h2.snoc (show Orderly _ (.post (.notify ⟨.PacketListen, 1, 0, none, true⟩)) _ from
    ⟨⟨⟨by rintro _ ⟨⟩, rfl⟩, by decide, by decide, by decide⟩, trivial⟩)
  have h4 := h3.snoc (show Orderly _ (.dispatch (.notify ⟨.PacketListen, 1, 0, none, true⟩)) _ from
    ⟨⟨⟨by rintro _ ⟨⟩; rfl, rfl⟩, trivial⟩, by rintro ⟨⟩⟩)
  have h5 := h4.snoc (show Orderly _ (.accept 2 0) _ from
    ⟨⟨⟨by rintro _ ⟨⟩, rfl⟩, by decide, .inr (by decide)⟩, trivial⟩)
  have h6 := h5.snoc (show Orderly _ (.dispatch (.notify ⟨.PacketAccept, 2, 1, some 0, true⟩)) _
    from ⟨⟨⟨by rintro _ ⟨⟩; rfl, rfl⟩, trivial⟩, by rintro ⟨⟩⟩)
  exact ⟨_, h6⟩

/-- The network closes the session. -/
theorem gone_once_closed : ∃ (bs : List (Action Unit)) (τ : IOEngine (List HandlerId) Unit),
    @Run _ _ (@Orderly _ _ .list) accepted bs τ ∧ τ.upcalls.count (1, .onClose 2) = 1 := by
  let _ := IntrusiveNode.list
  obtain ⟨as, run⟩ := accepted_run
  have h1 := Run.nil.snoc (show Orderly accepted (.post (.notify ⟨.PacketClose, 2, 1, none, false⟩)) _
    from ⟨⟨⟨by rintro _ ⟨⟩, rfl⟩, by decide, by decide, by decide⟩, trivial⟩)
  have h2 := h1.snoc (show Orderly _ (.dispatch (.notify ⟨.PacketClose, 2, 1, none, false⟩)) _ from
    ⟨⟨⟨by rintro _ ⟨⟩; rfl, rfl⟩, trivial⟩, by rintro - -; decide⟩)
  have hopened : ((1, .onAccept 2 1) : ProtocolId × Upcall) ∈ accepted.upcalls := by decide
  have hone := (gone_once run hopened rfl h2).2
    ⟨_, List.mem_append_right _ (List.mem_singleton.mpr rfl), rfl, .inl rfl⟩
  exact ⟨_, _, h2, hone⟩

/-- A user closes the session, and then the network tells that it closed it too. -/
theorem gone_twice : ∃ (as bs : List (Action Unit)) (τ : IOEngine (List HandlerId) Unit),
    @Run _ _ (@Permitted _ _ .list) (@init _ _ .list) as accepted ∧
    (1, .onAccept 2 1) ∈ accepted.upcalls ∧ @Run _ _ (@Permitted _ _ .list) accepted bs τ ∧
    τ.upcalls.count (1, .onClose 2) = 2 := by
  let _ := IntrusiveNode.list
  obtain ⟨as, run⟩ := accepted_run
  have h1 := Run.nil.snoc (show Permitted accepted (.close 2) _ from
    ⟨⟨by rintro _ ⟨⟩, rfl⟩, trivial⟩)
  have h2 := h1.snoc (show Permitted _ (.post (.notify ⟨.PacketClose, 2, 1, none, false⟩)) _ from
    ⟨⟨by rintro _ ⟨⟩, rfl⟩, by decide, by decide, by decide⟩)
  have h3 := h2.snoc (show Permitted _ (.dispatch (.notify ⟨.PacketClose, 2, 1, none, false⟩)) _
    from ⟨⟨by rintro _ ⟨⟩; rfl, rfl⟩, trivial⟩)
  exact ⟨as, _, _, permitted_run run, by decide, h3, by decide⟩

end IOEngine

end ZlNet.Engine
