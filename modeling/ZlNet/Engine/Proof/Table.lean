import Mathlib.Data.List.Nodup
import ZlNet.Engine.Proof.Steps
import ZlNet.Lib.Outcome

/-! The table of protocols.  What a step of the engine can do to the table, the protocols and the
notifications of the message queue is said once, as a `Change`; it keeps the table sound in every
run, in whatever order connections are opened and closed. -/

namespace ZlNet.Engine

open Network

/-- What the engine keeps of its protocols, with the notifications of its message queue. -/
@[ext]
structure Connections where
  protocols : UInt32 → Option ProtocolId
  protocol : ProtocolId → Protocol
  created : Nat
  outstanding : List ProtocolId
  notices : List IONotify
  upcalls : List (ProtocolId × Upcall)

namespace Connections

variable {c c' : Connections} {p q : ProtocolId} {key : UInt32} {entry : Option ProtocolId}
  {available : Bool} {calls : List Upcall} {n : IONotify}

/-- Whether `p` is in the table. -/
def Known (c : Connections) (p : ProtocolId) : Prop := c.protocols (c.protocol p).key = some p

/-- A notification is one of those that are posted to its protocol, or tells that it was
accepted. -/
def Fits (c : Connections) (n : IONotify) : Prop :=
  n.type.about = some (c.protocol n.protocol).type ∨
    n.type = .PacketAccept ∧ (c.protocol n.protocol).type = .SESSION

/-- The table has protocols that own their keys, and no two own the same one.  A protocol that was
accepted is not in the table as long as the engine was not told of it. -/
structure Sound (c : Connections) : Prop where
  entry : ∀ uid p, c.protocols uid = some p → p ∈ c.outstanding ∧ (c.protocol p).key = uid
  owned : ∀ p ∈ c.outstanding, (c.protocol p).key ≠ 0
  unique : ∀ p ∈ c.outstanding, ∀ q ∈ c.outstanding,
    (c.protocol p).key = (c.protocol q).key → p = q
  blank : ∀ p, (c.protocol p).key = 0 → c.protocol p = {}
  made : ∀ p, (c.protocol p).key ≠ 0 → p < c.created
  notice : ∀ n ∈ c.notices, n.protocol ∈ c.outstanding ∧ n.uid = (c.protocol n.protocol).key ∧
    c.Fits n
  waiting : ∀ n ∈ c.notices, n.type = .PacketAccept → ¬c.Known n.protocol
  once : ((c.notices.filter fun n => n.type = .PacketAccept).map (·.protocol)).Nodup

/-- Sets whether `p` is available, and its entry in the table, and calls users about it. -/
def touch (c : Connections) (p : ProtocolId) (available : Bool) (entry : Option ProtocolId)
    (calls : List Upcall) : Connections :=
  { c with
    protocols := Function.update c.protocols (c.protocol p).key entry
    protocol := Function.update c.protocol p { c.protocol p with available }
    upcalls := c.upcalls ++ calls.map (p, ·) }

/-- The protocol gets a key. -/
def own (c : Connections) (p : ProtocolId) (type : EIOOBJECT_TYPE) (key : UInt32) : Connections :=
  { c with
    protocol := Function.update c.protocol p { type, key }
    outstanding := p :: c.outstanding }

theorem touch_protocol_ne (hne : q ≠ p) :
    (c.touch p available entry calls).protocol q = c.protocol q :=
  Function.update_of_ne hne ..

@[simp] theorem touch_key : ((c.touch p available entry calls).protocol q).key =
    (c.protocol q).key := by
  by_cases hq : q = p
  · simp [touch, hq]
  · rw [touch_protocol_ne hq]

@[simp] theorem touch_type : ((c.touch p available entry calls).protocol q).type =
    (c.protocol q).type := by
  by_cases hq : q = p
  · simp [touch, hq]
  · rw [touch_protocol_ne hq]

@[simp] theorem touch_available :
    ((c.touch p available entry calls).protocol p).available = available := by
  simp [touch]

theorem touch_gone : ¬(c.touch p available none calls).Known p := by
  rw [Known, touch_key]
  simp [touch]

theorem touch_known : (c.touch p available (some p) calls).Known p := by
  rw [Known, touch_key]
  exact Function.update_self ..

theorem own_self {type : EIOOBJECT_TYPE} : (c.own p type key).protocol p = { type, key } :=
  Function.update_self ..

theorem own_ne {type : EIOOBJECT_TYPE} (hne : q ≠ p) :
    (c.own p type key).protocol q = c.protocol q :=
  Function.update_of_ne hne ..

theorem own_known_ne {type : EIOOBJECT_TYPE} (hne : q ≠ p) :
    (c.own p type key).Known q ↔ c.Known q := by
  rw [Known, Known, own_ne hne]
  rfl

namespace Sound

theorem held (h : c.Sound) (hknown : c.Known p) : p ∈ c.outstanding :=
  (h.entry _ p hknown).1

/-- An entry under the key of a protocol is its own. -/
theorem known (h : c.Sound) (hp : p ∈ c.outstanding) (hq : c.protocols (c.protocol p).key = some q) :
    q = p := by
  obtain ⟨hheld, hkey⟩ := h.entry _ q hq
  exact h.unique q hheld p hp hkey

/-- What is found under the key of a protocol is the protocol, or nothing. -/
theorem none_of_not_known (h : c.Sound) (hp : p ∈ c.outstanding) (hgone : ¬c.Known p) :
    c.protocols (c.protocol p).key = none := by
  rw [Option.eq_none_iff_forall_ne_some]
  intro q hq
  obtain rfl := h.known hp hq
  exact hgone hq

theorem zero (h : c.Sound) : c.protocols 0 = none := by
  rw [Option.eq_none_iff_forall_ne_some]
  intro p hp
  obtain ⟨hheld, hkey⟩ := h.entry 0 p hp
  exact h.owned p hheld hkey

theorem free (h : c.Sound) (hfree : ∀ q ∈ c.outstanding, (c.protocol q).key ≠ key) :
    c.protocols key = none := by
  rw [Option.eq_none_iff_forall_ne_some]
  intro q hq
  obtain ⟨hheld, hkey⟩ := h.entry key q hq
  exact hfree q hheld hkey

/-- Whether another protocol is in the table does not change, even if it once had the same key. -/
theorem touch_known_ne (h : c.Sound) (hp : p ∈ c.outstanding)
    (hentry : entry = none ∨ entry = some p) (hne : q ≠ p) :
    (c.touch p available entry calls).Known q ↔ c.Known q := by
  unfold Known
  rw [touch_key]
  change Function.update c.protocols (c.protocol p).key entry (c.protocol q).key = some q ↔ _
  by_cases hkey : (c.protocol q).key = (c.protocol p).key
  · rw [hkey, Function.update_self]
    constructor
    · intro hq
      rcases hentry with hnone | hsome
      · simp [hnone] at hq
      · exact absurd (Option.some.inj (hsome.symm.trans hq)).symm hne
    · intro hq
      exact absurd (h.unique q (h.entry _ q hq).1 p hp hkey) hne
  · rw [Function.update_of_ne hkey]

theorem touch (h : c.Sound) (hp : p ∈ c.outstanding) (hentry : entry = none ∨ entry = some p)
    (hnone : entry = some p → ∀ n ∈ c.notices, n.type = .PacketAccept → n.protocol ≠ p) :
    (c.touch p available entry calls).Sound where
  entry uid q hq := by
    change Function.update c.protocols (c.protocol p).key entry uid = some q at hq
    rw [touch_key]
    by_cases huid : uid = (c.protocol p).key
    · subst huid
      rw [Function.update_self] at hq
      rcases hentry with hnone | hsome
      · simp [hnone] at hq
      · obtain rfl := Option.some.inj (hsome.symm.trans hq)
        exact ⟨hp, rfl⟩
    · rw [Function.update_of_ne huid] at hq
      exact h.entry uid q hq
  owned q hq := by
    rw [touch_key]
    exact h.owned q hq
  unique q hq q' hq' := by
    rw [touch_key, touch_key]
    exact h.unique q hq q' hq'
  blank q hq := by
    rw [touch_key] at hq
    have hne : q ≠ p := by
      rintro rfl
      exact h.owned q hp hq
    rw [touch_protocol_ne hne]
    exact h.blank q hq
  made q hq := by
    rw [touch_key] at hq
    exact h.made q hq
  notice n hn := by
    rw [touch_key, Fits, touch_type]
    exact h.notice n hn
  waiting n hn haccept := by
    by_cases heq : n.protocol = p
    · rcases hentry with rfl | hsome
      · rw [heq]
        exact touch_gone
      · exact absurd heq (hnone hsome n hn haccept)
    · rw [touch_known_ne h hp hentry heq]
      exact h.waiting n hn haccept
  once := h.once

theorem create (h : c.Sound) : { c with created := c.created + 1 }.Sound :=
  { h with made := fun p hp => Nat.lt_succ_of_lt (h.made p hp) }

theorem own (h : c.Sound) (hblank : (c.protocol p).key = 0) (hmade : p < c.created)
    (hkey : key ≠ 0) (hfree : ∀ q ∈ c.outstanding, (c.protocol q).key ≠ key)
    (type : EIOOBJECT_TYPE) : (c.own p type key).Sound := by
  have hne : ∀ q ∈ c.outstanding, q ≠ p := by
    rintro q hq rfl
    exact h.owned q hq hblank
  constructor
  case entry =>
    intro uid q hq
    obtain ⟨hheld, huid⟩ := h.entry uid q hq
    rw [own_ne (hne q hheld)]
    exact ⟨List.mem_cons_of_mem p hheld, huid⟩
  case owned =>
    intro q hq
    rcases List.mem_cons.mp hq with rfl | hq
    · rw [own_self]
      exact hkey
    · rw [own_ne (hne q hq)]
      exact h.owned q hq
  case unique =>
    intro q hq q' hq' heq
    rcases List.mem_cons.mp hq with rfl | hold
    · rcases List.mem_cons.mp hq' with rfl | hold'
      · rfl
      · rw [own_self, own_ne (hne q' hold')] at heq
        exact absurd heq.symm (hfree q' hold')
    · rcases List.mem_cons.mp hq' with rfl | hold'
      · rw [own_self, own_ne (hne q hold)] at heq
        exact absurd heq (hfree q hold)
      · rw [own_ne (hne q hold), own_ne (hne q' hold')] at heq
        exact h.unique q hold q' hold' heq
  case blank =>
    intro q hq
    by_cases heq : q = p
    · rw [heq, own_self] at hq
      exact absurd hq hkey
    · rw [own_ne heq] at hq ⊢
      exact h.blank q hq
  case made =>
    intro q hq
    by_cases heq : q = p
    · rw [heq]
      exact hmade
    · rw [own_ne heq] at hq
      exact h.made q hq
  case notice =>
    intro n hn
    obtain ⟨hheld, huid, hfits⟩ := h.notice n hn
    rw [Fits, own_ne (hne _ hheld)]
    exact ⟨List.mem_cons_of_mem p hheld, huid, hfits⟩
  case waiting =>
    intro n hn haccept
    rw [own_known_ne (hne _ (h.notice n hn).1)]
    exact h.waiting n hn haccept
  case once => exact h.once

theorem post (h : c.Sound) (hheld : n.protocol ∈ c.outstanding)
    (huid : n.uid = (c.protocol n.protocol).key) (hfits : c.Fits n)
    (haccept : n.type = .PacketAccept →
      ¬c.Known n.protocol ∧ ∀ n' ∈ c.notices, n'.protocol ≠ n.protocol) :
    { c with notices := c.notices ++ [n] }.Sound := by
  refine { h with notice := ?_, waiting := ?_, once := ?_ }
  · intro n' hn'
    rcases List.mem_append.mp hn' with hn' | hn'
    · exact h.notice n' hn'
    · obtain rfl := List.mem_singleton.mp hn'
      exact ⟨hheld, huid, hfits⟩
  · intro n' hn' haccept'
    rcases List.mem_append.mp hn' with hn' | hn'
    · exact h.waiting n' hn' haccept'
    · obtain rfl := List.mem_singleton.mp hn'
      exact (haccept haccept').1
  · by_cases htype : n.type = .PacketAccept
    · rw [List.filter_append, List.filter_singleton, List.map_append]
      simp only [htype, decide_true]
      refine List.nodup_append.mpr ⟨h.once, List.nodup_singleton _, ?_⟩
      intro p hp q hq
      obtain ⟨n', hn', rfl⟩ := List.mem_map.mp hp
      obtain rfl := List.mem_singleton.mp hq
      exact (haccept htype).2 n' (List.mem_filter.mp hn').1
    · rw [List.filter_append, List.filter_singleton]
      simpa [htype] using h.once

/-- Packets are taken out of the message queue. -/
theorem sublist {rest : List IONotify} (h : c.Sound) (hsub : rest.Sublist c.notices) :
    { c with notices := rest }.Sound :=
  { h with
    notice := fun n hn => h.notice n (hsub.subset hn)
    waiting := fun n hn => h.waiting n (hsub.subset hn)
    once := h.once.sublist ((hsub.filter _).map _) }

/-- The order of the message queue does not matter. -/
theorem perm {notices : List IONotify} (h : c.Sound) (hperm : c.notices.Perm notices) :
    { c with notices }.Sound :=
  { h with
    notice := fun n hn => h.notice n (hperm.mem_iff.mpr hn)
    waiting := fun n hn => h.waiting n (hperm.mem_iff.mpr hn)
    once := ((hperm.filter _).map _).nodup_iff.mp h.once }

theorem recycle (h : c.Sound) (htable : ∀ uid, c.protocols uid ≠ some p)
    (hnotices : ∀ n ∈ c.notices, n.protocol ≠ p) :
    { c with outstanding := c.outstanding.erase p }.Sound := by
  refine { h with entry := ?_, owned := ?_, unique := ?_, notice := ?_ }
  · intro uid q hq
    obtain ⟨hheld, huid⟩ := h.entry uid q hq
    have hne : q ≠ p := by
      rintro rfl
      exact htable uid hq
    exact ⟨(List.mem_erase_of_ne hne).mpr hheld, huid⟩
  · intro q hq
    exact h.owned q (List.mem_of_mem_erase hq)
  · intro q hq q' hq'
    exact h.unique q (List.mem_of_mem_erase hq) q' (List.mem_of_mem_erase hq')
  · intro n hn
    obtain ⟨hheld, huid, hfits⟩ := h.notice n hn
    exact ⟨(List.mem_erase_of_ne (hnotices n hn)).mpr hheld, huid, hfits⟩

end Sound

/-! ### What a step does -/

/-- What the engine does with a notification that it has just taken out of its queue. -/
inductive Handled (c : Connections) (n : IONotify) : Connections → Prop
  | ignored : Handled c n c
  | listened (htype : n.type = .PacketListen) (hknown : c.Known n.protocol) :
      Handled c n (c.touch n.protocol (n.success || (c.protocol n.protocol).available)
        (some n.protocol) [.onListen n.uid n.success])
  | unlistened (htype : n.type = .PacketUnlisten) (hknown : c.Known n.protocol) :
      Handled c n (c.touch n.protocol false none [.onListen n.uid n.success])
  | accepted {fromUid : UInt32} (htype : n.type = .PacketAccept) (hgone : ¬c.Known n.protocol) :
      Handled c n (c.touch n.protocol true (some n.protocol)
        [.onAccept (c.protocol n.protocol).key fromUid])
  | closed (htype : n.type = .PacketClose) (havail : (c.protocol n.protocol).available = true) :
      Handled c n (c.touch n.protocol false none [.onClose (c.protocol n.protocol).key])
  | connected (htype : n.type = .PacketConnect) (hknown : c.Known n.protocol) :
      Handled c n (c.touch n.protocol (n.success || (c.protocol n.protocol).available)
        (some n.protocol) [.onConnect (c.protocol n.protocol).key n.success])
  | disconnected (htype : n.type = .PacketDisconnect) (hknown : c.Known n.protocol)
      (havail : (c.protocol n.protocol).available = true) :
      Handled c n (c.touch n.protocol false none [.onDisconnect (c.protocol n.protocol).key])

/-- The calls of `close` for a protocol that is in the table. -/
inductive Closing (protocol : Protocol) : List Upcall → Prop
  | quiet (havail : protocol.available = false) : Closing protocol []
  | listener (havail : protocol.available = true) (htype : protocol.type = .LISTENER) :
      Closing protocol [.onUnlisten protocol.key]
  | session (havail : protocol.available = true) (htype : protocol.type = .SESSION) :
      Closing protocol [.onClose protocol.key]
  | connector (havail : protocol.available = true) (htype : protocol.type = .CONNECTOR) :
      Closing protocol [.onDisconnect protocol.key]

/-- What a step of the engine can do to its connections, and the notification that it handles. -/
inductive Change (c : Connections) : Option IONotify → Connections → Prop
  | same : Change c none c
  | create : Change c none { c with created := c.created + 1 }
  | opened {p : ProtocolId} {type : EIOOBJECT_TYPE} {key : UInt32}
      (hblank : (c.protocol p).key = 0) (hmade : p < c.created) (hkey : key ≠ 0)
      (hfree : ∀ q ∈ c.outstanding, (c.protocol q).key ≠ key)
      (htype : type = .LISTENER ∨ type = .CONNECTOR) :
      Change c none ((c.own p type key).touch p false (some p) [])
  | made {key : UInt32} {fromProtocol : ProtocolId} (hkey : key ≠ 0)
      (hfree : ∀ q ∈ c.outstanding, (c.protocol q).key ≠ key) :
      Change c none { { c with created := c.created + 1 }.own c.created .SESSION key with
        notices := c.notices ++ [⟨.PacketAccept, key, c.created, some fromProtocol, true⟩] }
  | posted {n : IONotify} (hheld : n.protocol ∈ c.outstanding)
      (huid : n.uid = (c.protocol n.protocol).key)
      (habout : n.type.about = some (c.protocol n.protocol).type) :
      Change c none { c with notices := c.notices ++ [n] }
  | recycled {p : ProtocolId} (htable : ∀ uid, c.protocols uid ≠ some p)
      (hnotices : ∀ n ∈ c.notices, n.protocol ≠ p) :
      Change c none { c with outstanding := c.outstanding.erase p }
  | closed {p : ProtocolId} {calls : List Upcall} (hknown : c.Known p)
      (hcalls : Closing (c.protocol p) calls) :
      Change c none (c.touch p (c.protocol p).available none calls)
  | handled {n : IONotify} {rest : List IONotify} {c' : Connections}
      (hnotices : c.notices = n :: rest) (h : Handled { c with notices := rest } n c') :
      Change c (some n) c'

/-- A protocol that is in the table, or is no session, does not wait for its `PacketAccept`. -/
theorem Sound.no_accept (h : c.Sound) (hp : c.Known p ∨ (c.protocol p).type ≠ .SESSION) :
    ∀ n ∈ c.notices, n.type = .PacketAccept → n.protocol ≠ p := by
  rintro n hn haccept rfl
  rcases hp with hknown | hne
  · exact h.waiting n hn haccept hknown
  · rcases (h.notice n hn).2.2 with habout | ⟨-, htype⟩
    · simp [haccept, EPacketType.about] at habout
    · exact hne htype

/-- A notification that was just taken out of the queue. -/
structure Popped (c : Connections) (n : IONotify) : Prop where
  sound : c.Sound
  held : n.protocol ∈ c.outstanding
  uid : n.uid = (c.protocol n.protocol).key
  fits : c.Fits n
  waiting : n.type = .PacketAccept → ¬c.Known n.protocol
  only : n.type = .PacketAccept →
    ∀ n' ∈ c.notices, n'.type = .PacketAccept → n'.protocol ≠ n.protocol

/-- A notification can be taken from any place in the queue. -/
theorem Sound.extract {rest : List IONotify} (h : c.Sound) (hperm : c.notices.Perm (n :: rest))
    (hsub : rest.Sublist c.notices) : { c with notices := rest }.Popped n := by
  have hn : n ∈ c.notices := hperm.mem_iff.mpr List.mem_cons_self
  obtain ⟨hheld, huid, hfits⟩ := h.notice n hn
  refine ⟨h.sublist hsub, hheld, huid, hfits, h.waiting n hn, ?_⟩
  intro haccept n' hn' haccept' heq
  have honce := ((hperm.filter _).map _).nodup_iff.mp h.once
  rw [List.filter_cons_of_pos (by simpa using haccept), List.map_cons, List.nodup_cons] at honce
  exact honce.1 (List.mem_map.mpr ⟨n', List.mem_filter.mpr ⟨hn', by simpa using haccept'⟩, heq⟩)

theorem Sound.popped {rest : List IONotify} (h : c.Sound) (hnotices : c.notices = n :: rest) :
    { c with notices := rest }.Popped n :=
  h.extract (.of_eq hnotices) (by simp [hnotices])

/-- What a notification is for that is no `PacketAccept`. -/
theorem Popped.type (h : c.Popped n) {type : EIOOBJECT_TYPE} (habout : n.type.about = some type) :
    (c.protocol n.protocol).type = type := by
  rcases h.fits with habout' | ⟨haccept, -⟩
  · exact Option.some.inj (habout'.symm.trans habout)
  · simp [haccept, EPacketType.about] at habout

theorem Popped.session (h : c.Popped n) (haccept : n.type = .PacketAccept) :
    (c.protocol n.protocol).type = .SESSION := by
  rcases h.fits with habout | ⟨-, htype⟩
  · simp [haccept, EPacketType.about] at habout
  · exact htype

/-- An entry under the key of the protocol of a notification is its own. -/
theorem Popped.known (h : c.Popped n) (hfound : c.protocols (c.protocol n.protocol).key ≠ none) :
    c.Known n.protocol := by
  obtain ⟨q, hq⟩ := Option.ne_none_iff_exists'.mp hfound
  obtain rfl := h.sound.known h.held hq
  exact hq

theorem Handled.sound (h : c.Popped n) (hhandled : Handled c n c') : c'.Sound := by
  cases hhandled with
  | ignored => exact h.sound
  | listened _ hknown => exact h.sound.touch h.held (.inr rfl) fun _ => h.sound.no_accept (.inl hknown)
  | unlistened => exact h.sound.touch h.held (.inl rfl) nofun
  | accepted haccept => exact h.sound.touch h.held (.inr rfl) fun _ => h.only haccept
  | closed => exact h.sound.touch h.held (.inl rfl) nofun
  | connected _ hknown =>
    exact h.sound.touch h.held (.inr rfl) fun _ => h.sound.no_accept (.inl hknown)
  | disconnected => exact h.sound.touch h.held (.inl rfl) nofun

theorem Change.sound {taken : Option IONotify} (h : c.Sound) (hchange : Change c taken c') :
    c'.Sound := by
  cases hchange with
  | same => exact h
  | create => exact h.create
  | @opened p type key hblank hmade hkey hfree htype =>
    have hown := h.own hblank hmade hkey hfree type
    refine hown.touch List.mem_cons_self (.inr rfl) fun _ => hown.no_accept (.inr ?_)
    rw [own_self]
    rcases htype with rfl | rfl
    · exact nofun
    · exact nofun
  | @made key _ hkey hfree =>
    have hblank : (c.protocol c.created).key = 0 :=
      by_contra fun hne => absurd (h.made _ hne) (Nat.lt_irrefl _)
    have hown := h.create.own hblank (Nat.lt_succ_self _) hkey hfree .SESSION
    refine hown.post List.mem_cons_self ?_ (.inr ⟨rfl, ?_⟩) fun _ => ⟨?_, ?_⟩
    · rw [own_self]
    · rw [own_self]
    · intro hknown
      rw [Known, own_self] at hknown
      exact absurd (h.made _ (h.owned _ (h.entry _ _ hknown).1)) (Nat.lt_irrefl _)
    · intro n hn heq
      exact h.owned _ (h.notice n hn).1 (heq ▸ hblank)
  | posted hheld huid habout =>
    apply h.post hheld huid (.inl habout)
    intro haccept
    simp [haccept, EPacketType.about] at habout
  | recycled htable hnotices => exact h.recycle htable hnotices
  | closed hknown => exact h.touch (h.held hknown) (.inl rfl) nofun
  | handled hnotices hhandled => exact hhandled.sound (h.popped hnotices)

/-- A protocol that has a key keeps it, and its type. -/
theorem Change.keys {taken : Option IONotify} (hchange : Change c taken c')
    (hkey : (c.protocol p).key ≠ 0) (hmade : p < c.created) :
    (c'.protocol p).key = (c.protocol p).key ∧ (c'.protocol p).type = (c.protocol p).type := by
  cases hchange with
  | same | create | posted | recycled => exact ⟨rfl, rfl⟩
  | @opened q type key hblank =>
    have hne : p ≠ q := by
      rintro rfl
      exact hkey hblank
    rw [touch_key, touch_type, own_ne hne]
    exact ⟨rfl, rfl⟩
  | made =>
    have hne : p ≠ c.created := Nat.ne_of_lt hmade
    exact ⟨congrArg Protocol.key (own_ne hne), congrArg Protocol.type (own_ne hne)⟩
  | closed => exact ⟨touch_key, touch_type⟩
  | handled _ h =>
    cases h with
    | ignored => exact ⟨rfl, rfl⟩
    | _ => exact ⟨touch_key, touch_type⟩

end Connections

namespace IOEngine

open Connections Lib

variable {L μ : Type} {σ τ : IOEngine L μ} {p : ProtocolId} {uid key : UInt32} {n : IONotify}

def connections (σ : IOEngine L μ) : Connections where
  protocols := σ.protocols
  protocol := σ.protocol
  created := σ.created
  outstanding := σ.outstanding
  notices := σ.msgqueue.filterMap Packet.notice
  upcalls := σ.upcalls

theorem postPacket_connections (n : IONotify) : (σ.postPacket (.notify n)).connections =
    { σ.connections with notices := σ.connections.notices ++ [n] } :=
  Connections.ext rfl rfl rfl rfl List.filterMap_append rfl

theorem postMsg_connections (packet : IOPacket μ) :
    (σ.postPacket (.msg packet)).connections = σ.connections :=
  Connections.ext rfl rfl rfl rfl (List.filterMap_append.trans (List.append_nil _)) rfl

/-- A call about a protocol that is in the table, where nothing else changes. -/
theorem upcall_connections (hknown : σ.connections.Known p) (call : Upcall) :
    (σ.upcall p call).connections =
      σ.connections.touch p (σ.protocol p).available (some p) [call] := by
  refine Connections.ext ?_ ?_ rfl rfl rfl rfl
  · rw [touch, ← hknown]
    exact (Function.update_eq_self ..).symm
  · exact (Function.update_eq_self ..).symm

theorem setAvailable_connections (hknown : σ.connections.Known p) (call : Upcall) :
    ((σ.setAvailable p).upcall p call).connections =
      σ.connections.touch p true (some p) [call] := by
  refine Connections.ext ?_ rfl rfl rfl rfl rfl
  rw [touch, ← hknown]
  exact (Function.update_eq_self ..).symm

/-- `if (notify->isSuccess()) protocol->setAvailable()`, and a call. -/
theorem setIf_connections (hknown : σ.connections.Known p) (success : Bool) (call : Upcall) :
    ((if success then σ.setAvailable p else σ).upcall p call).connections =
      σ.connections.touch p (success || (σ.protocol p).available) (some p) [call] := by
  cases success with
  | true => exact setAvailable_connections hknown call
  | false => exact upcall_connections hknown call

/-! ### Notifications -/

/-- What the engine does with a notification, whatever function returns it. -/
def Handles (c : Connections) (n : IONotify) (x : Except Fault (IOEngine L μ)) : Prop :=
  Outcome (fun _ => True) (fun τ => Handled c n τ.connections) x

theorem onIOListen_handled (h : σ.connections.Popped n) (htype : n.type = .PacketListen) :
    Handled σ.connections n (σ.onIOListen n).connections := by
  simp only [onIOListen]
  split
  · exact .ignored
  next hfound =>
  have hknown : σ.connections.Known n.protocol := by
    rw [Known, ← h.uid]
    exact not_not.mp hfound
  rw [setIf_connections hknown]
  exact .listened htype hknown

theorem onIOUnListen_handled (h : σ.connections.Popped n) (htype : n.type = .PacketUnlisten) :
    Handled σ.connections n (σ.onIOUnListen n).connections := by
  simp only [onIOUnListen]
  split
  · exact .ignored
  next p hfound =>
  have hfound : σ.connections.protocols (σ.protocol n.protocol).key = some p := h.uid ▸ hfound
  obtain rfl := h.sound.known h.held hfound
  split
  · exact .ignored
  have hconn : (((σ.unsetAvailable n.protocol).upcall n.protocol
      (.onListen n.uid n.success)).removeProtocol n.uid).connections =
      σ.connections.touch n.protocol false none [.onListen n.uid n.success] := by
    refine Connections.ext ?_ rfl rfl rfl rfl rfl
    rw [h.uid]
    rfl
  rw [hconn]
  exact .unlistened htype hfound

theorem onIOAccept_handled (h : σ.connections.Popped n) (htype : n.type = .PacketAccept) :
    Handles σ.connections n (σ.onIOAccept n) := by
  have hgone := h.waiting htype
  have habsent : (σ.setAvailable n.protocol).protocols (σ.protocol n.protocol).key = none :=
    h.sound.none_of_not_known h.held hgone
  unfold onIOAccept
  split
  · trivial
  simp only [if_pos habsent]
  split
  · exact .ignored
  split
  · exact .ignored
  · exact Handled.accepted htype hgone

theorem onIOClose_handled (htype : n.type = .PacketClose) :
    Handled σ.connections n (σ.onIOClose n).connections := by
  simp only [onIOClose]
  split
  · exact .ignored
  next havail =>
  have havail : (σ.protocol n.protocol).available = true := by simpa using havail
  exact .closed htype havail

theorem onIOConnect_handled (h : σ.connections.Popped n) (htype : n.type = .PacketConnect) :
    Handled σ.connections n (σ.onIOConnect n).connections := by
  simp only [onIOConnect]
  split
  · exact .ignored
  next hfound =>
  have hknown : σ.connections.Known n.protocol := h.known hfound
  rw [setIf_connections hknown]
  exact .connected htype hknown

theorem onIODisconnect_handled (h : σ.connections.Popped n) (htype : n.type = .PacketDisconnect) :
    Handled σ.connections n (σ.onIODisconnect n).connections := by
  simp only [onIODisconnect]
  split
  · exact .ignored
  next hfound =>
  split
  · exact .ignored
  next havail =>
  have havail : (σ.protocol n.protocol).available = true := by simpa using havail
  exact .disconnected htype (h.known hfound) havail

/-- `close` does nothing, or takes a protocol out of the table. -/
theorem close_cases (h : σ.connections.Sound) (hclose : σ.close uid = .ok τ) :
    τ = σ ∨ ∃ p calls, σ.protocols uid = some p ∧ Closing (σ.protocol p) calls ∧
      τ.connections = σ.connections.touch p (σ.protocol p).available none calls := by
  simp only [close] at hclose
  split at hclose
  · exact .inl (Except.ok.inj hclose).symm
  next p hfound =>
  have huid : (σ.protocol p).key = uid := (h.entry uid p hfound).2
  subst huid
  have hconn {calls : List Upcall} (hcalls : Closing (σ.protocol p) calls)
      (hτ : τ.connections = { σ.connections with
        protocols := Function.update σ.protocols (σ.protocol p).key none
        upcalls := σ.upcalls ++ calls.map (p, ·) }) :
      τ = σ ∨ ∃ q calls, σ.protocols (σ.protocol p).key = some q ∧
        Closing (σ.protocol q) calls ∧
        τ.connections = σ.connections.touch q (σ.protocol q).available none calls := by
    refine .inr ⟨p, calls, hfound, hcalls, ?_⟩
    rw [hτ]
    exact Connections.ext rfl (Function.update_eq_self ..).symm rfl rfl rfl rfl
  split at hclose
  · next havail =>
    obtain rfl := Except.ok.inj hclose
    refine hconn (.quiet (by simpa [pushEvent] using havail)) ?_
    exact Connections.ext rfl rfl rfl rfl rfl (List.append_nil _).symm
  next havail =>
  have havail : (σ.protocol p).available = true := by simpa [pushEvent] using havail
  split at hclose
  · next htype =>
    obtain rfl := Except.ok.inj hclose
    exact hconn (.listener havail htype) rfl
  · next htype =>
    obtain rfl := Except.ok.inj hclose
    exact hconn (.session havail htype) rfl
  · next htype =>
    obtain rfl := Except.ok.inj hclose
    exact hconn (.connector havail htype) rfl
  · cases hclose

theorem close_change (h : σ.connections.Sound) (hclose : σ.close uid = .ok τ) :
    Change σ.connections none τ.connections := by
  rcases close_cases h hclose with rfl | ⟨p, calls, hfound, hcalls, hconn⟩
  · exact .same
  · have huid : (σ.protocol p).key = uid := (h.entry uid p hfound).2
    subst huid
    rw [hconn]
    exact .closed hfound hcalls

/-! ### New protocols -/

theorem create_connections (h : σ.connections.Sound) :
    σ.create.connections = { σ.connections with created := σ.created + 1 } := by
  have hblank : σ.protocol σ.created = {} := by
    refine h.blank _ (by_contra fun hkey => ?_)
    exact absurd (h.made _ hkey) (Nat.lt_irrefl _)
  refine Connections.ext rfl ?_ rfl rfl rfl rfl
  change Function.update σ.protocol σ.created {} = σ.protocol
  rw [← hblank]
  exact Function.update_eq_self ..

theorem create_change (h : σ.connections.Sound) : Change σ.connections none σ.create.connections := by
  rw [create_connections h]
  exact .create

theorem takeKey_connections (h : σ.connections.Sound) (hblank : (σ.protocol p).key = 0)
    (hfree : ∀ q ∈ σ.outstanding, (σ.protocol q).key ≠ key) (type : EIOOBJECT_TYPE)
    (event : Event μ) : (σ.takeKey p type key event).connections =
      (σ.connections.own p type key).touch p false (some p) [] := by
  have hdefault : σ.protocol p = {} := h.blank p hblank
  simp only [takeKey]
  split
  case isFalse hne => exact absurd (h.free hfree) hne
  refine Connections.ext ?_ ?_ rfl rfl rfl (List.append_nil _).symm
  · rw [touch, own_self]
    rfl
  · rw [touch, own_self, own, Function.update_idem]
    change Function.update σ.protocol p { σ.protocol p with type, key } = _
    rw [hdefault]
    rfl

/-- What `listen` and `connect` do with the key that the network gives. -/
theorem open_change (h : σ.connections.Sound) (hmade : p < σ.created) (hfree : σ.Free key)
    {type : EIOOBJECT_TYPE} (htype : type = .LISTENER ∨ type = .CONNECTOR) (event : Event μ) :
    Change σ.connections none (if (σ.protocol p).key ≠ 0 then σ else if key = 0 then σ
        else σ.takeKey p type key event).connections := by
  apply takeKey_guard (P := fun τ => Change σ.connections none τ.connections) .same
  intro hblank hkey
  have hfree := hfree.resolve_left hkey
  rw [takeKey_connections h hblank hfree]
  exact .opened hblank hmade hkey hfree htype

theorem accept_connections (key : UInt32) (fromProtocol : ProtocolId) :
    (σ.accept key fromProtocol).connections =
      { { σ.connections with created := σ.created + 1 }.own σ.created .SESSION key with
        notices := σ.connections.notices ++
          [⟨.PacketAccept, key, σ.created, some fromProtocol, true⟩] } :=
  Connections.ext rfl rfl rfl rfl List.filterMap_append rfl

/-! ### Steps and runs -/

variable [IntrusiveNode L] {a : Action μ}

theorem bindRequest_connections {h : HandlerId} {packet : IOPacket μ} {clock : Int} {id : UInt32}
    (hbind : σ.bindRequest h packet clock = .ok (id, τ)) : τ.connections = σ.connections := by
  obtain ⟨-, rfl⟩ := bindRequest_spec hbind
  rfl

theorem send_connections {r : Request μ} (hsend : σ.send r = .ok τ) :
    τ.connections = σ.connections := by
  cases send_cases hsend with
  | dropped => rfl
  | event => rfl
  | request _ _ hbind =>
    have hσ₁ := bindRequest_connections hbind
    exact hσ₁
  | failed _ _ _ hbind =>
    rw [← bindRequest_connections hbind]
    exact postMsg_connections _

theorem onIOPacket_connections {packet : IOPacket μ} (hpacket : σ.onIOPacket packet = .ok τ) :
    τ.connections = σ.connections := by
  cases onIOPacket_cases hpacket with
  | dropped => rfl
  | dispatched =>
    simp only [dispatchPacket]
    split <;> rfl
  | completed => rfl

theorem timeout_connections (now : Int) :
    ((σ.timeoutFront now).getD σ).connections = σ.connections := by
  cases htimeout : σ.timeoutFront now with
  | none => rfl
  | some τ =>
    obtain ⟨h, -, -, rfl⟩ := timeoutFront_cases htimeout
    rfl

theorem dispatchNotify_handled (h : σ.connections.Popped n) :
    Handles σ.connections n (σ.dispatchIOPacket (.notify n)) := by
  simp only [dispatchIOPacket]
  cases htype : n.type with
  | PacketListen => exact onIOListen_handled h htype
  | PacketUnlisten => exact onIOUnListen_handled h htype
  | PacketAccept => exact onIOAccept_handled h htype
  | PacketConnect => exact onIOConnect_handled h htype
  | PacketDisconnect => exact onIODisconnect_handled h htype
  | PacketClose => exact onIOClose_handled htype

theorem dispatch_change {packet : Packet μ} (h : σ.connections.Sound)
    (hhead : σ.msgqueue.head? = some packet)
    (hexec : { σ with msgqueue := σ.msgqueue.tail }.dispatchIOPacket packet = .ok τ) :
    Change σ.connections packet.notice τ.connections := by
  obtain ⟨rest, hqueue⟩ := List.head?_eq_some_iff.mp hhead
  rw [hqueue, List.tail_cons] at hexec
  let σ₁ : IOEngine L μ := { σ with msgqueue := rest }
  cases packet with
  | notify n =>
    have hnotices : σ.connections.notices = n :: rest.filterMap Packet.notice := by
      simp [connections, hqueue, Packet.notice]
    have hpopped : σ₁.connections.Popped n := h.popped hnotices
    have hhandled := dispatchNotify_handled hpopped
    rw [hexec] at hhandled
    exact .handled hnotices hhandled
  | msg packet =>
    have hpop : σ₁.connections = σ.connections := by
      refine Connections.ext rfl rfl rfl rfl ?_ rfl
      change rest.filterMap Packet.notice = σ.msgqueue.filterMap Packet.notice
      rw [hqueue]
      rfl
    rw [onIOPacket_connections (σ := σ₁) hexec, hpop]
    exact .same

/-- The notification that a step handles. -/
def handles : Action μ → Option IONotify
  | .dispatch packet => packet.notice
  | .create | .listen _ _ _ | .connect _ _ _ | .close _ | .bindPacketHandler _ _ | .send _
  | .accept _ _ | .post _ | .timeout _ | .recycle _ => none

/-- What a step of the engine does to its connections. -/
theorem step_change (h : σ.connections.Sound) (hstep : σ.Permitted a τ) :
    Change σ.connections (handles a) τ.connections := by
  obtain ⟨⟨hhead, hexec⟩, hcontract⟩ := hstep
  have same (heq : τ.connections = σ.connections) : Change σ.connections none τ.connections :=
    heq ▸ .same
  cases a with
  | create =>
    obtain rfl := Except.ok.inj hexec
    exact create_change h
  | listen port p key =>
    obtain rfl := Except.ok.inj hexec
    exact open_change h hcontract.1 hcontract.2 (.inl rfl) _
  | connect address p key =>
    obtain rfl := Except.ok.inj hexec
    exact open_change h hcontract.1 hcontract.2 (.inr rfl) _
  | close uid =>
    exact close_change h hexec
  | bindPacketHandler cmd handler =>
    obtain rfl := Except.ok.inj hexec
    apply same
    unfold bindPacketHandler
    split <;> rfl
  | send request => exact same (send_connections hexec)
  | accept key fromProtocol =>
    obtain rfl := Except.ok.inj hexec
    obtain ⟨hkey, hfree⟩ := hcontract
    rw [accept_connections]
    exact .made hkey (hfree.resolve_left hkey)
  | post packet =>
    obtain rfl := Except.ok.inj hexec
    cases packet with
    | notify n =>
      obtain ⟨hheld, huid, habout⟩ := hcontract
      rw [postPacket_connections]
      exact .posted hheld huid habout
    | msg packet => exact same (postMsg_connections packet)
  | dispatch packet => exact dispatch_change h (hhead packet rfl) hexec
  | timeout now =>
    obtain rfl := Except.ok.inj hexec
    exact same (timeout_connections now)
  | recycle p =>
    obtain rfl := Except.ok.inj hexec
    exact .recycled hcontract.1 fun n hn => (hcontract.2 n hn).1

theorem sound_init : (init : IOEngine L μ).connections.Sound where
  entry uid p h := by cases h
  owned p h := by cases h
  unique p h := by cases h
  blank _ _ := rfl
  made p h := absurd rfl h
  notice n h := by cases h
  waiting n h := by cases h
  once := List.nodup_nil

theorem sound_run {as : List (Action μ)} (run : Run Permitted init as σ) : σ.connections.Sound :=
  run.invariant (fun σ => σ.connections.Sound) (fun _ _ _ h hstep => (step_change h hstep).sound h)
    sound_init

end IOEngine

end ZlNet.Engine
