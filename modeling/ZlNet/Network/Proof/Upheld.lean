import ZlNet.Network.Proof.Heard

/-! What a protocol has heard tells what the network has for it.  One that has heard of a start and of no
stop has its listener or its connection in the table. -/

namespace ZlNet.Network

open Lib IOObject

/-- From this notice on the protocol has a listener or a connection. -/
def Notice.Starts : Notice → Prop
  | .onListen true | .onAccept _ | .onConnect true => True
  | .onListen false | .onUnlisten | .onClose | .onConnect false | .onDisConnect => False

/-- What the protocol had has gone. -/
def Notice.Stops : Notice → Prop
  | .onUnlisten | .onClose | .onDisConnect => True
  | .onListen _ | .onAccept _ | .onConnect _ => False

/-- The types of the protocols that hear of it. -/
def Notice.about : Notice → EIOOBJECT_TYPE
  | .onListen _ | .onUnlisten => .LISTENER
  | .onAccept _ | .onClose => .SESSION
  | .onConnect _ | .onDisConnect => .CONNECTOR

section

variable {type : EIOOBJECT_TYPE} {state : EConnectState} {n : Notice} {ms ns : List Notice}

/-- A notice of a pair, or of the head of one. -/
theorem mem_of_prefix_pair {a b : Notice} (h : ns <+: [a, b]) (hn : n ∈ ns) : n = a ∨ n = b := by
  have hmem := h.subset hn
  simpa using hmem

theorem Pattern.about (h : Pattern type ns) (hn : n ∈ ns) : n.about = type := by
  cases type with
  | WAKEUP =>
    obtain rfl : ns = [] := h
    cases hn
  | LISTENER =>
    rcases h with rfl | hpre
    · obtain rfl := List.mem_singleton.mp hn
      rfl
    · rcases mem_of_prefix_pair hpre hn with rfl | rfl
      · rfl
      · rfl
  | SESSION =>
    obtain ⟨fromProtocol, hpre⟩ := h
    rcases mem_of_prefix_pair hpre hn with rfl | rfl
    · rfl
    · rfl
  | CONNECTOR =>
    obtain ⟨failures, rest, rfl, hpre⟩ := h
    rcases List.mem_append.mp hn with hn | hn
    · obtain rfl := List.eq_of_mem_replicate hn
      rfl
    · rcases mem_of_prefix_pair hpre hn with rfl | rfl
      · rfl
      · rfl

/-- The second of a pair is the only one of its kind, and nothing follows it. -/
theorem stop_last_pair {a b : Notice} (h : ms ++ n :: ns <+: [a, b]) (ha : ¬a.Stops) :
    ∀ m ∈ ms, ¬m.Stops := by
  have hlen : (ms ++ n :: ns).length ≤ 2 := h.length_le
  cases ms with
  | nil => exact fun m hm => absurd hm List.not_mem_nil
  | cons m ms =>
    cases ms with
    | nil =>
      obtain rfl : m = a := (List.cons_prefix_cons.mp h).1
      intro m' hm'
      rwa [List.mem_singleton.mp hm']
    | cons m' ms =>
      simp only [List.cons_append, List.length_cons, List.length_append] at hlen
      omega

/-- Nothing is heard after a stop. -/
theorem Pattern.stop_last (h : Pattern type (ms ++ n :: ns)) : ∀ m ∈ ms, ¬m.Stops := by
  cases type with
  | WAKEUP => simp [Pattern] at h
  | LISTENER =>
    rcases h with hone | hpre
    · have hlen := congrArg List.length hone
      simp only [List.length_append, List.length_cons, List.length_nil] at hlen
      obtain rfl : ms = [] := List.eq_nil_of_length_eq_zero (by omega)
      exact fun m hm => absurd hm List.not_mem_nil
    · exact stop_last_pair hpre id
  | SESSION =>
    obtain ⟨fromProtocol, hpre⟩ := h
    exact stop_last_pair hpre id
  | CONNECTOR =>
    obtain ⟨failures, rest, heq, hpre⟩ := h
    intro m hm
    -- the failures come first, and none of them is a stop
    rcases List.append_eq_append_iff.mp heq with ⟨more, hfail, -⟩ | ⟨more, rfl, hrest⟩
    · have hm' : m ∈ List.replicate failures (Notice.onConnect false) :=
        hfail ▸ List.mem_append_left _ hm
      rw [List.eq_of_mem_replicate hm']
      exact id
    · rcases List.mem_append.mp hm with hm | hm
      · rw [List.eq_of_mem_replicate hm]
        exact id
      · rw [hrest] at hpre
        exact stop_last_pair hpre id m hm

/-- What has started and not stopped is there: the listener, or the connection, which is connected. -/
theorem Stage.upheld (h : Stage type state ns) (hstart : ∃ n ∈ ns, n.Starts)
    (hstop : ∀ n ∈ ns, ¬n.Stops) : type = .LISTENER ∨ state = .CONNECTED := by
  have hfailures {failures : Nat} (heq : ns = List.replicate failures (.onConnect false)) : False := by
    obtain ⟨n, hn, hstart⟩ := hstart
    rw [heq] at hn
    rw [List.eq_of_mem_replicate hn] at hstart
    exact hstart
  cases type with
  | WAKEUP => exact h.elim
  | LISTENER => exact .inl rfl
  | SESSION =>
    cases state with
    | CONNECTED => exact .inr rfl
    | DISCONNECTING =>
      obtain ⟨fromProtocol, rfl⟩ := h
      exact absurd trivial (hstop .onClose (by simp))
    | CONNECTING => exact h.elim
    | DISCONNECTED => exact h.elim
  | CONNECTOR =>
    cases state with
    | CONNECTED => exact .inr rfl
    | DISCONNECTING =>
      obtain ⟨failures, rfl⟩ := h
      exact absurd trivial (hstop .onDisConnect (by simp))
    | CONNECTING =>
      obtain ⟨failures, heq⟩ := h
      exact (hfailures heq).elim
    | DISCONNECTED =>
      obtain ⟨failures, heq⟩ := h
      exact (hfailures heq).elim

/-- What is listening or connected has started. -/
theorem Stage.started (h : Stage type state ns) (hlive : type = .LISTENER ∨ state = .CONNECTED) :
    ∃ n ∈ ns, n.Starts := by
  cases type with
  | WAKEUP => exact h.elim
  | LISTENER =>
    obtain rfl : ns = [.onListen true] := h
    exact ⟨.onListen true, by simp, trivial⟩
  | SESSION =>
    obtain rfl := hlive.resolve_left (by decide)
    obtain ⟨fromProtocol, rfl⟩ := h
    exact ⟨.onAccept fromProtocol, by simp, trivial⟩
  | CONNECTOR =>
    obtain rfl := hlive.resolve_left (by decide)
    obtain ⟨failures, rfl⟩ := h
    exact ⟨.onConnect true, by simp, trivial⟩

/-- What has stopped is disconnecting. -/
theorem Stage.stopped (h : Stage type state ns) (hstop : ∃ n ∈ ns, n.Stops) :
    type ≠ .LISTENER ∧ state = .DISCONNECTING := by
  obtain ⟨n, hn, hstop⟩ := hstop
  cases type with
  | WAKEUP => exact h.elim
  | LISTENER =>
    obtain rfl : ns = [.onListen true] := h
    rw [List.mem_singleton.mp hn] at hstop
    exact hstop.elim
  | SESSION =>
    cases state with
    | DISCONNECTING => exact ⟨by decide, rfl⟩
    | CONNECTED =>
      obtain ⟨fromProtocol, rfl⟩ := h
      rw [List.mem_singleton.mp hn] at hstop
      exact hstop.elim
    | CONNECTING => exact h.elim
    | DISCONNECTED => exact h.elim
  | CONNECTOR =>
    have hfailed {failures : Nat} (hn : n ∈ List.replicate failures (Notice.onConnect false)) :
        False := by
      rw [List.eq_of_mem_replicate hn] at hstop
      exact hstop
    cases state with
    | DISCONNECTING => exact ⟨by decide, rfl⟩
    | CONNECTED =>
      obtain ⟨failures, rfl⟩ := h
      rcases List.mem_append.mp hn with hn | hn
      · exact (hfailed hn).elim
      · rw [List.mem_singleton.mp hn] at hstop
        exact hstop.elim
    | CONNECTING =>
      obtain ⟨failures, rfl⟩ := h
      exact (hfailed hn).elim
    | DISCONNECTED =>
      obtain ⟨failures, rfl⟩ := h
      exact (hfailed hn).elim

/-- What is over has not started, or has stopped. -/
theorem Over.stopped (h : Over type ns) (hstart : ∃ n ∈ ns, n.Starts) : ∃ n ∈ ns, n.Stops := by
  obtain ⟨n, hn, hstart⟩ := hstart
  cases type with
  | WAKEUP =>
    obtain rfl : ns = [] := h
    cases hn
  | LISTENER =>
    rcases h with rfl | rfl | rfl
    · cases hn
    · rw [List.mem_singleton.mp hn] at hstart
      exact hstart.elim
    · exact ⟨.onUnlisten, by simp, trivial⟩
  | SESSION =>
    rcases h with rfl | ⟨fromProtocol, rfl⟩
    · cases hn
    · exact ⟨.onClose, by simp, trivial⟩
  | CONNECTOR =>
    obtain ⟨failures, rfl | rfl⟩ := h
    · rw [List.eq_of_mem_replicate hn] at hstart
      exact hstart.elim
    · exact ⟨.onDisConnect, by simp, trivial⟩

end

namespace CNetwork

variable [KeyPool] {σ τ : CNetwork} {key : UInt32} {heard : List (IOProtocol × Notice)}
  {id : ObjectId} {o : IOObject} {p : IOProtocol}

/-- All that is heard of a key is heard by one protocol. -/
theorem Phase.told (h : σ.Phase key heard) :
    ∃ p ns, heard = ns.map (p, ·) ∧ Pattern p.type ns := by
  cases h with
  | queued => exact ⟨⟨0, .TCP, .SESSION, key, 0⟩, [], rfl, (Network.over_nil _).pattern⟩
  | @present id o p ns hin hkey hp htype hstage => exact ⟨p, ns, rfl, htype ▸ hstage.pattern⟩
  | @ended p ns habsent hqueue hout hover => exact ⟨p, ns, rfl, hover.pattern⟩

/-- A start without a stop is of what is in the table. -/
theorem Phase.upheld (h : σ.Phase key heard) (hstart : ∃ call ∈ heard, call.2.Starts)
    (hstop : ∀ call ∈ heard, ¬call.2.Stops) :
    ∃ id o p, σ.InTable id o ∧ o.key = key ∧ o.protocol = some p ∧ (∀ call ∈ heard, call.1 = p) ∧
      (o.type = .LISTENER ∨ o.state = .CONNECTED) := by
  cases h with
  | queued =>
    obtain ⟨call, hcall, -⟩ := hstart
    cases hcall
  | @present id o p ns hin hkey hp htype hstage =>
    have hns : ∃ n ∈ ns, n.Starts := by
      obtain ⟨call, hcall, hstart⟩ := hstart
      obtain ⟨n, hn, rfl⟩ := List.mem_map.mp hcall
      exact ⟨n, hn, hstart⟩
    refine ⟨id, o, p, hin, hkey, hp, ?_, ?_⟩
    · intro call hcall
      obtain ⟨n, -, rfl⟩ := List.mem_map.mp hcall
      rfl
    · exact hstage.upheld hns fun n hn => hstop (p, n) (List.mem_map.mpr ⟨n, hn, rfl⟩)
  | @ended p ns habsent hqueue hout hover =>
    obtain ⟨call, hcall, hstart⟩ := hstart
    obtain ⟨n, hn, rfl⟩ := List.mem_map.mp hcall
    obtain ⟨m, hm, hstops⟩ := hover.stopped ⟨n, hn, hstart⟩
    exact absurd hstops (hstop (p, m) (List.mem_map.mpr ⟨m, hm, rfl⟩))

/-- The object of a key in the table is of the type of its protocol. -/
theorem Phase.type (h : σ.Phase o.key heard) (hinv : σ.Inv) (hin : σ.InTable id o)
    (hp : o.protocol = some p) : p.type = o.type := by
  generalize hkey : o.key = key at h
  cases h with
  | queued he hevent => exact absurd hkey ((hinv.queued _ he key hevent).2 id o hin.heap)
  | @present id' o' p' ns hin' hkey' hp' htype hstage =>
    obtain rfl := hinv.unique id id' o o' hin.heap hin'.heap (hkey.trans hkey'.symm)
    obtain rfl := Option.some.inj (hin.heap.symm.trans hin'.heap)
    obtain rfl := Option.some.inj (hp.symm.trans hp')
    exact htype
  | ended p' habsent => exact absurd hkey (habsent id o hin)

end CNetwork

end ZlNet.Network
