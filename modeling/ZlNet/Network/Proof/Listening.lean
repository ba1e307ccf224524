import ZlNet.Network.Proof.Loop

/-! What a protocol is told about listening.  `bind` and `listen` of an end point return a positive
`errno` where they fail, and `tcpListen` looks for a negative one. -/

namespace ZlNet.Network

open Lib IOObject

/-- The socket was created, bound and set to listen. -/
def Answers.Listens (ans : Answers) : Prop :=
  ans.socket ≠ -1 ∧ ans.bindErrno = 0 ∧ ans.listenErrno = 0

namespace CNetwork

section

variable [KeyPool] {σ τ υ : CNetwork} {id : ObjectId} {o o' : IOObject} {p : IOProtocol}
  {ans : Answers}

/-- The protocol has an object of the table that is registered for reading. -/
def Listed (σ : CNetwork) (p : IOProtocol) : Prop :=
  ∃ id o, σ.InTable id o ∧ o.protocol = some p ∧ o.hasReading = true

/-- The protocol has been told once, and rightly, whether it listens, and its listener is listed if
it was told so. -/
def Truthful (σ τ : CNetwork) (p : IOProtocol) (ans : Answers) : Prop :=
  ∃ success, τ.notices = σ.notices ++ [(p, .onListen success)] ∧
    (success = true ↔ ans.Listens) ∧ (τ.Listed p ↔ success = true)

theorem listed_notify {q : IOProtocol} {notice : Notice} :
    (σ.notify q notice).Listed p ↔ σ.Listed p :=
  ⟨fun ⟨id, o, hin, hp⟩ => ⟨id, o, ⟨hin.heap, hin.slot⟩, hp⟩,
    fun ⟨id, o, hin, hp⟩ => ⟨id, o, hin.notify q notice, hp⟩⟩

/-- A protocol with a fresh key has no object. -/
theorem Inv.not_listed_of_fresh (h : σ.Inv) (hfresh : σ.Fresh p.key) : ¬σ.Listed p := by
  rintro ⟨id, o, hin, hp, -⟩
  obtain ⟨p', hp', hkey, -⟩ := h.held_protocol hin.heap
  obtain rfl := Option.some.inj (hp.symm.trans hp')
  exact hfresh.heap id o hin.heap hkey.symm

/-- The event of a protocol that is to listen is handled without a fault, and the protocol is told
that it listens as soon as there is a socket. -/
theorem listen_dispatch (h : σ.Inv) {port : UInt16} {rest : List IOEvent}
    (hqueue : σ.eventQueue = .listen port p :: rest) (htcp : p.protocolType = .TCP)
    (ans : Answers) :
    ∃ τ, σ.dispatch ans = .ok τ ∧
      τ.notices = σ.notices ++ [(p, .onListen (decide (ans.socket ≠ -1)))] ∧
      (τ.Listed p ↔ ans.socket ≠ -1) := by
  obtain ⟨hleads, hfresh⟩ := h.popEvent hqueue
  have hfresh : Fresh { σ with eventQueue := rest } p.key := hfresh p.key rfl
  have hdispatch : σ.dispatch ans = { σ with eventQueue := rest }.tcpListen port p ans := by
    simp only [dispatch, hqueue, dispatchProcess, processListen, htcp]
  rw [hdispatch]
  by_cases hsocket : ans.socket = -1
  · refine ⟨_, by rw [tcpListen, if_pos hsocket]; rfl, by simp [hsocket, notify], ?_⟩
    rw [listed_notify]
    exact iff_of_false (hleads.inv.not_listed_of_fresh hfresh) (not_not.mpr hsocket)
  · obtain ⟨o, pool, htcpListen, ho, -, -⟩ := tcpListen_eq hleads.inv hfresh hsocket port
    refine ⟨_, htcpListen, by simp [hsocket, notify, added, CNetwork.put], ?_⟩
    rw [listed_notify]
    refine iff_of_true ⟨σ.created, _, ⟨heap_added, ?_⟩, ho.protocol, ?_⟩ hsocket
    · simp [added]
    · simp [hasReading, READ_EVENT]

/-- In every run from an empty table, a protocol whose event to listen is next is told the truth
exactly where no socket is created or `bind` and `listen` succeed. -/
theorem listening_truthful_iff {as : List Action} (run : Run Step empty as σ) {port : UInt16}
    {rest : List IOEvent} (hqueue : σ.eventQueue = .listen port p :: rest)
    (htcp : p.protocolType = .TCP) (ans : Answers) :
    ∃ τ, σ.dispatch ans = .ok τ ∧
      (Truthful σ τ p ans ↔
        (ans.socket ≠ -1 → ans.bindErrno = 0 ∧ ans.listenErrno = 0)) := by
  obtain ⟨τ, hdispatch, hnotices, hlisted⟩ :=
    listen_dispatch (inv_run run) hqueue htcp ans
  refine ⟨τ, hdispatch, ?_⟩
  constructor
  · rintro ⟨success, hnotices', hsuccess, -⟩ hsocket
    have htold := List.append_cancel_left (hnotices.symm.trans hnotices')
    have hdecide : decide (ans.socket ≠ -1) = success := by simpa using htold
    exact (hsuccess.mp (by rw [← hdecide]; exact decide_eq_true hsocket)).2
  · intro hlistens
    refine ⟨_, hnotices, ?_, ?_⟩
    · rw [decide_eq_true_iff]
      exact ⟨fun hsocket => ⟨hsocket, hlistens hsocket⟩, And.left⟩
    · rw [hlisted, decide_eq_true_iff]

end

/-- The network thread after another thread has asked it to listen. -/
def asked : CNetwork :=
  let _ := KeyPool.lowBits
  empty.next (.listen 80 0 .TCP 0 5)

theorem asked_run :
    Run (@Step .lowBits) empty [.listen 80 0 .TCP 0 5] asked ∧
      asked.eventQueue = [.listen 80 ⟨0, .TCP, .LISTENER, 5, 0⟩] := by
  let _ := KeyPool.lowBits
  exact ⟨Run.nil.snoc (step_next empty (a := .listen 80 0 .TCP 0 5) (.inr (by rintro _ ⟨⟩)) rfl), rfl⟩

/-- Where all three calls succeed the protocol is told the truth. -/
theorem listening_truthful_iff_listens :
    ∃ τ, @dispatch .lowBits asked { socket := 3 } = .ok τ ∧
      @Truthful .lowBits asked τ ⟨0, .TCP, .LISTENER, 5, 0⟩ { socket := 3 } := by
  let _ := KeyPool.lowBits
  obtain ⟨run, hqueue⟩ := asked_run
  obtain ⟨τ, hdispatch, htruthful⟩ := listening_truthful_iff run hqueue rfl { socket := 3 }
  exact ⟨τ, hdispatch, htruthful.mpr fun _ => ⟨rfl, rfl⟩⟩

/-- The port is in use, which is error 98, and the protocol is told that it listens; its object is
in the table and registered for reading. -/
theorem listening_untruthful_bind :
    ∃ τ, Run (@Step .lowBits) empty [.listen 80 0 .TCP 0 5] asked ∧
      @dispatch .lowBits asked { socket := 3, bindErrno := 98 } = .ok τ ∧
      τ.notices = [(⟨0, .TCP, .LISTENER, 5, 0⟩, .onListen true)] ∧
      @Listed .lowBits τ ⟨0, .TCP, .LISTENER, 5, 0⟩ ∧
      ¬@Truthful .lowBits asked τ ⟨0, .TCP, .LISTENER, 5, 0⟩ { socket := 3, bindErrno := 98 } := by
  let _ := KeyPool.lowBits
  obtain ⟨run, hqueue⟩ := asked_run
  obtain ⟨τ, hdispatch, hnotices, hlisted⟩ :=
    listen_dispatch (inv_run run) hqueue rfl { socket := 3, bindErrno := 98 }
  refine ⟨τ, run, hdispatch, hnotices, hlisted.mpr (by decide), ?_⟩
  rintro ⟨success, hnotices', hsuccess, -⟩
  have hcall := hnotices.symm.trans hnotices'
  obtain rfl : true = success := by simpa using hcall
  exact absurd (hsuccess.mp rfl).2.1 (by decide)

end CNetwork

end ZlNet.Network
