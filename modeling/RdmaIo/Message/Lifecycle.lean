/-
What no call of the message transport can undo.

A transport that is closing stays so, takes no further message and admits no
further command; it closes admission in the step in which it starts to close.
-/
import RdmaIo.Message.Disconnect
import RdmaIo.Message.Receipts

namespace RdmaIo.Message

namespace EngineMessageState

/-- `s'` comes after `s`, with no message taken from it by the application. -/
structure Later (s s' : EngineMessageState) : Prop where
  closing : s.state.isClosing = true → s'.state.isClosing = true
  received : s.state.isClosing = true → s'.received = s.received
  admission : s.admissionOpen = false → s'.admissionOpen = false
  /-- A transport starts to close with its admission. -/
  shut : s'.state.isClosing = true → s.state.isClosing = true ∨ s'.admissionOpen = false
  created : s'.state = .created → s.state = .created

end EngineMessageState

namespace MessageNode

open EngineMessageState

variable {n n' : MessageNode}

/-- A step of the endpoint, apart from `recv`, does what a call can do. -/
theorem later_step {l : NodeLabel} (hrecv : l ≠ .recv)
    (hstep : n.step l = some n') : Later n.msg n'.msg := by
  have hlife := life_step hrecv hstep
  exact ⟨hlife.closing, hlife.received, hlife.admission, hlife.shut, hlife.created⟩

theorem recv_frame (hstep : n.step .recv = some n') :
    n'.msg.state = n.msg.state ∧ n'.msg.admissionOpen = n.msg.admissionOpen := by
  simp only [MessageNode.step, recv] at hstep
  split at hstep
  · cases hstep
  · exact Option.some.inj hstep ▸ ⟨rfl, rfl⟩

theorem closing_step {l : NodeLabel} (hstep : n.step l = some n')
    (hclosing : n.msg.state.isClosing = true) : n'.msg.state.isClosing = true := by
  by_cases hrecv : l = .recv
  · subst hrecv
    rw [(recv_frame hstep).1]
    exact hclosing
  · exact (later_step hrecv hstep).closing hclosing

end MessageNode

end RdmaIo.Message
