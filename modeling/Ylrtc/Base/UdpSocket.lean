import Ylrtc.Ice.StunMessage
import Ylrtc.Lib.Run
import Ylrtc.Lib.WriteQueue

/-!
# The UDP socket

`UdpSocket` of `base/udp_socket.cpp` over any order of calls and of completions.
A completion of asio runs only while its operation is outstanding. The observer
may call the socket back from inside a callback.
-/
namespace Ylrtc.Udp
open CursorParser Run Stun WriteQueue

structure UdpMessage where
  buffer : List Byte
  endpoint : UdpEndpoint
  deriving DecidableEq, Repr

/-- The socket, with the operations of asio that are outstanding, the calls of its
observer and, in `accepted`, the messages that it took. -/
structure UdpSocket where
  closed : Bool := false
  sendQueue : Line UdpMessage := {}
  connecting : ℕ := 0
  receiving : ℕ := 0
  accepted : List UdpMessage := []
  received : List (List Byte × UdpEndpoint) := []
  errors : ℕ := 0
  /-- No `DCHECK` has failed. -/
  checked : Bool := true
  deriving DecidableEq, Repr

inductive Call where
  | sendData (buf : List Byte) (endpoint : UdpEndpoint)
  | sendMessage (message : UdpMessage)
  | close
  deriving DecidableEq, Repr

/-- What `observer_.lock()` returns, as the calls that the observer makes. -/
abbrev Observer := Option (List Call)

/-- `ec` of a receive operation. -/
inductive ReceiveError where
  | none
  | messageSize
  | other
  deriving DecidableEq, Repr

namespace UdpSocket

def doSend (s : UdpSocket) : UdpSocket :=
  if s.closed then s else { s with sendQueue := s.sendQueue.write }

/-- `SendData(const UdpMessage&)`. -/
def sendMessage (s : UdpSocket) (message : UdpMessage) : UdpSocket :=
  if s.closed then s
  else
    let s := { s with sendQueue := s.sendQueue.append message, accepted := s.accepted++[message] }
    if s.sendQueue.waiting.length = 1 then s.doSend else s

/-- `SendData` of bytes: they are copied. -/
def sendData (s : UdpSocket) (buf : List Byte) (endpoint : UdpEndpoint) : UdpSocket :=
  if s.closed then s
  else
    let data : UdpMessage := ⟨buf,endpoint⟩
    let s := { s with sendQueue := s.sendQueue.append data, accepted := s.accepted++[data] }
    if s.sendQueue.waiting.length = 1 then s.doSend else s

def close (s : UdpSocket) : UdpSocket := if s.closed then s else { s with closed := true }

def call (s : UdpSocket) : Call → UdpSocket
  | .sendData buf endpoint => s.sendData buf endpoint
  | .sendMessage message => s.sendMessage message
  | .close => s.close

def onUdpSocketError (s : UdpSocket) : Observer → UdpSocket
  | none => s
  | some calls => calls.foldl call { s with errors := s.errors+1 }

def onUdpSocketDataReceive (s : UdpSocket) (data : List Byte) (endpoint : UdpEndpoint) :
    Observer → UdpSocket
  | none => s
  | some calls => calls.foldl call { s with received := s.received++[(data,endpoint)] }

/-- The second half of `HandSend`. -/
def sendNext (s : UdpSocket) : UdpSocket :=
  let s := { s with
    checked := s.checked && decide (0 < s.sendQueue.waiting.length)
    sendQueue := s.sendQueue.drop }
  if 0 < s.sendQueue.waiting.length then s.doSend else s

def handSend (s : UdpSocket) (ec : Bool) (observer : Observer) : UdpSocket :=
  if s.closed then s
  else (if ec then s.onUdpSocketError observer else s).sendNext

def startReceive (s : UdpSocket) : UdpSocket :=
  if s.closed then s else { s with receiving := s.receiving+1 }

def handleReceive (s : UdpSocket) (ec : ReceiveError) (data : List Byte) (endpoint : UdpEndpoint)
    (observer : Observer) : UdpSocket :=
  if s.closed then s
  else
    match ec with
    | .none | .messageSize => (s.onUdpSocketDataReceive data endpoint observer).startReceive
    | .other => s.onUdpSocketError observer

/-- The one handler that does not look at `closed_`. -/
def handleConnected (s : UdpSocket) (error : Bool) (observer : Observer) : UdpSocket :=
  if error then s.onUdpSocketError observer else s.startReceive

/-- After a successful `Listen`. -/
def listen : UdpSocket := startReceive {}

/-- After a successful `ListenSpecificEndpoint`. -/
def listenSpecificEndpoint : UdpSocket := { connecting := 1 }

end UdpSocket

inductive Event where
  | call (c : Call)
  | handSend (ec : Bool) (observer : Observer)
  | handleReceive (ec : ReceiveError) (data : List Byte) (endpoint : UdpEndpoint)
      (observer : Observer)
  | handleConnected (error : Bool) (observer : Observer)
  deriving DecidableEq, Repr

def step (s : UdpSocket) : Event → UdpSocket
  | .call c => s.call c
  | .handSend ec observer =>
      if s.sendQueue.outstanding = [] then s
      else { s with sendQueue := s.sendQueue.ended }.handSend ec observer
  | .handleReceive ec data endpoint observer =>
      if s.receiving = 0 then s
      else { s with receiving := s.receiving-1 }.handleReceive ec data endpoint observer
  | .handleConnected error observer =>
      if s.connecting = 0 then s
      else { s with connecting := s.connecting-1 }.handleConnected error observer

/-- An open socket keeps `P` of its queue; a closed one has begun its writes in order. At most
`n` operations are outstanding that lead to a datagram. -/
structure Keeps (P : List UdpMessage → Line UdpMessage → Prop) (n : ℕ) (s : UdpSocket) :
    Prop where
  opened : s.closed = false → P s.accepted s.sendQueue
  begun : s.sendQueue.started <+: s.accepted
  alone : s.sendQueue.outstanding.length ≤ 1
  reading : s.connecting+s.receiving ≤ n
  checked : s.checked = true

variable {P : List UdpMessage → Line UdpMessage → Prop} {n : ℕ}

theorem keeps_of_opened (hP : Admits P) {s : UdpSocket} (h : P s.accepted s.sendQueue)
    (hreading : s.connecting+s.receiving ≤ n) (hchecked : s.checked = true) : Keeps P n s :=
  ⟨fun _ => h,(hP.ordered h).begins,hP.length_le h,hreading,hchecked⟩

/-- Both overloads of `SendData` push a message. -/
theorem sendMessage_eq (s : UdpSocket) (message : UdpMessage) : s.sendMessage message =
    if s.closed then s
    else { s with sendQueue := s.sendQueue.push message, accepted := s.accepted++[message] } := by
  unfold UdpSocket.sendMessage UdpSocket.doSend Line.push
  cases hclosed : s.closed with
  | true => rfl
  | false =>
      simp only [Bool.false_eq_true,if_false]
      split <;> rfl

theorem keeps_sendMessage (hP : Admits P) {s : UdpSocket} (h : Keeps P n s) (message : UdpMessage) :
    Keeps P n (s.sendMessage message) := by
  rw [sendMessage_eq]
  cases hclosed : s.closed with
  | true => exact h
  | false => exact keeps_of_opened hP (hP.push message (h.opened hclosed)) h.reading h.checked

theorem keeps_close {s : UdpSocket} (h : Keeps P n s) : Keeps P n s.close := by
  unfold UdpSocket.close
  split
  · exact h
  · exact ⟨fun hclosed => Bool.noConfusion hclosed,h.begun,h.alone,h.reading,h.checked⟩

theorem keeps_call (hP : Admits P) {s : UdpSocket} (h : Keeps P n s) (c : Call) :
    Keeps P n (s.call c) := by
  cases c with
  | sendData buf endpoint => exact keeps_sendMessage hP h ⟨buf,endpoint⟩
  | sendMessage message => exact keeps_sendMessage hP h message
  | close => exact keeps_close h

/-- Whatever the observer does from inside a callback. -/
theorem keeps_calls (hP : Admits P) (calls : List Call) {s : UdpSocket} (h : Keeps P n s) :
    Keeps P n (calls.foldl UdpSocket.call s) := by
  induction calls generalizing s with
  | nil => exact h
  | cons c calls ih => exact ih (keeps_call hP h c)

theorem keeps_onUdpSocketError (hP : Admits P) {s : UdpSocket} (h : Keeps P n s)
    (observer : Observer) : Keeps P n (s.onUdpSocketError observer) := by
  cases observer with
  | none => exact h
  | some calls =>
      exact keeps_calls hP calls ⟨h.opened,h.begun,h.alone,h.reading,h.checked⟩

theorem keeps_onUdpSocketDataReceive (hP : Admits P) {s : UdpSocket} (h : Keeps P n s)
    (data : List Byte) (endpoint : UdpEndpoint) (observer : Observer) :
    Keeps P n (s.onUdpSocketDataReceive data endpoint observer) := by
  cases observer with
  | none => exact h
  | some calls =>
      exact keeps_calls hP calls ⟨h.opened,h.begun,h.alone,h.reading,h.checked⟩

/-- No call takes a message out of the queue. -/
theorem waiting_call (s : UdpSocket) (c : Call) :
    s.sendQueue.waiting <+: (s.call c).sendQueue.waiting := by
  have hsend (message : UdpMessage) :
      s.sendQueue.waiting <+: (s.sendMessage message).sendQueue.waiting := by
    rw [sendMessage_eq]
    split
    · exact List.prefix_rfl
    · rw [waiting_push]
      exact List.prefix_append _ _
  cases c with
  | sendData buf endpoint => exact hsend ⟨buf,endpoint⟩
  | sendMessage message => exact hsend message
  | close =>
      simp only [UdpSocket.call,UdpSocket.close]
      split <;> exact List.prefix_rfl

theorem waiting_onUdpSocketError (s : UdpSocket) (observer : Observer) :
    s.sendQueue.waiting <+: (s.onUdpSocketError observer).sendQueue.waiting := by
  have hcalls (calls : List Call) (t : UdpSocket) :
      t.sendQueue.waiting <+: (calls.foldl UdpSocket.call t).sendQueue.waiting := by
    induction calls generalizing t with
    | nil => exact List.prefix_rfl
    | cons c calls ih => exact (waiting_call t c).trans (ih (t.call c))
  cases observer with
  | none => exact List.prefix_rfl
  | some calls => exact hcalls calls { s with errors := s.errors+1 }

/-- What every operation keeps. -/
abbrev Inv : UdpSocket → Prop := Keeps (fun accepted queue => queue.Writing accepted) 1

/-- The end of a write, up to the test of `closed_` or the call of the observer. -/
theorem keeps_ended {s : UdpSocket} (h : Inv s) (hbusy : s.sendQueue.outstanding ≠ []) :
    Keeps (fun accepted queue => queue.Stalled accepted) 1
      { s with sendQueue := s.sendQueue.ended } := by
  constructor
  case opened => exact fun hclosed => (h.opened hclosed).ended hbusy
  case begun => exact h.begun
  case alone =>
    have halone := h.alone
    simp only [Line.ended,List.length_tail]
    omega
  case reading => exact h.reading
  case checked => exact h.checked

theorem sendNext_eq (s : UdpSocket) : s.sendNext = { s with
    checked := s.checked && decide (0 < s.sendQueue.waiting.length)
    sendQueue := if s.closed then s.sendQueue.drop else s.sendQueue.pop } := by
  unfold UdpSocket.sendNext UdpSocket.doSend Line.pop
  cases hclosed : s.closed with
  | true => simp only [if_true,ite_self]
  | false =>
      simp only [Bool.false_eq_true,if_false,List.length_pos_iff,ne_eq,ite_not]
      split <;> rfl

theorem inv_sendNext {s : UdpSocket}
    (h : Keeps (fun accepted queue => queue.Stalled accepted) 1 s)
    (hwaiting : s.sendQueue.waiting ≠ []) : Inv s.sendNext := by
  have hchecked : (s.checked && decide (0 < s.sendQueue.waiting.length)) = true := by
    rw [h.checked,Bool.true_and,decide_eq_true_iff]
    exact List.length_pos_iff.mpr hwaiting
  rw [sendNext_eq,hchecked]
  cases hclosed : s.closed with
  | true => exact ⟨fun hopened => Bool.noConfusion hopened,h.begun,h.alone,h.reading,rfl⟩
  | false => exact keeps_of_opened admits_writing (h.opened hclosed).pop h.reading rfl

theorem inv_handSend {s : UdpSocket} (h : Inv s) (hbusy : s.sendQueue.outstanding ≠ [])
    (ec : Bool) (observer : Observer) :
    Inv ({ s with sendQueue := s.sendQueue.ended }.handSend ec observer) := by
  have hended := keeps_ended h hbusy
  generalize { s with sendQueue := s.sendQueue.ended } = s at hended
  unfold UdpSocket.handSend
  cases hclosed : s.closed with
  | true =>
      rw [if_pos rfl]
      exact ⟨fun hopened => Bool.noConfusion (hclosed.symm.trans hopened),hended.begun,
        hended.alone,hended.reading,hended.checked⟩
  | false =>
      rw [if_neg Bool.false_ne_true]
      have hwaiting := (hended.opened hclosed).waiting
      cases ec with
      | false => exact inv_sendNext hended hwaiting
      | true =>
          rw [if_pos rfl]
          apply inv_sendNext (keeps_onUdpSocketError admits_stalled hended observer)
          intro hnil
          have hbegins := waiting_onUdpSocketError s observer
          rw [hnil,List.prefix_nil] at hbegins
          exact hwaiting hbegins

/-- Writing, with no operation outstanding that leads to a datagram. -/
abbrev Unread : UdpSocket → Prop := Keeps (fun accepted queue => queue.Writing accepted) 0

theorem inv_of_unread {s : UdpSocket} (h : Unread s) : Inv s :=
  ⟨h.opened,h.begun,h.alone,h.reading.trans (Nat.zero_le 1),h.checked⟩

theorem inv_startReceive {s : UdpSocket} (h : Unread s) : Inv s.startReceive := by
  unfold UdpSocket.startReceive
  split
  · exact inv_of_unread h
  · refine ⟨h.opened,h.begun,h.alone,?_,h.checked⟩
    have hreading := h.reading
    show s.connecting+(s.receiving+1) ≤ 1
    omega

theorem inv_handleReceive {s : UdpSocket} (h : Unread s) (ec : ReceiveError) (data : List Byte)
    (endpoint : UdpEndpoint) (observer : Observer) :
    Inv (s.handleReceive ec data endpoint observer) := by
  have hdata := keeps_onUdpSocketDataReceive admits_writing h data endpoint observer
  unfold UdpSocket.handleReceive
  split
  · exact inv_of_unread h
  · cases ec with
    | none => exact inv_startReceive hdata
    | messageSize => exact inv_startReceive hdata
    | other => exact inv_of_unread (keeps_onUdpSocketError admits_writing h observer)

theorem inv_handleConnected {s : UdpSocket} (h : Unread s) (error : Bool) (observer : Observer) :
    Inv (s.handleConnected error observer) := by
  cases error with
  | false => exact inv_startReceive h
  | true => exact inv_of_unread (keeps_onUdpSocketError admits_writing h observer)

theorem inv_step {s : UdpSocket} (h : Inv s) (e : Event) : Inv (step s e) := by
  have hreading := h.reading
  cases e with
  | call c => exact keeps_call admits_writing h c
  | handSend ec observer =>
      simp only [step]
      split
      · exact h
      · rename_i hbusy
        exact inv_handSend h hbusy ec observer
  | handleReceive ec data endpoint observer =>
      simp only [step]
      split
      · exact h
      · have hnone : s.connecting+(s.receiving-1) ≤ 0 := by omega
        have ht : Unread { s with receiving := s.receiving-1 } :=
          ⟨h.opened,h.begun,h.alone,hnone,h.checked⟩
        exact inv_handleReceive ht ec data endpoint observer
  | handleConnected error observer =>
      simp only [step]
      split
      · exact h
      · have hnone : s.connecting-1+s.receiving ≤ 0 := by omega
        have ht : Unread { s with connecting := s.connecting-1 } :=
          ⟨h.opened,h.begun,h.alone,hnone,h.checked⟩
        exact inv_handleConnected ht error observer

/-- The socket once it is opened, connected to one endpoint or not. -/
def opened (specific : Bool) : UdpSocket :=
  if specific then .listenSpecificEndpoint else .listen

theorem inv_opened (specific : Bool) : Inv (opened specific) := by
  cases specific <;>
    exact ⟨fun _ => writing_empty,List.prefix_rfl,Nat.zero_le 1,Nat.le_refl 1,rfl⟩

theorem inv_run (specific : Bool) (es : List Event) : Inv (run step (opened specific) es) :=
  run_invariant (inv_opened specific) (fun _ e h => inv_step h e) es

/-- What a closed socket `t` has done since it was `s`. -/
structure Silent (s t : UdpSocket) : Prop where
  closed : t.closed = true
  started : t.sendQueue.started = s.sendQueue.started
  received : t.received = s.received
  errors : t.errors+t.connecting ≤ s.errors+s.connecting

theorem call_of_closed {s : UdpSocket} (h : s.closed = true) (c : Call) : s.call c = s := by
  cases c with
  | sendData buf endpoint => exact if_pos h
  | sendMessage message => exact if_pos h
  | close => exact if_pos h

theorem calls_of_closed {s : UdpSocket} (h : s.closed = true) (calls : List Call) :
    calls.foldl UdpSocket.call s = s := by
  induction calls with
  | nil => rfl
  | cons c calls ih => rw [List.foldl_cons,call_of_closed h,ih]

theorem silent_step {s t : UdpSocket} (h : Silent s t) (e : Event) : Silent s (step t e) := by
  have herrors := h.errors
  cases e with
  | call c => rwa [step,call_of_closed h.closed]
  | handSend ec observer =>
      simp only [step,UdpSocket.handSend,if_pos h.closed]
      split
      · exact h
      · exact ⟨h.closed,h.started,h.received,herrors⟩
  | handleReceive ec data endpoint observer =>
      simp only [step,UdpSocket.handleReceive,if_pos h.closed]
      split
      · exact h
      · exact ⟨h.closed,h.started,h.received,herrors⟩
  | handleConnected error observer =>
      simp only [step]
      split
      · exact h
      · have hless : Silent s { t with connecting := t.connecting-1 } :=
          ⟨h.closed,h.started,h.received,by show t.errors+(t.connecting-1) ≤ _; omega⟩
        cases error with
        | false => rwa [UdpSocket.handleConnected,if_neg Bool.false_ne_true,
            UdpSocket.startReceive,if_pos hless.closed]
        | true =>
            cases observer with
            | none => exact hless
            | some calls =>
                rw [UdpSocket.handleConnected,if_pos rfl,UdpSocket.onUdpSocketError,
                  calls_of_closed (by exact h.closed)]
                refine ⟨h.closed,h.started,h.received,?_⟩
                show t.errors+1+(t.connecting-1) ≤ s.errors+s.connecting
                omega

/-- The socket over any run: no two writes and no two reads are outstanding, the datagrams are
begun in the order in which they were taken and all of them while it is open, and after
`Close` only the connection can still report an error. -/
theorem datagrams_in_order (specific : Bool) (es after : List Event) :
    let s := run step (opened specific) es
    let t := run step s after
    s.sendQueue.outstanding.length ≤ 1 ∧ s.connecting+s.receiving ≤ 1 ∧ s.checked = true ∧
      s.sendQueue.started <+: s.accepted ∧
      (s.closed = false → s.sendQueue.outstanding = [] → s.sendQueue.started = s.accepted) ∧
      (s.closed = true → t.sendQueue.started = s.sendQueue.started ∧ t.received = s.received ∧
        t.errors ≤ s.errors+s.connecting) := by
  have h := inv_run specific es
  refine ⟨h.alone,h.reading,h.checked,h.begun,?_,?_⟩
  · intro hclosed hidle
    exact (h.opened hclosed).started_of_idle hidle
  · intro hclosed
    have hsilent := run_invariant (I := Silent (run step (opened specific) es))
      ⟨hclosed,rfl,rfl,Nat.le_refl _⟩ (fun _ e ht => silent_step ht e) after
    refine ⟨hsilent.started,hsilent.received,?_⟩
    have herrors := hsilent.errors
    omega

end Ylrtc.Udp
