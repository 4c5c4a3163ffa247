import LinuxAdvance.Chat.UdpServer
import LinuxAdvance.Command.CommandExecute
import LinuxAdvance.Udp.Dict

/-!
# The servers that answer a datagram: `UdpServer`

The echo server, the dictionary and the command server have the same loop in
`Start` around what they make of a message.  `recvfrom` may fill the buffer, and
the NUL then goes behind it.
-/

namespace LinuxAdvance.Udp

open LinuxAdvance.Cxx
open LinuxAdvance.Cxx.Vector
open LinuxAdvance.Chat
open LinuxAdvance.Command

/-- What a server answers to the text in `buff`; `ω` is what it looks at besides. -/
abbrev OnMessage (ω : Type) := ω → Bytes → Bytes

def EchoServer.onMessage : OnMessage Unit := fun _ buff => buff

structure DictLookup where
  file : Option Bytes
  order : ∀ dict : UnorderedMap Bytes Bytes, UnorderedMap.Order dict

def DictServer.onMessage : OnMessage DictLookup := fun lookup buff =>
  -- The file is read again for every message.
  let dict := Dict.construct lookup.file
  let (response, flag) := Dict.translate dict (lookup.order dict) buff
  if !flag then text "单词没找到" else response

def ExecuteServer.onMessage : OnMessage (Bytes → Option Bytes) := fun popen buff =>
  (onCommand popen buff).1

def maxPayload : Nat := 65507

/-- What `sendto` puts on its way; nobody looks at what it returns. -/
def sendto (peer : SockaddrIn) (payload : Bytes) : List Datagram :=
  if payload.length ≤ maxPayload then [⟨peer, payload⟩] else []

namespace UdpServer

variable {ω : Type} (onMessage : OnMessage ω)

def handle (outside : ω) (request : Datagram) : Except Misuse (List Datagram) :=
  let received := Chat.UdpServer.recvfrom request
  if received.length = 0 then .ok []
  else if received.length < buffSize then
    .ok (sendto request.peer (onMessage outside (ofCString received)))
  else .error .outOfBounds

theorem recvfrom_of_lt {request : Datagram} (h : request.payload.length < buffSize) :
    Chat.UdpServer.recvfrom request = request.payload :=
  List.take_of_length_le h.le

theorem handle_cases {outside : ω} {request : Datagram} {sent : List Datagram}
    (h : handle onMessage outside request = .ok sent) :
    (request.payload = [] ∧ sent = []) ∨
    (request.payload ≠ [] ∧ request.payload.length < buffSize ∧
      sent = sendto request.peer (onMessage outside (ofCString request.payload))) := by
  unfold handle at h
  simp only at h
  split at h
  · next hempty =>
      have hnil : request.payload = [] := by
        have htake := List.eq_nil_of_length_eq_zero hempty
        simpa [Chat.UdpServer.recvfrom, buffSize] using htake
      exact .inl ⟨hnil, (Except.ok.inj h).symm⟩
  · next hne =>
      split at h
      · next hlt =>
          have hlength : request.payload.length < buffSize := by
            rw [Chat.UdpServer.recvfrom, List.length_take] at hlt
            omega
          rw [recvfrom_of_lt hlength] at h hne
          exact .inr ⟨fun hnil => hne (by simp [hnil]), hlength, (Except.ok.inj h).symm⟩
      · cases h

end UdpServer

end LinuxAdvance.Udp
