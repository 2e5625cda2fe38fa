import LiveFeed.Network
import LiveFeed.SocketError

/-!
# The update socket

How a socket is opened, and what is read from it.  Only text counts: other messages are passed over,
and a closing message or a fault of the transport is the end.

* `Message.reading`, `readings`: what the client reads;
* `Network.handshake`: an attempt to open a socket.
-/

namespace LiveFeed

/-- A message from the service. -/
inductive Message where
  | text (s : String)
  | binary (octets : List Nat)
  | ping (octets : List Nat)
  | pong (octets : List Nat)
  | close
  | fault (f : TransportFault)
  deriving DecidableEq, Repr

/-- What the client reads of a message, if anything. -/
def Message.reading : Message → Option (Except SocketError String)
  | text s => some (.ok s)
  | binary _ => none
  | ping _ => none
  | pong _ => none
  | close => some (.error .closed)
  | fault f => some (.error (.transport f))

/-- What the client reads of a sequence of messages. -/
def readings (messages : List Message) : List (Except SocketError String) :=
  messages.filterMap Message.reading

/-- The request that asks for a socket; it carries no cookie. -/
def socketRequest (u : Url) : Request := ⟨.get, u, none, none⟩

/-- Asks for a socket at an address. -/
def Network.handshake (n : Network) (u : Url) : Except SocketError Unit × Network :=
  match n with
  | .down => (.error (.transport .unreachable), .down)
  | .serving b =>
    let (reply, b) := b.answer (socketRequest u)
    let result : Except SocketError Unit :=
      if reply.dropped then .error (.transport .unfinishedHandshake)
      else if reply.status = 101 then .ok ()
      else .error (.rejected reply.status)
    (result, .serving b)

end LiveFeed
