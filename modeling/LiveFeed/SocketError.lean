import LiveFeed.Frame

/-!
# Errors of the update socket

What can go wrong between the client and the update socket, and which of it makes another attempt
pointless.

* `SocketError.isPermanent_iff`: a refusal of the credentials or a scheme that no socket speaks.
-/

namespace LiveFeed

/-- Trouble of the socket's transport. -/
inductive TransportFault where
  | closedNormally
  | alreadyClosed
  | attack
  /-- The connection broke off without a closing frame. -/
  | reset
  /-- The connection broke off during the handshake. -/
  | unfinishedHandshake
  /-- There is no route to the service. -/
  | unreachable
  deriving DecidableEq, Repr

/-- The wording of a transport fault. -/
def TransportFault.message : TransportFault → String
  | .closedNormally => "Connection closed normally"
  | .alreadyClosed => "Trying to work with closed connection"
  | .attack => "Attack attempt detected"
  | .reset => "WebSocket protocol error: Connection reset without closing handshake"
  | .unfinishedHandshake => "WebSocket protocol error: Handshake not finished"
  | .unreachable => "IO error: Network is unreachable (os error 101)"

/-- An error of the update socket. -/
inductive SocketError where
  | transport (fault : TransportFault)
  | malformed (report : FrameError)
  | closed
  /-- The service answered the handshake with another status. -/
  | rejected (status : Nat)
  | unsupportedScheme (scheme : String)

namespace SocketError

/-- The wording of an error. -/
def message : SocketError → String
  | transport fault => "WebSocket error: " ++ fault.message
  | malformed report => "Malformed frame: " ++ report.message
  | closed => "Connection closed"
  | rejected status => "Handshake rejected with HTTP " ++ toString status
  | unsupportedScheme scheme => "Unsupported URL scheme: " ++ scheme

/-- Whether another attempt can never succeed. -/
def isPermanent : SocketError → Bool
  | rejected status => status == 401 || status == 403
  | unsupportedScheme _ => true
  | _ => false

theorem isPermanent_iff (e : SocketError) :
    e.isPermanent = true ↔
      e = rejected 401 ∨ e = rejected 403 ∨ ∃ scheme, e = unsupportedScheme scheme := by
  cases e <;> simp [isPermanent]

end SocketError

end LiveFeed
